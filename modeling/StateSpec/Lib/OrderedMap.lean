/-
  ORDERED MAPS, nested maps and multimaps — the containers of the program, once and for all.

  `std::map`, `BTreeMap` and `TreeMap` are Lean core's `Std.ExtTreeMap`: iterated in key order, and
  EXTENSIONAL (two maps with the same lookups are equal), which is what lets the developments above
  compare whole states by `=`.  This file adds what the program builds from them:

  * `find₂` / `store₂` / `erase₂` — a map of maps (`m[a][b]`), where `store₂` creates the inner map
    on demand and `erase₂` never creates one;
  * `mapM` — a loop over a map that may throw, replacing each value;
  * `foldlM_invariant`, `foldl_invariant` — what a loop has established about the items it is done
    with, at the end of the loop holds of all of them;
  * `visit` — a loop over a map of a language whose maps have no order: the items come in an order
    somebody else chose, and every order can be chosen (`visit_perm`, `exists_visit`);
  * `Multimap` — a map from keys to SETS, where `add` creates a set on demand and `remove` drops a
    set that became empty.  `Holds m key a` is membership, and `holds_add` / `holds_remove` say
    exactly what the two operations do to it; `Tidy` (no empty set is stored) is kept by both.
-/
import Mathlib.Data.List.Basic
import Mathlib.Data.List.Perm.Basic
import Mathlib.Data.Option.Defs
import Std.Data.ExtTreeMap
import Std.Data.ExtTreeSet

set_option linter.unusedSectionVars false

namespace StateSpec

/-- `std::map<κ, ν>`. -/
abbrev OrderedMap (κ ν : Type) [Ord κ] := Std.ExtTreeMap κ ν compare

/-- `std::set<κ>`. -/
abbrev OrderedSet (κ : Type) [Ord κ] := Std.ExtTreeSet κ compare

section

variable {α β ε : Type}

/-! ## Loops that accumulate -/

/-- A loop that may throw: an invariant about the items done so far, kept by each item in its
    place, holds of the whole list if no item threw. -/
theorem foldlM_invariant {f : β → α → Except ε β} (I : List α → β → Prop)
    {l : List α} {b r : β} (hstart : I [] b)
    (hstep : ∀ done a rest b b', l = done ++ a :: rest → I done b → f b a = .ok b' →
      I (done ++ [a]) b')
    (h : l.foldlM f b = .ok r) : I l r := by
  have aux : ∀ rest done b, l = done ++ rest → I done b → rest.foldlM f b = .ok r → I l r := by
    intro rest
    induction rest with
    | nil =>
      intro done b hl hdone h
      rw [List.append_nil] at hl
      obtain rfl : b = r := by simpa [pure, Except.pure] using h
      exact hl ▸ hdone
    | cons a rest ih =>
      intro done b hl hdone h
      rw [List.foldlM_cons] at h
      cases hf : f b a with
      | error e =>
        rw [hf] at h
        cases h
      | ok b' =>
        rw [hf] at h
        exact ih (done ++ [a]) b' (by rw [hl]; simp) (hstep done a rest b b' hl hdone hf) h
  exact aux l [] b rfl hstart h

/-- A loop that threw got its error from one of the items. -/
theorem foldlM_error {f : β → α → Except ε β} {l : List α} {b : β} {e : ε}
    (h : l.foldlM f b = .error e) : ∃ b' a, a ∈ l ∧ f b' a = .error e := by
  induction l generalizing b with
  | nil => cases h
  | cons a l ih =>
    rw [List.foldlM_cons] at h
    cases hf : f b a with
    | error e' =>
      rw [hf] at h
      obtain rfl : e' = e := by simpa [bind, Except.bind] using h
      exact ⟨b, a, List.mem_cons_self, hf⟩
    | ok b' =>
      rw [hf] at h
      obtain ⟨b'', a', ha', he⟩ := ih h
      exact ⟨b'', a', List.mem_cons_of_mem _ ha', he⟩

/-- Where a loop threw: the items before came through, and the next one threw. -/
theorem foldlM_error_split {f : β → α → Except ε β} {l : List α} {b : β} {e : ε}
    (h : l.foldlM f b = .error e) :
    ∃ done a rest b', l = done ++ a :: rest ∧ done.foldlM f b = .ok b' ∧ f b' a = .error e := by
  induction l generalizing b with
  | nil => cases h
  | cons a l ih =>
    rw [List.foldlM_cons] at h
    cases hf : f b a with
    | error e' =>
      rw [hf] at h
      obtain rfl : e' = e := by simpa [bind, Except.bind] using h
      exact ⟨[], a, l, b, rfl, rfl, hf⟩
    | ok b' =>
      rw [hf] at h
      obtain ⟨done, a', rest, b'', hl, hdone, he⟩ := ih h
      refine ⟨a :: done, a', rest, b'', by rw [hl]; rfl, ?_, he⟩
      rw [List.foldlM_cons, hf]
      exact hdone

/-- A loop that came through has come through at every item. -/
theorem foldlM_ok_split {f : β → α → Except ε β} {done rest : List α} {a : α} {b r : β}
    (h : (done ++ a :: rest).foldlM f b = .ok r) :
    ∃ b' b'', done.foldlM f b = .ok b' ∧ f b' a = .ok b'' := by
  rw [List.foldlM_append] at h
  cases hdone : done.foldlM f b with
  | error e =>
    rw [hdone] at h
    cases h
  | ok b' =>
    rw [hdone] at h
    cases hf : f b' a with
    | error e =>
      simp only [bind, Except.bind, List.foldlM_cons, hf] at h
      cases h
    | ok b'' => exact ⟨b', b'', rfl, hf⟩

/-- A loop throws at the first item that throws. -/
theorem foldlM_error_of_split {f : β → α → Except ε β} {done rest : List α} {a : α} {b b' : β}
    {e : ε} (hdone : done.foldlM f b = .ok b') (he : f b' a = .error e) :
    (done ++ a :: rest).foldlM f b = .error e := by
  rw [List.foldlM_append, hdone]
  simp only [bind, Except.bind, List.foldlM_cons, he]

/-- Two loops whose steps come through alike come through alike. -/
theorem foldlM_ok_congr {f g : β → α → Except ε β} (h : ∀ b a b', f b a = .ok b' ↔ g b a = .ok b')
    {l : List α} {b r : β} : l.foldlM f b = .ok r ↔ l.foldlM g b = .ok r := by
  have hrun : ∀ {f g : β → α → Except ε β}, (∀ b a b', f b a = .ok b' → g b a = .ok b') →
      ∀ {l : List α} {b}, l.foldlM f b = .ok r → l.foldlM g b = .ok r := by
    intro f g hfg l
    induction l with
    | nil => exact id
    | cons a l ih =>
      intro b hrun
      rw [List.foldlM_cons] at hrun ⊢
      cases hstep : f b a with
      | error e =>
        rw [hstep] at hrun
        cases hrun
      | ok b' =>
        rw [hstep] at hrun
        rw [hfg b a b' hstep]
        exact ih hrun
  exact ⟨hrun fun b a b' => (h b a b').mp, hrun fun b a b' => (h b a b').mpr⟩

/-- A loop none of whose steps throws, as long as an invariant holds that they keep. -/
theorem foldlM_total {f : β → α → Except ε β} (I : β → Prop) {l : List α} {b : β} (hstart : I b)
    (hstep : ∀ b, ∀ a ∈ l, I b → ∃ b', f b a = .ok b' ∧ I b') :
    ∃ r, l.foldlM f b = .ok r ∧ I r := by
  induction l generalizing b with
  | nil => exact ⟨b, rfl, hstart⟩
  | cons a l ih =>
    obtain ⟨b', hf, hb'⟩ := hstep b a List.mem_cons_self hstart
    obtain ⟨r, hr, hI⟩ := ih hb' fun b a ha => hstep b a (List.mem_cons_of_mem _ ha)
    refine ⟨r, ?_, hI⟩
    rw [List.foldlM_cons, hf]
    exact hr

theorem listMapM_error {f : α → Except ε β} {l : List α} {e : ε} (h : l.mapM f = .error e) :
    ∃ a ∈ l, f a = .error e := by
  induction l with
  | nil => cases h
  | cons a l ih =>
    rw [List.mapM_cons] at h
    cases hf : f a with
    | error e' =>
      rw [hf] at h
      obtain rfl : e' = e := by simpa [bind, Except.bind] using h
      exact ⟨a, List.mem_cons_self, hf⟩
    | ok b =>
      rw [hf] at h
      cases hrest : l.mapM f with
      | error e' =>
        rw [hrest] at h
        obtain rfl : e' = e := by simpa [bind, Except.bind] using h
        obtain ⟨a', ha', he⟩ := ih hrest
        exact ⟨a', List.mem_cons_of_mem _ ha', he⟩
      | ok bs =>
        rw [hrest] at h
        cases h

/-- The same for a loop that cannot throw. -/
theorem foldl_invariant {f : β → α → β} (I : List α → β → Prop) {l : List α} {b : β}
    (hstart : I [] b)
    (hstep : ∀ done a rest b, l = done ++ a :: rest → I done b → I (done ++ [a]) (f b a)) :
    I l (l.foldl f b) := by
  have aux : ∀ rest done b, l = done ++ rest → I done b → I l (rest.foldl f b) := by
    intro rest
    induction rest with
    | nil =>
      intro done b hl hdone
      rw [List.append_nil] at hl
      exact hl ▸ hdone
    | cons a rest ih =>
      intro done b hl hdone
      exact ih (done ++ [a]) (f b a) (by rw [hl]; simp) (hstep done a rest b hl hdone)
  exact aux l [] b rfl hstart

theorem mapError_eq_ok {ε' : Type} {f : ε → ε'} {x : Except ε α} {a : α} :
    x.mapError f = .ok a ↔ x = .ok a := by
  cases x <;> simp [Except.mapError]

/-- The items a test that may throw accepts; the first error ends the loop. -/
def filterE (keep : α → Except ε Bool) : List α → Except ε (List α)
  | [] => .ok []
  | a :: l =>
    match keep a with
    | .error e => .error e
    | .ok kept =>
      match filterE keep l with
      | .error e => .error e
      | .ok rest => .ok (if kept then a :: rest else rest)

theorem mem_filterE {keep : α → Except ε Bool} {l l' : List α} (h : filterE keep l = .ok l')
    (a : α) : a ∈ l' ↔ a ∈ l ∧ keep a = .ok true := by
  induction l generalizing l' with
  | nil =>
    obtain rfl := Except.ok.inj h
    simp
  | cons b l ih =>
    rw [filterE] at h
    cases hb : keep b with
    | error e => simp [hb] at h
    | ok kept =>
      cases hrest : filterE keep l with
      | error e => simp [hb, hrest] at h
      | ok rest =>
        simp only [hb, hrest, Except.ok.injEq] at h
        subst h
        cases kept with
        | true =>
          simp only [if_true, List.mem_cons, ih hrest]
          by_cases heq : a = b
          · simp [heq, hb]
          · simp [heq]
        | false =>
          simp only [Bool.false_eq_true, if_false, ih hrest, List.mem_cons]
          by_cases heq : a = b
          · simp [heq, hb]
          · simp [heq]

/-- An error of the loop is an error of the test. -/
theorem filterE_error {keep : α → Except ε Bool} {l : List α} {e : ε}
    (h : filterE keep l = .error e) : ∃ a ∈ l, keep a = .error e := by
  induction l with
  | nil => cases h
  | cons a l ih =>
    rw [filterE] at h
    cases ha : keep a with
    | error e' =>
      simp only [ha, Except.error.injEq] at h
      exact ⟨a, List.mem_cons_self, by rw [ha, h]⟩
    | ok kept =>
      cases hrest : filterE keep l with
      | error e' =>
        simp only [ha, hrest, Except.error.injEq] at h
        obtain ⟨b, hb, hkeep⟩ := ih (by rw [hrest, h])
        exact ⟨b, List.mem_cons_of_mem _ hb, hkeep⟩
      | ok rest => simp [ha, hrest] at h

/-- The loop throws only if the test does. -/
theorem filterE_total {keep : α → Except ε Bool} {l : List α}
    (h : ∀ a ∈ l, ∃ kept, keep a = .ok kept) : ∃ l', filterE keep l = .ok l' := by
  induction l with
  | nil => exact ⟨[], rfl⟩
  | cons a l ih =>
    obtain ⟨kept, hkept⟩ := h a List.mem_cons_self
    obtain ⟨rest, hrest⟩ := ih fun b hb => h b (List.mem_cons_of_mem _ hb)
    exact ⟨_, by rw [filterE, hkept, hrest]⟩

theorem filterE_sublist {keep : α → Except ε Bool} {l l' : List α} (h : filterE keep l = .ok l') :
    l'.Sublist l := by
  induction l generalizing l' with
  | nil =>
    obtain rfl := Except.ok.inj h
    exact List.Sublist.refl []
  | cons a l ih =>
    rw [filterE] at h
    cases ha : keep a with
    | error e => simp [ha] at h
    | ok kept =>
      cases hrest : filterE keep l with
      | error e => simp [ha, hrest] at h
      | ok rest =>
        simp only [ha, hrest, Except.ok.injEq] at h
        subst h
        cases kept with
        | true => exact (ih hrest).cons_cons a
        | false => exact (ih hrest).cons a

/-- The loop does not get past an item whose test throws. -/
theorem filterE_ne_ok {keep : α → Except ε Bool} {l l' : List α} {a : α} {e : ε} (ha : a ∈ l)
    (he : keep a = .error e) : filterE keep l ≠ .ok l' := by
  induction l generalizing l' with
  | nil => cases ha
  | cons b l ih =>
    intro h
    rw [filterE] at h
    rcases List.mem_cons.mp ha with rfl | ha
    · simp [he] at h
    · cases hb : keep b with
      | error e' => simp [hb] at h
      | ok kept =>
        cases hrest : filterE keep l with
        | error e' => simp [hb, hrest] at h
        | ok rest => exact ih ha hrest

/-- What is found is THE item that passes, when there is at most one. -/
theorem find?_eq_some_of_unique {p : α → Bool} {l : List α}
    (h : ∀ a ∈ l, ∀ b ∈ l, p a = true → p b = true → a = b) {a : α} :
    l.find? p = some a ↔ a ∈ l ∧ p a = true := by
  constructor
  · exact fun hfind => ⟨List.mem_of_find?_eq_some hfind, List.find?_some hfind⟩
  · rintro ⟨hmem, hp⟩
    cases hfind : l.find? p with
    | none => exact absurd hp (List.find?_eq_none.mp hfind a hmem)
    | some b =>
      rw [h b (List.mem_of_find?_eq_some hfind) a hmem (List.find?_some hfind) hp]

/-- The two ways for optional values to correspond. -/
theorem rel_cases {R : α → β → Prop} {a : Option α} {b : Option β}
    (h : Option.Rel R a b) :
    (a = none ∧ b = none) ∨ ∃ x y, a = some x ∧ b = some y ∧ R x y := by
  cases h with
  | none => exact Or.inl ⟨rfl, rfl⟩
  | some hR => exact Or.inr ⟨_, _, rfl, rfl, hR⟩

/-! ## Loops in an order somebody else chose -/

/-- The items of `l` in the order that `order` names: each number picks one of the items that are
    left, and the items left when the numbers run out come as they stand. -/
def visit : List Nat → List α → List α
  | [], l => l
  | n :: order, l =>
    match l[n % l.length]? with
    | none => l
    | some a => a :: visit order (l.eraseIdx (n % l.length))

/-- Every item is visited once. -/
theorem visit_perm (order : List Nat) (l : List α) : (visit order l).Perm l := by
  induction order generalizing l with
  | nil => exact List.Perm.refl l
  | cons n order ih =>
    rw [visit]
    cases h : l[n % l.length]? with
    | none => exact List.Perm.refl l
    | some a =>
      obtain ⟨hlt, rfl⟩ := List.getElem?_eq_some_iff.mp h
      exact ((ih _).cons _).trans (List.getElem_cons_eraseIdx_perm hlt)

/-- Every order can be chosen. -/
theorem exists_visit {l l' : List α} (h : l'.Perm l) : ∃ order, visit order l = l' := by
  induction l' generalizing l with
  | nil =>
    rw [List.nil_perm.mp h]
    exact ⟨[], rfl⟩
  | cons a l' ih =>
    obtain ⟨n, hn, rfl⟩ := List.mem_iff_getElem.mp (h.subset List.mem_cons_self)
    have hrest : l'.Perm (l.eraseIdx n) :=
      List.Perm.cons_inv (h.trans (List.getElem_cons_eraseIdx_perm hn).symm)
    obtain ⟨order, horder⟩ := ih hrest
    refine ⟨n :: order, ?_⟩
    rw [visit, Nat.mod_eq_of_lt hn, List.getElem?_eq_getElem hn]
    simp only [horder]

end

section

variable {κ κ' ν ν' α ε : Type} [Ord κ] [Std.TransOrd κ] [Std.LawfulEqOrd κ]
variable [Ord κ'] [Std.TransOrd κ'] [Std.LawfulEqOrd κ']
variable [Ord α] [Std.TransOrd α] [Std.LawfulEqOrd α]

namespace OrderedMap

theorem find_insert [DecidableEq κ] (m : OrderedMap κ ν) (a k : κ) (v : ν) :
    (m.insert k v)[a]? = if a = k then some v else m[a]? := by
  rw [Std.ExtTreeMap.getElem?_insert]
  by_cases h : a = k
  · rw [if_pos h, if_pos (Std.compare_eq_iff_eq.mpr h.symm)]
  · rw [if_neg h, if_neg (fun hc => h (Std.compare_eq_iff_eq.mp hc).symm)]

theorem find_erase [DecidableEq κ] (m : OrderedMap κ ν) (a k : κ) :
    (m.erase k)[a]? = if a = k then none else m[a]? := by
  rw [Std.ExtTreeMap.getElem?_erase]
  by_cases h : a = k
  · rw [if_pos h, if_pos (Std.compare_eq_iff_eq.mpr h.symm)]
  · rw [if_neg h, if_neg (fun hc => h (Std.compare_eq_iff_eq.mp hc).symm)]

/-- Every item under its own key; of two items under one key the later one stays. -/
def insertAll {ν : Type} (key : ν → κ) (items : List ν) : OrderedMap κ ν :=
  items.foldl (fun m item => m.insert (key item) item) ∅

theorem find_insertAll [DecidableEq κ] {ν : Type} (key : ν → κ) (items : List ν) (a : κ) :
    (insertAll key items)[a]? = items.reverse.find? fun item => decide (a = key item) := by
  refine foldl_invariant (fun done m => m[a]? = done.reverse.find? fun item => decide (a = key item))
    (by simp) ?_
  intro done item rest m _ hdone
  rw [find_insert, hdone, List.reverse_append, List.reverse_singleton, List.singleton_append,
    List.find?_cons]
  by_cases h : a = key item <;> simp [h]

/-- The values of a map, each under its own key, are the map. -/
theorem insertAll_values [DecidableEq κ] {key : ν → κ} {m : OrderedMap κ ν}
    (h : ∀ (k : κ) (v : ν), m[k]? = some v → key v = k) : insertAll key (m.toList.map Prod.snd) = m := by
  have hmem (v : ν) : v ∈ (m.toList.map Prod.snd).reverse ↔ m[key v]? = some v := by
    rw [List.mem_reverse, List.mem_map]
    constructor
    · rintro ⟨p, hp, rfl⟩
      have hat := Std.ExtTreeMap.mem_toList_iff_getElem?_eq_some.mp (show (p.1, p.2) ∈ _ from hp)
      rw [h _ _ hat, hat]
    · exact fun hat => ⟨(key v, v), Std.ExtTreeMap.mem_toList_iff_getElem?_eq_some.mpr hat, rfl⟩
  refine Std.ExtTreeMap.ext_getElem? fun a => Option.ext fun v => ?_
  rw [find_insertAll, find?_eq_some_of_unique, hmem, decide_eq_true_eq]
  · constructor
    · rintro ⟨hat, rfl⟩
      exact hat
    · intro hat
      rw [h a v hat]
      exact ⟨hat, rfl⟩
  · intro v hv w hw hkv hkw
    rw [hmem, ← of_decide_eq_true hkv] at hv
    rw [hmem, ← of_decide_eq_true hkw] at hw
    exact Option.some_inj.mp (hv.symm.trans hw)

/-- A map without some of its keys. -/
def eraseAll (m : OrderedMap κ ν) (keys : List κ) : OrderedMap κ ν :=
  keys.foldl (fun m key => m.erase key) m

theorem find_eraseAll [DecidableEq κ] (m : OrderedMap κ ν) (keys : List κ) (a : κ) :
    (eraseAll m keys)[a]? = if a ∈ keys then none else m[a]? := by
  refine foldl_invariant (fun done m' => m'[a]? = if a ∈ done then none else m[a]?) (by simp) ?_
  intro done key rest m' _ hdone
  rw [find_erase, hdone]
  by_cases h : a = key <;> simp [h]

/-! ## A map of maps -/

/-- `m[a][b]`, when both are there. -/
def find₂ (m : OrderedMap κ (OrderedMap κ' ν)) (a : κ) (b : κ') : Option ν :=
  m[a]?.bind (·[b]?)

/-- `m[a][b] = v`: the inner map is created on demand. -/
def store₂ (m : OrderedMap κ (OrderedMap κ' ν)) (a : κ) (b : κ') (v : ν) :
    OrderedMap κ (OrderedMap κ' ν) :=
  m.insert a ((m[a]?.getD ∅).insert b v)

/-- `m.find(a)->second.erase(b)`, when there is an inner map at `a`. -/
def erase₂ (m : OrderedMap κ (OrderedMap κ' ν)) (a : κ) (b : κ') :
    OrderedMap κ (OrderedMap κ' ν) :=
  match m[a]? with
  | none => m
  | some inner => m.insert a (inner.erase b)

theorem find₂_empty (a : κ) (b : κ') :
    find₂ (∅ : OrderedMap κ (OrderedMap κ' ν)) a b = none := by
  simp [find₂]

theorem find₂_store₂ [DecidableEq κ] [DecidableEq κ'] (m : OrderedMap κ (OrderedMap κ' ν))
    (a c : κ) (b d : κ') (v : ν) :
    find₂ (store₂ m a b v) c d = if c = a ∧ d = b then some v else find₂ m c d := by
  rw [find₂, store₂, find_insert]
  by_cases hc : c = a
  · subst hc
    rw [if_pos rfl, Option.bind_some, find_insert, find₂]
    by_cases hd : d = b
    · rw [if_pos hd, if_pos ⟨rfl, hd⟩]
    · rw [if_neg hd, if_neg (fun h => hd h.2)]
      cases m[c]? <;> simp
  · rw [if_neg hc, if_neg (fun h => hc h.1), find₂]

theorem find₂_erase₂ [DecidableEq κ] [DecidableEq κ'] (m : OrderedMap κ (OrderedMap κ' ν))
    (a c : κ) (b d : κ') :
    find₂ (erase₂ m a b) c d = if c = a ∧ d = b then none else find₂ m c d := by
  rw [find₂, erase₂]
  cases hm : m[a]? with
  | none =>
    by_cases h : c = a ∧ d = b
    · rw [if_pos h, h.1, hm]
      rfl
    · rw [if_neg h, find₂]
  | some inner =>
    simp only [find_insert]
    by_cases hc : c = a
    · subst hc
      rw [if_pos rfl, Option.bind_some, find_erase, find₂, hm, Option.bind_some]
      by_cases hd : d = b
      · rw [if_pos hd, if_pos ⟨rfl, hd⟩]
      · rw [if_neg hd, if_neg (fun h => hd h.2)]
    · rw [if_neg hc, if_neg (fun h => hc h.1), find₂]

theorem insert_comm [DecidableEq κ] (m : OrderedMap κ ν) {a b : κ} (h : a ≠ b) (v w : ν) :
    (m.insert a v).insert b w = (m.insert b w).insert a v := by
  refine Std.ExtTreeMap.ext_getElem? fun k => ?_
  simp only [find_insert]
  by_cases ha : k = a
  · have hb : k ≠ b := fun hb => h (ha.symm.trans hb)
    simp only [if_pos ha, if_neg hb]
  · simp only [if_neg ha]

theorem erase_comm [DecidableEq κ] (m : OrderedMap κ ν) (a b : κ) :
    (m.erase a).erase b = (m.erase b).erase a := by
  refine Std.ExtTreeMap.ext_getElem? fun k => ?_
  simp only [find_erase]
  by_cases ha : k = a <;> by_cases hb : k = b <;> simp [ha, hb]

theorem getElem_store₂ [DecidableEq κ] (m : OrderedMap κ (OrderedMap κ' ν)) (a k : κ) (b : κ')
    (v : ν) : (store₂ m a b v)[k]? = if k = a then some ((m[a]?.getD ∅).insert b v) else m[k]? := by
  rw [store₂, find_insert]

theorem getElem_erase₂ [DecidableEq κ] (m : OrderedMap κ (OrderedMap κ' ν)) (a k : κ) (b : κ') :
    (erase₂ m a b)[k]? = if k = a then m[a]?.map (·.erase b) else m[k]? := by
  rw [erase₂]
  cases hm : m[a]? with
  | none =>
    by_cases hk : k = a
    · rw [if_pos hk, hk, hm, Option.map_none]
    · rw [if_neg hk]
  | some inner => rw [find_insert, Option.map_some]

/-- What is stored at different places can be stored in any order. -/
theorem store₂_comm [DecidableEq κ] [DecidableEq κ'] (m : OrderedMap κ (OrderedMap κ' ν)) {a c : κ}
    {b d : κ'} (h : ¬ (a = c ∧ b = d)) (v w : ν) :
    store₂ (store₂ m a b v) c d w = store₂ (store₂ m c d w) a b v := by
  refine Std.ExtTreeMap.ext_getElem? fun k => ?_
  simp only [getElem_store₂]
  by_cases hac : a = c
  · subst hac
    have hbd : b ≠ d := fun hbd => h ⟨rfl, hbd⟩
    simp only [if_true, Option.getD_some, insert_comm _ hbd]
    by_cases ha : k = a
    · simp only [if_pos ha]
    · simp only [if_neg ha]
  · by_cases ha : k = a
    · subst ha
      simp only [if_true, if_neg hac]
    · simp only [if_neg ha, if_neg (Ne.symm hac)]

/-- Erasing goes in any order. -/
theorem erase₂_comm [DecidableEq κ] [DecidableEq κ'] (m : OrderedMap κ (OrderedMap κ' ν)) (a c : κ)
    (b d : κ') : erase₂ (erase₂ m a b) c d = erase₂ (erase₂ m c d) a b := by
  refine Std.ExtTreeMap.ext_getElem? fun k => ?_
  simp only [getElem_erase₂]
  by_cases hac : a = c
  · subst hac
    simp only [if_true, Option.map_map, Function.comp_def, erase_comm _ b d]
    split <;> rfl
  · by_cases ha : k = a
    · subst ha
      simp only [if_true, if_neg hac]
    · simp only [if_neg ha, if_neg (Ne.symm hac)]

/-! ## A loop over a map that may throw -/

/-- Replace every value by `f` of it, in key order; the first error wins. -/
def mapM (f : ν → Except ε ν') (m : OrderedMap κ ν) : Except ε (OrderedMap κ ν') :=
  (m.toList.mapM fun p => (f p.2).map fun v => (p.1, v)).map fun l => Std.ExtTreeMap.ofList l

/-- What a successful run of the list loop collected. -/
theorem listMapM_ok {f : ν → Except ε ν'} {l : List (κ × ν)} {l' : List (κ × ν')}
    (h : l.mapM (fun p => (f p.2).map fun v => (p.1, v)) = .ok l') :
    l'.map Prod.fst = l.map Prod.fst ∧
      (∀ k v', (k, v') ∈ l' → ∃ v, (k, v) ∈ l ∧ f v = .ok v') ∧
      (∀ k v, (k, v) ∈ l → ∃ v', (k, v') ∈ l' ∧ f v = .ok v') := by
  induction l generalizing l' with
  | nil =>
    obtain rfl : [] = l' := by simpa [pure, Except.pure] using h
    simp
  | cons p l ih =>
    rw [List.mapM_cons] at h
    cases hf : f p.2 with
    | error e => simp [hf, Except.map, bind, Except.bind] at h
    | ok v =>
      cases hrest : l.mapM (fun p => (f p.2).map fun v => (p.1, v)) with
      | error e =>
        rw [hf, hrest] at h
        simp [Except.map, bind, Except.bind] at h
      | ok rest =>
        rw [hf, hrest] at h
        obtain rfl : (p.1, v) :: rest = l' := by
          simpa [Except.map, bind, Except.bind, pure, Except.pure] using h
        obtain ⟨hkeys, hback, hforth⟩ := ih hrest
        refine ⟨by simp [hkeys], ?_, ?_⟩
        · intro k v' hmem
          rcases List.mem_cons.mp hmem with heq | hmem
          · obtain ⟨rfl, rfl⟩ := Prod.mk.inj heq
            exact ⟨p.2, List.mem_cons_self, hf⟩
          · obtain ⟨w, hw, hfw⟩ := hback k v' hmem
            exact ⟨w, List.mem_cons_of_mem _ hw, hfw⟩
        · intro k w hmem
          rcases List.mem_cons.mp hmem with heq | hmem
          · subst heq
            exact ⟨v, List.mem_cons_self, hf⟩
          · obtain ⟨v', hv', hfw⟩ := hforth k w hmem
            exact ⟨v', List.mem_cons_of_mem _ hv', hfw⟩

/-- A loop that did not throw replaced exactly the values that were there. -/
theorem mapM_ok {f : ν → Except ε ν'} {m : OrderedMap κ ν} {m' : OrderedMap κ ν'}
    (h : mapM f m = .ok m') (k : κ) :
    (m[k]? = none ∧ m'[k]? = none) ∨
      (∃ v v', m[k]? = some v ∧ f v = .ok v' ∧ m'[k]? = some v') := by
  rw [mapM] at h
  cases hl : m.toList.mapM (fun p => (f p.2).map fun v => (p.1, v)) with
  | error e =>
    rw [hl] at h
    cases h
  | ok l' =>
    rw [hl] at h
    obtain rfl : Std.ExtTreeMap.ofList l' compare = m' := by
      simpa only [Except.map, Except.ok.injEq] using h
    obtain ⟨hkeys, hback, hforth⟩ := listMapM_ok hl
    have hdistinct : l'.Pairwise fun a b => ¬ compare a.1 b.1 = .eq := by
      have hd := Std.ExtTreeMap.distinct_keys_toList (t := m)
      rw [← List.pairwise_map (f := Prod.fst) (R := fun a b => ¬ compare a b = .eq)] at hd ⊢
      rw [hkeys]
      exact hd
    cases hm : m[k]? with
    | none =>
      refine Or.inl ⟨rfl, ?_⟩
      have hnot : k ∉ l'.map Prod.fst := by
        rw [hkeys]
        intro hmem
        obtain ⟨p, hp, hpk⟩ := List.mem_map.mp hmem
        have hsome := Std.ExtTreeMap.mem_toList_iff_getElem?_eq_some.mp (show (p.1, p.2) ∈ _ from hp)
        rw [hpk, hm] at hsome
        cases hsome
      classical
      refine Std.ExtTreeMap.getElem?_ofList_of_contains_eq_false ?_
      simpa using hnot
    | some v =>
      have hmem := Std.ExtTreeMap.mem_toList_iff_getElem?_eq_some.mpr hm
      obtain ⟨v', hv', hf⟩ := hforth k v hmem
      exact Or.inr ⟨v, v', rfl, hf,
        Std.ExtTreeMap.getElem?_ofList_of_mem (by simp) hdistinct hv'⟩

/-- A loop over a map that threw got its error from one of the values. -/
theorem mapM_error {f : ν → Except ε ν'} {m : OrderedMap κ ν} {e : ε} (h : mapM f m = .error e) :
    ∃ (k : κ) (v : ν), m[k]? = some v ∧ f v = .error e := by
  rw [mapM] at h
  cases hl : m.toList.mapM (fun p => (f p.2).map fun v => (p.1, v)) with
  | ok l =>
    rw [hl] at h
    cases h
  | error e' =>
    rw [hl] at h
    obtain rfl : e' = e := by simpa only [Except.map, Except.error.injEq] using h
    obtain ⟨p, hmem, hp⟩ := listMapM_error hl
    cases hf : f p.2 with
    | error e'' =>
      rw [hf] at hp
      obtain rfl : e'' = e' := by simpa only [Except.map, Except.error.injEq] using hp
      exact ⟨p.1, p.2, Std.ExtTreeMap.mem_toList_iff_getElem?_eq_some.mp hmem, hf⟩
    | ok v =>
      rw [hf] at hp
      cases hp

/-! ## Two maps -/

/-- Lists with the same keys, one by one. -/
theorem forall₂_of_keys {R : ν → ν' → Prop} {l : List (κ × ν)} {l' : List (κ × ν')}
    (hkeys : l.map Prod.fst = l'.map Prod.fst)
    (hat : ∀ p ∈ l, ∀ p' ∈ l', p.1 = p'.1 → R p.2 p'.2) :
    List.Forall₂ (fun p p' => p.1 = p'.1 ∧ R p.2 p'.2) l l' := by
  induction l generalizing l' with
  | nil =>
    rw [List.map_eq_nil_iff.mp hkeys.symm]
    exact .nil
  | cons p l ih =>
    cases l' with
    | nil => cases hkeys
    | cons p' l' =>
      obtain ⟨hkey, hrest⟩ := List.cons.inj hkeys
      refine .cons ⟨hkey, hat p List.mem_cons_self p' List.mem_cons_self hkey⟩ (ih hrest ?_)
      exact fun q hq q' hq' => hat q (List.mem_cons_of_mem _ hq) q' (List.mem_cons_of_mem _ hq')

/-- **Maps that correspond key by key are listed in the same order.** -/
theorem forall₂_toList {R : ν → ν' → Prop} {m : OrderedMap κ ν} {m' : OrderedMap κ ν'}
    (h : ∀ k : κ, Option.Rel R m[k]? m'[k]?) :
    List.Forall₂ (fun p p' => p.1 = p'.1 ∧ R p.2 p'.2) m.toList m'.toList := by
  have hunit : (m.map fun _ _ => ()) = m'.map fun _ _ => () := by
    refine Std.ExtTreeMap.ext_getElem? fun k => ?_
    rw [Std.ExtTreeMap.getElem?_map, Std.ExtTreeMap.getElem?_map]
    obtain ⟨hv, hv'⟩ | ⟨v, v', hv, hv', -⟩ := rel_cases (h k) <;> rw [hv, hv'] <;> rfl
  refine forall₂_of_keys ?_ fun p hp p' hp' hkey => ?_
  · have hkeys := congrArg Std.ExtTreeMap.keys hunit
    rw [Std.ExtTreeMap.keys_map, Std.ExtTreeMap.keys_map] at hkeys
    rw [Std.ExtTreeMap.map_fst_toList_eq_keys, Std.ExtTreeMap.map_fst_toList_eq_keys, hkeys]
  · have hat := Std.ExtTreeMap.mem_toList_iff_getElem?_eq_some.mp (show (p.1, p.2) ∈ _ from hp)
    have hat' := Std.ExtTreeMap.mem_toList_iff_getElem?_eq_some.mp (show (p'.1, p'.2) ∈ _ from hp')
    have hrel := h p.1
    rw [hat, hkey, hat'] at hrel
    exact Option.rel_some_some.mp hrel

end OrderedMap

/-! ## Multimaps: a map from keys to sets -/

/-- A map from keys to sets of values. -/
abbrev Multimap (κ α : Type) [Ord κ] [Ord α] := OrderedMap κ (OrderedSet α)

namespace Multimap

/-- The set stored under `key`, empty when there is none. -/
def at' (m : Multimap κ α) (key : κ) : OrderedSet α := m[key]?.getD ∅

/-- `a` is one of the values stored under `key`. -/
def Holds (m : Multimap κ α) (key : κ) (a : α) : Prop := a ∈ at' m key

/-- No empty set is stored. -/
def Tidy (m : Multimap κ α) : Prop :=
  ∀ (key : κ) (s : OrderedSet α), m[key]? = some s → s.isEmpty = false

/-- `m[key].insert(a)`. -/
def add (m : Multimap κ α) (key : κ) (a : α) : Multimap κ α :=
  m.insert key ((at' m key).insert a)

/-- `m[key].erase(a)`, dropping a set that became empty. -/
def remove (m : Multimap κ α) (key : κ) (a : α) : Multimap κ α :=
  match m[key]? with
  | none => m
  | some s => if (s.erase a).isEmpty then m.erase key else m.insert key (s.erase a)

theorem holds_empty (key : κ) (a : α) : ¬ Holds (∅ : Multimap κ α) key a := by
  simp [Holds, at']

theorem tidy_empty : Tidy (∅ : Multimap κ α) := by
  intro key s h
  simp at h

theorem at'_add [DecidableEq κ] (m : Multimap κ α) (key k : κ) (a : α) :
    at' (add m key a) k = if k = key then (at' m key).insert a else at' m k := by
  rw [at', add, OrderedMap.find_insert]
  by_cases hk : k = key
  · rw [if_pos hk, if_pos hk]
    rfl
  · rw [if_neg hk, if_neg hk]
    rfl

/-- What `remove` leaves under each key: removing from a set that is not there changes nothing,
    and a dropped set reads as the empty one. -/
theorem at'_remove [DecidableEq κ] (m : Multimap κ α) (key k : κ) (a : α) :
    at' (remove m key a) k = if k = key then (at' m key).erase a else at' m k := by
  rw [remove]
  cases hm : m[key]? with
  | none =>
    by_cases hk : k = key
    · subst hk
      have hempty : at' m k = ∅ := by rw [at', hm]; rfl
      rw [if_pos rfl]
      simp only [hempty]
      exact Std.ExtTreeSet.ext_mem fun b => by simp
    · rw [if_neg hk]
  | some s =>
    have hs : at' m key = s := by rw [at', hm]; rfl
    by_cases hempty : (s.erase a).isEmpty
    · simp only [hempty, if_true]
      rw [at', OrderedMap.find_erase, hs]
      by_cases hk : k = key
      · rw [if_pos hk, if_pos hk, Std.ExtTreeSet.isEmpty_iff.mp hempty]
        rfl
      · rw [if_neg hk, if_neg hk]
        rfl
    · simp only [hempty, Bool.false_eq_true, if_false]
      rw [at', OrderedMap.find_insert, hs]
      by_cases hk : k = key
      · rw [if_pos hk, if_pos hk]
        rfl
      · rw [if_neg hk, if_neg hk]
        rfl

/-- `add` stores exactly one more pair. -/
theorem holds_add [DecidableEq κ] (m : Multimap κ α) (key k : κ) (a b : α) :
    Holds (add m key a) k b ↔ (k = key ∧ b = a) ∨ Holds m k b := by
  rw [Holds, at'_add, Holds]
  by_cases hk : k = key
  · subst hk
    rw [if_pos rfl, Std.ExtTreeSet.mem_insert, Std.compare_eq_iff_eq]
    simp [eq_comm]
  · rw [if_neg hk]
    simp [hk]

/-- `remove` drops exactly one pair. -/
theorem holds_remove [DecidableEq κ] (m : Multimap κ α) (key k : κ) (a b : α) :
    Holds (remove m key a) k b ↔ Holds m k b ∧ ¬ (k = key ∧ b = a) := by
  rw [Holds, at'_remove, Holds]
  by_cases hk : k = key
  · subst hk
    rw [if_pos rfl, Std.ExtTreeSet.mem_erase]
    constructor
    · rintro ⟨hne, hmem⟩
      exact ⟨hmem, fun h => hne (Std.compare_eq_iff_eq.mpr h.2.symm)⟩
    · rintro ⟨hmem, hne⟩
      exact ⟨fun h => hne ⟨rfl, (Std.compare_eq_iff_eq.mp h).symm⟩, hmem⟩
  · rw [if_neg hk]
    simp [hk]

theorem tidy_add [DecidableEq κ] {m : Multimap κ α} (h : Tidy m) (key : κ) (a : α) :
    Tidy (add m key a) := by
  intro k s hs
  rw [add, OrderedMap.find_insert] at hs
  by_cases hk : k = key
  · rw [if_pos hk] at hs
    obtain rfl := Option.some_inj.mp hs
    simp
  · rw [if_neg hk] at hs
    exact h k s hs

theorem tidy_remove [DecidableEq κ] {m : Multimap κ α} (h : Tidy m) (key : κ) (a : α) :
    Tidy (remove m key a) := by
  intro k s hs
  rw [remove] at hs
  cases hm : m[key]? with
  | none =>
    rw [hm] at hs
    exact h k s hs
  | some s₀ =>
    simp only [hm] at hs
    by_cases hempty : (s₀.erase a).isEmpty
    · simp only [hempty, if_true] at hs
      rw [OrderedMap.find_erase] at hs
      by_cases hk : k = key
      · rw [if_pos hk] at hs
        cases hs
      · rw [if_neg hk] at hs
        exact h k s hs
    · simp only [hempty, Bool.false_eq_true, if_false] at hs
      rw [OrderedMap.find_insert] at hs
      by_cases hk : k = key
      · rw [if_pos hk] at hs
        obtain rfl := Option.some_inj.mp hs
        simpa using hempty
      · rw [if_neg hk] at hs
        exact h k s hs

end Multimap

end

end StateSpec
