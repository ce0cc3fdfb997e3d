/-
  TABLES — the documents of one collection as the values that they encode.

  1. `Holds decode encode d c values`: what is read back of the collection `c` of the documents `d` are
     the values, each encoded under its key.  Putting a document keeps it up to date (`Holds.put`), and
     reading and scanning answer what it says (`Holds.read`, `Holds.scanned`).
  2. `runs_takes` is the crux of every loop that works through a list and takes the first so many of
     those it wants: what it has taken is part of the list, and it has done one step for each.
-/
import Mathlib.Logic.Function.Basic
import StateSpec.Lib.Program

namespace StateSpec

open Program

variable {C K D ε ρ σ τ ω : Type} {decode : D → Except ε ρ} {encode : K → ω → ρ}
  {d d' : Documents C K D} {c : C} {values : K → Option ω}

/-- What is read back of the collection are the values. -/
def Holds (decode : D → Except ε ρ) (encode : K → ω → ρ) (d : Documents C K D) (c : C)
    (values : K → Option ω) : Prop :=
  ∀ k, decodedAt decode d c k = (values k).map (encode k)

/-- Only the documents of the collection matter. -/
theorem Holds.congr (h : Holds decode encode d c values) (hd : d' c = d c) :
    Holds decode encode d' c values :=
  fun k => (decodedAt_congr (congrFun hd k)).trans (h k)

/-- A table with one more value in it. -/
theorem map_update [DecidableEq K] (values : K → Option ω) (f : K → ω → ρ) (k : K) (value : Option ω)
    (k' : K) : (Function.update values k value k').map (f k') =
      if k' = k then value.map (f k) else (values k').map (f k') := by
  by_cases hk : k' = k
  · rw [if_pos hk, hk, Function.update_self]
  · rw [if_neg hk, Function.update_of_ne hk]

variable [DecidableEq C] [DecidableEq K]

/-- Writing to another collection changes nothing. -/
theorem Holds.other (h : Holds decode encode d c values) {c' : C} (hc : c ≠ c') (k : K)
    (document : Option D) : Holds decode encode (d.set c' k document) c values :=
  h.congr (Documents.set_of_ne hc)

/-- **Putting** the encoding of a value. -/
theorem Holds.put (h : Holds decode encode d c values) (k : K) {document : D} {value : ω}
    (hdecode : decode document = .ok (encode k value)) :
    Holds decode encode (d.set c k (some document)) c (Function.update values k (some value)) := by
  intro k'
  rw [decodedAt_set hdecode, map_update, h k']
  rfl

/-- **Scanning** answers values of the table, each key once. -/
theorem Holds.scanned (h : Holds decode encode d c values) {records : List ρ}
    (hruns : (scan c >>= fun l => ofExcept (l.mapM fun entry => decode entry.2)).Runs d records d') :
    d' = d ∧ ∃ l : List (K × ω), (l.map Prod.fst).Nodup ∧ (∀ p ∈ l, values p.1 = some p.2) ∧
      records = l.map fun p => encode p.1 p.2 := by
  obtain ⟨seen, mid, hscan, hrest⟩ := runs_do.mp hruns
  obtain ⟨hseen, hnodup, rfl⟩ := runs_scan.mp hscan
  obtain ⟨hdecode, rfl⟩ := runs_ofExcept.mp hrest
  refine ⟨rfl, ?_⟩
  -- the values of the keys that the scan has answered
  suffices hvalues : ∃ l : List (K × ω), l.map Prod.fst = seen.map Prod.fst ∧
      (∀ p ∈ l, values p.1 = some p.2) ∧ records = l.map fun p => encode p.1 p.2 by
    obtain ⟨l, hkeys, hl, hrecords⟩ := hvalues
    exact ⟨l, hkeys ▸ hnodup, hl, hrecords⟩
  have hdecoded := forall₂_of_mapM hdecode
  clear hdecode hruns hscan hnodup hrest
  induction hdecoded with
  | nil => exact ⟨[], rfl, nofun, rfl⟩
  | @cons entry record seen records hrecord _ ih =>
    obtain ⟨l, hkeys, hl, rfl⟩ := ih fun q hq => hseen q (List.mem_cons_of_mem _ hq)
    have hat := h entry.1
    rw [decodedAt, hseen entry List.mem_cons_self, Option.bind_some, hrecord] at hat
    obtain ⟨value, hvalue, rfl⟩ := Option.map_eq_some_iff.mp hat.symm
    refine ⟨(entry.1, value) :: l, congrArg (entry.1 :: ·) hkeys, ?_, rfl⟩
    intro q hq
    rcases List.mem_cons.mp hq with rfl | hq
    · exact hvalue
    · exact hl q hq

/-- **Taking from a list**: each round ends the loop, skips what it looks at or takes it, and a round
    that takes has done one step.  Induction on what is still to look at. -/
theorem runs_takes (loop : List ω → List τ → Program C K D ε (List τ)) (limit : Nat)
    (wanted : ω → Prop) (shown : ω → τ) (take : σ → ω → σ) (Stands : Documents C K D → σ → Prop)
    (hnil : ∀ done, loop [] done = pure done)
    (hcons : ∀ {d d' s x rest done l}, Stands d s → (loop (x :: rest) done).Runs d l d' →
      (l = done ∧ d' = d) ∨ (loop rest done).Runs d l d' ∨
      done.length < limit ∧ wanted x ∧ ∃ mid, Stands mid (take s x) ∧
        (loop rest (done ++ [shown x])).Runs mid l d')
    {xs : List ω} {done l : List τ} {s : σ} (hruns : (loop xs done).Runs d l d') (hstands : Stands d s)
    (hdone : done.length ≤ limit) :
    ∃ taken : List ω, taken.Sublist xs ∧ (∀ x ∈ taken, wanted x) ∧ l = done ++ taken.map shown ∧
      done.length + taken.length ≤ limit ∧ Stands d' (taken.foldl take s) := by
  induction xs generalizing d done s with
  | nil =>
    rw [hnil] at hruns
    obtain ⟨rfl, rfl⟩ := runs_pure.mp hruns
    exact ⟨[], .slnil, nofun, (List.append_nil _).symm, hdone, hstands⟩
  | cons x rest ih =>
    rcases hcons hstands hruns with ⟨rfl, rfl⟩ | hskip | ⟨hroom, hx, mid, hmid, hlast⟩
    · exact ⟨[], List.nil_sublist _, nofun, (List.append_nil _).symm, hdone, hstands⟩
    · obtain ⟨taken, hsub, hwanted, hl⟩ := ih hskip hstands hdone
      exact ⟨taken, hsub.cons x, hwanted, hl⟩
    · have hlength : (done ++ [shown x]).length ≤ limit := by
        rw [List.length_append, List.length_singleton]
        omega
      obtain ⟨taken, hsub, hwanted, rfl, hlimit, hend⟩ := ih hlast hmid hlength
      rw [List.length_append, List.length_singleton] at hlimit
      refine ⟨x :: taken, hsub.cons_cons x, ?_, ?_, ?_, hend⟩
      · intro y hy
        rcases List.mem_cons.mp hy with rfl | hy
        · exact hx
        · exact hwanted y hy
      · rw [List.append_assoc]
        rfl
      · rw [List.length_cons]
        omega

end StateSpec
