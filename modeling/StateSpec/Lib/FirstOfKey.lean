/-
  THE FIRST OF EACH KEY — lists that are filled item by item and take an item only if its key is new.

  1. Filling a list appends the items that are `fresh` (`foldl_enlist`).
  2. A key is found where it would be found if every item was taken (`find_fresh`).
  3. Nothing is left out exactly when the keys are distinct (`fresh_eq_self_iff`).
-/
import Mathlib.Data.List.Nodup

namespace StateSpec

variable {α κ : Type} [DecidableEq κ] (key : α → κ)

/-- The item, if its key is new. -/
def enlist (items : List α) (item : α) : List α :=
  if items.any fun other => decide (key other = key item) then items else items ++ [item]

/-- The items whose key is neither `seen` nor that of an item before them. -/
def fresh : List κ → List α → List α
  | _, [] => []
  | seen, item :: rest =>
    if key item ∈ seen then fresh seen rest else item :: fresh (key item :: seen) rest

variable {key}

theorem fresh_congr {seen seen' : List κ} {items : List α} (h : ∀ k, k ∈ seen ↔ k ∈ seen') :
    fresh key seen items = fresh key seen' items := by
  induction items generalizing seen seen' with
  | nil => rfl
  | cons item rest ih =>
    rw [fresh, fresh]
    by_cases hseen : key item ∈ seen
    · rw [if_pos hseen, if_pos ((h _).mp hseen)]
      exact ih h
    · rw [if_neg hseen, if_neg fun hseen' => hseen ((h _).mpr hseen')]
      refine congrArg (List.cons item) (ih fun k => ?_)
      rw [List.mem_cons, List.mem_cons, h]

/-- Taking an item makes its key seen. -/
theorem fresh_concat (acc : List α) (item : α) (rest : List α) :
    fresh key ((acc ++ [item]).map key) rest = fresh key (key item :: acc.map key) rest := by
  refine fresh_congr fun k => ?_
  rw [List.map_append, List.mem_append, List.mem_cons, List.map_singleton, List.mem_singleton]
  exact or_comm

theorem enlist_old {items : List α} {item : α} (h : key item ∈ items.map key) :
    enlist key items item = items := by
  obtain ⟨other, hother, heq⟩ := List.mem_map.mp h
  rw [enlist, if_pos]
  rw [List.any_eq_true]
  exact ⟨other, hother, decide_eq_true heq⟩

theorem enlist_new {items : List α} {item : α} (h : key item ∉ items.map key) :
    enlist key items item = items ++ [item] := by
  rw [enlist, if_neg]
  rw [List.any_eq_true]
  rintro ⟨other, hother, heq⟩
  exact h (List.mem_map.mpr ⟨other, hother, of_decide_eq_true heq⟩)

/-- Filling a list appends what is fresh. -/
theorem foldl_enlist (acc items : List α) :
    items.foldl (enlist key) acc = acc ++ fresh key (acc.map key) items := by
  induction items generalizing acc with
  | nil => exact (List.append_nil acc).symm
  | cons item rest ih =>
    rw [List.foldl_cons, ih, fresh]
    by_cases hseen : key item ∈ acc.map key
    · rw [enlist_old hseen, if_pos hseen]
    · rw [enlist_new hseen, if_neg hseen, fresh_concat, List.append_assoc, List.singleton_append]

theorem mem_of_fresh {seen : List κ} {items : List α} {item : α} (h : item ∈ fresh key seen items) :
    item ∈ items := by
  induction items generalizing seen with
  | nil => exact h
  | cons first rest ih =>
    rw [fresh] at h
    split at h
    · exact List.mem_cons_of_mem _ (ih h)
    · rcases List.mem_cons.mp h with rfl | h
      · exact List.mem_cons_self
      · exact List.mem_cons_of_mem _ (ih h)

/-- A key is fresh where an item has it and it was not seen. -/
theorem mem_fresh_keys {seen : List κ} {items : List α} {k : κ} :
    k ∈ (fresh key seen items).map key ↔ k ∈ items.map key ∧ k ∉ seen := by
  induction items generalizing seen with
  | nil => simp [fresh]
  | cons item rest ih =>
    rw [fresh, List.map_cons, List.mem_cons]
    by_cases hseen : key item ∈ seen
    · rw [if_pos hseen, ih]
      constructor
      · rintro ⟨hmem, hnot⟩
        exact ⟨.inr hmem, hnot⟩
      · rintro ⟨rfl | hmem, hnot⟩
        · exact absurd hseen hnot
        · exact ⟨hmem, hnot⟩
    · rw [if_neg hseen, List.map_cons, List.mem_cons, ih, List.mem_cons, not_or]
      constructor
      · rintro (rfl | ⟨hmem, -, hnot⟩)
        · exact ⟨.inl rfl, hseen⟩
        · exact ⟨.inr hmem, hnot⟩
      · rintro ⟨rfl | hmem, hnot⟩
        · exact .inl rfl
        · by_cases hk : k = key item
          · exact .inl hk
          · exact .inr ⟨hmem, hk, hnot⟩

/-- Fresh keys are distinct. -/
theorem nodup_fresh (seen : List κ) (items : List α) : ((fresh key seen items).map key).Nodup := by
  induction items generalizing seen with
  | nil => exact List.nodup_nil
  | cons item rest ih =>
    rw [fresh]
    split
    · exact ih seen
    · rw [List.map_cons, List.nodup_cons]
      refine ⟨fun hmem => ?_, ih _⟩
      exact (mem_fresh_keys.mp hmem).2 List.mem_cons_self

/-- The first item of a key is the one that would be first if all were taken. -/
theorem find_fresh (acc items : List α) (k : κ) :
    (acc ++ fresh key (acc.map key) items).find? (fun item => decide (key item = k)) =
      (acc ++ items).find? fun item => decide (key item = k) := by
  induction items generalizing acc with
  | nil => rfl
  | cons item rest ih =>
    rw [fresh]
    by_cases hseen : key item ∈ acc.map key
    · rw [if_pos hseen, ih]
      obtain ⟨other, hother, heq⟩ := List.mem_map.mp hseen
      rw [List.find?_append, List.find?_append, List.find?_cons]
      by_cases hk : key item = k
      · have hfound : (acc.find? fun item => decide (key item = k)).isSome := by
          rw [List.find?_isSome]
          exact ⟨other, hother, decide_eq_true (heq.trans hk)⟩
        obtain ⟨found, hfound⟩ := Option.isSome_iff_exists.mp hfound
        rw [hfound, Option.some_or, Option.some_or]
      · rw [decide_eq_false hk]
    · have hmore := ih (acc ++ [item])
      rw [if_neg hseen]
      rw [fresh_concat, List.append_assoc, List.append_assoc, List.singleton_append,
        List.singleton_append] at hmore
      exact hmore

theorem fresh_eq_self_iff {seen : List κ} {items : List α} :
    fresh key seen items = items ↔ (items.map key).Nodup ∧ ∀ item ∈ items, key item ∉ seen := by
  constructor
  · intro h
    refine ⟨h ▸ nodup_fresh seen items, fun item hitem => ?_⟩
    have hkey : key item ∈ (fresh key seen items).map key := by
      rw [h]
      exact List.mem_map_of_mem hitem
    exact (mem_fresh_keys.mp hkey).2
  · rintro ⟨hnodup, hall⟩
    induction items generalizing seen with
    | nil => rfl
    | cons item rest ih =>
      rw [List.map_cons, List.nodup_cons] at hnodup
      rw [fresh, if_neg (hall item List.mem_cons_self), ih hnodup.2]
      intro other hother hmem
      rcases List.mem_cons.mp hmem with heq | hmem
      · exact hnodup.1 (heq ▸ List.mem_map_of_mem hother)
      · exact hall other (List.mem_cons_of_mem _ hother) hmem

end StateSpec
