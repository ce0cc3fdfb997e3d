/-
  THE FOREMOST — the search for an item with the largest measure, where an item takes the place of one before it
  only if it is larger.

  1. **Program** — `foremost`: the loop over the items, with the best so far and its measure.
  2. **Specification** — `Foremost`: nothing before the item is as large, and nothing behind it is larger.
  3. **Correctness** — the loop ends with the foremost item (`foremost_eq_some_iff`), or with none where all
     measures are 0 (`foremost_eq_none_iff`).
-/
import Mathlib.Data.List.Basic

namespace StateSpec

variable {α : Type}

section

variable (measure : α → Nat)

/-- An iteration: the item is taken if it is larger than what has been found. -/
def takeLarger (found : Option α × Nat) (item : α) : Option α × Nat :=
  if found.2 < measure item then (some item, measure item) else found

/-- The loop over the items. -/
def foremost (items : List α) : Option α := (items.foldl (takeLarger measure) (none, 0)).1

/-- The item is the first of the largest ones, and not nothing. -/
structure Foremost (items : List α) (item : α) : Prop where
  positive : 0 < measure item
  place : ∃ front back, items = front ++ item :: back ∧ (∀ other ∈ front, measure other < measure item) ∧
    ∀ other ∈ back, measure other ≤ measure item

end

variable {measure : α → Nat} {items : List α} {item : α}

theorem Foremost.mem (h : Foremost measure items item) : item ∈ items := by
  obtain ⟨front, back, rfl, -, -⟩ := h.place
  exact List.mem_append_right _ List.mem_cons_self

theorem Foremost.le (h : Foremost measure items item) : ∀ other ∈ items, measure other ≤ measure item := by
  obtain ⟨front, back, rfl, hfront, hback⟩ := h.place
  intro other hother
  rcases List.mem_append.mp hother with hother | hother
  · exact Nat.le_of_lt (hfront other hother)
  rcases List.mem_cons.mp hother with rfl | hother
  · exact Nat.le_refl _
  · exact hback other hother

/-- Only the measures of the items count. -/
theorem Foremost.congr {measure' : α → Nat} (h : Foremost measure items item)
    (hsame : ∀ other ∈ items, measure other = measure' other) : Foremost measure' items item := by
  have hitem := hsame item h.mem
  obtain ⟨front, back, rfl, hfront, hback⟩ := h.place
  refine ⟨hitem ▸ h.positive, front, back, rfl, fun other hother => ?_, fun other hother => ?_⟩
  · rw [← hsame other (List.mem_append_left _ hother), ← hitem]
    exact hfront other hother
  · rw [← hsame other (List.mem_append_right _ (List.mem_cons_of_mem _ hother)), ← hitem]
    exact hback other hother

/-- What is not larger than what has been found changes nothing. -/
theorem foldl_small {found : Option α × Nat} (h : ∀ item ∈ items, measure item ≤ found.2) :
    items.foldl (takeLarger measure) found = found := by
  induction items with
  | nil => rfl
  | cons item rest ih =>
    have hsmall : ¬ found.2 < measure item := Nat.not_lt.mpr (h item List.mem_cons_self)
    rw [List.foldl_cons, takeLarger, if_neg hsmall]
    exact ih fun other hother => h other (List.mem_cons_of_mem _ hother)

/-- The measure that has been found bounds those of the items. -/
theorem le_foldl (found : Option α × Nat) :
    found.2 ≤ (items.foldl (takeLarger measure) found).2 ∧
      ∀ item ∈ items, measure item ≤ (items.foldl (takeLarger measure) found).2 := by
  induction items generalizing found with
  | nil => exact ⟨Nat.le_refl _, nofun⟩
  | cons item rest ih =>
    have hstep : found.2 ≤ (takeLarger measure found item).2 ∧
        measure item ≤ (takeLarger measure found item).2 := by
      unfold takeLarger
      split
      · rename_i hlarger
        exact ⟨Nat.le_of_lt hlarger, Nat.le_refl _⟩
      · rename_i hsmall
        exact ⟨Nat.le_refl _, Nat.not_lt.mp hsmall⟩
    obtain ⟨hfound, hrest⟩ := ih (takeLarger measure found item)
    rw [List.foldl_cons]
    refine ⟨Nat.le_trans hstep.1 hfound, fun other hother => ?_⟩
    rcases List.mem_cons.mp hother with rfl | hother
    · exact Nat.le_trans hstep.2 hfound
    · exact hrest other hother

/-- A bound of the measures bounds what is found. -/
theorem foldl_lt {found : Option α × Nat} {bound : Nat} (hfound : found.2 < bound)
    (h : ∀ item ∈ items, measure item < bound) : (items.foldl (takeLarger measure) found).2 < bound := by
  induction items generalizing found with
  | nil => exact hfound
  | cons item rest ih =>
    rw [List.foldl_cons]
    refine ih ?_ fun other hother => h other (List.mem_cons_of_mem _ hother)
    unfold takeLarger
    split
    · exact h item List.mem_cons_self
    · exact hfound

/-- What the loop ends with is what it began with, or the foremost of the items. -/
theorem foldl_cases (found : Option α × Nat) :
    items.foldl (takeLarger measure) found = found ∨
      ∃ item, Foremost measure items item ∧ items.foldl (takeLarger measure) found = (some item, measure item) := by
  induction items generalizing found with
  | nil => exact .inl rfl
  | cons first rest ih =>
    rw [List.foldl_cons]
    by_cases hlarger : found.2 < measure first
    · have hpositive : 0 < measure first := Nat.lt_of_le_of_lt (Nat.zero_le _) hlarger
      have hbound := (@le_foldl _ measure rest (takeLarger measure found first)).2
      have htaken : takeLarger measure found first = (some first, measure first) := if_pos hlarger
      rw [htaken] at hbound ⊢
      refine .inr ?_
      rcases ih (some first, measure first) with hsame | ⟨item, hitem, heq⟩
      · rw [hsame] at hbound ⊢
        exact ⟨first, ⟨hpositive, [], rest, rfl, nofun, hbound⟩, rfl⟩
      · by_cases hfirst : measure first < measure item
        · obtain ⟨front, back, rfl, hfront, hback⟩ := hitem.place
          exact ⟨item, ⟨hitem.positive, first :: front, back, rfl,
            List.forall_mem_cons.mpr ⟨hfirst, hfront⟩, hback⟩, heq⟩
        · -- the first item is as large, so nothing takes its place
          have hall : ∀ other ∈ rest, measure other ≤ measure first := fun other hother =>
            Nat.le_trans (hitem.le other hother) (Nat.not_lt.mp hfirst)
          exact ⟨first, ⟨hpositive, [], rest, rfl, nofun, hall⟩, foldl_small hall⟩
    · have hkept : takeLarger measure found first = found := if_neg hlarger
      rw [hkept]
      rcases ih found with hsame | ⟨item, hitem, heq⟩
      · exact .inl hsame
      · have hgrows := (@le_foldl _ measure rest found).1
        rw [heq] at hgrows
        by_cases hequal : measure item = found.2
        · have hall : ∀ other ∈ rest, measure other ≤ found.2 := fun other hother =>
            hequal ▸ hitem.le other hother
          exact .inl (foldl_small hall)
        · have hgrows : found.2 ≤ measure item := hgrows
          obtain ⟨front, back, rfl, hfront, hback⟩ := hitem.place
          have hfirst : measure first < measure item := by omega
          exact .inr ⟨item, ⟨hitem.positive, first :: front, back, rfl,
            List.forall_mem_cons.mpr ⟨hfirst, hfront⟩, hback⟩, heq⟩

/-- **The loop finds the foremost item.** -/
theorem foremost_eq_some_iff : foremost measure items = some item ↔ Foremost measure items item := by
  constructor
  · intro h
    rcases @foldl_cases _ measure items (none, 0) with hnone | ⟨other, hother, heq⟩
    · rw [foremost, hnone] at h
      cases h
    · rw [foremost, heq] at h
      obtain rfl : other = item := Option.some.inj h
      exact hother
  · intro h
    obtain ⟨front, back, rfl, hfront, hback⟩ := h.place
    have hbefore : (front.foldl (takeLarger measure) (none, 0)).2 < measure item := foldl_lt h.positive hfront
    have htaken : takeLarger measure (front.foldl (takeLarger measure) (none, 0)) item =
        (some item, measure item) := if_pos hbefore
    rw [foremost, List.foldl_append, List.foldl_cons, htaken, foldl_small hback]

theorem foremost_eq_none_iff : foremost measure items = none ↔ ∀ item ∈ items, measure item = 0 := by
  constructor
  · intro h
    have hbound := (@le_foldl _ measure items (none, 0)).2
    rcases @foldl_cases _ measure items (none, 0) with hnone | ⟨item, -, heq⟩
    · rw [hnone] at hbound
      exact fun item hitem => Nat.le_zero.mp (hbound item hitem)
    · rw [foremost, heq] at h
      cases h
  · intro h
    have hsmall := @foldl_small _ measure items (none, 0)
      fun item hitem => Nat.le_of_eq (h item hitem)
    rw [foremost, hsmall]

theorem Foremost.unique {other : α} (h : Foremost measure items item) (hother : Foremost measure items other) :
    item = other :=
  Option.some.inj ((foremost_eq_some_iff.mpr h).symm.trans (foremost_eq_some_iff.mpr hother))

end StateSpec
