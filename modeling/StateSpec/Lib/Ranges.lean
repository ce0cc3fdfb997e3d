/-
  RANGES UNDER TWO ORDERS — what happens to a range query when the ends are compared through an
  encoding.

  * `compare_of_diff`, `list_cases` — lists compare at the first place where they differ;
  * `Within` — the items between two optional ends, each inclusive or exclusive, for a way `cmp` of
    comparing an item with an end;
  * `within_agree_iff` — two ways of comparing that agree on equality accept the same item exactly
    when every end they read differently (`Misread`) is made up for by the other one (`MadeUpFor`).
-/
import Mathlib.Tactic.Tauto

namespace StateSpec

/-! ## Comparing lists -/

section Lists

variable {α : Type} [Ord α]

theorem compare_append_left [Std.ReflOrd α] (pre xs ys : List α) :
    compare (pre ++ xs) (pre ++ ys) = compare xs ys := by
  induction pre with
  | nil => rfl
  | cons a pre ih =>
    rw [List.cons_append, List.cons_append, List.compare_eq_compareLex, List.compareLex_cons_cons,
      show compare a a = .eq from Std.ReflCmp.compare_self, Ordering.eq_then,
      ← List.compare_eq_compareLex, ih]

/-- Lists compare at the first place where they differ. -/
theorem compare_of_diff [Std.ReflOrd α] (pre : List α) {a b : α} (h : compare a b ≠ .eq)
    (xs ys : List α) : compare (pre ++ a :: xs) (pre ++ b :: ys) = compare a b := by
  rw [compare_append_left, List.compare_eq_compareLex, List.compareLex_cons_cons]
  cases hab : compare a b with
  | lt => rfl
  | gt => rfl
  | eq => exact absurd hab h

/-- A list that ends where another one goes on is the smaller one. -/
theorem compare_append_cons [Std.ReflOrd α] (xs : List α) (y : α) (ys : List α) :
    compare xs (xs ++ y :: ys) = .lt ∧ compare (xs ++ y :: ys) xs = .gt := by
  have hleft := compare_append_left xs [] (y :: ys)
  have hright := compare_append_left xs (y :: ys) []
  rw [List.append_nil] at hleft hright
  exact ⟨hleft, hright⟩

omit [Ord α] in
/-- Two lists are the same, one goes on where the other ends, or they differ at a first place. -/
theorem list_cases (xs ys : List α) :
    xs = ys ∨ (∃ y rest, ys = xs ++ y :: rest) ∨ (∃ x rest, xs = ys ++ x :: rest) ∨
      ∃ pre a b rest rest', a ≠ b ∧ xs = pre ++ a :: rest ∧ ys = pre ++ b :: rest' := by
  induction xs generalizing ys with
  | nil =>
    cases ys with
    | nil => exact Or.inl rfl
    | cons y ys => exact Or.inr (Or.inl ⟨y, ys, rfl⟩)
  | cons x xs ih =>
    cases ys with
    | nil => exact Or.inr (Or.inr (Or.inl ⟨x, xs, rfl⟩))
    | cons y ys =>
      by_cases hxy : x = y
      · subst hxy
        rcases ih ys with rfl | ⟨y, rest, rfl⟩ | ⟨z, rest, rfl⟩ | ⟨pre, a, b, rest, rest', hab, rfl, rfl⟩
        · exact Or.inl rfl
        · exact Or.inr (Or.inl ⟨y, rest, rfl⟩)
        · exact Or.inr (Or.inr (Or.inl ⟨z, rest, rfl⟩))
        · exact Or.inr (Or.inr (Or.inr ⟨x :: pre, a, b, rest, rest', hab, rfl, rfl⟩))
      · exact Or.inr (Or.inr (Or.inr ⟨[], x, y, xs, ys, hxy, rfl, rfl⟩))

/-- Lists that neither is a beginning of the other compare before they end, whatever follows. -/
theorem compare_of_apart [Std.LawfulEqOrd α] {xs ys : List α} (h : ¬ xs <+: ys)
    (h' : ¬ ys <+: xs) (rest rest' : List α) :
    compare (xs ++ rest) (ys ++ rest') = compare xs ys ∧ compare xs ys ≠ .eq := by
  rcases list_cases xs ys with rfl | ⟨y, ys', rfl⟩ | ⟨x, xs', rfl⟩ | ⟨pre, a, b, xs', ys', hab, rfl, rfl⟩
  · exact absurd List.prefix_rfl h
  · exact absurd (List.prefix_append _ _) h
  · exact absurd (List.prefix_append _ _) h'
  · have hne : compare a b ≠ .eq := fun heq => hab (Std.compare_eq_iff_eq.mp heq)
    rw [List.append_assoc, List.append_assoc, List.cons_append, List.cons_append,
      compare_of_diff pre hne, compare_of_diff pre hne]
    exact ⟨rfl, hne⟩

omit [Ord α] in
/-- Two lists first differ at one place only. -/
theorem first_difference {pre pre' : List α} {a b a' b' : α} {xs ys xs' ys' : List α} (hab : a ≠ b)
    (hab' : a' ≠ b') (h : pre ++ a :: xs = pre' ++ a' :: xs')
    (h' : pre ++ b :: ys = pre' ++ b' :: ys') : pre = pre' ∧ a = a' ∧ b = b' := by
  induction pre generalizing pre' with
  | nil =>
    cases pre' with
    | nil => exact ⟨rfl, (List.cons.inj h).1, (List.cons.inj h').1⟩
    | cons c pre' => exact absurd ((List.cons.inj h).1.trans (List.cons.inj h').1.symm) hab
  | cons c pre ih =>
    cases pre' with
    | nil => exact absurd ((List.cons.inj h).1.symm.trans (List.cons.inj h').1) hab'
    | cons c' pre' =>
      obtain ⟨hc, htail⟩ := List.cons.inj h
      obtain ⟨hpre, hparts⟩ := ih htail (List.cons.inj h').2
      exact ⟨by rw [hc, hpre], hparts⟩

end Lists

/-! ## Ranges -/

section Ranges

variable {α β : Type} (inclusive : β → Bool) (cmp cmp' : α → β → Ordering) (a : α)

/-- On the right side of a lower end, if there is one. -/
def Above (lower : Option β) : Prop :=
  ∀ b, lower = some b → (if inclusive b then cmp a b != .lt else cmp a b == .gt) = true

/-- On the right side of an upper end, if there is one. -/
def Below (upper : Option β) : Prop :=
  ∀ b, upper = some b → (if inclusive b then cmp a b != .gt else cmp a b == .lt) = true

/-- Between two ends. -/
def Within (lower upper : Option β) : Prop := Above inclusive cmp a lower ∧ Below inclusive cmp a upper

/-- The two ways of comparing put an item on different sides of an end. -/
def Misread (bound : Option β) : Prop := ∃ b, bound = some b ∧ cmp a b ≠ cmp' a b

/-- What becomes of an item when its lower end is misread (`ml`) or its upper one (`mu`): an end that
    is misread is made up for by the other end, which excludes the item, or is misread too while just
    one of them excludes it. -/
def MadeUpFor (ml mu above below : Prop) : Prop :=
  (ml → ¬ mu → ¬ below) ∧ (mu → ¬ ml → ¬ above) ∧ (ml → mu → (above ↔ ¬ below))

variable {inclusive cmp cmp' a}

/-- An end that is read alike decides alike. -/
theorem above_congr {lower : Option β} (h : ¬ Misread cmp cmp' a lower) :
    Above inclusive cmp a lower ↔ Above inclusive cmp' a lower := by
  refine forall_congr' fun b => forall_congr' fun hb => ?_
  have hsame : cmp a b = cmp' a b := not_not.mp fun hne => h ⟨b, hb, hne⟩
  rw [hsame]

theorem below_congr {upper : Option β} (h : ¬ Misread cmp cmp' a upper) :
    Below inclusive cmp a upper ↔ Below inclusive cmp' a upper := by
  refine forall_congr' fun b => forall_congr' fun hb => ?_
  have hsame : cmp a b = cmp' a b := not_not.mp fun hne => h ⟨b, hb, hne⟩
  rw [hsame]

/-- Where the two ways agree on equality, an end that is read differently is read as its opposite. -/
theorem opposite_of_misread {b : β} (heq : cmp a b = .eq ↔ cmp' a b = .eq)
    (h : cmp a b ≠ cmp' a b) :
    (cmp a b = .lt ∧ cmp' a b = .gt) ∨ (cmp a b = .gt ∧ cmp' a b = .lt) := by
  cases hc : cmp a b <;> cases hc' : cmp' a b <;> simp_all

theorem above_of_misread {lower : Option β}
    (heq : ∀ b, lower = some b → (cmp a b = .eq ↔ cmp' a b = .eq))
    (h : Misread cmp cmp' a lower) :
    Above inclusive cmp a lower ↔ ¬ Above inclusive cmp' a lower := by
  obtain ⟨b, rfl, hne⟩ := h
  simp only [Above, Option.some_inj, forall_eq']
  rcases opposite_of_misread (heq b rfl) hne with ⟨h, h'⟩ | ⟨h, h'⟩ <;>
    rw [h, h'] <;> cases inclusive b <;> decide

theorem below_of_misread {upper : Option β}
    (heq : ∀ b, upper = some b → (cmp a b = .eq ↔ cmp' a b = .eq))
    (h : Misread cmp cmp' a upper) :
    Below inclusive cmp a upper ↔ ¬ Below inclusive cmp' a upper := by
  obtain ⟨b, rfl, hne⟩ := h
  simp only [Below, Option.some_inj, forall_eq']
  rcases opposite_of_misread (heq b rfl) hne with ⟨h, h'⟩ | ⟨h, h'⟩ <;>
    rw [h, h'] <;> cases inclusive b <;> decide

/-- **When two ways of comparing accept the same item.** -/
theorem within_agree_iff {lower upper : Option β}
    (hlower : ∀ b, lower = some b → (cmp a b = .eq ↔ cmp' a b = .eq))
    (hupper : ∀ b, upper = some b → (cmp a b = .eq ↔ cmp' a b = .eq)) :
    (Within inclusive cmp a lower upper ↔ Within inclusive cmp' a lower upper) ↔
      MadeUpFor (Misread cmp cmp' a lower) (Misread cmp cmp' a upper)
        (Above inclusive cmp' a lower) (Below inclusive cmp' a upper) := by
  rw [Within, Within, MadeUpFor]
  by_cases hl : Misread cmp cmp' a lower <;> by_cases hu : Misread cmp cmp' a upper
  · rw [above_of_misread hlower hl, below_of_misread hupper hu]
    tauto
  · rw [above_of_misread hlower hl, below_congr hu]
    tauto
  · rw [above_congr hl, below_of_misread hupper hu]
    tauto
  · rw [above_congr hl, below_congr hu]
    tauto

end Ranges

end StateSpec
