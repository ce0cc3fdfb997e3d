/-
  DELIMITERS — a text is cut at the first place where a delimiter stands.

  What is in front of the cut is `Clear`: the delimiter does not begin in it, not even where it would
  end behind the cut.  So there is no other cut (`cut_complete`, `cut_sound`).
-/
import Mathlib.Data.List.Infix

namespace StateSpec.Delimiter

variable {α : Type} {delimiter text front behind : List α}

/-- What stands in front of the first delimiter of a text, and behind it. -/
def cut [DecidableEq α] (delimiter : List α) : List α → Option (List α × List α)
  | [] => none
  | a :: rest =>
    if delimiter <+: a :: rest then some ([], (a :: rest).drop delimiter.length)
    else (cut delimiter rest).map fun p => (a :: p.1, p.2)

/-- The delimiter does not begin in the text, whatever stands behind it. -/
def Clear (delimiter text : List α) : Prop := ¬ delimiter <:+: text ++ delimiter.dropLast

theorem begins_text (front behind : List α) :
    front ++ delimiter.dropLast <+: front ++ (delimiter ++ behind) :=
  (List.prefix_append_right_inj front).mpr <|
    List.IsPrefix.trans ( List.dropLast_prefix delimiter) (List.prefix_append delimiter behind)

/-- A clear text has no delimiter at its beginning, also with one behind it. -/
theorem Clear.not_begins {a : α} (h : Clear delimiter (a :: front)) (behind : List α) :
    ¬ delimiter <+: a :: (front ++ (delimiter ++ behind)) := by
  intro hbegins
  apply h
  apply List.IsPrefix.isInfix
  apply List.prefix_of_prefix_length_le hbegins (begins_text (a :: front) behind)
  simp only [List.length_append, List.length_cons, List.length_dropLast]
  omega

theorem Clear.tail {a : α} (h : Clear delimiter (a :: front)) : Clear delimiter front := by
  intro hinfix
  exact h (List.infix_cons_iff.mpr (.inr hinfix))

variable [DecidableEq α]

theorem cut_complete (hd : delimiter ≠ []) (h : Clear delimiter front) :
    cut delimiter (front ++ (delimiter ++ behind)) = some (front, behind) := by
  induction front with
  | nil =>
    obtain ⟨a, rest, rfl⟩ := List.exists_cons_of_ne_nil hd
    have hbegins : a :: rest <+: a :: (rest ++ behind) := List.prefix_append (a :: rest) behind
    show cut (a :: rest) (a :: (rest ++ behind)) = _
    rw [cut, if_pos hbegins]
    simp
  | cons a front ih =>
    show cut delimiter (a :: (front ++ (delimiter ++ behind))) = _
    rw [cut, if_neg (h.not_begins behind), ih h.tail]
    rfl

theorem cut_sound (hd : delimiter ≠ []) (h : cut delimiter text = some (front, behind)) :
    text = front ++ (delimiter ++ behind) ∧ Clear delimiter front := by
  induction text generalizing front with
  | nil => cases h
  | cons a rest ih =>
    rw [cut] at h
    split at h
    case isTrue hbegins =>
      obtain ⟨rfl, rfl⟩ := Prod.mk.inj (Option.some.inj h)
      refine ⟨(List.prefix_iff_eq_append.mp hbegins).symm, ?_⟩
      -- nothing is in front, and the delimiter does not fit into a part of itself
      intro hinfix
      have hlength := hinfix.length_le
      have hpos := List.length_pos_iff.mpr hd
      simp only [List.nil_append, List.length_dropLast] at hlength
      omega
    case isFalse hbegins =>
      obtain ⟨⟨front, behind⟩, hcut, hp⟩ := Option.map_eq_some_iff.mp h
      obtain ⟨rfl, rfl⟩ := Prod.mk.inj hp
      obtain ⟨rfl, hclear⟩ := ih hcut
      refine ⟨rfl, ?_⟩
      intro hinfix
      rcases List.infix_cons_iff.mp hinfix with hhere | hlater
      · apply hbegins
        exact hhere.trans (begins_text (a :: front) behind)
      · exact hclear hlater

theorem cut_eq_none (hd : delimiter ≠ []) : cut delimiter text = none ↔ ¬ delimiter <:+: text := by
  induction text with
  | nil => simpa [cut] using hd
  | cons a rest ih =>
    rw [cut, List.infix_cons_iff]
    split
    case isTrue hbegins => simp [hbegins]
    case isFalse hbegins => simp [hbegins, ih]

theorem cut_length (hd : delimiter ≠ []) (h : cut delimiter text = some (front, behind)) :
    behind.length < text.length := by
  obtain ⟨rfl, -⟩ := cut_sound hd h
  have hpos := List.length_pos_iff.mpr hd
  simp only [List.length_append]
  omega

end StateSpec.Delimiter
