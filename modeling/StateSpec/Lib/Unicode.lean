/-
  UNICODE ENCODINGS — texts as lists of characters, in UTF-8 and in UTF-16.

  A text is a list of scalar values (`Char`), so it has no surrogates.
  1. `utf8`, `utf16` — the bytes and the code units of a text.
  2. An ASCII character is one byte (`utf8Char_ascii`), any other is bytes from 0x80 on (`high_of_mem`).
  3. ORDERS.  Bytes order texts by their characters, code units do too but for the characters from U+E000 to
     U+FFFF, which come behind those above U+FFFF: the orders of two texts agree unless they first differ in one
     of each (`compare_utf16_iff`).
-/
import StateSpec.Lib.Bytes
import Mathlib.Tactic.IntervalCases

namespace StateSpec.Unicode

/-! ## The encodings -/

def utf8Char (c : Char) : Bytes := String.utf8EncodeChar c

/-- The bytes of a text. -/
def utf8 (text : List Char) : Bytes := text.flatMap utf8Char

def utf16Char (c : Char) : List UInt16 :=
  if c.toNat < 0x10000 then [UInt16.ofNat c.toNat]
  else [UInt16.ofNat (0xD800 + (c.toNat - 0x10000) / 0x400), UInt16.ofNat (0xDC00 + (c.toNat - 0x10000) % 0x400)]

/-- The code units of a text. -/
def utf16 (text : List Char) : List UInt16 := text.flatMap utf16Char

@[simp]
theorem utf8_nil : utf8 [] = [] := rfl

@[simp]
theorem utf8_cons (c : Char) (text : List Char) : utf8 (c :: text) = utf8Char c ++ utf8 text := rfl

@[simp]
theorem utf16_nil : utf16 [] = [] := rfl

@[simp]
theorem utf16_cons (c : Char) (text : List Char) : utf16 (c :: text) = utf16Char c ++ utf16 text := rfl

theorem utf8_append (front text : List Char) : utf8 (front ++ text) = utf8 front ++ utf8 text :=
  List.flatMap_append

/-- A scalar value is no surrogate. -/
theorem scalar (c : Char) : c.toNat < 0xD800 ∨ 0xDFFF < c.toNat ∧ c.toNat < 0x110000 := c.valid

/-! ## The bytes of a character -/

section Bytes

variable {c : Char}

theorem utf8Char_one (h : c.toNat ≤ 0x7F) : utf8Char c = [UInt8.ofNat c.toNat] := if_pos h

theorem utf8Char_two (h : 0x7F < c.toNat) (h' : c.toNat ≤ 0x7FF) :
    utf8Char c = [UInt8.ofNat (0xC0 + c.toNat / 64), UInt8.ofNat (0x80 + c.toNat % 64)] := by
  have hlead : c.toNat / 64 % 0x20 + 0xC0 = 0xC0 + c.toNat / 64 := by omega
  have hlast : c.toNat % 0x40 + 0x80 = 0x80 + c.toNat % 64 := by omega
  rw [← hlead, ← hlast]
  exact (if_neg (by simpa using h)).trans (if_pos h')

theorem utf8Char_three (h : 0x7FF < c.toNat) (h' : c.toNat ≤ 0xFFFF) :
    utf8Char c = [UInt8.ofNat (0xE0 + c.toNat / 4096), UInt8.ofNat (0x80 + c.toNat / 64 % 64),
      UInt8.ofNat (0x80 + c.toNat % 64)] := by
  have hlead : c.toNat / 4096 % 0x10 + 0xE0 = 0xE0 + c.toNat / 4096 := by omega
  have hmiddle : c.toNat / 64 % 0x40 + 0x80 = 0x80 + c.toNat / 64 % 64 := by omega
  have hlast : c.toNat % 0x40 + 0x80 = 0x80 + c.toNat % 64 := by omega
  rw [← hlead, ← hmiddle, ← hlast]
  exact (if_neg (by show ¬ c.toNat ≤ 0x7F; omega)).trans ((if_neg (by show ¬ c.toNat ≤ 0x7FF; omega)).trans
    (if_pos h'))

theorem utf8Char_four (h : 0xFFFF < c.toNat) :
    utf8Char c = [UInt8.ofNat (0xF0 + c.toNat / 262144), UInt8.ofNat (0x80 + c.toNat / 4096 % 64),
      UInt8.ofNat (0x80 + c.toNat / 64 % 64), UInt8.ofNat (0x80 + c.toNat % 64)] := by
  have hscalar := scalar c
  have hlead : c.toNat / 262144 % 0x08 + 0xF0 = 0xF0 + c.toNat / 262144 := by omega
  have hsecond : c.toNat / 4096 % 0x40 + 0x80 = 0x80 + c.toNat / 4096 % 64 := by omega
  have hthird : c.toNat / 64 % 0x40 + 0x80 = 0x80 + c.toNat / 64 % 64 := by omega
  have hlast : c.toNat % 0x40 + 0x80 = 0x80 + c.toNat % 64 := by omega
  rw [← hlead, ← hsecond, ← hthird, ← hlast]
  exact (if_neg (by show ¬ c.toNat ≤ 0x7F; omega)).trans ((if_neg (by show ¬ c.toNat ≤ 0x7FF; omega)).trans
    (if_neg (by show ¬ c.toNat ≤ 0xFFFF; omega)))

/-- The four lengths of a character. -/
theorem utf8Char_cases (c : Char) :
    (c.toNat ≤ 0x7F ∧ utf8Char c = [UInt8.ofNat c.toNat]) ∨
    (0x7F < c.toNat ∧ c.toNat ≤ 0x7FF ∧
      utf8Char c = [UInt8.ofNat (0xC0 + c.toNat / 64), UInt8.ofNat (0x80 + c.toNat % 64)]) ∨
    (0x7FF < c.toNat ∧ c.toNat ≤ 0xFFFF ∧
      utf8Char c = [UInt8.ofNat (0xE0 + c.toNat / 4096), UInt8.ofNat (0x80 + c.toNat / 64 % 64),
        UInt8.ofNat (0x80 + c.toNat % 64)]) ∨
    (0xFFFF < c.toNat ∧ c.toNat < 0x110000 ∧
      utf8Char c = [UInt8.ofNat (0xF0 + c.toNat / 262144), UInt8.ofNat (0x80 + c.toNat / 4096 % 64),
        UInt8.ofNat (0x80 + c.toNat / 64 % 64), UInt8.ofNat (0x80 + c.toNat % 64)]) := by
  have hscalar := scalar c
  by_cases h₁ : c.toNat ≤ 0x7F
  · exact .inl ⟨h₁, utf8Char_one h₁⟩
  by_cases h₂ : c.toNat ≤ 0x7FF
  · exact .inr (.inl ⟨by omega, h₂, utf8Char_two (by omega) h₂⟩)
  by_cases h₃ : c.toNat ≤ 0xFFFF
  · exact .inr (.inr (.inl ⟨by omega, h₃, utf8Char_three (by omega) h₃⟩))
  · exact .inr (.inr (.inr ⟨by omega, by omega, utf8Char_four (by omega)⟩))

/-- The bytes of a character that is not ASCII. -/
theorem high_of_mem (h : 0x7F < c.toNat) {b : UInt8} (hb : b ∈ utf8Char c) : 0x80 ≤ b.toNat := by
  have hbyte : ∀ n : Nat, 0x80 ≤ n → n < 256 → 0x80 ≤ (UInt8.ofNat n).toNat := by
    intro n hlow hhigh
    rw [UInt8.toNat_ofNat', Nat.mod_eq_of_lt hhigh]
    exact hlow
  rcases utf8Char_cases c with ⟨hlow, -⟩ | ⟨-, h', heq⟩ | ⟨-, h', heq⟩ | ⟨-, h', heq⟩
  · omega
  all_goals
    rw [heq] at hb
    simp only [List.mem_cons, List.not_mem_nil, or_false] at hb
  · rcases hb with rfl | rfl <;> exact hbyte _ (by omega) (by omega)
  · rcases hb with rfl | rfl | rfl <;> exact hbyte _ (by omega) (by omega)
  · rcases hb with rfl | rfl | rfl | rfl <;> exact hbyte _ (by omega) (by omega)

end Bytes

/-! ## Orders -/

theorem compare_append_left {α : Type} [Ord α] [Std.LawfulEqOrd α] (front s t : List α) :
    compare (front ++ s) (front ++ t) = compare s t := by
  induction front with
  | nil => rfl
  | cons a front ih =>
    rw [List.cons_append, List.cons_append, List.compare_cons_cons, Std.compare_eq_iff_eq.mpr rfl, ih]
    rfl

/-- A byte decides, or what is behind it. -/
theorem compare_bytes {m n : Nat} (hm : m < 256) (hn : n < 256) {s t : Bytes}
    (h : m < n ∨ m = n ∧ compare s t = .lt) : compare (UInt8.ofNat m :: s) (UInt8.ofNat n :: t) = .lt := by
  rw [List.compare_cons_cons]
  rcases h with hlt | ⟨rfl, hrest⟩
  · have hbyte : compare (UInt8.ofNat m) (UInt8.ofNat n) = .lt := by
      rw [Std.compare_eq_lt, UInt8.lt_iff_toNat_lt, UInt8.toNat_ofNat', UInt8.toNat_ofNat',
        Nat.mod_eq_of_lt hm, Nat.mod_eq_of_lt hn]
      exact hlt
    rw [hbyte]
    rfl
  · rw [Std.compare_eq_iff_eq.mpr rfl, hrest]
    rfl

theorem compare_units {m n : Nat} (hm : m < 65536) (hn : n < 65536) {s t : List UInt16}
    (h : m < n ∨ m = n ∧ compare s t = .lt) : compare (UInt16.ofNat m :: s) (UInt16.ofNat n :: t) = .lt := by
  rw [List.compare_cons_cons]
  rcases h with hlt | ⟨rfl, hrest⟩
  · have hunit : compare (UInt16.ofNat m) (UInt16.ofNat n) = .lt := by
      rw [Std.compare_eq_lt, UInt16.lt_iff_toNat_lt, UInt16.toNat_ofNat', UInt16.toNat_ofNat',
        Nat.mod_eq_of_lt hm, Nat.mod_eq_of_lt hn]
      exact hlt
    rw [hunit]
    rfl
  · rw [Std.compare_eq_iff_eq.mpr rfl, hrest]
    rfl

/-- **The bytes of texts are in the order of their characters.** -/
theorem compare_utf8Char {a b : Char} (h : a.toNat < b.toNat) (s t : Bytes) :
    compare (utf8Char a ++ s) (utf8Char b ++ t) = .lt := by
  rcases utf8Char_cases a with ⟨ha, hcodeA⟩ | ⟨ha, ha', hcodeA⟩ | ⟨ha, ha', hcodeA⟩ | ⟨ha, ha', hcodeA⟩ <;>
    rcases utf8Char_cases b with ⟨hb, hcodeB⟩ | ⟨hb, hb', hcodeB⟩ | ⟨hb, hb', hcodeB⟩ | ⟨hb, hb', hcodeB⟩ <;>
    rw [hcodeA, hcodeB]
  -- a longer character is a greater one, and where the lengths differ the first bytes do
  all_goals try omega
  all_goals try exact compare_bytes (by omega) (by omega) (.inl (by omega))
  · refine compare_bytes (by omega) (by omega) ?_
    rcases Nat.lt_or_ge (a.toNat / 64) (b.toNat / 64) with hlead | hlead
    · exact .inl (by omega)
    · exact .inr ⟨by omega, compare_bytes (by omega) (by omega) (.inl (by omega))⟩
  · refine compare_bytes (by omega) (by omega) ?_
    rcases Nat.lt_or_ge (a.toNat / 4096) (b.toNat / 4096) with hlead | hlead
    · exact .inl (by omega)
    refine .inr ⟨by omega, compare_bytes (by omega) (by omega) ?_⟩
    rcases Nat.lt_or_ge (a.toNat / 64) (b.toNat / 64) with hnext | hnext
    · exact .inl (by omega)
    · exact .inr ⟨by omega, compare_bytes (by omega) (by omega) (.inl (by omega))⟩
  · refine compare_bytes (by omega) (by omega) ?_
    rcases Nat.lt_or_ge (a.toNat / 262144) (b.toNat / 262144) with hlead | hlead
    · exact .inl (by omega)
    refine .inr ⟨by omega, compare_bytes (by omega) (by omega) ?_⟩
    rcases Nat.lt_or_ge (a.toNat / 4096) (b.toNat / 4096) with hsecond | hsecond
    · exact .inl (by omega)
    refine .inr ⟨by omega, compare_bytes (by omega) (by omega) ?_⟩
    rcases Nat.lt_or_ge (a.toNat / 64) (b.toNat / 64) with hthird | hthird
    · exact .inl (by omega)
    · exact .inr ⟨by omega, compare_bytes (by omega) (by omega) (.inl (by omega))⟩

/-- A character between the surrogates and U+10000 in front of one above it: in UTF-16 it comes behind. -/
def crossedChars (a b : Char) : Prop := 0xDFFF < a.toNat ∧ a.toNat ≤ 0xFFFF ∧ 0xFFFF < b.toNat

instance (a b : Char) : Decidable (crossedChars a b) := inferInstanceAs (Decidable (_ ∧ _ ∧ _))

/-- Two texts first differ in such characters. -/
def crossed : List Char → List Char → Prop
  | a :: s, b :: t => if a = b then crossed s t else crossedChars a b ∨ crossedChars b a
  | _, _ => False

instance decidableCrossed : (s t : List Char) → Decidable (crossed s t)
  | [], [] => inferInstanceAs (Decidable False)
  | [], _ :: _ => inferInstanceAs (Decidable False)
  | _ :: _, [] => inferInstanceAs (Decidable False)
  | a :: s, b :: t =>
    have := decidableCrossed s t
    inferInstanceAs (Decidable (if a = b then crossed s t else crossedChars a b ∨ crossedChars b a))

theorem utf16Char_cases (c : Char) :
    (c.toNat ≤ 0xFFFF ∧ utf16Char c = [UInt16.ofNat c.toNat]) ∨
    (0xFFFF < c.toNat ∧ c.toNat < 0x110000 ∧
      utf16Char c = [UInt16.ofNat (0xD800 + (c.toNat - 0x10000) / 0x400),
        UInt16.ofNat (0xDC00 + (c.toNat - 0x10000) % 0x400)]) := by
  have hscalar := scalar c
  by_cases h : c.toNat < 0x10000
  · exact .inl ⟨by omega, if_pos h⟩
  · exact .inr ⟨by omega, by omega, if_neg h⟩

/-- The code units of texts are in the order of their characters, but for crossed ones. -/
theorem compare_utf16Char {a b : Char} (h : a.toNat < b.toNat) (s t : List UInt16) :
    compare (utf16Char a ++ s) (utf16Char b ++ t) = if crossedChars a b then .gt else .lt := by
  have hscalarA := scalar a
  have hscalarB := scalar b
  rcases utf16Char_cases a with ⟨ha, hcodeA⟩ | ⟨ha, ha', hcodeA⟩ <;>
    rcases utf16Char_cases b with ⟨hb, hcodeB⟩ | ⟨hb, hb', hcodeB⟩ <;> rw [hcodeA, hcodeB]
  · rw [if_neg (by rw [crossedChars]; omega)]
    exact compare_units (by omega) (by omega) (.inl (by omega))
  · by_cases hhigh : 0xDFFF < a.toNat
    · rw [if_pos ⟨hhigh, ha, hb⟩]
      exact Std.OrientedCmp.gt_of_lt (compare_units (by omega) (by omega) (.inl (by omega)))
    · rw [if_neg fun hcrossed => hhigh hcrossed.1]
      exact compare_units (by omega) (by omega) (.inl (by omega))
  · omega
  · rw [if_neg (by rw [crossedChars]; omega)]
    refine compare_units (by omega) (by omega) ?_
    rcases Nat.lt_or_ge ((a.toNat - 0x10000) / 0x400) ((b.toNat - 0x10000) / 0x400) with hlead | hlead
    · exact .inl (by omega)
    · exact .inr ⟨by omega, compare_units (by omega) (by omega) (.inl (by omega))⟩

theorem utf8Char_ne_nil (c : Char) : ∃ b bytes, utf8Char c = b :: bytes := by
  rcases utf8Char_cases c with ⟨-, h⟩ | ⟨-, -, h⟩ | ⟨-, -, h⟩ | ⟨-, -, h⟩ <;> exact ⟨_, _, h⟩

theorem utf16Char_ne_nil (c : Char) : ∃ u units, utf16Char c = u :: units := by
  rcases utf16Char_cases c with ⟨-, h⟩ | ⟨-, -, h⟩ <;> exact ⟨_, _, h⟩

/-- **The two orders agree on texts that are not crossed**, and on no others. -/
theorem compare_utf16_iff (s t : List Char) :
    compare (utf16 s) (utf16 t) = compare (utf8 s) (utf8 t) ↔ ¬ crossed s t := by
  induction s generalizing t with
  | nil =>
    cases t with
    | nil => exact iff_of_true rfl not_false
    | cons b t =>
      obtain ⟨u, units, hunits⟩ := utf16Char_ne_nil b
      obtain ⟨byte, bytes, hbytes⟩ := utf8Char_ne_nil b
      refine iff_of_true ?_ not_false
      rw [utf16_cons, utf8_cons, hunits, hbytes]
      rfl
  | cons a s ih =>
    cases t with
    | nil =>
      obtain ⟨u, units, hunits⟩ := utf16Char_ne_nil a
      obtain ⟨byte, bytes, hbytes⟩ := utf8Char_ne_nil a
      refine iff_of_true ?_ not_false
      rw [utf16_cons, utf8_cons, hunits, hbytes]
      rfl
    | cons b t =>
      rw [utf16_cons, utf16_cons, utf8_cons, utf8_cons, crossed]
      by_cases hab : a = b
      · subst hab
        rw [compare_append_left, compare_append_left, if_pos rfl]
        exact ih t
      rw [if_neg hab]
      rcases Nat.lt_or_gt_of_ne (fun h => hab (Char.toNat_inj.mp h)) with hlt | hgt
      · have hother : ¬ crossedChars b a := by
          rw [crossedChars]
          omega
        rw [compare_utf16Char hlt, compare_utf8Char hlt, or_iff_left hother]
        split
        · exact iff_of_false nofun (not_not.mpr ‹_›)
        · exact iff_of_true rfl ‹_›
      · have hother : ¬ crossedChars a b := by
          rw [crossedChars]
          omega
        have hswap : compare (utf16Char a ++ utf16 s) (utf16Char b ++ utf16 t) =
            (compare (utf16Char b ++ utf16 t) (utf16Char a ++ utf16 s)).swap := Std.OrientedCmp.eq_swap
        rw [hswap, compare_utf16Char hgt, Std.OrientedCmp.gt_of_lt (compare_utf8Char hgt _ _), or_iff_right hother]
        split
        · exact iff_of_false nofun (not_not.mpr ‹_›)
        · exact iff_of_true rfl ‹_›

/-- A text is told by its bytes. -/
theorem utf8_injective {s t : List Char} (h : utf8 s = utf8 t) : s = t := by
  induction s generalizing t with
  | nil =>
    cases t with
    | nil => rfl
    | cons b t =>
      obtain ⟨byte, bytes, hbytes⟩ := utf8Char_ne_nil b
      rw [utf8_cons, hbytes] at h
      cases h
  | cons a s ih =>
    cases t with
    | nil =>
      obtain ⟨byte, bytes, hbytes⟩ := utf8Char_ne_nil a
      rw [utf8_cons, hbytes] at h
      cases h
    | cons b t =>
      rw [utf8_cons, utf8_cons] at h
      have hcompare : compare (utf8Char a ++ utf8 s) (utf8Char b ++ utf8 t) = .eq := Std.compare_eq_iff_eq.mpr h
      by_cases hab : a = b
      · subst hab
        rw [ih (List.append_cancel_left h)]
      rcases Nat.lt_or_gt_of_ne (fun heq => hab (Char.toNat_inj.mp heq)) with hlt | hgt
      · rw [compare_utf8Char hlt] at hcompare
        cases hcompare
      · rw [Std.OrientedCmp.gt_of_lt (compare_utf8Char hgt _ _)] at hcompare
        cases hcompare

/-- A text is told by its code units. -/
theorem utf16_injective {s t : List Char} (h : utf16 s = utf16 t) : s = t := by
  induction s generalizing t with
  | nil =>
    cases t with
    | nil => rfl
    | cons b t =>
      obtain ⟨u, units, hunits⟩ := utf16Char_ne_nil b
      rw [utf16_cons, hunits] at h
      cases h
  | cons a s ih =>
    cases t with
    | nil =>
      obtain ⟨u, units, hunits⟩ := utf16Char_ne_nil a
      rw [utf16_cons, hunits] at h
      cases h
    | cons b t =>
      rw [utf16_cons, utf16_cons] at h
      have hcompare : compare (utf16Char a ++ utf16 s) (utf16Char b ++ utf16 t) = .eq :=
        Std.compare_eq_iff_eq.mpr h
      by_cases hab : a = b
      · subst hab
        rw [ih (List.append_cancel_left h)]
      rcases Nat.lt_or_gt_of_ne (fun heq => hab (Char.toNat_inj.mp heq)) with hlt | hgt
      · rw [compare_utf16Char hlt] at hcompare
        split at hcompare <;> cases hcompare
      · have hswap : compare (utf16Char b ++ utf16 t) (utf16Char a ++ utf16 s) = .eq :=
          Std.compare_eq_iff_eq.mpr h.symm
        rw [compare_utf16Char hgt] at hswap
        split at hswap <;> cases hswap

theorem crossed_comm {s t : List Char} (h : crossed s t) : crossed t s := by
  induction s generalizing t with
  | nil => cases h
  | cons a s ih =>
    cases t with
    | nil => cases h
    | cons b t =>
      rw [crossed] at h ⊢
      by_cases hab : a = b
      · rw [if_pos hab] at h
        rw [if_pos hab.symm]
        exact ih h
      · rw [if_neg hab] at h
        rw [if_neg (Ne.symm hab)]
        exact h.symm

theorem not_crossed_self (s : List Char) : ¬ crossed s s := by
  induction s with
  | nil => exact not_false
  | cons a s ih =>
    rw [crossed, if_pos rfl]
    exact ih

end StateSpec.Unicode
