/-
  BYTE STRINGS — the strings every binding of the program stores, compares and concatenates.

  A `std::string` is a sequence of bytes, ordered bytewise by `operator<`; a Rust `String` and a
  Go `string` are the bytes of their UTF-8 encoding with the same order.  `List UInt8` with core's
  lexicographic `compare` is exactly that, and it is ordered lawfully (`TransOrd`, `LawfulEqOrd`),
  so byte strings can key the ordered maps of `StateSpec.Lib.OrderedMap`.

  The facts about text the development rests on:
  * `stripPrefix` takes off exactly the prefix that is there (`stripPrefix_iff`);
  * `splitOnce` cuts at the FIRST occurrence of a separator, and cutting undoes gluing when the
    left part does not contain the separator (`splitOnce_glue`);
  * gluing undoes cutting, with no condition (`splitOnce_sound`);
  * decimal numerals are injective and contain digits only (`decimal_injective`,
    `colon_not_mem_decimal`), which is what makes a counter glued behind a ':' readable again.
-/
import Mathlib.Data.List.Basic
import Mathlib.Data.List.TakeWhile
import Std.Data.ExtTreeMap

namespace StateSpec

/-- A string of the program: a sequence of bytes. -/
abbrev Bytes := List UInt8

instance instLawfulBEqBytes : LawfulBEq Bytes := inferInstance

instance instTransOrdListBytes : Std.TransOrd (List Bytes) := inferInstance

instance instLawfulEqOrdListBytes : Std.LawfulEqOrd (List Bytes) := inferInstance

/-- The bytes of an ASCII literal. -/
def ascii (s : String) : Bytes := s.toList.map fun c => UInt8.ofNat c.toNat

/-- The separator `':'`. -/
def colon : UInt8 := 58

namespace Bytes

/-! ## Taking off a prefix -/

/-- `strip_prefix`: what is behind `pre`, when the string starts with it. -/
def stripPrefix : Bytes → Bytes → Option Bytes
  | [], s => some s
  | _ :: _, [] => none
  | b :: pre, c :: s => if b = c then stripPrefix pre s else none

/-- A prefix is taken off exactly when it is there. -/
theorem stripPrefix_iff {pre s rest : Bytes} : stripPrefix pre s = some rest ↔ s = pre ++ rest := by
  induction pre generalizing s with
  | nil => simp [stripPrefix]
  | cons b pre ih =>
    cases s with
    | nil => simp [stripPrefix]
    | cons c s =>
      rw [stripPrefix]
      by_cases hb : b = c
      · rw [if_pos hb, ih, hb, List.cons_append, List.cons.injEq]
        simp
      · rw [if_neg hb, List.cons_append, List.cons.injEq]
        simp [Ne.symm hb]

/-! ## Cutting a string at a separator -/

/-- Cut at the first occurrence of `sep`: `s.find(sep)` with the two `substr` around it.
    `none` when `sep` does not occur. -/
def splitOnce (sep : UInt8) : Bytes → Option (Bytes × Bytes)
  | [] => none
  | b :: rest =>
    if b = sep then some ([], rest)
    else (splitOnce sep rest).map fun p => (b :: p.1, p.2)

/-- Cutting undoes gluing, as long as the left part does not contain the separator. -/
theorem splitOnce_glue {sep : UInt8} {left : Bytes} (right : Bytes) (hsep : sep ∉ left) :
    splitOnce sep (left ++ sep :: right) = some (left, right) := by
  induction left with
  | nil => simp [splitOnce]
  | cons b left ih =>
    rw [List.mem_cons, not_or] at hsep
    rw [List.cons_append, splitOnce, if_neg (Ne.symm hsep.1), ih hsep.2]
    rfl

/-- Gluing undoes cutting, and the left part of a cut never contains the separator. -/
theorem splitOnce_sound {sep : UInt8} {s left right : Bytes}
    (h : splitOnce sep s = some (left, right)) : s = left ++ sep :: right ∧ sep ∉ left := by
  induction s generalizing left with
  | nil => simp [splitOnce] at h
  | cons b s ih =>
    rw [splitOnce] at h
    by_cases hb : b = sep
    · rw [if_pos hb] at h
      obtain ⟨rfl, rfl⟩ : [] = left ∧ s = right := by simpa using h
      exact ⟨by rw [hb]; rfl, List.not_mem_nil⟩
    · rw [if_neg hb] at h
      obtain ⟨p, hp, hpair⟩ := Option.map_eq_some_iff.mp h
      obtain ⟨rfl, rfl⟩ : b :: p.1 = left ∧ p.2 = right := by simpa using hpair
      obtain ⟨hs, hmem⟩ := ih hp
      refine ⟨by rw [hs]; rfl, ?_⟩
      rw [List.mem_cons, not_or]
      exact ⟨Ne.symm hb, hmem⟩

/-- Two glued strings are equal only if their parts are, when both left parts are free of the
    separator. -/
theorem glue_inj {sep : UInt8} {l₁ l₂ r₁ r₂ : Bytes} (h₁ : sep ∉ l₁) (h₂ : sep ∉ l₂)
    (h : l₁ ++ sep :: r₁ = l₂ ++ sep :: r₂) : l₁ = l₂ ∧ r₁ = r₂ := by
  have hcut := splitOnce_glue r₁ h₁
  rw [h, splitOnce_glue r₂ h₂] at hcut
  have hpair : (l₂, r₂) = (l₁, r₁) := Option.some_inj.mp hcut
  exact ⟨(congrArg Prod.fst hpair).symm, (congrArg Prod.snd hpair).symm⟩

/-- The mirror image: a separator that occurs in neither RIGHT part fixes where the cut is. -/
theorem glue_inj_right {sep : UInt8} {l₁ l₂ r₁ r₂ : Bytes} (h₁ : sep ∉ r₁) (h₂ : sep ∉ r₂)
    (h : l₁ ++ sep :: r₁ = l₂ ++ sep :: r₂) : l₁ = l₂ ∧ r₁ = r₂ := by
  have hrev := congrArg List.reverse h
  simp only [List.reverse_append, List.reverse_cons, List.append_assoc,
    List.singleton_append] at hrev
  have hparts := glue_inj (by simpa using h₁) (by simpa using h₂) hrev
  exact ⟨List.reverse_injective hparts.2, List.reverse_injective hparts.1⟩

/-! ## Decimal numerals -/

/-- `std::to_string` of an unsigned number. -/
def decimal (n : Nat) : Bytes := (Nat.toDigits 10 n).map fun c => UInt8.ofNat c.toNat

/-- `std::to_string` of a signed number. -/
def decimalInt (n : Int) : Bytes := if n < 0 then 45 :: decimal n.natAbs else decimal n.natAbs

theorem digit_toNat {c : Char} (hc : c.isDigit) : 48 ≤ c.toNat ∧ c.toNat ≤ 57 := by
  simp only [Char.isDigit, Bool.and_eq_true, decide_eq_true_eq, ge_iff_le, UInt32.le_iff_toNat_le]
    at hc
  exact hc

theorem digit_of_byte {c : Char} (hc : c.isDigit) :
    Char.ofNat (UInt8.ofNat c.toNat).toNat = c := by
  have hc' := digit_toNat hc
  rw [UInt8.toNat_ofNat', Nat.mod_eq_of_lt (by omega), Char.ofNat_toNat]

theorem isDigit_of_mem_toDigits {n : Nat} {c : Char} (h : c ∈ Nat.toDigits 10 n) : c.isDigit :=
  Nat.isDigit_of_mem_toDigits (by decide) (by decide) h

/-- The digits of a numeral can be read back from its bytes. -/
theorem toDigits_of_decimal (n : Nat) :
    (decimal n).map (fun b => Char.ofNat b.toNat) = Nat.toDigits 10 n := by
  rw [decimal, List.map_map]
  calc (Nat.toDigits 10 n).map _
      = (Nat.toDigits 10 n).map id :=
        List.map_congr_left fun c hc => digit_of_byte (isDigit_of_mem_toDigits hc)
    _ = Nat.toDigits 10 n := List.map_id _

/-- Distinct numbers have distinct numerals. -/
theorem decimal_injective {m n : Nat} (h : decimal m = decimal n) : m = n := by
  have hchars : Nat.toDigits 10 m = Nat.toDigits 10 n := by
    rw [← toDigits_of_decimal, h, toDigits_of_decimal]
  calc m = Nat.ofDigitChars 10 (Nat.toDigits 10 m) 0 := Nat.ofDigitChars_ten_toDigits.symm
    _ = Nat.ofDigitChars 10 (Nat.toDigits 10 n) 0 := by rw [hchars]
    _ = n := Nat.ofDigitChars_ten_toDigits

/-- A numeral has no ':' in it. -/
theorem colon_not_mem_decimal (n : Nat) : colon ∉ decimal n := by
  intro h
  obtain ⟨c, hc, hbyte⟩ := List.mem_map.mp h
  have hdigit := digit_toNat (isDigit_of_mem_toDigits hc)
  have hnat := congrArg UInt8.toNat hbyte
  rw [UInt8.toNat_ofNat', Nat.mod_eq_of_lt (by omega)] at hnat
  have : colon.toNat = 58 := rfl
  omega

/-- The bytes of a numeral are digits. -/
theorem digit_of_mem_decimal {n : Nat} {b : UInt8} (h : b ∈ decimal n) : 48 ≤ b.toNat := by
  obtain ⟨c, hc, rfl⟩ := List.mem_map.mp h
  have hdigit := digit_toNat (isDigit_of_mem_toDigits hc)
  rw [UInt8.toNat_ofNat', Nat.mod_eq_of_lt (by omega)]
  exact hdigit.1

theorem colon_not_mem_decimalInt (n : Int) : colon ∉ decimalInt n := by
  rw [decimalInt]
  split
  · rw [List.mem_cons, not_or]
    exact ⟨by decide, colon_not_mem_decimal _⟩
  · exact colon_not_mem_decimal _

/-- A numeral does not start with a sign. -/
theorem sign_cons_ne_decimal (s : Bytes) (n : Nat) : 45 :: s ≠ decimal n := by
  intro h
  have hmem : (45 : UInt8) ∈ decimal n := h ▸ List.mem_cons_self
  have hdigit := digit_of_mem_decimal hmem
  exact absurd hdigit (by decide)

/-- Distinct signed numbers have distinct numerals. -/
theorem decimalInt_injective {m n : Int} (h : decimalInt m = decimalInt n) : m = n := by
  rw [decimalInt, decimalInt] at h
  split at h <;> split at h
  · have habs := decimal_injective (List.cons.inj h).2
    omega
  · exact absurd h (sign_cons_ne_decimal _ _)
  · exact absurd h.symm (sign_cons_ne_decimal _ _)
  · have habs := decimal_injective h
    omega

example : decimal 1024 = ascii "1024" := by decide
example : splitOnce colon (ascii "a:b:c") = some (ascii "a", ascii "b:c") := by decide

end Bytes

end StateSpec
