/-
  CANONICAL TEXTS — `canonical_string` says which document it was made of.

  An escaped string ends at its closing quote, and what was escaped can be read back byte by byte
  (`unescape`).  A number ends where something follows that is no part of a number.  So the text of
  a document can be read off the front of a longer text (`canonicalString_split`), as long as what
  follows is `Delimited`, which a ',', a bracket and a line end are.

  What a number formatter prints is its own business; what is needed of it is `LawfulDecimal`.
-/
import Mathlib.Tactic.IntervalCases
import StateSpec.Json

set_option linter.unusedSectionVars false

namespace StateSpec

/-- The bytes of numbers: digits, signs, the decimal point and the exponent. -/
def isNumberByte (c : UInt8) : Bool :=
  (48 ≤ c && c ≤ 57) || c == 45 || c == 43 || c == 46 || c == 101 || c == 69

/-- What the number formatter is relied on for: it prints enough digits to tell decimals apart. -/
class LawfulDecimal (δ : Type) [Decimal δ] : Prop where
  isNumberByte : ∀ value : δ, ∀ c ∈ Json.decimalText value, isNumberByte c = true
  injective : ∀ value other : δ, Json.decimalText value = Json.decimalText other → value = other

instance : LawfulDecimal Empty := ⟨fun value => value.elim, fun value => value.elim⟩

namespace Json

/-! ## Escaped strings -/

/-- The value of a hexadecimal digit that `hexDigit` writes. -/
def hexValue (c : UInt8) : UInt8 := if c < 58 then c - 48 else c - 87

/-- The byte that a letter behind a backslash stands for. -/
def escapedLetter (c : UInt8) : UInt8 :=
  if c = 98 then 8
  else if c = 102 then 12
  else if c = 110 then 10
  else if c = 114 then 13
  else if c = 116 then 9
  else c

/-- Reads one byte of an escaped string back. -/
def unescape : Bytes → Option (UInt8 × Bytes)
  | [] => none
  | c :: rest =>
    if c = 34 then none
    else if c = 92 then
      match rest with
      | 117 :: _ :: _ :: high :: low :: rest => some (16 * hexValue high + hexValue low, rest)
      | letter :: rest => some (escapedLetter letter, rest)
      | [] => none
    else some (c, rest)

theorem unescape_quote (rest : Bytes) : unescape (34 :: rest) = none := rfl

/-- **What was escaped can be read back.** -/
theorem unescape_escapeByte (c : UInt8) (rest : Bytes) :
    unescape (escapeByte c ++ rest) = some (c, rest) := by
  by_cases hcontrol : c < 32
  · -- a control character is escaped, each in its own way
    have hvalue : c = UInt8.ofNat c.toNat := (UInt8.ofNat_toNat).symm
    have hlt : c.toNat < 32 := hcontrol
    rw [hvalue]
    generalize c.toNat = n at hlt
    interval_cases n <;> rfl
  by_cases hquote : c = 34
  · subst hquote
    rfl
  by_cases hslash : c = 92
  · subst hslash
    rfl
  · have hplain : escapeByte c = [c] := by
      have hne : ∀ n : UInt8, n < 32 → c ≠ n := fun n hn heq => hcontrol (heq ▸ hn)
      rw [escapeByte, if_neg hquote, if_neg hslash, if_neg (hne 8 (by decide)),
        if_neg (hne 12 (by decide)), if_neg (hne 10 (by decide)), if_neg (hne 13 (by decide)),
        if_neg (hne 9 (by decide)), if_neg hcontrol]
    simp only [hplain, List.singleton_append, unescape, if_neg hquote, if_neg hslash]

theorem escaped_split {s t x y : Bytes}
    (h : s.flatMap escapeByte ++ 34 :: x = t.flatMap escapeByte ++ 34 :: y) : s = t ∧ x = y := by
  induction s generalizing t with
  | nil =>
    cases t with
    | nil => exact ⟨rfl, (List.cons.inj h).2⟩
    | cons d t =>
      have hread := congrArg unescape h
      rw [List.flatMap_cons, List.append_assoc, unescape_escapeByte, List.flatMap_nil,
        List.nil_append, unescape_quote] at hread
      cases hread
  | cons c s ih =>
    have hread := congrArg unescape h
    rw [List.flatMap_cons, List.append_assoc, unescape_escapeByte] at hread
    cases t with
    | nil =>
      rw [List.flatMap_nil, List.nil_append, unescape_quote] at hread
      cases hread
    | cons d t =>
      rw [List.flatMap_cons, List.append_assoc, unescape_escapeByte] at hread
      obtain ⟨rfl, hrest⟩ := Prod.mk.inj (Option.some_inj.mp hread)
      obtain ⟨rfl, rfl⟩ := ih hrest
      exact ⟨rfl, rfl⟩

/-- An escaped string ends at its closing quote. -/
theorem escapedString_split {s t x y : Bytes}
    (h : escapedString s ++ x = escapedString t ++ y) : s = t ∧ x = y := by
  rw [escapedString, escapedString, List.append_assoc, List.append_assoc, List.cons_append,
    List.cons_append] at h
  exact escaped_split (List.cons.inj h).2

/-! ## Numbers -/

/-- What may follow a number: nothing, or a byte that is no part of one. -/
def Delimited (rest : Bytes) : Prop := ∀ c ∈ rest.head?, isNumberByte c = false

theorem delimited_cons {c : UInt8} (rest : Bytes) (h : isNumberByte c = false) :
    Delimited (c :: rest) := by
  intro c' hc'
  obtain rfl := Option.some_inj.mp hc'
  exact h

/-- A text of number bytes ends where something else follows. -/
theorem number_split {s t x y : Bytes} (hs : ∀ c ∈ s, isNumberByte c = true)
    (ht : ∀ c ∈ t, isNumberByte c = true) (hx : Delimited x) (hy : Delimited y)
    (h : s ++ x = t ++ y) : s = t ∧ x = y := by
  induction s generalizing t with
  | nil =>
    cases t with
    | nil => exact ⟨rfl, h⟩
    | cons d t =>
      rw [List.nil_append] at h
      have hd := hx d (by rw [h]; rfl)
      rw [ht d List.mem_cons_self] at hd
      cases hd
  | cons c s ih =>
    cases t with
    | nil =>
      rw [List.nil_append] at h
      have hc := hy c (by rw [← h]; rfl)
      rw [hs c List.mem_cons_self] at hc
      cases hc
    | cons d t =>
      obtain ⟨rfl, hrest⟩ := List.cons.inj h
      obtain ⟨rfl, rfl⟩ := ih (fun c hc => hs c (List.mem_cons_of_mem _ hc))
        (fun c hc => ht c (List.mem_cons_of_mem _ hc)) hrest
      exact ⟨rfl, rfl⟩

/-- The bytes of a numeral are digits, behind a sign. -/
theorem byte_of_mem_decimalInt {n : Int} {c : UInt8} (h : c ∈ Bytes.decimalInt n) :
    c = 45 ∨ 48 ≤ c ∧ c ≤ 57 := by
  have hdigit : ∀ {m : Nat}, c ∈ Bytes.decimal m → 48 ≤ c ∧ c ≤ 57 := by
    intro m hm
    obtain ⟨d, hd, rfl⟩ := List.mem_map.mp hm
    have hrange := Bytes.digit_toNat (Bytes.isDigit_of_mem_toDigits hd)
    rw [UInt8.le_iff_toNat_le, UInt8.le_iff_toNat_le, UInt8.toNat_ofNat',
      Nat.mod_eq_of_lt (by omega)]
    exact hrange
  rw [Bytes.decimalInt] at h
  split at h
  · rcases List.mem_cons.mp h with rfl | hmem
    · exact Or.inl rfl
    · exact Or.inr (hdigit hmem)
  · exact Or.inr (hdigit h)

theorem isNumberByte_of_mem_decimalInt {n : Int} {c : UInt8} (h : c ∈ Bytes.decimalInt n) :
    isNumberByte c = true := by
  rcases byte_of_mem_decimalInt h with rfl | hdigit
  · decide
  · simp [isNumberByte, hdigit]

theorem decimalInt_ne_nil (n : Int) : Bytes.decimalInt n ≠ [] := by
  have hdecimal : ∀ m, Bytes.decimal m ≠ [] := by
    intro m hm
    have hchars := Bytes.toDigits_of_decimal m
    rw [hm, List.map_nil] at hchars
    exact Nat.toDigits_ne_nil hchars.symm
  rw [Bytes.decimalInt]
  split
  · exact List.cons_ne_nil _ _
  · exact hdecimal _

/-- A printed decimal has a point or an exponent in it. -/
theorem point_mem_decimalText {δ : Type} [Decimal δ] (value : δ) :
    ∃ c ∈ decimalText value, c = 46 ∨ c = 101 ∨ c = 69 := by
  rw [decimalText]
  split
  · rename_i hany
    obtain ⟨c, hc, hpoint⟩ := List.any_eq_true.mp hany
    refine ⟨c, hc, ?_⟩
    simpa [Bool.or_eq_true, or_assoc] using hpoint
  · exact ⟨46, List.mem_append_right _ (by decide), Or.inl rfl⟩

/-- So it is no integer. -/
theorem decimalInt_ne_decimalText {δ : Type} [Decimal δ] (n : Int) (value : δ) :
    Bytes.decimalInt n ≠ decimalText value := by
  intro h
  obtain ⟨c, hc, hpoint⟩ := point_mem_decimalText value
  rcases byte_of_mem_decimalInt (h ▸ hc) with rfl | hdigit
  · revert hpoint
    decide
  · rcases hpoint with rfl | rfl | rfl <;> revert hdigit <;> decide

/-- Integers have no point and no exponent, so ".0" is behind each of them. -/
instance : LawfulDecimal Int where
  isNumberByte value c hc := by
    rw [decimalText] at hc
    split at hc
    · exact isNumberByte_of_mem_decimalInt hc
    · rcases List.mem_append.mp hc with hdigit | hpoint
      · exact isNumberByte_of_mem_decimalInt hdigit
      · have hsuffix : (ascii ".0").all isNumberByte = true := by decide
        exact List.all_eq_true.mp hsuffix c hpoint
  injective value other h := by
    have hplain : ∀ n : Int, decimalText n = Bytes.decimalInt n ++ ascii ".0" := by
      intro n
      refine if_neg fun hany => ?_
      obtain ⟨c, hc, hpoint⟩ := List.any_eq_true.mp hany
      rcases byte_of_mem_decimalInt hc with rfl | ⟨hlow, hhigh⟩
      · revert hpoint
        decide
      · have hcases : c = 46 ∨ c = 101 ∨ c = 69 := by
          simpa [Bool.or_eq_true, or_assoc] using hpoint
        rcases hcases with rfl | rfl | rfl
        · exact absurd hlow (by decide)
        · exact absurd hhigh (by decide)
        · exact absurd hhigh (by decide)
    rw [hplain, hplain] at h
    exact Bytes.decimalInt_injective (List.append_cancel_right h)

/-- Equality of documents with whole decimals is decided by `operator==`. -/
instance : DecidableEq (Json Int) := fun a b =>
  decidable_of_iff (same a b = true) (same_iff (fun _ _ => beq_iff_eq) a b)

/-! ## Documents -/

/-- The kind of a text, by its first byte. -/
def leadKind (c : UInt8) : UInt8 := if isNumberByte c then 48 else c

/-- The kind of a document. -/
def kind {δ : Type} : Json δ → UInt8
  | .null => 110
  | .bool value => if value then 116 else 102
  | .int64 _ | .double _ => 48
  | .string _ => 34
  | .array _ => 91
  | .object _ => 123

variable {δ : Type}

theorem leadKind_of_number {text : Bytes} (hne : text ≠ [])
    (hnumber : ∀ c ∈ text, isNumberByte c = true) :
    ∃ c rest, text = c :: rest ∧ leadKind c = 48 := by
  cases text with
  | nil => exact absurd rfl hne
  | cons c rest => exact ⟨c, rest, rfl, if_pos (hnumber c List.mem_cons_self)⟩

theorem kind_ne {c : UInt8} (h : c ∉ ([110, 116, 102, 48, 34, 91, 123] : List UInt8)) (a : Json δ) :
    c ≠ kind a := by
  rintro rfl
  cases a with
  | bool value => cases value <;> simp [kind] at h
  | _ => simp [kind] at h

/-- What the kind of a document says about it. -/
theorem of_kind (b : Json δ) :
    (kind b = 110 → b = .null) ∧ (∀ value, kind b = kind (.bool value : Json δ) → b = .bool value) ∧
    (kind b = 34 → ∃ value, b = .string value) ∧ (kind b = 91 → ∃ values, b = .array values) ∧
    (kind b = 123 → ∃ members, b = .object members) ∧
    (kind b = 48 → (∃ value, b = .int64 value) ∨ ∃ value, b = .double value) := by
  cases b with
  | bool value => cases value <;> simp [kind]
  | _ => simp [kind]

variable [Decimal δ]

/-- The text of the items behind the first one: each has a comma in front. -/
def restText {α : Type} (text : List α → Bytes) : List α → Bytes
  | [] => []
  | a :: as => 44 :: text (a :: as)

theorem canonicalItems_cons (a : Json δ) (as : List (Json δ)) :
    canonicalItems escapedString (a :: as) =
      canonicalString a ++ restText (canonicalItems escapedString) as := by
  cases as with
  | nil => rw [canonicalItems, restText, List.append_nil, canonicalString]
  | cons b bs =>
    rw [canonicalItems, restText, List.append_assoc]
    · rfl
    · exact List.cons_ne_nil b bs

theorem canonicalMembers_cons (k : Bytes) (a : Json δ) (as : List (Bytes × Json δ)) :
    canonicalMembers escapedString ((k, a) :: as) = escapedString k ++
      58 :: (canonicalString a ++ restText (canonicalMembers escapedString) as) := by
  cases as with
  | nil =>
    rw [canonicalMembers, restText, List.append_nil, List.append_assoc]
    rfl
  | cons b bs =>
    rw [canonicalMembers, restText, List.append_assoc, List.append_assoc, List.append_assoc]
    · rfl
    · exact List.cons_ne_nil b bs

theorem delimited_restText {α : Type} (text : List α → Bytes) (as : List α) {close : UInt8}
    (hclose : isNumberByte close = false) (x : Bytes) :
    Delimited (restText text as ++ close :: x) := by
  cases as with
  | nil => exact delimited_cons x hclose
  | cons a as => exact delimited_cons _ (by decide)

/-- Either there are more items in both texts, or in neither. -/
theorem restText_split {α : Type} {text : List α → Bytes} {as bs : List α} {close : UInt8}
    {x y : Bytes} (hclose : close ≠ 44)
    (htext : text as ++ close :: x = text bs ++ close :: y → as = bs ∧ x = y)
    (h : restText text as ++ close :: x = restText text bs ++ close :: y) : as = bs ∧ x = y := by
  cases as with
  | nil =>
    cases bs with
    | nil => exact ⟨rfl, (List.cons.inj h).2⟩
    | cons b bs => exact absurd (List.cons.inj h).1 hclose
  | cons a as =>
    cases bs with
    | nil => exact absurd (List.cons.inj h).1.symm hclose
    | cons b bs => exact htext (List.cons.inj h).2

variable [LawfulDecimal δ]

/-- A text starts as the kind of its document does. -/
theorem leadKind_canonicalString (a : Json δ) :
    ∃ c rest, canonicalString a = c :: rest ∧ leadKind c = kind a := by
  cases a with
  | null => exact ⟨_, _, rfl, rfl⟩
  | bool value => cases value <;> exact ⟨_, _, rfl, rfl⟩
  | int64 value =>
    exact leadKind_of_number (decimalInt_ne_nil value) fun _ => isNumberByte_of_mem_decimalInt
  | double value =>
    obtain ⟨c, hc, -⟩ := point_mem_decimalText value
    exact leadKind_of_number (List.ne_nil_of_mem hc) (LawfulDecimal.isNumberByte value)
  | string value => exact ⟨_, _, rfl, rfl⟩
  | array values => exact ⟨_, _, rfl, rfl⟩
  | object members => exact ⟨_, _, rfl, rfl⟩

theorem kind_eq {a b : Json δ} {x y : Bytes}
    (h : canonicalString a ++ x = canonicalString b ++ y) : kind a = kind b := by
  obtain ⟨c, rest, ha, hc⟩ := leadKind_canonicalString a
  obtain ⟨d, rest', hb, hd⟩ := leadKind_canonicalString b
  rw [ha, hb, List.cons_append, List.cons_append] at h
  rw [← hc, ← hd, (List.cons.inj h).1]

/-- No document is written as a closing bracket or a comma. -/
theorem canonicalString_ne_cons {c : UInt8} (hc : ∀ a : Json δ, leadKind c ≠ kind a) (a : Json δ)
    (x y : Bytes) : canonicalString a ++ x ≠ c :: y := by
  intro h
  obtain ⟨d, rest, ha, hd⟩ := leadKind_canonicalString a
  rw [ha, List.cons_append] at h
  exact hc a ((List.cons.inj h).1 ▸ hd)

mutual

/-- **The text of a document can be read off the front of a longer one.** -/
theorem canonicalString_split : ∀ (a b : Json δ) {x y : Bytes}, Delimited x → Delimited y →
    canonicalString a ++ x = canonicalString b ++ y → a = b ∧ x = y
  | .null, b, x, y, _, _, h => by
    obtain rfl := (of_kind b).1 (kind_eq h).symm
    exact ⟨rfl, List.append_cancel_left h⟩
  | .bool value, b, x, y, _, _, h => by
    obtain rfl := (of_kind b).2.1 value (kind_eq h).symm
    exact ⟨rfl, List.append_cancel_left h⟩
  | .int64 value, b, x, y, hx, hy, h => by
    rcases (of_kind b).2.2.2.2.2 (kind_eq h).symm with ⟨other, rfl⟩ | ⟨other, rfl⟩
    · obtain ⟨htext, hrest⟩ := number_split (fun _ => isNumberByte_of_mem_decimalInt)
        (fun _ => isNumberByte_of_mem_decimalInt) hx hy h
      exact ⟨congrArg Json.int64 (Bytes.decimalInt_injective htext), hrest⟩
    · obtain ⟨htext, -⟩ := number_split (fun _ => isNumberByte_of_mem_decimalInt)
        (LawfulDecimal.isNumberByte other) hx hy h
      exact absurd htext (decimalInt_ne_decimalText value other)
  | .double value, b, x, y, hx, hy, h => by
    rcases (of_kind b).2.2.2.2.2 (kind_eq h).symm with ⟨other, rfl⟩ | ⟨other, rfl⟩
    · obtain ⟨htext, -⟩ := number_split (LawfulDecimal.isNumberByte value)
        (fun _ => isNumberByte_of_mem_decimalInt) hx hy h
      exact absurd htext.symm (decimalInt_ne_decimalText other value)
    · obtain ⟨htext, hrest⟩ := number_split (LawfulDecimal.isNumberByte value)
        (LawfulDecimal.isNumberByte other) hx hy h
      exact ⟨congrArg Json.double (LawfulDecimal.injective value other htext), hrest⟩
  | .string value, b, x, y, _, _, h => by
    obtain ⟨other, rfl⟩ := (of_kind b).2.2.1 (kind_eq h).symm
    obtain ⟨rfl, hrest⟩ := escapedString_split h
    exact ⟨rfl, hrest⟩
  | .array values, b, x, y, _, _, h => by
    obtain ⟨others, rfl⟩ := (of_kind b).2.2.2.1 (kind_eq h).symm
    have hitems : canonicalItems escapedString values ++ 93 :: x =
        canonicalItems escapedString others ++ 93 :: y := by
      rw [canonicalString, canonicalWith, canonicalString, canonicalWith, List.append_assoc,
        List.append_assoc, List.append_assoc, List.append_assoc] at h
      exact List.append_cancel_left h
    obtain ⟨rfl, hrest⟩ := canonicalItems_split values others hitems
    exact ⟨rfl, hrest⟩
  | .object members, b, x, y, _, _, h => by
    obtain ⟨others, rfl⟩ := (of_kind b).2.2.2.2.1 (kind_eq h).symm
    have hmembers : canonicalMembers escapedString members ++ 125 :: x =
        canonicalMembers escapedString others ++ 125 :: y := by
      rw [canonicalString, canonicalWith, canonicalString, canonicalWith, List.append_assoc,
        List.append_assoc, List.append_assoc, List.append_assoc] at h
      exact List.append_cancel_left h
    obtain ⟨rfl, hrest⟩ := canonicalMembers_split members others hmembers
    exact ⟨rfl, hrest⟩

theorem canonicalItems_split : ∀ (as bs : List (Json δ)) {x y : Bytes},
    canonicalItems escapedString as ++ 93 :: x = canonicalItems escapedString bs ++ 93 :: y →
    as = bs ∧ x = y
  | [], [], x, y, h => ⟨rfl, (List.cons.inj h).2⟩
  | [], b :: bs, x, y, h => by
    rw [canonicalItems_cons, List.append_assoc] at h
    exact absurd h.symm (canonicalString_ne_cons (kind_ne (by decide)) b _ x)
  | a :: as, [], x, y, h => by
    rw [canonicalItems_cons, List.append_assoc] at h
    exact absurd h (canonicalString_ne_cons (kind_ne (by decide)) a _ y)
  | a :: as, b :: bs, x, y, h => by
    rw [canonicalItems_cons, canonicalItems_cons, List.append_assoc, List.append_assoc] at h
    obtain ⟨rfl, hrest⟩ := canonicalString_split a b (delimited_restText _ as (by decide) x)
      (delimited_restText _ bs (by decide) y) h
    obtain ⟨rfl, hxy⟩ := restText_split (by decide) (canonicalItems_split as bs) hrest
    exact ⟨rfl, hxy⟩

theorem canonicalMembers_split : ∀ (as bs : List (Bytes × Json δ)) {x y : Bytes},
    canonicalMembers escapedString as ++ 125 :: x = canonicalMembers escapedString bs ++ 125 :: y →
    as = bs ∧ x = y
  | [], [], x, y, h => ⟨rfl, (List.cons.inj h).2⟩
  | [], (k, b) :: bs, x, y, h => by
    rw [canonicalMembers_cons] at h
    exact absurd (List.cons.inj h).1 (by decide)
  | (k, a) :: as, [], x, y, h => by
    rw [canonicalMembers_cons] at h
    exact absurd (List.cons.inj h).1 (by decide)
  | (k, a) :: as, (l, b) :: bs, x, y, h => by
    rw [canonicalMembers_cons, canonicalMembers_cons, List.append_assoc, List.append_assoc] at h
    obtain ⟨rfl, hbehind⟩ := escapedString_split h
    have hvalue := (List.cons.inj hbehind).2
    simp only [List.append_eq, List.append_assoc] at hvalue
    obtain ⟨rfl, hrest⟩ := canonicalString_split a b (delimited_restText _ as (by decide) x)
      (delimited_restText _ bs (by decide) y) hvalue
    obtain ⟨rfl, hxy⟩ := restText_split (by decide) (canonicalMembers_split as bs) hrest
    exact ⟨rfl, hxy⟩

end

/-- **Different documents have different texts.** -/
theorem canonicalString_injective {a b : Json δ} (h : canonicalString a = canonicalString b) :
    a = b :=
  (canonicalString_split a b (x := []) (y := []) nofun nofun (by rw [h])).1

end Json

end StateSpec
