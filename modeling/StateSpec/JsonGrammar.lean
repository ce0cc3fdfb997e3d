/-
  THE GRAMMAR OF JSON TEXTS — what a text says, without a parser, and that the C++ parser reads just that.

  1. The rules (`Gap`, `Chars`, `Value`, `Items`, `Members`) take something off the front of a text: each relates
     a text, what is said in front, and what is left.  Numbers are whole numbers.
  2. `hasDecimal text` — a number of the text has a fraction or an exponent: outside its strings a digit has a
     '.', an 'e' or an 'E' behind it.
  3. SOUND (`value_of_parse`): what is read off a text without such numbers is said there.
  4. COMPLETE (`parse_of_value`): what is said in front of something that is no part of a number is read.
  5. So `parse` accepts the texts of the grammar, with their documents (`parse_iff`).
-/
import StateSpec.JsonLayout
import StateSpec.JsonText
import Mathlib.Data.List.TakeDrop

namespace StateSpec

namespace JsonGrammar

open JsonParser

variable {δ : Type}

/-! ## The rules -/

/-- Blanks. -/
inductive Gap : Bytes → Bytes → Prop where
  | none (rest : Bytes) : Gap rest rest
  | blank {c : UInt8} {input rest : Bytes} : isWhitespace c = true → Gap input rest → Gap (c :: input) rest

/-- The characters of a string, behind the opening quote: as they are, or escaped. -/
inductive Chars : Bytes → Bytes → Bytes → Prop where
  | close (rest : Bytes) : Chars (34 :: rest) [] rest
  | plain {c : UInt8} {input out rest : Bytes} : c ≠ 34 → c ≠ 92 → ¬ c < 32 → Chars input out rest →
    Chars (c :: input) (c :: out) rest
  | letter {escaped c : UInt8} {input out rest : Bytes} : simpleEscape escaped = some c → Chars input out rest →
    Chars (92 :: escaped :: input) (c :: out) rest
  /-- A code point that is no surrogate. -/
  | unit {a b c d : UInt8} {codePoint : Nat} {encoded input out rest : Bytes} :
    parseHexQuad a b c d = .ok codePoint → ¬ (0xD800 ≤ codePoint ∧ codePoint ≤ 0xDFFF) →
    utf8 codePoint = .ok encoded → Chars input out rest →
    Chars (92 :: 117 :: a :: b :: c :: d :: input) (encoded ++ out) rest
  /-- A surrogate pair. -/
  | pair {a b c d e f g h : UInt8} {high low : Nat} {encoded input out rest : Bytes} :
    parseHexQuad a b c d = .ok high → 0xD800 ≤ high ∧ high ≤ 0xDBFF →
    parseHexQuad e f g h = .ok low → 0xDC00 ≤ low ∧ low ≤ 0xDFFF →
    utf8 (0x10000 + ((high - 0xD800) <<< 10 ||| (low - 0xDC00))) = .ok encoded → Chars input out rest →
    Chars (92 :: 117 :: a :: b :: c :: d :: 92 :: 117 :: e :: f :: g :: h :: input) (encoded ++ out) rest

/-- Digits, and no '0' in front of others. -/
structure Digits (digits : Bytes) : Prop where
  ne_nil : digits ≠ []
  isDigit : ∀ c ∈ digits, isDigit c = true
  leading : digits.head? = some 48 → digits = [48]

/-- Digits, behind a '-' or nothing. -/
structure Numeral (sign digits : Bytes) : Prop where
  sign : sign = [] ∨ sign = [45]
  digits : Digits digits

mutual

inductive Value : Bytes → Json δ → Bytes → Prop where
  | null (rest : Bytes) : Value (ascii "null" ++ rest) .null rest
  | yes (rest : Bytes) : Value (ascii "true" ++ rest) (.bool true) rest
  | no (rest : Bytes) : Value (ascii "false" ++ rest) (.bool false) rest
  | whole {sign digits : Bytes} {value : Int} (rest : Bytes) : Numeral sign digits →
    fromChars sign digits = .ok value → Value (sign ++ (digits ++ rest)) (.int64 value) rest
  | string {input value rest : Bytes} : Chars input value rest → Value (34 :: input) (.string value) rest
  | noItems {input rest : Bytes} : Gap input (93 :: rest) → Value (91 :: input) (.array []) rest
  | items {input rest : Bytes} {values : List (Json δ)} : Items input values rest →
    Value (91 :: input) (.array values) rest
  | noMembers {input rest : Bytes} : Gap input (125 :: rest) → Value (123 :: input) (.object []) rest
  | members {input rest : Bytes} {members : List (Bytes × Json δ)} : Members input members rest →
    (members.map Prod.fst).Nodup → Value (123 :: input) (Json.ofMembers members) rest

/-- Items with commas between them, and the closing bracket. -/
inductive Items : Bytes → List (Json δ) → Bytes → Prop where
  | last {input start behind rest : Bytes} {value : Json δ} : Gap input start → Value start value behind →
    Gap behind (93 :: rest) → Items input [value] rest
  | next {input start behind more rest : Bytes} {value : Json δ} {values : List (Json δ)} : Gap input start →
    Value start value behind → Gap behind (44 :: more) → Items more values rest →
    Items input (value :: values) rest

/-- Members with commas between them, as they are listed, and the closing brace. -/
inductive Members : Bytes → List (Bytes × Json δ) → Bytes → Prop where
  | last {input name colon gap start behind rest : Bytes} {key : Bytes} {value : Json δ} : Gap input (34 :: name) →
    Chars name key colon → Gap colon (58 :: gap) → Gap gap start → Value start value behind →
    Gap behind (125 :: rest) → Members input [(key, value)] rest
  | next {input name colon gap start behind more rest : Bytes} {key : Bytes} {value : Json δ}
    {members : List (Bytes × Json δ)} : Gap input (34 :: name) → Chars name key colon → Gap colon (58 :: gap) →
    Gap gap start → Value start value behind → Gap behind (44 :: more) → Members more members rest →
    Members input ((key, value) :: members) rest

end

/-- A text says a document. -/
def Says (text : Bytes) (json : Json δ) : Prop :=
  ∃ start rest, Gap text start ∧ Value start json rest ∧ Gap rest []

/-! ## Scanning a text -/

/-- Whether something is found in a text: outside its strings by `outside`, of a byte and what is behind it, or
    in a string behind a backslash by `escape`. -/
def finds (outside : UInt8 → Bytes → Bool) (escape : Bytes → Bool) : Bool → Bytes → Bool
  | _, [] => false
  | false, c :: rest => outside c rest || finds outside escape (c == 34) rest
  | true, c :: rest =>
    if c = 92 then
      match rest with
      | [] => false
      | d :: rest => escape (d :: rest) || finds outside escape true rest
    else finds outside escape (c != 34) rest

/-- A digit with a fraction or an exponent behind it. -/
def decimalAt (c : UInt8) (rest : Bytes) : Bool :=
  isDigit c && rest.head?.any fun c => c == 46 || c == 101 || c == 69

/-- The text has a number with a fraction or an exponent. -/
def hasDecimal (text : Bytes) : Bool := finds decimalAt (fun _ => false) false text

/-! ## Blanks -/

theorem gap_skipWhitespace (input : Bytes) : Gap input (skipWhitespace input) := by
  induction input with
  | nil => exact .none _
  | cons c rest ih =>
    rw [skipWhitespace, List.dropWhile_cons]
    split
    · exact .blank ‹_› ih
    · exact .none _

theorem skipWhitespace_gap {input rest : Bytes} (h : Gap input rest) :
    skipWhitespace input = skipWhitespace rest := by
  induction h with
  | none rest => rfl
  | blank hblank _ ih =>
    rw [skipWhitespace, List.dropWhile_cons, if_pos hblank]
    exact ih

theorem length_gap {input rest : Bytes} (h : Gap input rest) : rest.length ≤ input.length := by
  induction h with
  | none rest => exact Nat.le_refl _
  | blank _ _ ih => exact Nat.le_succ_of_le ih

theorem consume_gap {c : UInt8} {input rest : Bytes} (hc : isWhitespace c = false) (h : Gap input (c :: rest)) :
    consume c input = some rest := by
  rw [consume, skipWhitespace_gap h, skipWhitespace_cons hc]
  exact if_pos rfl

theorem gap_of_consume {c : UInt8} {input rest : Bytes} (h : consume c input = some rest) :
    Gap input (c :: rest) := by
  have hgap := gap_skipWhitespace input
  rw [consume] at h
  split at h
  · cases h
  · rename_i d behind hskip
    split at h
    · obtain rfl := Option.some_inj.mp h
      obtain rfl : d = c := ‹_›
      rwa [hskip] at hgap
    · cases h

/-- Something else stands behind the blanks. -/
theorem consume_gap_other {c expected : UInt8} {input rest : Bytes} (hc : isWhitespace c = false)
    (hne : c ≠ expected) (h : Gap input (c :: rest)) : consume expected input = none := by
  rw [consume, skipWhitespace_gap h, skipWhitespace_cons hc]
  exact if_neg hne

theorem expect_iff {c : UInt8} {input rest : Bytes} (hc : isWhitespace c = false) :
    expect c input = .ok rest ↔ Gap input (c :: rest) := by
  constructor
  · intro h
    rw [expect] at h
    split at h
    · obtain rfl := Except.ok.inj h
      exact gap_of_consume ‹_›
    · cases h
  · exact fun h => expect_of_consume (consume_gap hc h)

/-! ## Strings -/

theorem behind_ok {front : Except String Bytes} {string : Except String (Bytes × Bytes)} {out rest : Bytes}
    (h : behind front string = .ok (out, rest)) :
    ∃ first more, front = .ok first ∧ string = .ok (more, rest) ∧ out = first ++ more := by
  cases front with
  | error message => cases h
  | ok first =>
    rcases string with message | ⟨more, rest'⟩
    · cases h
    · obtain ⟨rfl, rfl⟩ := Prod.mk.inj (Except.ok.inj h)
      exact ⟨first, more, rfl, rfl, rfl⟩

theorem parseChars_quote (rest : Bytes) : parseChars (34 :: rest) = .ok ([], rest) := by
  rw [parseChars.eq_def]
  rfl

theorem parseChars_plain {c : UInt8} (hquote : c ≠ 34) (hslash : c ≠ 92) (hcontrol : ¬ c < 32) (rest : Bytes) :
    parseChars (c :: rest) = behind (.ok [c]) (parseChars rest) := by
  rw [parseChars.eq_def]
  exact (if_neg hquote).trans ((if_neg hcontrol).trans (if_pos hslash))

theorem parseChars_letter {escaped c : UInt8} (h : simpleEscape escaped = some c) (rest : Bytes) :
    parseChars (92 :: escaped :: rest) = behind (.ok [c]) (parseChars rest) := by
  rw [parseChars.eq_def]
  simp [h]

/-- A letter that stands for nothing. -/
theorem parseChars_unknown {escaped : UInt8} (hletter : simpleEscape escaped = none) (hunicode : escaped ≠ 117)
    (rest : Bytes) : parseChars (92 :: escaped :: rest) = .error "invalid JSON escape" := by
  rw [parseChars.eq_def]
  simp [hletter, hunicode]

/-- An escape of four digits, which may be the first of a pair. -/
theorem parseChars_quad {a b c d : UInt8} {codePoint : Nat} (h : parseHexQuad a b c d = .ok codePoint)
    (rest : Bytes) : parseChars (92 :: 117 :: a :: b :: c :: d :: rest) =
      if 0xD800 ≤ codePoint ∧ codePoint ≤ 0xDBFF then
        match rest with
        | 92 :: 117 :: e :: f :: g :: h :: rest =>
          match parseHexQuad e f g h with
          | .error message => .error message
          | .ok low =>
            if low < 0xDC00 ∨ 0xDFFF < low then .error "invalid JSON low surrogate"
            else behind (utf8 (0x10000 + ((codePoint - 0xD800) <<< 10 ||| (low - 0xDC00)))) (parseChars rest)
        | _ => .error "missing JSON low surrogate"
      else if 0xDC00 ≤ codePoint ∧ codePoint ≤ 0xDFFF then .error "unexpected JSON low surrogate"
      else behind (utf8 codePoint) (parseChars rest) := by
  have hletter : simpleEscape 117 = none := by decide
  rw [parseChars.eq_def]
  simp only [hletter, h]
  rfl

theorem parseChars_of_chars {input out rest : Bytes} (h : Chars input out rest) :
    parseChars input = .ok (out, rest) := by
  induction h with
  | close rest => exact parseChars_quote rest
  | plain hquote hslash hcontrol _ ih =>
    rw [parseChars_plain hquote hslash hcontrol, ih]
    rfl
  | letter hletter _ ih =>
    rw [parseChars_letter hletter, ih]
    rfl
  | unit hquad hunit hencoded _ ih =>
    rw [parseChars_quad hquad, if_neg (by omega), if_neg (by omega), hencoded, ih]
    rfl
  | pair hquad hhigh hlowQuad hlow hencoded _ ih =>
    rw [parseChars_quad hquad, if_pos hhigh]
    simp only [hlowQuad]
    rw [if_neg (by omega), hencoded, ih]
    rfl

/-- Four digits must stand behind an 'u'. -/
theorem exists_quad {rest : Bytes} {r : Bytes × Bytes} (h : parseChars (92 :: 117 :: rest) = .ok r) :
    ∃ a b c d codePoint more, rest = a :: b :: c :: d :: more ∧ parseHexQuad a b c d = .ok codePoint := by
  rw [parseChars.eq_def] at h
  rcases rest with _ | ⟨a, _ | ⟨b, _ | ⟨c, _ | ⟨d, more⟩⟩⟩⟩
  · cases h
  · cases h
  · cases h
  · cases h
  cases hquad : parseHexQuad a b c d with
  | ok codePoint => exact ⟨a, b, c, d, codePoint, more, rfl, hquad⟩
  | error message =>
    have hletter : simpleEscape 117 = none := by decide
    simp [hletter, hquad] at h

theorem chars_of_parseChars {input out rest : Bytes} (h : parseChars input = .ok (out, rest)) :
    Chars input out rest := by
  induction hn : input.length using Nat.strong_induction_on generalizing input out with
  | _ n ih =>
  subst hn
  rcases input with _ | ⟨c, input⟩
  · cases h
  by_cases hquote : c = 34
  · subst hquote
    rw [parseChars_quote] at h
    obtain ⟨rfl, rfl⟩ := Prod.mk.inj (Except.ok.inj h)
    exact .close _
  by_cases hcontrol : c < 32
  · rw [parseChars.eq_def] at h
    simp only [if_neg hquote, if_pos hcontrol] at h
    cases h
  by_cases hslash : c ≠ 92
  · rw [parseChars_plain hquote hslash hcontrol] at h
    obtain ⟨first, more, hfirst, hmore, rfl⟩ := behind_ok h
    obtain rfl := Except.ok.inj hfirst
    exact .plain hquote hslash hcontrol (ih _ (Nat.lt_succ_self _) hmore rfl)
  obtain rfl := not_not.mp hslash
  rcases input with _ | ⟨escaped, input⟩
  · cases h
  cases hletter : simpleEscape escaped with
  | some c =>
    rw [parseChars_letter hletter] at h
    obtain ⟨first, more, hfirst, hmore, rfl⟩ := behind_ok h
    obtain rfl := Except.ok.inj hfirst
    exact .letter hletter (ih _ (by simp only [List.length_cons]; omega) hmore rfl)
  | none =>
    by_cases hunicode : escaped = 117
    · subst hunicode
      obtain ⟨a, b, c, d, codePoint, more, rfl, hquad⟩ := exists_quad h
      rw [parseChars_quad hquad] at h
      split at h
      · -- a high surrogate: a low one must follow
        rename_i hhigh
        split at h
        · rename_i e f g i rest'
          split at h
          · cases h
          · rename_i low hlow
            split at h
            · cases h
            · rename_i hrange
              obtain ⟨first, more, hfirst, hmore, rfl⟩ := behind_ok h
              exact .pair hquad hhigh hlow (by omega) hfirst
                (ih _ (by simp only [List.length_cons]; omega) hmore rfl)
        · cases h
      · split at h
        · cases h
        · obtain ⟨first, more, hfirst, hmore, rfl⟩ := behind_ok h
          exact .unit hquad (by omega) hfirst (ih _ (by simp only [List.length_cons]; omega) hmore rfl)
    · rw [parseChars_unknown hletter hunicode] at h
      cases h

theorem length_chars {input out rest : Bytes} (h : Chars input out rest) : rest.length < input.length := by
  induction h with
  | close rest => exact Nat.lt_succ_self _
  | plain _ _ _ _ ih => exact Nat.lt_succ_of_lt ih
  | letter _ _ ih =>
    simp only [List.length_cons]
    omega
  | unit _ _ _ _ ih =>
    simp only [List.length_cons]
    omega
  | pair _ _ _ _ _ _ ih =>
    simp only [List.length_cons]
    omega

/-- A string is read behind blanks. -/
theorem parseString_iff {input value rest : Bytes} :
    parseString input = .ok (value, rest) ↔ ∃ name, Gap input (34 :: name) ∧ Chars name value rest := by
  constructor
  · intro h
    rw [parseString] at h
    cases hexpect : expect 34 input with
    | error message =>
      rw [hexpect] at h
      cases h
    | ok name =>
      rw [hexpect] at h
      exact ⟨name, (expect_iff (by decide)).mp hexpect, chars_of_parseChars h⟩
  · rintro ⟨name, hgap, hchars⟩
    rw [parseString, (expect_iff (by decide)).mpr hgap]
    exact parseChars_of_chars hchars

/-! ## What is behind a part that has been scanned -/

section Finds

variable {outside : UInt8 → Bytes → Bool} {escape : Bytes → Bool}

theorem finds_quote (rest : Bytes) (h : finds outside escape false (34 :: rest) = false) :
    finds outside escape true rest = false := by
  rw [finds] at h
  exact (Bool.or_eq_false_iff.mp h).2

theorem finds_cons {c : UInt8} {rest : Bytes} (hc : c ≠ 34)
    (h : finds outside escape false (c :: rest) = false) : finds outside escape false rest = false := by
  rw [finds, beq_eq_false_iff_ne.mpr hc] at h
  exact (Bool.or_eq_false_iff.mp h).2

theorem finds_append {front rest : Bytes} (hfront : ∀ c ∈ front, c ≠ 34)
    (h : finds outside escape false (front ++ rest) = false) : finds outside escape false rest = false := by
  induction front with
  | nil => exact h
  | cons c front ih =>
    exact ih (fun c hc => hfront c (List.mem_cons_of_mem _ hc)) (finds_cons (hfront c List.mem_cons_self) h)

theorem finds_gap {input rest : Bytes} (hgap : Gap input rest) (h : finds outside escape false input = false) :
    finds outside escape false rest = false := by
  induction hgap with
  | none rest => exact h
  | blank hblank _ ih =>
    refine ih (finds_cons ?_ h)
    rintro rfl
    exact absurd hblank (by decide)

theorem finds_skipWhitespace {input : Bytes} (h : finds outside escape false input = false) :
    finds outside escape false (skipWhitespace input) = false :=
  finds_gap (gap_skipWhitespace input) h

/-- A byte of a string that is no quote and no backslash. -/
theorem finds_plain {c : UInt8} (hquote : c ≠ 34) (hslash : c ≠ 92) (rest : Bytes) :
    finds outside escape true (c :: rest) = finds outside escape true rest := by
  rw [finds.eq_def]
  simp only [if_neg hslash, bne_iff_ne.mpr hquote]

theorem finds_escape (escaped : UInt8) (rest : Bytes) : finds outside escape true (92 :: escaped :: rest) =
    (escape (escaped :: rest) || finds outside escape true rest) := by
  rw [finds.eq_def]
  rfl

/-- A hexadecimal digit is no quote and no backslash. -/
theorem hexValue_ok {c : UInt8} {n : Nat} (h : hexValue c = .ok n) : c ≠ 34 ∧ c ≠ 92 := by
  constructor
  · rintro rfl
    cases h
  · rintro rfl
    cases h

theorem parseHexQuad_ok {a b c d : UInt8} {codePoint : Nat} (h : parseHexQuad a b c d = .ok codePoint) :
    ∃ w x y z, hexValue a = .ok w ∧ hexValue b = .ok x ∧ hexValue c = .ok y ∧ hexValue d = .ok z ∧
      codePoint = ((w * 16 + x) * 16 + y) * 16 + z := by
  rw [parseHexQuad] at h
  cases ha : hexValue a with
  | error message => rw [ha] at h; cases h
  | ok w =>
  cases hb : hexValue b with
  | error message => rw [ha, hb] at h; cases h
  | ok x =>
  cases hc : hexValue c with
  | error message => rw [ha, hb, hc] at h; cases h
  | ok y =>
  cases hd : hexValue d with
  | error message => rw [ha, hb, hc, hd] at h; cases h
  | ok z =>
    rw [ha, hb, hc, hd] at h
    exact ⟨w, x, y, z, rfl, rfl, rfl, rfl, (Except.ok.inj h).symm⟩

theorem finds_quad {a b c d : UInt8} {codePoint : Nat} (h : parseHexQuad a b c d = .ok codePoint)
    (rest : Bytes) : finds outside escape true (a :: b :: c :: d :: rest) = finds outside escape true rest := by
  obtain ⟨w, x, y, z, ha, hb, hc, hd, -⟩ := parseHexQuad_ok h
  rw [finds_plain (hexValue_ok ha).1 (hexValue_ok ha).2, finds_plain (hexValue_ok hb).1 (hexValue_ok hb).2,
    finds_plain (hexValue_ok hc).1 (hexValue_ok hc).2, finds_plain (hexValue_ok hd).1 (hexValue_ok hd).2]

theorem finds_chars {input out rest : Bytes} (hchars : Chars input out rest)
    (h : finds outside escape true input = false) : finds outside escape false rest = false := by
  induction hchars with
  | close rest =>
    rw [finds.eq_def] at h
    exact h
  | plain hquote hslash _ _ ih =>
    rw [finds_plain hquote hslash] at h
    exact ih h
  | letter _ _ ih =>
    rw [finds_escape] at h
    exact ih (Bool.or_eq_false_iff.mp h).2
  | unit hquad _ _ _ ih =>
    rw [finds_escape, finds_quad hquad] at h
    exact ih (Bool.or_eq_false_iff.mp h).2
  | pair hquad _ hlow _ _ _ ih =>
    rw [finds_escape, finds_quad hquad, finds_escape, finds_quad hlow] at h
    exact ih (Bool.or_eq_false_iff.mp (Bool.or_eq_false_iff.mp h).2).2

end Finds

/-! ## Numbers -/

theorem parseSign_numeral {sign digits : Bytes} (h : Numeral sign digits) (rest : Bytes) :
    parseSign [45] (sign ++ (digits ++ rest)) = (sign, digits ++ rest) := by
  rcases h.sign with rfl | rfl
  · rcases hdigits : digits with _ | ⟨c, more⟩
    · exact absurd hdigits h.digits.ne_nil
    · have hne : c ≠ 45 := by
        rintro rfl
        have hdigit := h.digits.isDigit 45 (hdigits ▸ List.mem_cons_self)
        exact absurd hdigit (by decide)
      exact if_neg (by simpa using hne)
  · rfl

theorem parseSign_cases (input : Bytes) : ∃ sign rest, parseSign [45] input = (sign, rest) ∧
    input = sign ++ rest ∧ (sign = [] ∨ sign = [45]) := by
  rcases input with _ | ⟨c, rest⟩
  · exact ⟨[], [], rfl, rfl, .inl rfl⟩
  · by_cases hc : c = 45
    · subst hc
      exact ⟨[45], rest, rfl, rfl, .inr rfl⟩
    · exact ⟨[], c :: rest, if_neg (by simpa using hc), rfl, .inl rfl⟩

/-- What is behind a number is no digit, and no point or exponent. -/
theorem not_digit_of_delimited {rest : Bytes} (h : Json.Delimited rest) : rest.head?.any isDigit = false := by
  rcases rest with _ | ⟨c, rest⟩
  · rfl
  · have hc := h c rfl
    rw [isNumberByte] at hc
    simp only [Bool.or_eq_false_iff] at hc
    exact hc.1.1.1.1.1

theorem span_digits {digits rest : Bytes} (hdigits : ∀ c ∈ digits, isDigit c = true)
    (hrest : rest.head?.any isDigit = false) : (digits ++ rest).span isDigit = (digits, rest) := by
  have hdrop : rest.dropWhile isDigit = rest ∧ rest.takeWhile isDigit = [] := by
    rcases rest with _ | ⟨c, rest⟩
    · exact ⟨rfl, rfl⟩
    · replace hrest : isDigit c = false := hrest
      rw [List.dropWhile_cons, List.takeWhile_cons, hrest]
      exact ⟨rfl, rfl⟩
  rw [List.span_eq_takeWhile_dropWhile, List.takeWhile_append_of_pos hdigits,
    List.dropWhile_append_of_pos hdigits, hdrop.1, hdrop.2, List.append_nil]

theorem parseWhole_digits {digits rest : Bytes} (h : Digits digits) (hrest : Json.Delimited rest) :
    parseWhole (digits ++ rest) = .ok (digits, rest) := by
  have hnot := not_digit_of_delimited hrest
  rcases hdigits : digits with _ | ⟨c, more⟩
  · exact absurd hdigits h.ne_nil
  · by_cases hc : c = 48
    · subst hc
      obtain rfl : more = [] := (List.cons.inj (hdigits.symm.trans (h.leading (by rw [hdigits]; rfl)))).2
      show (if rest.head?.any isDigit = true then _ else _) = _
      rw [hnot]
      rfl
    · have hspan := span_digits h.isDigit hnot
      have hfirst : isDigit c = true := h.isDigit c (hdigits ▸ List.mem_cons_self)
      rw [hdigits] at hspan
      show (if c = 48 then _ else parseDigits "invalid JSON number" (c :: more ++ rest)) = _
      rw [if_neg hc, parseDigits, hspan]
      exact if_pos hfirst

theorem digits_of_parseWhole {input digits rest : Bytes} (h : parseWhole input = .ok (digits, rest)) :
    Digits digits ∧ input = digits ++ rest := by
  rcases input with _ | ⟨c, input⟩
  · cases h
  rw [parseWhole] at h
  split at h
  · subst_vars
    split at h
    · cases h
    · obtain ⟨rfl, rfl⟩ := Prod.mk.inj (Except.ok.inj h)
      exact ⟨⟨nofun, fun c hc => by rw [List.mem_singleton.mp hc]; decide, fun _ => rfl⟩, rfl⟩
  · rename_i hzero
    rw [parseDigits] at h
    split at h
    · rename_i hdigit
      replace hdigit : isDigit c = true := hdigit
      rw [List.span_eq_takeWhile_dropWhile] at h
      obtain ⟨rfl, rfl⟩ := Prod.mk.inj (Except.ok.inj h)
      have hhead : (c :: input).takeWhile isDigit = c :: input.takeWhile isDigit := by
        rw [List.takeWhile_cons, if_pos hdigit]
      refine ⟨⟨?_, fun c hc => List.mem_takeWhile_imp hc, fun hleading => ?_⟩,
        List.takeWhile_append_dropWhile.symm⟩
      · rw [hhead]
        exact List.cons_ne_nil _ _
      · rw [hhead] at hleading
        exact absurd (Option.some_inj.mp hleading) hzero
    · cases h

/-- Behind digits there is no fraction and no exponent, where the text has none. -/
theorem plain_of_digits {digits rest : Bytes} (hne : digits ≠ []) (hdigits : ∀ c ∈ digits, isDigit c = true)
    (h : hasDecimal (digits ++ rest) = false) :
    rest.head?.any (fun c => c == 46 || c == 101 || c == 69) = false := by
  induction digits with
  | nil => exact absurd rfl hne
  | cons c digits ih =>
    have hfirst : isDigit c = true := hdigits c List.mem_cons_self
    rw [List.cons_append, hasDecimal, finds, decimalAt, hfirst, Bool.true_and] at h
    obtain ⟨hnext, hrest⟩ := Bool.or_eq_false_iff.mp h
    rcases digits with _ | ⟨d, digits⟩
    · exact hnext
    · refine ih (List.cons_ne_nil _ _) (fun c hc => hdigits c (List.mem_cons_of_mem _ hc)) ?_
      have hquote : (c == 34) = false := by
        rw [beq_eq_false_iff_ne]
        rintro rfl
        exact absurd hfirst (by decide)
      rwa [hquote] at hrest

theorem parseFraction_plain {rest : Bytes}
    (h : rest.head?.any (fun c => c == 46 || c == 101 || c == 69) = false) :
    parseFraction rest = .ok ([], rest) ∧ parseExponent rest = .ok ([], rest) := by
  rcases rest with _ | ⟨c, rest⟩
  · exact ⟨rfl, rfl⟩
  · replace h : (c == 46 || c == 101 || c == 69) = false := h
    simp only [Bool.or_eq_false_iff, beq_eq_false_iff_ne] at h
    obtain ⟨⟨hpoint, hlower⟩, hupper⟩ := h
    exact ⟨if_neg hpoint, if_neg (not_or.mpr ⟨hlower, hupper⟩)⟩

section Numbers

variable [Strtod δ]

theorem parseNumber_numeral {sign digits rest : Bytes} {value : Int} (h : Numeral sign digits)
    (hvalue : fromChars sign digits = .ok value) (hrest : Json.Delimited rest) :
    parseNumber (δ := δ) (sign ++ (digits ++ rest)) = .ok (.int64 value, rest) := by
  have hplain : rest.head?.any (fun c => c == 46 || c == 101 || c == 69) = false := by
    rcases rest with _ | ⟨c, rest⟩
    · rfl
    · have hc := hrest c rfl
      rw [isNumberByte] at hc
      simp only [Bool.or_eq_false_iff] at hc
      show (c == 46 || c == 101 || c == 69) = false
      simp only [Bool.or_eq_false_iff]
      exact ⟨⟨hc.1.1.2, hc.1.2⟩, hc.2⟩
  obtain ⟨hfraction, hexponent⟩ := parseFraction_plain hplain
  rw [parseNumber, parseSign_numeral h]
  simp only [bind, Except.bind, parseWhole_digits h.digits hrest, hfraction, hexponent, and_self, if_true, hvalue]
  rfl

/-- **Only whole numbers are read off a text without fractions and exponents.** -/
theorem numeral_of_parseNumber {input rest : Bytes} {json : Json δ} (hplain : hasDecimal input = false)
    (h : parseNumber input = .ok (json, rest)) : ∃ sign digits value, Numeral sign digits ∧
      fromChars sign digits = .ok value ∧ input = sign ++ (digits ++ rest) ∧ json = .int64 value := by
  obtain ⟨sign, behindSign, hsign, rfl, hsigns⟩ := parseSign_cases input
  rw [parseNumber, hsign] at h
  simp only [bind, Except.bind] at h
  cases hwhole : parseWhole behindSign with
  | error message =>
    rw [hwhole] at h
    cases h
  | ok whole =>
  obtain ⟨digits, behindDigits⟩ := whole
  obtain ⟨hdigits, rfl⟩ := digits_of_parseWhole hwhole
  have hbehind : hasDecimal (digits ++ behindDigits) = false := by
    refine finds_append (fun c hc => ?_) hplain
    rcases hsigns with rfl | rfl
    · cases hc
    · rw [List.mem_singleton.mp hc]
      decide
  obtain ⟨hfraction, hexponent⟩ := parseFraction_plain (plain_of_digits hdigits.ne_nil hdigits.isDigit hbehind)
  simp only [hwhole, hfraction, hexponent, and_self, if_true] at h
  cases hvalue : fromChars sign digits with
  | error message =>
    rw [hvalue] at h
    cases h
  | ok value =>
    rw [hvalue] at h
    obtain ⟨rfl, rfl⟩ := Prod.mk.inj (Except.ok.inj h)
    exact ⟨sign, digits, value, ⟨hsigns, hdigits⟩, hvalue, rfl, rfl⟩

end Numbers

/-! ## Complete -/

theorem gap_cons {c : UInt8} (hc : isWhitespace c = false) {input rest : Bytes} (h : Gap (c :: input) rest) :
    rest = c :: input := by
  cases h with
  | none => rfl
  | blank hblank _ =>
    rw [hc] at hblank
    cases hblank

mutual

theorem length_value : ∀ {input : Bytes} {json : Json δ} {rest : Bytes}, Value input json rest →
    rest.length < input.length
  | _, _, _, .null rest => by
    rw [List.length_append]
    exact Nat.lt_add_of_pos_left (by decide)
  | _, _, _, .yes rest => by
    rw [List.length_append]
    exact Nat.lt_add_of_pos_left (by decide)
  | _, _, _, .no rest => by
    rw [List.length_append]
    exact Nat.lt_add_of_pos_left (by decide)
  | _, _, _, .whole rest hnumeral _ => by
    have hpos := List.length_pos_iff.mpr hnumeral.digits.ne_nil
    simp only [List.length_append]
    omega
  | _, _, _, .string hchars => Nat.lt_succ_of_lt (length_chars hchars)
  | _, _, _, .noItems hgap => by
    have hlength := length_gap hgap
    simp only [List.length_cons] at hlength ⊢
    omega
  | _, _, _, .items hitems => Nat.lt_succ_of_lt (length_items hitems)
  | _, _, _, .noMembers hgap => by
    have hlength := length_gap hgap
    simp only [List.length_cons] at hlength ⊢
    omega
  | _, _, _, .members hmembers _ => Nat.lt_succ_of_lt (length_members hmembers)

theorem length_items : ∀ {input : Bytes} {values : List (Json δ)} {rest : Bytes}, Items input values rest →
    rest.length < input.length
  | _, _, _, .last hgap hvalue hclose => by
    have hlead := length_gap hgap
    have hlast := length_value hvalue
    have hbehind := length_gap hclose
    simp only [List.length_cons] at hbehind
    omega
  | _, _, _, .next hgap hvalue hcomma hmore => by
    have hlead := length_gap hgap
    have hfirst := length_value hvalue
    have hbehind := length_gap hcomma
    have hrest := length_items hmore
    simp only [List.length_cons] at hbehind
    omega

theorem length_members : ∀ {input : Bytes} {members : List (Bytes × Json δ)} {rest : Bytes},
    Members input members rest → rest.length < input.length
  | _, _, _, .last hgap hname hcolon hlead hvalue hclose => by
    have h₁ := length_gap hgap
    have h₂ := length_chars hname
    have h₃ := length_gap hcolon
    have h₄ := length_gap hlead
    have h₅ := length_value hvalue
    have h₆ := length_gap hclose
    simp only [List.length_cons] at h₁ h₃ h₆
    omega
  | _, _, _, .next hgap hname hcolon hlead hvalue hcomma hmore => by
    have h₁ := length_gap hgap
    have h₂ := length_chars hname
    have h₃ := length_gap hcolon
    have h₄ := length_gap hlead
    have h₅ := length_value hvalue
    have h₆ := length_gap hcomma
    have h₇ := length_members hmore
    simp only [List.length_cons] at h₁ h₃ h₆
    omega

end

/-- A value starts with a byte that is no blank and closes nothing. -/
theorem head_of_value {start rest : Bytes} {json : Json δ} (h : Value start json rest) :
    ∃ c tail, start = c :: tail ∧ isWhitespace c = false ∧ c ≠ 93 ∧ c ≠ 125 := by
  have hdigit : ∀ c : UInt8, isDigit c = true → isWhitespace c = false ∧ c ≠ 93 ∧ c ≠ 125 := by
    intro c hc
    refine ⟨?_, ?_, ?_⟩
    · by_contra hblank
      rw [Bool.not_eq_false, isWhitespace] at hblank
      simp only [Bool.or_eq_true, beq_iff_eq] at hblank
      rcases hblank with ((rfl | rfl) | rfl) | rfl <;> exact absurd hc (by decide)
    · rintro rfl
      exact absurd hc (by decide)
    · rintro rfl
      exact absurd hc (by decide)
  cases h with
  | null => exact ⟨110, _, rfl, by decide, by decide, by decide⟩
  | yes => exact ⟨116, _, rfl, by decide, by decide, by decide⟩
  | no => exact ⟨102, _, rfl, by decide, by decide, by decide⟩
  | whole rest hnumeral _ =>
    rcases hnumeral.sign with rfl | rfl
    · obtain ⟨c, digits, rfl⟩ := List.exists_cons_of_ne_nil hnumeral.digits.ne_nil
      exact ⟨c, _, rfl, hdigit c (hnumeral.digits.isDigit c List.mem_cons_self)⟩
    · exact ⟨45, _, rfl, by decide, by decide, by decide⟩
  | string => exact ⟨34, _, rfl, by decide, by decide, by decide⟩
  | noItems => exact ⟨91, _, rfl, by decide, by decide, by decide⟩
  | items => exact ⟨91, _, rfl, by decide, by decide, by decide⟩
  | noMembers => exact ⟨123, _, rfl, by decide, by decide, by decide⟩
  | members => exact ⟨123, _, rfl, by decide, by decide, by decide⟩

theorem consume_items {input rest : Bytes} {values : List (Json δ)} (h : Items input values rest) :
    consume 93 input = none := by
  have hnone : ∀ {start behind : Bytes} {value : Json δ}, Gap input start → Value start value behind →
      consume 93 input = none := by
    intro start behind value hgap hvalue
    obtain ⟨c, tail, rfl, hblank, hne, -⟩ := head_of_value hvalue
    exact consume_gap_other hblank hne hgap
  cases h with
  | last hgap hvalue _ => exact hnone hgap hvalue
  | next hgap hvalue _ _ => exact hnone hgap hvalue

theorem consume_members {input rest : Bytes} {members : List (Bytes × Json δ)} (h : Members input members rest) :
    consume 125 input = none := by
  cases h with
  | last hgap => exact consume_gap_other (by decide) (by decide) hgap
  | next hgap => exact consume_gap_other (by decide) (by decide) hgap

theorem delimited_blank {c : UInt8} (hc : isWhitespace c = true) (rest : Bytes) : Json.Delimited (c :: rest) := by
  refine Json.delimited_cons _ ?_
  rw [isWhitespace] at hc
  simp only [Bool.or_eq_true, beq_iff_eq] at hc
  rcases hc with ((rfl | rfl) | rfl) | rfl <;> decide

/-- In front of a blank, a comma or a bracket a number ends. -/
theorem delimited_gap {c : UInt8} (hc : isNumberByte c = false) {input rest : Bytes} (h : Gap input (c :: rest)) :
    Json.Delimited input := by
  cases h with
  | none => exact Json.delimited_cons _ hc
  | blank hblank _ => exact delimited_blank hblank _

/-- New members, one behind the other. -/
def Fresh (object : List (Bytes × Json δ)) (members : List (Bytes × Json δ)) : Prop :=
  (members.map Prod.fst).Nodup ∧ ∀ member ∈ members, object.lookup member.1 = none

theorem fresh_cons {object members : List (Bytes × Json δ)} {key : Bytes} {value : Json δ} :
    Fresh object ((key, value) :: members) ↔
      object.lookup key = none ∧ Fresh (Json.emplace key value object) members := by
  have hlookup : object.lookup key = none → ∀ other : Bytes,
      (Json.emplace key value object).lookup other = none ↔ other ≠ key ∧ object.lookup other = none := by
    intro hnew other
    by_cases hname : other = key
    · subst hname
      rw [Json.lookup_emplace_self value hnew]
      simp
    · rw [Json.lookup_emplace_ne hname]
      simp [hname]
  rw [Fresh, Fresh, List.map_cons, List.nodup_cons, List.forall_mem_cons]
  constructor
  · rintro ⟨⟨hnot, hnodup⟩, hnew, hothers⟩
    refine ⟨hnew, hnodup, fun member hmember => (hlookup hnew _).mpr ⟨?_, hothers member hmember⟩⟩
    exact fun hsame => hnot (List.mem_map.mpr ⟨member, hmember, hsame⟩)
  · rintro ⟨hnew, hnodup, hothers⟩
    refine ⟨⟨fun hmem => ?_, hnodup⟩, hnew, fun member hmember => ((hlookup hnew _).mp (hothers member hmember)).2⟩
    obtain ⟨member, hmember, hsame⟩ := List.mem_map.mp hmem
    exact ((hlookup hnew _).mp (hothers member hmember)).1 hsame

section Parser

variable [Strtod δ]

theorem parseValue_gap {input start : Bytes} (h : Gap input start) (fuel : Nat) :
    parseValue (δ := δ) fuel input = parseValue fuel start := by
  cases fuel with
  | zero => rfl
  | succ fuel => rw [parseValue, skipWhitespace_gap h, parseValue]

/-- What starts with a sign or a digit is a number. -/
theorem parseValue_number (fuel : Nat) {c : UInt8} (hc : c = 45 ∨ isDigit c = true) (rest : Bytes) :
    parseValue (δ := δ) (fuel + 1) (c :: rest) = parseNumber (c :: rest) := by
  have hne : ∀ d : UInt8, d ≠ 45 → isDigit d = false → c ≠ d := by
    rintro d hsign hdigit rfl
    rcases hc with rfl | hc
    · exact hsign rfl
    · rw [hdigit] at hc
      cases hc
  have hblank : isWhitespace c = false := by
    rw [isWhitespace]
    simp only [Bool.or_eq_false_iff, beq_eq_false_iff_ne]
    exact ⟨⟨⟨hne 32 (by decide) (by decide), hne 10 (by decide) (by decide)⟩, hne 13 (by decide) (by decide)⟩,
      hne 9 (by decide) (by decide)⟩
  have hword : ∀ (word : Bytes) (d : UInt8) (tail : Bytes), word = d :: tail → c ≠ d →
      ¬ word.isPrefixOf (c :: rest) = true := by
    rintro word d tail rfl hd hword
    rw [List.isPrefixOf, Bool.and_eq_true, beq_iff_eq] at hword
    exact hd hword.1.symm
  have hstart : ∀ d : UInt8, c ≠ d → ¬ (c :: rest).head? = some d := fun d hd h => hd (Option.some_inj.mp h)
  rw [parseValue, skipWhitespace_cons hblank]
  simp only [if_neg (List.cons_ne_nil c rest)]
  rw [if_neg (hword (ascii "null") 110 (ascii "ull") rfl (hne 110 (by decide) (by decide))),
    if_neg (hword (ascii "true") 116 (ascii "rue") rfl (hne 116 (by decide) (by decide))),
    if_neg (hword (ascii "false") 102 (ascii "alse") rfl (hne 102 (by decide) (by decide))),
    if_neg (hstart 34 (hne 34 (by decide) (by decide))), if_neg (hstart 91 (hne 91 (by decide) (by decide))),
    if_neg (hstart 123 (hne 123 (by decide) (by decide)))]

/-- A member in front of more. -/
theorem parseMembers_member {fuel : Nat} {object : List (Bytes × Json δ)} {input name colon gap start behind : Bytes}
    {key : Bytes} {value : Json δ} (hgap : Gap input (34 :: name)) (hname : Chars name key colon)
    (hcolon : Gap colon (58 :: gap)) (hlead : Gap gap start)
    (hvalue : parseValue fuel start = .ok (value, behind)) (hnew : object.lookup key = none) :
    parseMembers (fuel + 1) object input =
      match consume 125 behind with
      | some rest => .ok (.object (Json.emplace key value object), rest)
      | none => (expect 44 behind).bind (parseMembers fuel (Json.emplace key value object)) := by
  have hquote : skipWhitespace input = 34 :: name := by
    rw [skipWhitespace_gap hgap, skipWhitespace_cons (by decide)]
  have hread : parseString input = .ok (key, colon) := parseString_iff.mpr ⟨name, hgap, hname⟩
  have hvalue' : parseValue fuel gap = .ok (value, behind) := (parseValue_gap hlead fuel).trans hvalue
  have hemplace : emplaceNew key value object = .ok (Json.emplace key value object) := by
    rw [emplaceNew, hnew]
    rfl
  have hstart : ¬ (34 :: name : Bytes).head? ≠ some 34 := not_not.mpr rfl
  rw [parseMembers, hquote, if_neg hstart]
  simp only [bind, Except.bind, hread, (expect_iff (by decide)).mpr hcolon, hvalue', hemplace]
  rfl

mutual

/-- **What is said in front of something that is no part of a number is read.** -/
theorem parse_of_value : ∀ {input : Bytes} {json : Json δ} {rest : Bytes}, Value input json rest →
    Json.Delimited rest → ∀ (fuel : Nat), 2 * input.length ≤ fuel + 2 * rest.length →
    parseValue fuel input = .ok (json, rest)
  | _, _, _, .null rest, _, fuel, hfuel => by
    have hpos : 1 ≤ fuel := by
      simp only [List.length_append] at hfuel
      have : (ascii "null").length = 4 := rfl
      omega
    obtain ⟨fuel, rfl⟩ := Nat.exists_eq_add_of_le' hpos
    rw [parseValue]
    rfl
  | _, _, _, .yes rest, _, fuel, hfuel => by
    have hpos : 1 ≤ fuel := by
      simp only [List.length_append] at hfuel
      have : (ascii "true").length = 4 := rfl
      omega
    obtain ⟨fuel, rfl⟩ := Nat.exists_eq_add_of_le' hpos
    exact parseValue_true fuel rest
  | _, _, _, .no rest, _, fuel, hfuel => by
    have hpos : 1 ≤ fuel := by
      simp only [List.length_append] at hfuel
      have : (ascii "false").length = 5 := rfl
      omega
    obtain ⟨fuel, rfl⟩ := Nat.exists_eq_add_of_le' hpos
    rw [parseValue]
    rfl
  | _, _, _, @Value.whole _ sign digits _ rest hnumeral hvalue, hrest, fuel, hfuel => by
    have hdigits := List.length_pos_iff.mpr hnumeral.digits.ne_nil
    have hpos : 1 ≤ fuel := by
      simp only [List.length_append] at hfuel
      omega
    obtain ⟨fuel, rfl⟩ := Nat.exists_eq_add_of_le' hpos
    have hread := parseNumber_numeral (δ := δ) hnumeral hvalue hrest
    rcases hnumeral.sign with rfl | rfl
    · obtain ⟨c, digits, rfl⟩ := List.exists_cons_of_ne_nil hnumeral.digits.ne_nil
      rw [List.nil_append, List.cons_append] at hread ⊢
      rw [parseValue_number fuel (.inr (hnumeral.digits.isDigit c List.mem_cons_self)), hread]
    · rw [List.singleton_append] at hread ⊢
      rw [parseValue_number fuel (.inl rfl), hread]
  | _, _, _, @Value.string _ input _ _ hchars, _, fuel, hfuel => by
    have hlength := length_chars hchars
    have hpos : 1 ≤ fuel := by
      simp only [List.length_cons] at hfuel
      omega
    obtain ⟨fuel, rfl⟩ := Nat.exists_eq_add_of_le' hpos
    have hread := parseString_iff.mpr ⟨input, .none _, hchars⟩
    rw [parseValue]
    show (do
      let (value, rest) ← parseString (34 :: input)
      return (Json.string value, rest)) = _
    rw [hread]
    rfl
  | _, _, _, .noItems hgap, _, fuel, hfuel => by
    have hlength := length_gap hgap
    simp only [List.length_cons] at hlength hfuel
    obtain ⟨fuel, rfl⟩ := Nat.exists_eq_add_of_le' (by omega : 1 ≤ fuel)
    exact parseValue_noItems fuel (consume_gap (by decide) hgap)
  | _, _, _, .items hitems, _, fuel, hfuel => by
    have hlength := length_items hitems
    simp only [List.length_cons] at hfuel
    obtain ⟨fuel, rfl⟩ := Nat.exists_eq_add_of_le' (by omega : 1 ≤ fuel)
    rw [parseValue_items fuel (consume_items hitems)]
    exact (parse_of_items hitems [] (by omega)).trans (by rw [List.nil_append])
  | _, _, _, .noMembers hgap, _, fuel, hfuel => by
    have hlength := length_gap hgap
    simp only [List.length_cons] at hlength hfuel
    obtain ⟨fuel, rfl⟩ := Nat.exists_eq_add_of_le' (by omega : 1 ≤ fuel)
    exact parseValue_noMembers fuel (consume_gap (by decide) hgap)
  | _, _, _, .members hmembers hnodup, _, fuel, hfuel => by
    have hlength := length_members hmembers
    simp only [List.length_cons] at hfuel
    obtain ⟨fuel, rfl⟩ := Nat.exists_eq_add_of_le' (by omega : 1 ≤ fuel)
    rw [parseValue_members fuel (consume_members hmembers)]
    exact parse_of_members hmembers [] ⟨hnodup, fun _ _ => rfl⟩ (by omega)

theorem parse_of_items : ∀ {input : Bytes} {values : List (Json δ)} {rest : Bytes}, Items input values rest →
    ∀ (front : List (Json δ)) {fuel : Nat}, 2 * input.length + 1 ≤ fuel + 2 * rest.length →
    parseItems fuel front input = .ok (.array (front ++ values), rest)
  | _, _, _, .last hgap hvalue hclose, front, fuel, hfuel => by
    have hlead := length_gap hgap
    have hlast := length_value hvalue
    have hbehind := length_gap hclose
    simp only [List.length_cons] at hbehind
    obtain ⟨fuel, rfl⟩ := Nat.exists_eq_add_of_le' (by omega : 1 ≤ fuel)
    have hread := parse_of_value hvalue (delimited_gap (by decide) hclose) fuel (by omega)
    exact parseItems_last ((parseValue_gap hgap fuel).trans hread) (consume_gap (by decide) hclose)
  | _, _, _, .next hgap hvalue hcomma hmore, front, fuel, hfuel => by
    have hlead := length_gap hgap
    have hfirst := length_value hvalue
    have hbehind := length_gap hcomma
    have hrest := length_items hmore
    simp only [List.length_cons] at hbehind
    obtain ⟨fuel, rfl⟩ := Nat.exists_eq_add_of_le' (by omega : 1 ≤ fuel)
    have hread := parse_of_value hvalue (delimited_gap (by decide) hcomma) fuel (by omega)
    rw [parseItems_next ((parseValue_gap hgap fuel).trans hread)
      (consume_gap_other (by decide) (by decide) hcomma) (consume_gap (by decide) hcomma),
      parse_of_items hmore (front ++ [_]) (by omega), List.append_assoc]
    rfl

theorem parse_of_members : ∀ {input : Bytes} {members : List (Bytes × Json δ)} {rest : Bytes},
    Members input members rest → ∀ (object : List (Bytes × Json δ)), Fresh object members →
    ∀ {fuel : Nat}, 2 * input.length + 1 ≤ fuel + 2 * rest.length →
    parseMembers fuel object input =
      .ok (.object (members.foldl (fun object m => Json.emplace m.1 m.2 object) object), rest)
  | _, _, _, .last hgap hname hcolon hlead hvalue hclose, object, hfresh, fuel, hfuel => by
    have h₁ := length_gap hgap
    have h₂ := length_chars hname
    have h₃ := length_gap hcolon
    have h₄ := length_gap hlead
    have h₅ := length_value hvalue
    have h₆ := length_gap hclose
    simp only [List.length_cons] at h₁ h₃ h₆
    obtain ⟨fuel, rfl⟩ := Nat.exists_eq_add_of_le' (by omega : 1 ≤ fuel)
    have hread := parse_of_value hvalue (delimited_gap (by decide) hclose) fuel (by omega)
    rw [parseMembers_member hgap hname hcolon hlead hread (fresh_cons.mp hfresh).1,
      consume_gap (by decide) hclose]
    rfl
  | _, _, _, .next hgap hname hcolon hlead hvalue hcomma hmore, object, hfresh, fuel, hfuel => by
    have h₁ := length_gap hgap
    have h₂ := length_chars hname
    have h₃ := length_gap hcolon
    have h₄ := length_gap hlead
    have h₅ := length_value hvalue
    have h₆ := length_gap hcomma
    have h₇ := length_members hmore
    simp only [List.length_cons] at h₁ h₃ h₆
    obtain ⟨fuel, rfl⟩ := Nat.exists_eq_add_of_le' (by omega : 1 ≤ fuel)
    have hread := parse_of_value hvalue (delimited_gap (by decide) hcomma) fuel (by omega)
    rw [parseMembers_member hgap hname hcolon hlead hread (fresh_cons.mp hfresh).1,
      consume_gap_other (by decide) (by decide) hcomma, (expect_iff (by decide)).mpr hcomma]
    exact parse_of_members hmore _ (fresh_cons.mp hfresh).2 (by omega)

end

/-! ## Sound -/

/-- What a text starts with. -/
theorem eq_append_of_isPrefixOf {word input : Bytes} (h : word.isPrefixOf input = true) :
    input = word ++ input.drop word.length := by
  obtain ⟨rest, rfl⟩ := List.isPrefixOf_iff_prefix.mp h
  rw [List.drop_left]

theorem cons_of_head {input : Bytes} {c : UInt8} (h : input.head? = some c) : input = c :: input.drop 1 := by
  cases input with
  | nil => cases h
  | cons d rest =>
    obtain rfl := Option.some_inj.mp h
    rfl

mutual

/-- **What is read off a text without fractions and exponents is said there**, and there are none behind it. -/
theorem value_of_parse : ∀ (fuel : Nat) {input : Bytes} {json : Json δ} {rest : Bytes},
    hasDecimal input = false → parseValue fuel input = .ok (json, rest) →
    (∃ start, Gap input start ∧ Value start json rest) ∧ hasDecimal rest = false
  | 0, _, _, _, _, h => by cases h
  | fuel + 1, input, json, rest, hplain, h => by
    have hgap := gap_skipWhitespace input
    have hstart : hasDecimal (skipWhitespace input) = false := finds_skipWhitespace hplain
    rw [parseValue] at h
    revert h
    revert hstart hgap
    generalize skipWhitespace input = start
    intro hgap hstart h
    split at h
    · cases h
    split at h
    · obtain ⟨rfl, rfl⟩ := Prod.mk.inj (Except.ok.inj h)
      have hword := eq_append_of_isPrefixOf ‹(ascii "null").isPrefixOf start = true›
      rw [hword] at hstart
      refine ⟨⟨start, hgap, ?_⟩, finds_append (by decide +kernel) hstart⟩
      rw [hword]
      exact .null _
    split at h
    · obtain ⟨rfl, rfl⟩ := Prod.mk.inj (Except.ok.inj h)
      have hword := eq_append_of_isPrefixOf ‹(ascii "true").isPrefixOf start = true›
      rw [hword] at hstart
      refine ⟨⟨start, hgap, ?_⟩, finds_append (by decide +kernel) hstart⟩
      rw [hword]
      exact .yes _
    split at h
    · obtain ⟨rfl, rfl⟩ := Prod.mk.inj (Except.ok.inj h)
      have hword := eq_append_of_isPrefixOf ‹(ascii "false").isPrefixOf start = true›
      rw [hword] at hstart
      refine ⟨⟨start, hgap, ?_⟩, finds_append (by decide +kernel) hstart⟩
      rw [hword]
      exact .no _
    split at h
    · -- a string
      have hhead := cons_of_head ‹start.head? = some 34›
      cases hread : parseString start with
      | error message =>
        rw [hread] at h
        cases h
      | ok string =>
        rw [hread] at h
        obtain ⟨rfl, rfl⟩ := Prod.mk.inj (Except.ok.inj h)
        obtain ⟨name, hopen, hchars⟩ := parseString_iff.mp hread
        rw [hhead] at hopen hstart
        obtain rfl := (List.cons.inj (gap_cons (by decide) hopen)).2
        refine ⟨⟨start, hgap, ?_⟩, finds_chars hchars (finds_quote _ hstart)⟩
        rw [hhead]
        exact .string hchars
    split at h
    · -- an array
      have hhead := cons_of_head ‹start.head? = some 91›
      rw [hhead] at hstart
      have hbody : hasDecimal (start.drop 1) = false := finds_cons (by decide) hstart
      split at h
      · obtain ⟨rfl, rfl⟩ := Prod.mk.inj (Except.ok.inj h)
        have hclose := gap_of_consume ‹consume 93 (start.drop 1) = some _›
        refine ⟨⟨start, hgap, ?_⟩, finds_cons (by decide) (finds_gap hclose hbody)⟩
        rw [hhead]
        exact .noItems hclose
      · obtain ⟨values, rfl, hitems, hrest⟩ := items_of_parse fuel [] hbody h
        refine ⟨⟨start, hgap, ?_⟩, hrest⟩
        rw [hhead, List.nil_append]
        exact .items hitems
    split at h
    · -- an object
      have hhead := cons_of_head ‹start.head? = some 123›
      rw [hhead] at hstart
      have hbody : hasDecimal (start.drop 1) = false := finds_cons (by decide) hstart
      split at h
      · obtain ⟨rfl, rfl⟩ := Prod.mk.inj (Except.ok.inj h)
        have hclose := gap_of_consume ‹consume 125 (start.drop 1) = some _›
        refine ⟨⟨start, hgap, ?_⟩, finds_cons (by decide) (finds_gap hclose hbody)⟩
        rw [hhead]
        exact .noMembers hclose
      · obtain ⟨members, rfl, hmembers, hfresh, hrest⟩ := members_of_parse fuel [] hbody h
        refine ⟨⟨start, hgap, ?_⟩, hrest⟩
        rw [hhead]
        exact .members hmembers hfresh.1
    · -- a number
      obtain ⟨sign, digits, value, hnumeral, hvalue, rfl, rfl⟩ := numeral_of_parseNumber hstart h
      refine ⟨⟨_, hgap, .whole rest hnumeral hvalue⟩, ?_⟩
      rw [hasDecimal, ← List.append_assoc] at hstart
      refine finds_append (fun c hc => ?_) hstart
      rintro rfl
      rcases List.mem_append.mp hc with hsign | hdigit
      · rcases hnumeral.sign with rfl | rfl <;> revert hsign <;> decide
      · exact absurd (hnumeral.digits.isDigit 34 hdigit) (by decide)

theorem items_of_parse : ∀ (fuel : Nat) (front : List (Json δ)) {input : Bytes} {json : Json δ} {rest : Bytes},
    hasDecimal input = false → parseItems fuel front input = .ok (json, rest) →
    ∃ values, json = .array (front ++ values) ∧ Items input values rest ∧ hasDecimal rest = false
  | 0, _, _, _, _, _, h => by cases h
  | fuel + 1, front, input, json, rest, hplain, h => by
    rw [parseItems] at h
    rcases hread : parseValue (δ := δ) fuel input with message | ⟨value, behind⟩
    · rw [hread] at h
      cases h
    obtain ⟨⟨start, hgap, hvalue⟩, hbehind⟩ := value_of_parse fuel hplain hread
    rw [hread] at h
    simp only [bind, Except.bind] at h
    split at h
    · obtain ⟨rfl, rfl⟩ := Prod.mk.inj (Except.ok.inj h)
      have hclose := gap_of_consume ‹consume 93 behind = some _›
      exact ⟨[value], rfl, .last hgap hvalue hclose, finds_cons (by decide) (finds_gap hclose hbehind)⟩
    · rcases hcomma : expect 44 behind with message | more
      · rw [hcomma] at h
        cases h
      rw [hcomma] at h
      have hcomma := (expect_iff (by decide)).mp hcomma
      obtain ⟨values, rfl, hitems, hrest⟩ :=
        items_of_parse fuel (front ++ [value]) (finds_cons (by decide) (finds_gap hcomma hbehind)) h
      exact ⟨value :: values, by rw [List.append_assoc]; rfl, .next hgap hvalue hcomma hitems, hrest⟩

theorem members_of_parse : ∀ (fuel : Nat) (object : List (Bytes × Json δ)) {input : Bytes} {json : Json δ}
    {rest : Bytes}, hasDecimal input = false → parseMembers fuel object input = .ok (json, rest) →
    ∃ members, json = .object (members.foldl (fun object m => Json.emplace m.1 m.2 object) object) ∧
      Members input members rest ∧ Fresh object members ∧ hasDecimal rest = false
  | 0, _, _, _, _, _, h => by cases h
  | fuel + 1, object, input, json, rest, hplain, h => by
    rw [parseMembers] at h
    split at h
    · cases h
    rcases hname : parseString input with message | ⟨key, colon⟩
    · rw [hname] at h
      cases h
    obtain ⟨name, hgap, hchars⟩ := parseString_iff.mp hname
    have hcolonPlain : hasDecimal colon = false := finds_chars hchars (finds_quote _ (finds_gap hgap hplain))
    rw [hname] at h
    simp only [bind, Except.bind] at h
    rcases hcolon : expect 58 colon with message | gap
    · rw [hcolon] at h
      cases h
    rw [hcolon] at h
    have hcolon := (expect_iff (by decide)).mp hcolon
    simp only at h
    rcases hread : parseValue (δ := δ) fuel gap with message | ⟨value, behind⟩
    · rw [hread] at h
      cases h
    obtain ⟨⟨start, hlead, hvalue⟩, hbehind⟩ :=
      value_of_parse fuel (finds_cons (by decide) (finds_gap hcolon hcolonPlain)) hread
    rw [hread] at h
    simp only [emplaceNew] at h
    cases hnew : object.lookup key with
    | some other =>
      rw [hnew] at h
      cases h
    | none =>
      rw [hnew] at h
      simp only [Option.isSome_none, Bool.false_eq_true, if_false] at h
      split at h
      · obtain ⟨rfl, rfl⟩ := Prod.mk.inj (Except.ok.inj h)
        have hclose := gap_of_consume ‹consume 125 behind = some _›
        exact ⟨[(key, value)], rfl, .last hgap hchars hcolon hlead hvalue hclose,
          fresh_cons.mpr ⟨hnew, List.nodup_nil, nofun⟩, finds_cons (by decide) (finds_gap hclose hbehind)⟩
      · rcases hcomma : expect 44 behind with message | more
        · rw [hcomma] at h
          cases h
        rw [hcomma] at h
        have hcomma := (expect_iff (by decide)).mp hcomma
        obtain ⟨members, rfl, hmembers, hfresh, hrest⟩ := members_of_parse fuel
          (Json.emplace key value object) (finds_cons (by decide) (finds_gap hcomma hbehind)) h
        exact ⟨(key, value) :: members, rfl, .next hgap hchars hcolon hlead hvalue hcomma hmembers,
          fresh_cons.mpr ⟨hnew, hfresh⟩, hrest⟩

end

/-- A document that a text says is read from it. -/
theorem parse_of_saying {text : Bytes} {json : Json δ} (h : Says text json) : parse text = .ok json := by
  obtain ⟨start, rest, hgap, hvalue, hend⟩ := h
  have hdelimited : Json.Delimited rest := by
    cases hend with
    | none => nofun
    | blank hblank _ => exact delimited_blank hblank _
  have hlead := length_gap hgap
  have hread : parseValue (2 * text.length + 1) text = .ok (json, rest) :=
    (parseValue_gap hgap _).trans (parse_of_value hvalue hdelimited _ (by omega))
  have hskip : skipWhitespace rest = [] := skipWhitespace_gap hend
  rw [parse, hread]
  simp only [bind, Except.bind, hskip]
  rfl

/-- **The parser accepts the texts of the grammar**, with their documents. -/
theorem parse_iff {text : Bytes} {json : Json δ} (hplain : hasDecimal text = false) :
    parse text = .ok json ↔ Says text json := by
  refine ⟨fun h => ?_, parse_of_saying⟩
  rw [parse] at h
  rcases hread : parseValue (δ := δ) (2 * text.length + 1) text with message | ⟨value, rest⟩
  · rw [hread] at h
    cases h
  obtain ⟨⟨start, hgap, hvalue⟩, -⟩ := value_of_parse _ hplain hread
  rw [hread] at h
  simp only [bind, Except.bind] at h
  split at h
  · cases h
  · rename_i hend
    obtain rfl := Except.ok.inj h
    have hbehind := gap_skipWhitespace rest
    rw [not_not.mp hend] at hbehind
    exact ⟨start, rest, hgap, hvalue, hbehind⟩

end Parser

end JsonGrammar

end StateSpec
