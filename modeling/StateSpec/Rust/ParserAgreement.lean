/-
  TWO JSON PARSERS — `JsonParser` of `bindings/cpp/json.hpp` and `Parser` of `bindings/rust/json.rs`.

  The Rust parser takes each `\uXXXX` for a scalar value (`char::from_u32`), so the two escapes of a surrogate
  pair, which the C++ parser puts together, it refuses.  Nothing else tells them apart:
  1. `hasSurrogate text` — somewhere in a string of the text a surrogate is escaped;
  2. `Alike` — what the parsers make of one input: both read the same, or both fail, or such an escape makes the
     Rust parser fail;
  3. LOCKSTEP (`chars_alike`, `value_alike`), rule by rule;
  4. `parsers_agree_iff` — on texts without fractions and exponents the parsers agree, but for the JSON texts
     with a surrogate in them.
-/
import StateSpec.Rust.Parser

namespace StateSpec

open JsonGrammar Unicode

/-! ## Surrogates -/

/-- Behind a backslash: an 'u' and the digits of a surrogate. -/
def surrogateAt : Bytes → Bool
  | 117 :: a :: b :: c :: d :: _ =>
    match JsonParser.parseHexQuad a b c d with
    | .ok codePoint => decide (0xD800 ≤ codePoint ∧ codePoint ≤ 0xDFFF)
    | .error _ => false
  | _ => false

/-- A string of the text has an escaped surrogate. -/
def hasSurrogate (text : Bytes) : Bool := finds (fun _ _ => false) surrogateAt false text

/-- The same, of a text that starts in a string. -/
def surrogateInString (text : Bytes) : Bool := finds (fun _ _ => false) surrogateAt true text

theorem hasSurrogate_cons {c : UInt8} (hc : c ≠ 34) (rest : Bytes) :
    hasSurrogate (c :: rest) = hasSurrogate rest := by
  rw [hasSurrogate, finds, beq_eq_false_iff_ne.mpr hc, Bool.false_or]
  rfl

theorem hasSurrogate_append {front : Bytes} (hfront : ∀ c ∈ front, c ≠ 34) (rest : Bytes) :
    hasSurrogate (front ++ rest) = hasSurrogate rest := by
  induction front with
  | nil => rfl
  | cons c front ih =>
    rw [List.cons_append, hasSurrogate_cons (hfront c List.mem_cons_self)]
    exact ih fun c hc => hfront c (List.mem_cons_of_mem _ hc)

theorem hasSurrogate_gap {input rest : Bytes} (h : Gap input rest) : hasSurrogate input = hasSurrogate rest := by
  induction h with
  | none rest => rfl
  | blank hblank _ ih =>
    rw [hasSurrogate_cons, ih]
    rintro rfl
    exact absurd hblank (by decide)

/-! ## Characters and their bytes -/

namespace Rust.Parser

/-- What holds of 128 characters. -/
theorem of_ascii {p : Char → Prop} (h : ∀ n : Fin 128, p (Char.ofNat n)) {c : Char} (hc : c.toNat ≤ 0x7F) :
    p c := by
  have hrebuilt := h ⟨c.toNat, by omega⟩
  rwa [Char.ofNat_toNat] at hrebuilt

theorem ascii_isWhitespace {c : Char} (hc : c.toNat ≤ 0x7F) :
    JsonParser.isWhitespace (UInt8.ofNat c.toNat) = isWhitespace c := by
  refine of_ascii (p := fun c => JsonParser.isWhitespace (UInt8.ofNat c.toNat) = isWhitespace c) ?_ hc
  decide

theorem ascii_isDigit {c : Char} (hc : c.toNat ≤ 0x7F) :
    JsonParser.isDigit (UInt8.ofNat c.toNat) = isDigit c := by
  refine of_ascii (p := fun c => JsonParser.isDigit (UInt8.ofNat c.toNat) = isDigit c) ?_ hc
  decide

theorem ascii_simpleEscape {c : Char} (hc : c.toNat ≤ 0x7F) :
    JsonParser.simpleEscape (UInt8.ofNat c.toNat) = (simpleEscape c).map fun c => UInt8.ofNat c.toNat := by
  refine of_ascii (p := fun c => JsonParser.simpleEscape (UInt8.ofNat c.toNat) =
    (simpleEscape c).map fun c => UInt8.ofNat c.toNat) ?_ hc
  decide

theorem ascii_hexValue {c : Char} (hc : c.toNat ≤ 0x7F) :
    (JsonParser.hexValue (UInt8.ofNat c.toNat)).toOption = (hexValue c).toOption := by
  refine of_ascii (p := fun c => (JsonParser.hexValue (UInt8.ofNat c.toNat)).toOption = (hexValue c).toOption) ?_ hc
  decide

theorem ascii_inj {c d : Char} (hc : c.toNat ≤ 0x7F) (hd : d.toNat ≤ 0x7F) :
    UInt8.ofNat c.toNat = UInt8.ofNat d.toNat ↔ c = d := by
  constructor
  · intro h
    have hvalue := congrArg UInt8.toNat h
    rw [UInt8.toNat_ofNat', UInt8.toNat_ofNat', Nat.mod_eq_of_lt (by omega), Nat.mod_eq_of_lt (by omega)] at hvalue
    exact Char.toNat_inj.mp hvalue
  · rintro rfl
    rfl

/-- A character is one byte, or starts with a high one. -/
theorem utf8_cons_cases (c : Char) (rest : List Char) :
    (c.toNat ≤ 0x7F ∧ utf8 (c :: rest) = UInt8.ofNat c.toNat :: utf8 rest) ∨
    (0x7F < c.toNat ∧ ∃ b bytes, utf8Char c = b :: bytes ∧ utf8 (c :: rest) = b :: (bytes ++ utf8 rest) ∧
      ∀ d ∈ b :: bytes, 0x80 ≤ d.toNat) := by
  by_cases hc : c.toNat ≤ 0x7F
  · refine .inl ⟨hc, ?_⟩
    rw [utf8_cons, utf8Char_one hc]
    rfl
  · obtain ⟨b, bytes, hbytes⟩ := utf8Char_ne_nil c
    refine .inr ⟨by omega, b, bytes, hbytes, ?_, fun d hd => high_of_mem (c := c) (by omega) (hbytes ▸ hd)⟩
    rw [utf8_cons, hbytes]
    rfl

/-- A high byte is none of those that mean something. -/
theorem ne_of_high {b c : UInt8} (hb : 0x80 ≤ b.toNat) (hc : c.toNat < 0x80) : b ≠ c := by
  rintro rfl
  omega

theorem not_whitespace_of_high {b : UInt8} (hb : 0x80 ≤ b.toNat) : JsonParser.isWhitespace b = false := by
  rw [JsonParser.isWhitespace]
  simp only [Bool.or_eq_false_iff, beq_eq_false_iff_ne]
  exact ⟨⟨⟨ne_of_high hb (by decide), ne_of_high hb (by decide)⟩, ne_of_high hb (by decide)⟩,
    ne_of_high hb (by decide)⟩

theorem not_whitespace {c : Char} (hc : 0x7F < c.toNat) : isWhitespace c = false := by
  have hne : ∀ d : Char, d.toNat ≤ 0x7F → c ≠ d := by
    rintro d hd rfl
    omega
  rw [isWhitespace]
  simp only [Bool.or_eq_false_iff, beq_eq_false_iff_ne]
  exact ⟨⟨⟨hne _ (by decide), hne _ (by decide)⟩, hne _ (by decide)⟩, hne _ (by decide)⟩

theorem isDigit_ascii {c : Char} (h : isDigit c = true) : c.toNat ≤ 0x7F := by
  rw [isDigit, Bool.and_eq_true, decide_eq_true_eq, decide_eq_true_eq] at h
  have hhigh : c.toNat ≤ 57 := h.2
  omega

theorem not_digit_of_high {b : UInt8} (hb : 0x80 ≤ b.toNat) : JsonParser.isDigit b = false := by
  by_contra hdigit
  rw [Bool.not_eq_false, JsonParser.isDigit, Bool.and_eq_true, decide_eq_true_eq, decide_eq_true_eq,
    UInt8.le_iff_toNat_le, UInt8.le_iff_toNat_le] at hdigit
  have hhigh : b.toNat ≤ 57 := hdigit.2
  omega

theorem skipWhitespace_utf8 (input : List Char) :
    JsonParser.skipWhitespace (utf8 input) = utf8 (skipWhitespace input) := by
  induction input with
  | nil => rfl
  | cons c rest ih =>
    rcases utf8_cons_cases c rest with ⟨hc, heq⟩ | ⟨hc, b, bytes, -, heq, hhigh⟩
    · rw [heq, JsonParser.skipWhitespace, skipWhitespace, List.dropWhile_cons, List.dropWhile_cons,
        ascii_isWhitespace hc]
      split
      · exact ih
      · exact heq.symm
    · rw [heq, JsonParser.skipWhitespace_cons (not_whitespace_of_high (hhigh b List.mem_cons_self)), skipWhitespace,
        List.dropWhile_cons, not_whitespace hc]
      exact heq.symm

theorem consume_utf8 {expected : Char} (hexpected : expected.toNat ≤ 0x7F) (input : List Char) :
    JsonParser.consume (UInt8.ofNat expected.toNat) (utf8 input) = (consume expected input).map utf8 := by
  rw [JsonParser.consume, skipWhitespace_utf8, consume]
  rcases skipWhitespace input with _ | ⟨c, rest⟩
  · rfl
  rcases utf8_cons_cases c rest with ⟨hc, heq⟩ | ⟨hc, b, bytes, -, heq, hhigh⟩
  · rw [heq]
    by_cases hsame : c = expected
    · simp only [if_pos hsame, (ascii_inj hc hexpected).mpr hsame, if_true]
      rfl
    · simp only [if_neg hsame, if_neg (fun h => hsame ((ascii_inj hc hexpected).mp h))]
      rfl
  · have hne : c ≠ expected := by
      rintro rfl
      omega
    have hbyte : b ≠ UInt8.ofNat expected.toNat := by
      refine ne_of_high (hhigh b List.mem_cons_self) ?_
      rw [UInt8.toNat_ofNat']
      omega
    rw [heq]
    simp only [if_neg hne, if_neg hbyte]
    rfl

theorem expect_utf8 {expected : Char} (hexpected : expected.toNat ≤ 0x7F) (input : List Char) :
    JsonParser.expect (UInt8.ofNat expected.toNat) (utf8 input) = (expect expected input).map utf8 := by
  rw [JsonParser.expect, consume_utf8 hexpected, expect]
  cases consume expected input with
  | none => rfl
  | some rest => rfl

/-! ## Escapes -/

/-- The code point of the source is the character's. -/
theorem utf8_codePoint (c : Char) : JsonParser.utf8 c.toNat = .ok (utf8Char c) := by
  have hmask : ∀ n : Nat, n &&& 0x3F = n % 64 := fun n => Nat.and_two_pow_sub_one_eq_mod n 6
  have htail : ∀ n : Nat, 0x80 ||| n % 64 = 0x80 + n % 64 := by
    intro n
    exact (Nat.shiftLeft_add_eq_or_of_lt (i := 6) (b := n % 64) (Nat.mod_lt n (by decide)) 2).symm
  have htwo : ∀ n : Nat, n < 32 → 0xC0 ||| n = 0xC0 + n := fun n hn =>
    (Nat.shiftLeft_add_eq_or_of_lt (i := 5) (b := n) hn 6).symm
  have hthree : ∀ n : Nat, n < 16 → 0xE0 ||| n = 0xE0 + n := fun n hn =>
    (Nat.shiftLeft_add_eq_or_of_lt (i := 4) (b := n) hn 14).symm
  have hfour : ∀ n : Nat, n < 8 → 0xF0 ||| n = 0xF0 + n := fun n hn =>
    (Nat.shiftLeft_add_eq_or_of_lt (i := 3) (b := n) hn 30).symm
  rw [JsonParser.utf8]
  rcases utf8Char_cases c with ⟨h, heq⟩ | ⟨h, h', heq⟩ | ⟨h, h', heq⟩ | ⟨h, h', heq⟩
  · rw [if_pos h, heq]
  · rw [if_neg (by omega), if_pos h', heq, hmask, htail, Nat.shiftRight_eq_div_pow, htwo _ (by omega)]
  · rw [if_neg (by omega), if_neg (by omega), if_pos h', heq, hmask, hmask, htail, htail,
      Nat.shiftRight_eq_div_pow, Nat.shiftRight_eq_div_pow, hthree _ (by omega)]
  · rw [if_neg (by omega), if_neg (by omega), if_neg (by omega), if_pos (by omega), heq, hmask, hmask, hmask,
      htail, htail, htail, Nat.shiftRight_eq_div_pow, Nat.shiftRight_eq_div_pow, Nat.shiftRight_eq_div_pow,
      hfour _ (by omega)]

theorem hexValue_lt {c : Char} {n : Nat} (h : hexValue c = .ok n) : n < 16 ∧ c.toNat ≤ 0x7F := by
  rw [hexValue] at h
  split at h
  · rename_i hrange
    obtain rfl := Except.ok.inj h
    have hlow : 48 ≤ c.toNat := hrange.1
    have hhigh : c.toNat ≤ 57 := hrange.2
    omega
  split at h
  · rename_i hrange
    obtain rfl := Except.ok.inj h
    have hlow : 97 ≤ c.toNat := hrange.1
    have hhigh : c.toNat ≤ 102 := hrange.2
    omega
  split at h
  · rename_i hrange
    obtain rfl := Except.ok.inj h
    have hlow : 65 ≤ c.toNat := hrange.1
    have hhigh : c.toNat ≤ 70 := hrange.2
    omega
  · cases h

theorem hexValue_high {b : UInt8} (hb : 0x80 ≤ b.toNat) : (JsonParser.hexValue b).toOption = none := by
  have hrange : ∀ low high : UInt8, high.toNat < 0x80 → ¬ (low ≤ b ∧ b ≤ high) := by
    rintro low high hhigh ⟨-, hle⟩
    rw [UInt8.le_iff_toNat_le] at hle
    omega
  rw [JsonParser.hexValue, if_neg (hrange 48 57 (by decide)), if_neg (hrange 97 102 (by decide)),
    if_neg (hrange 65 70 (by decide))]
  rfl

/-- What the C++ parser makes of some digits. -/
def hexFold (value : Nat) (digits : Bytes) : Option Nat :=
  digits.foldlM (fun value c => (JsonParser.hexValue c).toOption.map fun digit => value * 16 + digit) value

theorem hexFold_cons (value : Nat) (c : UInt8) (digits : Bytes) : hexFold value (c :: digits) =
    (JsonParser.hexValue c).toOption.bind fun digit => hexFold (value * 16 + digit) digits := by
  rw [hexFold, List.foldlM_cons]
  cases (JsonParser.hexValue c).toOption with
  | none => rfl
  | some digit => rfl

theorem parseHexQuad_hexFold (a b c d : UInt8) :
    (JsonParser.parseHexQuad a b c d).toOption = hexFold 0 [a, b, c, d] := by
  rw [JsonParser.parseHexQuad, hexFold]
  simp only [List.foldlM_cons, List.foldlM_nil]
  cases JsonParser.hexValue a with
  | error message => rfl
  | ok w =>
  cases JsonParser.hexValue b with
  | error message => rfl
  | ok x =>
  cases JsonParser.hexValue c with
  | error message => rfl
  | ok y =>
  cases JsonParser.hexValue d with
  | error message => rfl
  | ok z =>
    show some (((w * 16 + x) * 16 + y) * 16 + z) = some ((((0 * 16 + w) * 16 + x) * 16 + y) * 16 + z)
    rw [Nat.zero_mul, Nat.zero_add]

/-- The digits are read, as bytes too, or the bytes are no digits. -/
theorem digits_cases (digits value : Nat) (input : List Char) :
    (∃ codePoint rest bytes, parseHexDigits digits value input = .ok (codePoint, rest) ∧
      utf8 input = bytes ++ utf8 rest ∧ bytes.length = digits ∧ hexFold value bytes = some codePoint) ∨
    ((∃ message, parseHexDigits digits value input = .error message) ∧
      ∀ bytes more, utf8 input = bytes ++ more → bytes.length = digits → hexFold value bytes = none) := by
  induction digits generalizing value input with
  | zero => exact .inl ⟨value, input, [], rfl, rfl, rfl, rfl⟩
  | succ digits ih =>
    rcases input with _ | ⟨c, rest⟩
    · refine .inr ⟨⟨_, rfl⟩, fun bytes more hbytes hlength => ?_⟩
      rw [utf8_nil, List.nil_eq_append_iff] at hbytes
      rw [hbytes.1] at hlength
      cases hlength
    rw [parseHexDigits]
    cases hdigit : hexValue c with
    | ok digit =>
      obtain ⟨hlt, hascii⟩ := hexValue_lt hdigit
      have hbyte : (JsonParser.hexValue (UInt8.ofNat c.toNat)).toOption = some digit := by
        rw [ascii_hexValue hascii, hdigit]
        rfl
      have hshift : value <<< 4 ||| digit = value * 16 + digit :=
        (Nat.shiftLeft_add_eq_or_of_lt (i := 4) (b := digit) hlt value).symm.trans (by rw [Nat.shiftLeft_eq])
      have heq : utf8 (c :: rest) = UInt8.ofNat c.toNat :: utf8 rest := by
        rw [utf8_cons, utf8Char_one hascii]
        rfl
      simp only [hshift, heq]
      rcases ih (value * 16 + digit) rest with ⟨codePoint, behind, bytes, hread, hbytes, hlength, hfold⟩ | ⟨herror, hnone⟩
      · refine .inl ⟨codePoint, behind, UInt8.ofNat c.toNat :: bytes, hread, ?_, congrArg Nat.succ hlength, ?_⟩
        · rw [hbytes]
          rfl
        · rw [hexFold_cons, hbyte]
          exact hfold
      · refine .inr ⟨herror, fun bytes more hbytes hlength => ?_⟩
        rcases bytes with _ | ⟨b, bytes⟩
        · cases hlength
        obtain ⟨rfl, hrest⟩ := List.cons.inj hbytes
        rw [hexFold_cons, hbyte]
        exact hnone bytes more hrest (Nat.succ.inj hlength)
    | error message =>
      refine .inr ⟨⟨message, rfl⟩, fun bytes more hbytes hlength => ?_⟩
      rcases bytes with _ | ⟨b, bytes⟩
      · cases hlength
      have hnone : (JsonParser.hexValue b).toOption = none := by
        rcases utf8_cons_cases c rest with ⟨hc, heq⟩ | ⟨hc, first, others, -, heq, hhigh⟩
        · rw [heq] at hbytes
          rw [← (List.cons.inj hbytes).1, ascii_hexValue hc, hdigit]
          rfl
        · rw [heq] at hbytes
          rw [← (List.cons.inj hbytes).1]
          exact hexValue_high (hhigh first List.mem_cons_self)
      rw [hexFold_cons, hnone]
      rfl

theorem quad_cases (input : List Char) :
    (∃ codePoint rest a b c d, parseHexQuad input = .ok (codePoint, rest) ∧
      utf8 input = a :: b :: c :: d :: utf8 rest ∧ JsonParser.parseHexQuad a b c d = .ok codePoint) ∨
    ((∃ message, parseHexQuad input = .error message) ∧ ∀ a b c d more, utf8 input = a :: b :: c :: d :: more →
      ∃ message, JsonParser.parseHexQuad a b c d = .error message) := by
  rcases digits_cases 4 0 input with ⟨codePoint, rest, bytes, hread, hbytes, hlength, hfold⟩ | ⟨herror, hnone⟩
  · match bytes, hlength with
    | [a, b, c, d], _ =>
      refine .inl ⟨codePoint, rest, a, b, c, d, hread, hbytes, ?_⟩
      rw [← parseHexQuad_hexFold] at hfold
      cases hquad : JsonParser.parseHexQuad a b c d with
      | error message =>
        rw [hquad] at hfold
        cases hfold
      | ok codePoint' =>
        rw [hquad] at hfold
        exact congrArg Except.ok (Option.some_inj.mp hfold)
  · refine .inr ⟨herror, fun a b c d more hbytes => ?_⟩
    have hfold := hnone [a, b, c, d] more hbytes rfl
    rw [← parseHexQuad_hexFold] at hfold
    cases hquad : JsonParser.parseHexQuad a b c d with
    | error message => exact ⟨message, rfl⟩
    | ok codePoint' =>
      rw [hquad] at hfold
      cases hfold

/-! ## Lockstep -/

/-- What the parsers make of one input, with what a scan of it finds: both read the same and have passed no
    surrogate, or both fail, or a surrogate makes the Rust parser fail. -/
inductive Alike {α β : Type} (encode : α → β) (scanned : Bool) :
    Except String (β × Bytes) → Except String (α × List Char) → Prop where
  | read {value : α} {rest : List Char} : scanned = hasSurrogate (utf8 rest) →
    Alike encode scanned (.ok (encode value, utf8 rest)) (.ok (value, rest))
  | failed {message message' : String} : Alike encode scanned (.error message) (.error message')
  | surrogate {cpp : Except String (β × Bytes)} {message : String} : scanned = true →
    Alike encode scanned cpp (.error message)

/-- Something in front of the strings that are read. -/
theorem Alike.push {scanned : Bool} {cpp : Except String (Bytes × Bytes)}
    {rust : Except String (List Char × List Char)} (c : Char) (h : Alike utf8 scanned cpp rust) :
    Alike utf8 scanned (JsonParser.behind (.ok (utf8Char c)) cpp) (Parser.push c rust) := by
  cases h with
  | @read value rest hscan => exact @Alike.read _ _ utf8 scanned (c :: value) rest hscan
  | failed => exact .failed
  | surrogate hscan => exact .surrogate hscan

theorem surrogateInString_plain {c : UInt8} (hquote : c ≠ 34) (hslash : c ≠ 92) (rest : Bytes) :
    surrogateInString (c :: rest) = surrogateInString rest :=
  finds_plain hquote hslash rest

theorem surrogateInString_escape (escaped : UInt8) (rest : Bytes) :
    surrogateInString (92 :: escaped :: rest) = (surrogateAt (escaped :: rest) || surrogateInString rest) :=
  finds_escape escaped rest

/-- The bytes of a character that is read as it is. -/
theorem parseChars_utf8Char {c : Char} (hquote : c ≠ '"') (hslash : c ≠ '\\') (hcontrol : ¬ c < ' ')
    (rest : Bytes) :
    JsonParser.parseChars (utf8Char c ++ rest) = JsonParser.behind (.ok (utf8Char c)) (JsonParser.parseChars rest) ∧
    surrogateInString (utf8Char c ++ rest) = surrogateInString rest := by
  have hbytes : ∀ bytes : Bytes, (∀ b ∈ bytes, b ≠ 34 ∧ b ≠ 92 ∧ ¬ b < 32) →
      JsonParser.parseChars (bytes ++ rest) = JsonParser.behind (.ok bytes) (JsonParser.parseChars rest) ∧
      surrogateInString (bytes ++ rest) = surrogateInString rest := by
    intro bytes hplain
    induction bytes with
    | nil =>
      refine ⟨?_, rfl⟩
      rw [List.nil_append]
      rcases JsonParser.parseChars rest with message | ⟨out, behind⟩
      · rfl
      · rfl
    | cons b bytes ih =>
      obtain ⟨hquote, hslash, hcontrol⟩ := hplain b List.mem_cons_self
      obtain ⟨hread, hscan⟩ := ih fun b hb => hplain b (List.mem_cons_of_mem _ hb)
      rw [List.cons_append, parseChars_plain hquote hslash hcontrol, hread,
        surrogateInString_plain hquote hslash, hscan]
      refine ⟨?_, rfl⟩
      rcases JsonParser.parseChars rest with message | ⟨out, behind⟩
      · rfl
      · rfl
  refine hbytes _ fun b hb => ?_
  by_cases hc : c.toNat ≤ 0x7F
  · rw [utf8Char_one hc, List.mem_singleton] at hb
    subst hb
    refine ⟨fun h => hquote ((ascii_inj (d := '"') hc (by decide)).mp h),
      fun h => hslash ((ascii_inj (d := '\\') hc (by decide)).mp h), fun h => hcontrol ?_⟩
    rw [UInt8.lt_iff_toNat_lt, UInt8.toNat_ofNat', Nat.mod_eq_of_lt (by omega)] at h
    exact h
  · have hhigh := high_of_mem (c := c) (by omega) hb
    refine ⟨ne_of_high hhigh (by decide), ne_of_high hhigh (by decide), fun h => ?_⟩
    rw [UInt8.lt_iff_toNat_lt] at h
    have hspace : (32 : UInt8).toNat = 32 := rfl
    omega

theorem simpleEscape_high {b : UInt8} (hb : 0x80 ≤ b.toNat) : JsonParser.simpleEscape b = none := by
  have hne : ∀ c : UInt8, c.toNat < 0x80 → b ≠ c := fun c hc => ne_of_high hb hc
  rw [JsonParser.simpleEscape, if_neg, if_neg (hne _ (by decide)), if_neg (hne _ (by decide)),
    if_neg (hne _ (by decide)), if_neg (hne _ (by decide)), if_neg (hne _ (by decide))]
  rintro (h | h | h) <;> exact hne _ (by decide) h

/-- An 'u' that no four digits stand behind. -/
theorem parseChars_noQuad {rest : Bytes} (h : ∀ a b c d more, rest = a :: b :: c :: d :: more →
    ∃ message, JsonParser.parseHexQuad a b c d = .error message) :
    ∃ message, JsonParser.parseChars (92 :: 117 :: rest) = .error message := by
  rcases hread : JsonParser.parseChars (92 :: 117 :: rest) with message | r
  · exact ⟨message, rfl⟩
  · obtain ⟨a, b, c, d, codePoint, more, rfl, hquad⟩ := exists_quad hread
    obtain ⟨message, herror⟩ := h a b c d more rfl
    rw [hquad] at herror
    cases herror

/-- `char::from_u32` refuses surrogates, and nothing else that four digits can say. -/
theorem fromU32_quad {codePoint : Nat} (h : codePoint < 0x10000) :
    (∃ c, fromU32 codePoint = some c ∧ c.toNat = codePoint ∧ ¬ (0xD800 ≤ codePoint ∧ codePoint ≤ 0xDFFF)) ∨
    (fromU32 codePoint = none ∧ 0xD800 ≤ codePoint ∧ codePoint ≤ 0xDFFF) := by
  rw [fromU32]
  by_cases hvalid : codePoint.isValidChar
  · rw [dif_pos hvalid]
    refine .inl ⟨_, rfl, ?_, ?_⟩
    · rfl
    · have hrange : codePoint < 0xD800 ∨ 0xDFFF < codePoint ∧ codePoint < 0x110000 := hvalid
      omega
  · rw [dif_neg hvalid]
    have hrange : ¬ (codePoint < 0xD800 ∨ 0xDFFF < codePoint ∧ codePoint < 0x110000) := hvalid
    exact .inr ⟨rfl, by omega⟩

theorem hexQuad_lt {a b c d : UInt8} {codePoint : Nat} (h : JsonParser.parseHexQuad a b c d = .ok codePoint) :
    codePoint < 0x10000 := by
  have hdigit : ∀ {c : UInt8} {n : Nat}, JsonParser.hexValue c = .ok n → n < 16 := by
    intro c n hn
    rw [JsonParser.hexValue] at hn
    split at hn
    · rename_i hrange
      obtain rfl := Except.ok.inj hn
      have hhigh : c.toNat ≤ 57 := hrange.2
      omega
    split at hn
    · rename_i hrange
      obtain rfl := Except.ok.inj hn
      have hhigh : c.toNat ≤ 102 := hrange.2
      omega
    split at hn
    · rename_i hrange
      obtain rfl := Except.ok.inj hn
      have hhigh : c.toNat ≤ 70 := hrange.2
      omega
    · cases hn
  obtain ⟨w, x, y, z, ha, hb, hc, hd, rfl⟩ := parseHexQuad_ok h
  have h₁ := hdigit ha
  have h₂ := hdigit hb
  have h₃ := hdigit hc
  have h₄ := hdigit hd
  omega

theorem surrogateAt_letter {escaped : UInt8} (h : escaped ≠ 117) (rest : Bytes) :
    surrogateAt (escaped :: rest) = false := by
  rw [surrogateAt.eq_def]
  split
  · rename_i heq
    exact absurd (List.cons.inj heq).1 h
  · rfl

theorem surrogateAt_quad {a b c d : UInt8} {codePoint : Nat} (h : JsonParser.parseHexQuad a b c d = .ok codePoint)
    (rest : Bytes) :
    surrogateAt (117 :: a :: b :: c :: d :: rest) = decide (0xD800 ≤ codePoint ∧ codePoint ≤ 0xDFFF) := by
  rw [surrogateAt, h]

/-- What a letter stands for is ASCII, and no letter is an 'u'. -/
theorem simpleEscape_ascii {escaped c : Char} (hascii : escaped.toNat ≤ 0x7F) (h : simpleEscape escaped = some c) :
    c.toNat ≤ 0x7F ∧ escaped ≠ 'u' := by
  have hall := of_ascii (p := fun escaped =>
    (simpleEscape escaped).all (fun c => decide (c.toNat ≤ 0x7F)) = true) (by decide) hascii
  rw [h] at hall
  refine ⟨of_decide_eq_true hall, ?_⟩
  rintro rfl
  cases h

theorem simpleEscape_of_high {escaped : Char} (h : 0x7F < escaped.toNat) : simpleEscape escaped = none := by
  have hne : ∀ c : Char, c.toNat ≤ 0x7F → escaped ≠ c := by
    rintro c hc rfl
    omega
  rw [simpleEscape, if_neg, if_neg (hne _ (by decide)), if_neg (hne _ (by decide)), if_neg (hne _ (by decide)),
    if_neg (hne _ (by decide)), if_neg (hne _ (by decide))]
  rintro (h | h | h) <;> exact hne _ (by decide) h

theorem length_digits {digits value codePoint : Nat} {input rest : List Char}
    (h : parseHexDigits digits value input = .ok (codePoint, rest)) : rest.length ≤ input.length := by
  induction digits generalizing value input with
  | zero =>
    obtain ⟨-, rfl⟩ := Prod.mk.inj (Except.ok.inj h)
    exact Nat.le_refl _
  | succ digits ih =>
    rcases input with _ | ⟨c, input⟩
    · cases h
    rw [parseHexDigits] at h
    split at h
    · cases h
    · exact Nat.le_succ_of_le (ih h)

/-- **The strings of the two parsers.** -/
theorem chars_alike (fuel : Nat) (input : List Char) (hfuel : input.length < fuel) :
    Alike utf8 (surrogateInString (utf8 input)) (JsonParser.parseChars (utf8 input)) (parseChars fuel input) := by
  induction fuel generalizing input with
  | zero => omega
  | succ fuel ih =>
  rcases input with _ | ⟨c, rest⟩
  · exact .failed
  simp only [List.length_cons] at hfuel
  rw [parseChars.eq_def]
  dsimp only
  by_cases hquote : c = '"'
  · subst hquote
    rw [if_pos rfl]
    have heq : utf8 ('"' :: rest) = 34 :: utf8 rest := rfl
    rw [heq, parseChars_quote]
    refine @Alike.read _ _ utf8 _ [] rest ?_
    rw [surrogateInString, finds.eq_def]
    rfl
  rw [if_neg hquote]
  by_cases hcontrol : c < ' '
  · have hlow : c.toNat < 32 := hcontrol
    have heq : utf8 (c :: rest) = UInt8.ofNat c.toNat :: utf8 rest := by
      rw [utf8_cons, utf8Char_one (by omega)]
      rfl
    have hbyte : UInt8.ofNat c.toNat < 32 := by
      rw [UInt8.lt_iff_toNat_lt, UInt8.toNat_ofNat', Nat.mod_eq_of_lt (by omega)]
      exact hlow
    have hnot : UInt8.ofNat c.toNat ≠ 34 := by
      intro h
      rw [h] at hbyte
      exact absurd hbyte (by decide)
    rw [if_pos hcontrol, heq, JsonParser.parseChars.eq_def]
    simp only [if_neg hnot, if_pos hbyte]
    exact .failed
  rw [if_neg hcontrol]
  by_cases hslash : c ≠ '\\'
  · obtain ⟨hread, hscan⟩ := parseChars_utf8Char hquote hslash hcontrol (utf8 rest)
    rw [if_pos hslash, utf8_cons, hread, hscan]
    exact (ih rest (by omega)).push c
  obtain rfl := not_not.mp hslash
  rw [if_neg hslash]
  have heq : utf8 ('\\' :: rest) = 92 :: utf8 rest := rfl
  rw [heq]
  rcases rest with _ | ⟨escaped, rest⟩
  · exact .failed
  simp only [List.length_cons] at hfuel
  dsimp only
  rcases utf8_cons_cases escaped rest with ⟨hascii, heq⟩ | ⟨hhigh, b, bytes, -, heq, hbytes⟩
  · rw [heq]
    have hsimple := ascii_simpleEscape hascii
    cases hletter : simpleEscape escaped with
    | some c =>
      -- a letter: the character it stands for is ASCII
      obtain ⟨hlow, hnot⟩ := simpleEscape_ascii hascii hletter
      have hbyte : UInt8.ofNat escaped.toNat ≠ 117 :=
        fun h => hnot ((ascii_inj (d := 'u') hascii (by decide)).mp h)
      rw [hletter] at hsimple
      rw [parseChars_letter hsimple, surrogateInString_escape, surrogateAt_letter hbyte, Bool.false_or]
      have hpush := (ih rest (by omega)).push c
      rwa [utf8Char_one hlow] at hpush
    | none =>
      rw [hletter] at hsimple
      by_cases hunicode : escaped = 'u'
      · subst hunicode
        have hletterU : UInt8.ofNat ('u').toNat = 117 := rfl
        rw [hletterU]
        simp only [ne_eq, not_true_eq_false, if_false]
        rcases quad_cases rest with ⟨codePoint, more, a, b, c, d, hread, hbytes, hquad⟩ | ⟨⟨message, herror⟩, hnone⟩
        · have hlength := length_digits hread
          simp only [hread, hbytes]
          rcases fromU32_quad (hexQuad_lt hquad) with ⟨char, hchar, rfl, hunit⟩ | ⟨hnone, hsurrogate⟩
          · -- a scalar value: both push it
            have hplain : surrogateInString (92 :: 117 :: a :: b :: c :: d :: utf8 more) =
                surrogateInString (utf8 more) := by
              rw [surrogateInString_escape, surrogateAt_quad hquad, decide_eq_false hunit, Bool.false_or]
              exact finds_quad hquad _
            rw [hplain, parseChars_quad hquad, if_neg (by omega), if_neg (by omega), utf8_codePoint]
            simp only [hchar]
            exact (ih more (by omega)).push char
          · -- a surrogate: the Rust parser fails over it
            simp only [hnone]
            refine .surrogate ?_
            rw [surrogateInString_escape, surrogateAt_quad hquad, decide_eq_true hsurrogate, Bool.true_or]
        · obtain ⟨message', hcpp⟩ := parseChars_noQuad hnone
          rw [hcpp, herror]
          exact .failed
      · simp only [ne_eq, hunicode, not_false_eq_true, if_true]
        rw [JsonGrammar.parseChars_unknown hsimple fun h => hunicode ((ascii_inj (d := 'u') hascii (by decide)).mp h)]
        exact .failed
  · have hnone : simpleEscape escaped = none := simpleEscape_of_high hhigh
    have hunicode : escaped ≠ 'u' := by
      rintro rfl
      exact absurd hhigh (by decide)
    have hb := hbytes b List.mem_cons_self
    rw [heq]
    simp only [hnone, ne_eq, hunicode, not_false_eq_true, if_true]
    rw [JsonGrammar.parseChars_unknown (simpleEscape_high hb) (ne_of_high hb (by decide))]
    exact .failed

theorem gap_of_expect {expected : Char} (hexpected : expected.toNat ≤ 0x7F) {input rest : List Char}
    (h : expect expected input = .ok rest) : Gap (utf8 input) (UInt8.ofNat expected.toNat :: utf8 rest) := by
  have hcpp : JsonParser.expect (UInt8.ofNat expected.toNat) (utf8 input) = .ok (utf8 rest) := by
    rw [expect_utf8 hexpected, h]
    rfl
  rw [JsonParser.expect] at hcpp
  split at hcpp
  · obtain rfl := Except.ok.inj hcpp
    exact gap_of_consume ‹_›
  · cases hcpp

theorem string_alike (input : List Char) :
    Alike utf8 (hasSurrogate (utf8 input)) (JsonParser.parseString (utf8 input)) (parseString input) := by
  have hexpect := @expect_utf8 '"' (by decide) input
  rw [JsonParser.parseString, parseString]
  cases hopen : expect '"' input with
  | error message =>
    rw [hopen] at hexpect
    have hcpp : JsonParser.expect 34 (utf8 input) = .error message := hexpect
    rw [hcpp]
    exact .failed
  | ok rest =>
    rw [hopen] at hexpect
    have hcpp : JsonParser.expect 34 (utf8 input) = .ok (utf8 rest) := hexpect
    rw [hcpp, hasSurrogate_gap (gap_of_expect (by decide) hopen)]
    exact chars_alike (rest.length + 1) rest (Nat.lt_succ_self _)

/-! ### Numbers -/

theorem parseSign_utf8 (input : List Char) : JsonParser.parseSign [45] (utf8 input) =
    (utf8 (parseSign ['-'] input).1, utf8 (parseSign ['-'] input).2) := by
  rcases input with _ | ⟨c, rest⟩
  · rfl
  rcases utf8_cons_cases c rest with ⟨hc, heq⟩ | ⟨hc, b, bytes, -, heq, hhigh⟩
  · by_cases hsign : c = '-'
    · subst hsign
      rfl
    · have hbyte : UInt8.ofNat c.toNat ≠ 45 := fun h => hsign ((ascii_inj (d := '-') hc (by decide)).mp h)
      have hrust : parseSign ['-'] (c :: rest) = ([], c :: rest) := if_neg (by simpa using hsign)
      rw [heq, hrust]
      exact (if_neg (by simpa using hbyte)).trans (by rw [heq]; rfl)
  · have hsign : c ≠ '-' := by
      rintro rfl
      exact absurd hc (by decide)
    have hbyte : b ≠ 45 := ne_of_high (hhigh b List.mem_cons_self) (by decide)
    have hrust : parseSign ['-'] (c :: rest) = ([], c :: rest) := if_neg (by simpa using hsign)
    rw [heq, hrust]
    exact (if_neg (by simpa using hbyte)).trans (by rw [heq]; rfl)

theorem head_digit_utf8 (input : List Char) :
    (utf8 input).head?.any JsonParser.isDigit = input.head?.any isDigit := by
  rcases input with _ | ⟨c, rest⟩
  · rfl
  rcases utf8_cons_cases c rest with ⟨hc, heq⟩ | ⟨hc, b, bytes, -, heq, hhigh⟩
  · rw [heq]
    exact ascii_isDigit hc
  · rw [heq]
    show JsonParser.isDigit b = isDigit c
    rw [not_digit_of_high (hhigh b List.mem_cons_self)]
    by_contra hdigit
    have hascii := isDigit_ascii (c := c) (by simpa using Ne.symm hdigit)
    omega

theorem span_utf8 (input : List Char) : (utf8 input).span JsonParser.isDigit =
    (utf8 (input.span isDigit).1, utf8 (input.span isDigit).2) := by
  rw [List.span_eq_takeWhile_dropWhile, List.span_eq_takeWhile_dropWhile]
  induction input with
  | nil => rfl
  | cons c rest ih =>
    have hhead := head_digit_utf8 (c :: rest)
    rcases utf8_cons_cases c rest with ⟨hc, heq⟩ | ⟨hc, b, bytes, -, heq, hhigh⟩
    · obtain ⟨htake, hdrop⟩ := Prod.mk.inj ih
      rw [heq, List.takeWhile_cons, List.dropWhile_cons, List.takeWhile_cons, List.dropWhile_cons, ascii_isDigit hc]
      split
      · rw [htake, hdrop, utf8_cons, utf8Char_one hc]
        rfl
      · rw [heq]
        rfl
    · rw [heq] at hhead ⊢
      replace hhead : JsonParser.isDigit b = isDigit c := hhead
      have hnot := not_digit_of_high (hhigh b List.mem_cons_self)
      rw [List.takeWhile_cons, List.dropWhile_cons, List.takeWhile_cons, List.dropWhile_cons, ← hhead, hnot]
      exact Prod.ext rfl heq.symm

/-- What is read is read as bytes. -/
def bytesOf (read : List Char × List Char) : Bytes × Bytes := (utf8 read.1, utf8 read.2)

theorem parseDigits_utf8 (message : String) (input : List Char) :
    JsonParser.parseDigits message (utf8 input) = (parseDigits message input).map bytesOf := by
  rw [JsonParser.parseDigits, parseDigits, head_digit_utf8, span_utf8]
  split
  · rfl
  · rfl

theorem parseWhole_utf8 (input : List Char) :
    JsonParser.parseWhole (utf8 input) = (parseWhole input).map bytesOf := by
  rcases input with _ | ⟨c, rest⟩
  · rfl
  have hdigits := parseDigits_utf8 "invalid JSON number" (c :: rest)
  rcases utf8_cons_cases c rest with ⟨hc, heq⟩ | ⟨hc, b, bytes, -, heq, hhigh⟩
  · by_cases hzero : c = '0'
    · subst hzero
      show (if (utf8 rest).head?.any JsonParser.isDigit = true then _ else _) =
        (if rest.head?.any isDigit = true then _ else _ : Except String (List Char × List Char)).map bytesOf
      rw [head_digit_utf8]
      split
      · rfl
      · rfl
    · have hbyte : UInt8.ofNat c.toNat ≠ 48 := fun h => hzero ((ascii_inj (d := '0') hc (by decide)).mp h)
      rw [heq] at hdigits ⊢
      rw [JsonParser.parseWhole, parseWhole, if_neg hbyte, if_neg hzero]
      exact hdigits
  · have hzero : c ≠ '0' := by
      rintro rfl
      exact absurd hc (by decide)
    rw [heq] at hdigits ⊢
    rw [JsonParser.parseWhole, parseWhole, if_neg (ne_of_high (hhigh b List.mem_cons_self) (by decide)),
      if_neg hzero]
    exact hdigits

/-- Digits and a sign. -/
theorem parseI64_utf8 {sign whole : List Char} (h : ∀ c ∈ whole, isDigit c = true) :
    JsonParser.fromChars (utf8 sign) (utf8 whole) = parseI64 sign whole := by
  have hfold : ∀ value : Int, (utf8 whole).foldl (fun (value : Int) c => 10 * value + (c.toNat - 48)) value =
      whole.foldl (fun (value : Int) c => 10 * value + (c.toNat - 48)) value := by
    induction whole with
    | nil => exact fun _ => rfl
    | cons c whole ih =>
      intro value
      have hc := isDigit_ascii (h c List.mem_cons_self)
      have hbyte : (UInt8.ofNat c.toNat).toNat = c.toNat := by
        rw [UInt8.toNat_ofNat', Nat.mod_eq_of_lt (by omega)]
      rw [utf8_cons, utf8Char_one hc, List.singleton_append, List.foldl_cons, List.foldl_cons, hbyte]
      exact ih (fun c hc => h c (List.mem_cons_of_mem _ hc)) _
  have hsign : utf8 sign = [] ↔ sign = [] := by
    constructor
    · intro hnil
      exact utf8_injective hnil
    · rintro rfl
      rfl
  rw [JsonParser.fromChars, parseI64]
  simp only [hfold, hsign]

/-- Where there is no fraction and no exponent for the bytes, there is none for the characters. -/
theorem parseFraction_none {rest : List Char}
    (h : (utf8 rest).head?.any (fun c => c == 46 || c == 101 || c == 69) = false) :
    parseFraction rest = .ok ([], rest) ∧ parseExponent rest = .ok ([], rest) := by
  rcases rest with _ | ⟨c, rest⟩
  · exact ⟨rfl, rfl⟩
  have hne : ∀ d : Char, d = '.' ∨ d = 'e' ∨ d = 'E' → c ≠ d := by
    rintro d hd rfl
    rcases hd with rfl | rfl | rfl <;> exact Bool.noConfusion h
  refine ⟨if_neg (hne _ (.inl rfl)), if_neg ?_⟩
  rintro (hlower | hupper)
  · exact hne _ (.inr (.inl rfl)) hlower
  · exact hne _ (.inr (.inr rfl)) hupper

theorem isDigit_of_utf8 {text : List Char} (h : ∀ b ∈ utf8 text, JsonParser.isDigit b = true) :
    ∀ c ∈ text, isDigit c = true := by
  intro c hc
  obtain ⟨front, behind, rfl⟩ := List.append_of_mem hc
  rw [utf8_append] at h
  have hhead := head_digit_utf8 (c :: behind)
  obtain ⟨b, bytes, hbytes⟩ := utf8Char_ne_nil c
  have hb := h b (by
    rw [utf8_cons, hbytes]
    exact List.mem_append_right _ List.mem_cons_self)
  rw [utf8_cons, hbytes] at hhead
  exact hhead.symm.trans hb

/-! ### Values -/

theorem head_utf8_iff {d : Char} (hd : d.toNat ≤ 0x7F) (c : Char) (rest : List Char) :
    (utf8 (c :: rest)).head? = some (UInt8.ofNat d.toNat) ↔ c = d := by
  rcases utf8_cons_cases c rest with ⟨hc, heq⟩ | ⟨hc, b, bytes, -, heq, hhigh⟩
  · rw [heq, List.head?_cons, Option.some_inj]
    exact ascii_inj hc hd
  · rw [heq, List.head?_cons, Option.some_inj]
    refine iff_of_false (ne_of_high (hhigh b List.mem_cons_self) ?_) ?_
    · rw [UInt8.toNat_ofNat']
      omega
    · rintro rfl
      omega

/-- A word of ASCII letters stands in front of the bytes where it stands in front of the characters. -/
theorem forall_mem_of_all {p : Char → Prop} [DecidablePred p] {word : List Char}
    (h : word.all (fun c => decide (p c)) = true) : ∀ c ∈ word, p c :=
  fun c hc => of_decide_eq_true (List.all_eq_true.mp h c hc)

theorem isPrefixOf_utf8 {word : List Char} (hword : ∀ c ∈ word, c.toNat ≤ 0x7F) (input : List Char) :
    (utf8 word).isPrefixOf (utf8 input) = word.isPrefixOf input := by
  induction word generalizing input with
  | nil => rfl
  | cons d word ih =>
    have hd := hword d List.mem_cons_self
    rw [utf8_cons, utf8Char_one hd, List.singleton_append]
    rcases input with _ | ⟨c, rest⟩
    · rfl
    rcases utf8_cons_cases c rest with ⟨hc, heq⟩ | ⟨hc, b, bytes, -, heq, hhigh⟩
    · rw [heq, List.isPrefixOf, List.isPrefixOf, ih fun c hc => hword c (List.mem_cons_of_mem _ hc)]
      have hsame : (UInt8.ofNat d.toNat == UInt8.ofNat c.toNat) = (d == c) := by
        rw [Bool.eq_iff_iff, beq_iff_eq, beq_iff_eq]
        exact ascii_inj hd hc
      rw [hsame]
    · have hne : (d == c) = false := by
        rw [beq_eq_false_iff_ne]
        rintro rfl
        omega
      have hbyte : (UInt8.ofNat d.toNat == b) = false := by
        rw [beq_eq_false_iff_ne]
        refine Ne.symm (ne_of_high (hhigh b List.mem_cons_self) ?_)
        rw [UInt8.toNat_ofNat']
        omega
      rw [heq, List.isPrefixOf, List.isPrefixOf, hne, hbyte, Bool.false_and, Bool.false_and]

/-- What is behind a word of ASCII letters. -/
theorem drop_utf8 {word input : List Char} (hword : ∀ c ∈ word, c.toNat ≤ 0x7F)
    (h : word.isPrefixOf input = true) :
    utf8 input = utf8 word ++ utf8 (input.drop word.length) ∧
      (utf8 input).drop word.length = utf8 (input.drop word.length) := by
  obtain ⟨rest, rfl⟩ := List.isPrefixOf_iff_prefix.mp h
  have hlength : (utf8 word).length = word.length := by
    clear h
    induction word with
    | nil => rfl
    | cons c word ih =>
      rw [utf8_cons, utf8Char_one (hword c List.mem_cons_self), List.length_append,
        ih fun c hc => hword c (List.mem_cons_of_mem _ hc)]
      simp only [List.length_cons, List.length_nil]
      omega
  rw [List.drop_left, utf8_append]
  refine ⟨rfl, ?_⟩
  rw [← hlength, List.drop_left]

/-- `insert` under a new name. -/
theorem assign_of_fresh {δ : Type} {key : Bytes} (value : Json δ) {object : List (Bytes × Json δ)}
    (h : object.lookup key = none) : Json.assign key value object = Json.emplace key value object := by
  induction object with
  | nil => rfl
  | cons member object ih =>
    obtain ⟨k, v⟩ := member
    rw [Json.assign, Json.emplace]
    cases hcompare : compare key k with
    | lt => rfl
    | eq =>
      obtain rfl := Std.compare_eq_iff_eq.mp hcompare
      simp at h
    | gt =>
      have hne : (key == k) = false := by
        rw [beq_eq_false_iff_ne]
        rintro rfl
        rw [Std.compare_eq_iff_eq.mpr rfl] at hcompare
        cases hcompare
      rw [List.lookup_cons, hne] at h
      exact congrArg _ (ih h)

/-- A word that both parsers know. -/
theorem word_alike {δ : Type} {word start : List Char} (hword : ∀ c ∈ word, c.toNat ≤ 0x7F ∧ c ≠ '"') (value : Json δ)
    (h : word.isPrefixOf start = true) :
    Alike (id : Json δ → Json δ) (hasSurrogate (utf8 start)) (.ok (value, (utf8 start).drop word.length))
      (.ok (value, start.drop word.length)) := by
  obtain ⟨hbytes, hdrop⟩ := drop_utf8 (fun c hc => (hword c hc).1) h
  rw [hdrop]
  refine .read ?_
  rw [hbytes]
  refine hasSurrogate_append (fun b hb => ?_) _
  obtain ⟨c, hc, hb⟩ := List.mem_flatMap.mp hb
  rw [utf8Char_one (hword c hc).1, List.mem_singleton] at hb
  subst hb
  exact fun heq => (hword c hc).2 ((ascii_inj (d := '"') (hword c hc).1 (by decide)).mp heq)

section Values

variable {δ : Type} [Strtod δ] [ParseF64 δ]

theorem number_alike {input : List Char} (hplain : hasDecimal (utf8 input) = false) :
    Alike (id : Json δ → Json δ) (hasSurrogate (utf8 input)) (JsonParser.parseNumber (utf8 input))
      (parseNumber input) := by
  obtain ⟨sign, rest, hsign, happend, hsigns⟩ := parseSign_cases (utf8 input)
  have hsignRust := parseSign_utf8 input
  rw [hsign] at hsignRust
  obtain ⟨rfl, rfl⟩ := Prod.mk.inj hsignRust
  have hwholeRust := parseWhole_utf8 (parseSign ['-'] input).2
  rw [JsonParser.parseNumber, parseNumber, hsign]
  simp only [bind, Except.bind]
  cases hwhole : parseWhole (parseSign ['-'] input).2 with
  | error message =>
    rw [hwhole] at hwholeRust
    replace hwholeRust : JsonParser.parseWhole (utf8 (parseSign ['-'] input).2) = .error message := hwholeRust
    simp only [hwholeRust]
    exact .failed
  | ok read =>
  obtain ⟨whole, rest⟩ := read
  rw [hwhole] at hwholeRust
  replace hwholeRust : JsonParser.parseWhole (utf8 (parseSign ['-'] input).2) = .ok (utf8 whole, utf8 rest) :=
    hwholeRust
  obtain ⟨hdigits, hbehind⟩ := digits_of_parseWhole hwholeRust
  have hsignPlain : ∀ c ∈ utf8 (parseSign ['-'] input).1, c ≠ 34 := by
    intro c hc
    rcases hsigns with hnil | hminus
    · rw [hnil] at hc
      cases hc
    · rw [hminus, List.mem_singleton] at hc
      rw [hc]
      decide
  have hdigitPlain : ∀ c ∈ utf8 whole, c ≠ 34 := by
    rintro c hc rfl
    exact absurd (hdigits.isDigit 34 hc) (by decide)
  have hscan : hasSurrogate (utf8 input) = hasSurrogate (utf8 rest) := by
    rw [happend, hbehind, hasSurrogate_append hsignPlain, hasSurrogate_append hdigitPlain]
  have hnone : (utf8 rest).head?.any (fun c => c == 46 || c == 101 || c == 69) = false := by
    refine plain_of_digits hdigits.ne_nil hdigits.isDigit ?_
    rw [happend, hbehind] at hplain
    exact finds_append hsignPlain hplain
  obtain ⟨hfraction, hexponent⟩ := parseFraction_plain hnone
  obtain ⟨hfractionRust, hexponentRust⟩ := parseFraction_none hnone
  have hvalue := @parseI64_utf8 (parseSign ['-'] input).1 whole (isDigit_of_utf8 hdigits.isDigit)
  simp only [hwholeRust, hfraction, hexponent, hfractionRust, hexponentRust, and_self, if_true, hvalue]
  cases parseI64 (parseSign ['-'] input).1 whole with
  | error message => exact .failed
  | ok value => exact .read hscan

mutual

/-- **The values of the two parsers.** -/
theorem value_alike : ∀ (fuel : Nat) {input : List Char}, hasDecimal (utf8 input) = false →
    Alike (id : Json δ → Json δ) (hasSurrogate (utf8 input)) (JsonParser.parseValue fuel (utf8 input))
      (parseValue fuel input)
  | 0, _, _ => .failed
  | fuel + 1, input, hplain => by
    have hgap : Gap (utf8 input) (utf8 (skipWhitespace input)) := by
      rw [← skipWhitespace_utf8]
      exact gap_skipWhitespace _
    have hstart : hasDecimal (utf8 (skipWhitespace input)) = false := finds_gap hgap hplain
    rw [hasSurrogate_gap hgap, JsonParser.parseValue, parseValue, skipWhitespace_utf8]
    revert hstart
    generalize skipWhitespace input = start
    intro hstart
    have hnull : (ascii "null").isPrefixOf (utf8 start) = "null".toList.isPrefixOf start :=
      @isPrefixOf_utf8 "null".toList (forall_mem_of_all (by decide)) start
    have htrue : (ascii "true").isPrefixOf (utf8 start) = "true".toList.isPrefixOf start :=
      @isPrefixOf_utf8 "true".toList (forall_mem_of_all (by decide)) start
    have hfalse : (ascii "false").isPrefixOf (utf8 start) = "false".toList.isPrefixOf start :=
      @isPrefixOf_utf8 "false".toList (forall_mem_of_all (by decide)) start
    rcases start with _ | ⟨c, rest⟩
    · exact .failed
    have hne : utf8 (c :: rest) ≠ [] := by
      obtain ⟨b, bytes, hbytes⟩ := utf8Char_ne_nil c
      rw [utf8_cons, hbytes]
      exact List.cons_ne_nil _ _
    dsimp only
    rw [if_neg hne, hnull, htrue, hfalse]
    by_cases hword : "null".toList.isPrefixOf (c :: rest) = true
    · rw [if_pos hword, if_pos hword]
      exact word_alike (forall_mem_of_all (by decide)) .null hword
    rw [if_neg hword, if_neg hword]
    by_cases hword : "true".toList.isPrefixOf (c :: rest) = true
    · rw [if_pos hword, if_pos hword]
      exact word_alike (forall_mem_of_all (by decide)) (.bool true) hword
    rw [if_neg hword, if_neg hword]
    by_cases hword : "false".toList.isPrefixOf (c :: rest) = true
    · rw [if_pos hword, if_pos hword]
      exact word_alike (forall_mem_of_all (by decide)) (.bool false) hword
    rw [if_neg hword, if_neg hword]
    have hquote : (utf8 (c :: rest)).head? = some 34 ↔ c = '"' := @head_utf8_iff '"' (by decide) c rest
    have hbracket : (utf8 (c :: rest)).head? = some 91 ↔ c = '[' := @head_utf8_iff '[' (by decide) c rest
    have hbrace : (utf8 (c :: rest)).head? = some 123 ↔ c = '\x7b' := @head_utf8_iff '\x7b' (by decide) c rest
    by_cases hc : c = '"'
    · -- a string
      have hstring := string_alike (c :: rest)
      rw [if_pos (hquote.mpr hc), if_pos hc]
      revert hstring
      generalize JsonParser.parseString (utf8 (c :: rest)) = cpp
      generalize parseString (c :: rest) = rust
      intro hstring
      cases hstring with
      | failed => exact .failed
      | surrogate hscan => exact .surrogate hscan
      | read hscan => exact .read hscan
    rw [if_neg fun h => hc (hquote.mp h), if_neg hc]
    by_cases hc : c = '['
    · -- an array
      subst hc
      rw [if_pos (hbracket.mpr rfl), if_pos rfl]
      have heq : utf8 ('[' :: rest) = 91 :: utf8 rest := rfl
      have hrest : hasDecimal (utf8 rest) = false := finds_cons (by decide) hstart
      have hconsume := @consume_utf8 ']' (by decide) rest
      rw [heq, hasSurrogate_cons (by decide), List.drop_succ_cons, List.drop_zero]
      cases hclose : consume ']' rest with
      | some behind =>
        rw [hclose] at hconsume
        replace hconsume : JsonParser.consume 93 (utf8 rest) = some (utf8 behind) := hconsume
        rw [hconsume, hasSurrogate_gap (gap_of_consume hconsume), hasSurrogate_cons (by decide)]
        exact .read rfl
      | none =>
        rw [hclose] at hconsume
        replace hconsume : JsonParser.consume 93 (utf8 rest) = none := hconsume
        rw [hconsume]
        exact items_alike fuel [] hrest
    rw [if_neg fun h => hc (hbracket.mp h), if_neg hc]
    by_cases hc : c = '\x7b'
    · -- an object
      subst hc
      rw [if_pos (hbrace.mpr rfl), if_pos rfl]
      have heq : utf8 ('\x7b' :: rest) = 123 :: utf8 rest := rfl
      have hrest : hasDecimal (utf8 rest) = false := finds_cons (by decide) hstart
      have hconsume := @consume_utf8 '\x7d' (by decide) rest
      rw [heq, hasSurrogate_cons (by decide), List.drop_succ_cons, List.drop_zero]
      cases hclose : consume '\x7d' rest with
      | some behind =>
        rw [hclose] at hconsume
        replace hconsume : JsonParser.consume 125 (utf8 rest) = some (utf8 behind) := hconsume
        rw [hconsume, hasSurrogate_gap (gap_of_consume hconsume), hasSurrogate_cons (by decide)]
        exact .read rfl
      | none =>
        rw [hclose] at hconsume
        replace hconsume : JsonParser.consume 125 (utf8 rest) = none := hconsume
        rw [hconsume]
        exact members_alike fuel [] hrest
    rw [if_neg fun h => hc (hbrace.mp h), if_neg hc]
    exact number_alike hstart

theorem items_alike : ∀ (fuel : Nat) (values : List (Json δ)) {input : List Char},
    hasDecimal (utf8 input) = false →
    Alike (id : Json δ → Json δ) (hasSurrogate (utf8 input)) (JsonParser.parseItems fuel values (utf8 input))
      (parseItems fuel values input)
  | 0, _, _, _ => .failed
  | fuel + 1, values, input, hplain => by
    have hvalue := value_alike fuel hplain
    rw [JsonParser.parseItems, parseItems]
    revert hvalue
    generalize hcpp : JsonParser.parseValue (δ := δ) fuel (utf8 input) = cpp
    generalize parseValue (δ := δ) fuel input = rust
    intro hvalue
    cases hvalue with
    | failed => exact .failed
    | surrogate hscan => exact .surrogate hscan
    | @read value rest hscan =>
      have hrest := (value_of_parse fuel hplain hcpp).2
      have hconsume := @consume_utf8 ']' (by decide) rest
      have hexpect := @expect_utf8 ',' (by decide) rest
      simp only [bind, Except.bind, id]
      rw [hscan]
      cases hclose : consume ']' rest with
      | some behind =>
        rw [hclose] at hconsume
        replace hconsume : JsonParser.consume 93 (utf8 rest) = some (utf8 behind) := hconsume
        simp only [hconsume]
        refine .read ?_
        rw [hasSurrogate_gap (gap_of_consume hconsume), hasSurrogate_cons (by decide)]
      | none =>
        rw [hclose] at hconsume
        replace hconsume : JsonParser.consume 93 (utf8 rest) = none := hconsume
        simp only [hconsume]
        cases hcomma : expect ',' rest with
        | error message =>
          rw [hcomma] at hexpect
          replace hexpect : JsonParser.expect 44 (utf8 rest) = .error message := hexpect
          simp only [hexpect]
          exact .failed
        | ok behind =>
          rw [hcomma] at hexpect
          replace hexpect : JsonParser.expect 44 (utf8 rest) = .ok (utf8 behind) := hexpect
          have hgap := (expect_iff (by decide)).mp hexpect
          simp only [hexpect]
          rw [hasSurrogate_gap hgap, hasSurrogate_cons (by decide)]
          exact items_alike fuel (values ++ [value]) (finds_cons (by decide) (finds_gap hgap hrest))

theorem members_alike : ∀ (fuel : Nat) (object : List (Bytes × Json δ)) {input : List Char},
    hasDecimal (utf8 input) = false →
    Alike (id : Json δ → Json δ) (hasSurrogate (utf8 input)) (JsonParser.parseMembers fuel object (utf8 input))
      (parseMembers fuel object input)
  | 0, _, _, _ => .failed
  | fuel + 1, object, input, hplain => by
    rw [JsonParser.parseMembers, parseMembers, skipWhitespace_utf8]
    have hhead : (utf8 (skipWhitespace input)).head? = some 34 ↔ (skipWhitespace input).head? = some '"' := by
      cases skipWhitespace input with
      | nil => exact iff_of_false nofun nofun
      | cons c rest => exact (@head_utf8_iff '"' (by decide) c rest).trans Option.some_inj.symm
    by_cases hstart : (skipWhitespace input).head? ≠ some '"'
    · rw [if_pos hstart, if_pos fun h => hstart (hhead.mp h)]
      exact .failed
    rw [if_neg hstart, if_neg (not_not.mpr (hhead.mpr (not_not.mp hstart)))]
    have hstring := string_alike input
    revert hstring
    generalize hname : JsonParser.parseString (utf8 input) = cpp
    generalize parseString input = rust
    intro hstring
    cases hstring with
    | failed => exact .failed
    | surrogate hscan => exact .surrogate hscan
    | @read key rest hscan =>
    obtain ⟨name, hopen, hchars⟩ := JsonGrammar.parseString_iff.mp hname
    have hrest : hasDecimal (utf8 rest) = false := finds_chars hchars (finds_quote _ (finds_gap hopen hplain))
    have hexpect := @expect_utf8 ':' (by decide) rest
    simp only [bind, Except.bind]
    rw [hscan]
    cases hcolon : expect ':' rest with
    | error message =>
      rw [hcolon] at hexpect
      replace hexpect : JsonParser.expect 58 (utf8 rest) = .error message := hexpect
      simp only [hexpect]
      exact .failed
    | ok first =>
    rw [hcolon] at hexpect
    replace hexpect : JsonParser.expect 58 (utf8 rest) = .ok (utf8 first) := hexpect
    have hgap := (expect_iff (by decide)).mp hexpect
    have hfirst : hasDecimal (utf8 first) = false := finds_cons (by decide) (finds_gap hgap hrest)
    simp only [hexpect]
    rw [hasSurrogate_gap hgap, hasSurrogate_cons (by decide)]
    have hvalue := value_alike fuel hfirst
    revert hvalue
    generalize hcpp : JsonParser.parseValue (δ := δ) fuel (utf8 first) = cpp
    generalize parseValue (δ := δ) fuel first = rust
    intro hvalue
    cases hnew : object.lookup (utf8 key) with
    | some other =>
      -- the C++ parser reads the value first, and then refuses the name as well
      simp only [Option.isSome_some, if_true]
      cases hvalue with
      | failed => exact .failed
      | surrogate hscan => exact .surrogate hscan
      | read =>
        simp only [JsonParser.emplaceNew, hnew, Option.isSome_some, if_true]
        exact .failed
    | none =>
    simp only [Option.isSome_none, Bool.false_eq_true, if_false]
    cases hvalue with
    | failed => exact .failed
    | surrogate hscan => exact .surrogate hscan
    | @read value behind hscan =>
    have hbehind := (value_of_parse fuel hfirst hcpp).2
    have hconsume := @consume_utf8 '\x7d' (by decide) behind
    have hcomma := @expect_utf8 ',' (by decide) behind
    simp only [JsonParser.emplaceNew, hnew, Option.isSome_none, Bool.false_eq_true, if_false, id,
      assign_of_fresh value hnew]
    rw [hscan]
    cases hclose : consume '\x7d' behind with
    | some more =>
      rw [hclose] at hconsume
      replace hconsume : JsonParser.consume 125 (utf8 behind) = some (utf8 more) := hconsume
      simp only [hconsume]
      refine .read ?_
      rw [hasSurrogate_gap (gap_of_consume hconsume), hasSurrogate_cons (by decide)]
    | none =>
      rw [hclose] at hconsume
      replace hconsume : JsonParser.consume 125 (utf8 behind) = none := hconsume
      simp only [hconsume]
      cases hmore : expect ',' behind with
      | error message =>
        rw [hmore] at hcomma
        replace hcomma : JsonParser.expect 44 (utf8 behind) = .error message := hcomma
        simp only [hcomma]
        exact .failed
      | ok more =>
        rw [hmore] at hcomma
        replace hcomma : JsonParser.expect 44 (utf8 behind) = .ok (utf8 more) := hcomma
        have hgap := (expect_iff (by decide)).mp hcomma
        simp only [hcomma]
        rw [hasSurrogate_gap hgap, hasSurrogate_cons (by decide)]
        exact members_alike fuel _ (finds_cons (by decide) (finds_gap hgap hbehind))

end

/-- The Rust parser accepts what the C++ parser accepts, where no surrogate is escaped. -/
theorem parse_iff_cpp {text : List Char} {json : Json δ} (hplain : hasDecimal (utf8 text) = false) :
    parse text = .ok json ↔ JsonParser.parse (utf8 text) = .ok json ∧ hasSurrogate (utf8 text) = false := by
  have hvalue := value_alike (δ := δ) (2 * (utf8 text).length + 1) hplain
  rw [parse, JsonParser.parse]
  revert hvalue
  generalize JsonParser.parseValue (δ := δ) (2 * (utf8 text).length + 1) (utf8 text) = cpp
  generalize parseValue (δ := δ) (2 * (utf8 text).length + 1) text = rust
  intro hvalue
  cases hvalue with
  | failed =>
    refine iff_of_false (fun h => ?_) fun h => ?_
    · cases h
    · cases h.1
  | surrogate hscan =>
    refine iff_of_false (fun h => ?_) fun h => ?_
    · cases h
    · rw [hscan] at h
      cases h.2
  | @read value rest hscan =>
    simp only [bind, Except.bind, id, skipWhitespace_utf8]
    by_cases hend : skipWhitespace rest = []
    · have hgap : Gap (utf8 rest) [] := by
        have hskip := gap_skipWhitespace (utf8 rest)
        rwa [skipWhitespace_utf8, hend] at hskip
      have hclear : hasSurrogate (utf8 text) = false := hscan.trans (hasSurrogate_gap hgap)
      rw [hend, hclear, if_neg (not_not.mpr rfl), utf8_nil, if_neg (not_not.mpr rfl)]
      exact ⟨fun h => ⟨h, rfl⟩, fun h => h.1⟩
    · have hbytes : utf8 (skipWhitespace rest) ≠ [] := fun h => hend (utf8_injective h)
      rw [if_pos hend, if_pos hbytes]
      refine iff_of_false (fun h => ?_) fun h => ?_
      · cases h
      · cases h.1

/-- **The parsers agree**, but for the JSON texts with an escaped surrogate pair. -/
theorem parsers_agree_iff (text : List Char) (hplain : hasDecimal (utf8 text) = false) :
    (JsonParser.parse (δ := δ) (utf8 text)).toOption = (parse text).toOption ↔
      ¬ ((∃ json : Json δ, Says (utf8 text) json) ∧ hasSurrogate (utf8 text) = true) := by
  cases hcpp : JsonParser.parse (δ := δ) (utf8 text) with
  | error message =>
    have hread : ¬ ∃ json : Json δ, Says (utf8 text) json := by
      rintro ⟨json, hjson⟩
      rw [parse_of_saying hjson] at hcpp
      cases hcpp
    refine iff_of_true ?_ fun h => hread h.1
    cases hrust : parse (δ := δ) text with
    | error message' => rfl
    | ok json =>
      have hboth := ((parse_iff_cpp hplain).mp hrust).1
      rw [hcpp] at hboth
      cases hboth
  | ok json =>
    have hread : ∃ json : Json δ, Says (utf8 text) json := ⟨json, (parse_iff hplain).mp hcpp⟩
    cases hscan : hasSurrogate (utf8 text) with
    | false =>
      have hrust : parse text = .ok json := (parse_iff_cpp hplain).mpr ⟨hcpp, hscan⟩
      rw [hrust]
      exact iff_of_true rfl fun h => nomatch h.2
    | true =>
      refine iff_of_false (fun hsame => ?_) (not_not.mpr ⟨hread, rfl⟩)
      cases hrust : parse (δ := δ) text with
      | error message =>
        rw [hrust] at hsame
        cases hsame
      | ok json' =>
        have hclear := ((parse_iff_cpp hplain).mp hrust).2
        rw [hscan] at hclear
        cases hclear

end Values

/-- A text with the escape of a scalar value in it. -/
def accented : List Char := "\x7b \"caf\\u00e9\" : [ -12 , true ] \x7d".toList

theorem parsers_agree_accented : (JsonParser.parse (δ := Empty) (utf8 accented)).toOption =
    (parse accented).toOption ∧ (parse (δ := Empty) accented).toOption.isSome = true := by
  have hplain : hasDecimal (utf8 accented) = false := by decide +kernel
  have hclear : hasSurrogate (utf8 accented) = false := by decide +kernel
  refine ⟨(parsers_agree_iff accented hplain).mpr fun h => ?_, by decide +kernel⟩
  rw [hclear] at h
  exact nomatch h.2

/-- An emoji, escaped as a surrogate pair. -/
def emoji : List Char := "\"\\ud83d\\ude00\"".toList

/-- The C++ parser reads it, the Rust parser does not. -/
theorem surrogate_pair_refused : ¬ ∀ text : List Char, hasDecimal (utf8 text) = false →
    (JsonParser.parse (δ := Empty) (utf8 text)).toOption = (parse text).toOption := by
  intro hall
  have hsame := hall emoji (by decide +kernel)
  have hcpp : (JsonParser.parse (δ := Empty) (utf8 emoji)).toOption.isSome = true := by decide +kernel
  have hrust : (parse (δ := Empty) emoji).toOption = none := by decide +kernel
  rw [hsame, hrust] at hcpp
  cases hcpp

end Rust.Parser

end StateSpec
