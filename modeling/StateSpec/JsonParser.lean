/-
  THE JSON PARSER — `class JsonParser` of `bindings/cpp/json.hpp`.

  The parser stands before what is left of its input.  It throws (`fail`) at the first thing that is wrong, so
  what it returns is a result or the message of the exception.  `parse_value`, `parse_array` and `parse_object`
  call each other; they are given fuel here, and each call takes at least one byte of every two that the fuel is
  for.  `std::strtod` is the class `Strtod`.
-/
import Mathlib.Algebra.Group.Int.Defs
import Mathlib.Algebra.Group.Nat.Defs
import StateSpec.Json

namespace StateSpec

/-- `std::strtod` on the text of a number: nothing where the value is not finite. -/
class Strtod (δ : Type) where
  strtod : Bytes → Option δ

instance : Strtod Empty := ⟨fun _ => none⟩

namespace JsonParser

def isWhitespace (c : UInt8) : Bool := c == 32 || c == 10 || c == 13 || c == 9

def skipWhitespace (input : Bytes) : Bytes := input.dropWhile isWhitespace

/-- Blanks that are skipped in vain are skipped again by what comes next. -/
def consume (expected : UInt8) (input : Bytes) : Option Bytes :=
  match skipWhitespace input with
  | [] => none
  | c :: rest => if c = expected then some rest else none

def expect (expected : UInt8) (input : Bytes) : Except String Bytes :=
  match consume expected input with
  | some rest => .ok rest
  | none => .error "unexpected JSON token"

/-! ## Strings -/

def hexValue (c : UInt8) : Except String Nat :=
  if 48 ≤ c ∧ c ≤ 57 then .ok (c.toNat - 48)
  else if 97 ≤ c ∧ c ≤ 102 then .ok (c.toNat - 97 + 10)
  else if 65 ≤ c ∧ c ≤ 70 then .ok (c.toNat - 65 + 10)
  else .error "invalid JSON unicode escape"

def parseHexQuad (a b c d : UInt8) : Except String Nat := do
  let a ← hexValue a
  let b ← hexValue b
  let c ← hexValue c
  let d ← hexValue d
  return ((a * 16 + b) * 16 + c) * 16 + d

def utf8 (codePoint : Nat) : Except String Bytes :=
  if codePoint ≤ 0x7F then .ok [UInt8.ofNat codePoint]
  else if codePoint ≤ 0x7FF then
    .ok [UInt8.ofNat (0xC0 ||| codePoint >>> 6), UInt8.ofNat (0x80 ||| codePoint &&& 0x3F)]
  else if codePoint ≤ 0xFFFF then
    .ok [UInt8.ofNat (0xE0 ||| codePoint >>> 12), UInt8.ofNat (0x80 ||| codePoint >>> 6 &&& 0x3F),
      UInt8.ofNat (0x80 ||| codePoint &&& 0x3F)]
  else if codePoint ≤ 0x10FFFF then
    .ok [UInt8.ofNat (0xF0 ||| codePoint >>> 18), UInt8.ofNat (0x80 ||| codePoint >>> 12 &&& 0x3F),
      UInt8.ofNat (0x80 ||| codePoint >>> 6 &&& 0x3F), UInt8.ofNat (0x80 ||| codePoint &&& 0x3F)]
  else .error "invalid JSON unicode code point"

/-- What a letter behind a backslash stands for; 'u' is not among them. -/
def simpleEscape (escaped : UInt8) : Option UInt8 :=
  if escaped = 34 ∨ escaped = 92 ∨ escaped = 47 then some escaped
  else if escaped = 98 then some 8
  else if escaped = 102 then some 12
  else if escaped = 110 then some 10
  else if escaped = 114 then some 13
  else if escaped = 116 then some 9
  else none

/-- What is in front of the string that has been read. -/
def behind (front : Except String Bytes) (string : Except String (Bytes × Bytes)) :
    Except String (Bytes × Bytes) := do
  let front ← front
  let (out, rest) ← string
  return (front ++ out, rest)

/-- The loop of `parse_string`, behind the opening quote. -/
def parseChars : Bytes → Except String (Bytes × Bytes)
  | [] => .error "unterminated JSON string"
  | c :: rest =>
    if c = 34 then .ok ([], rest)
    else if c < 32 then .error "unescaped control character in JSON string"
    else if c ≠ 92 then behind (.ok [c]) (parseChars rest)
    else
      match rest with
      | [] => .error "unterminated JSON escape"
      | escaped :: rest =>
        match simpleEscape escaped with
        | some c => behind (.ok [c]) (parseChars rest)
        | none =>
          if escaped ≠ 117 then .error "invalid JSON escape"
          else
            match rest with
            | a :: b :: c :: d :: rest =>
              match parseHexQuad a b c d with
              | .error message => .error message
              | .ok high =>
                if 0xD800 ≤ high ∧ high ≤ 0xDBFF then
                  match rest with
                  | 92 :: 117 :: e :: f :: g :: h :: rest =>
                    match parseHexQuad e f g h with
                    | .error message => .error message
                    | .ok low =>
                      if low < 0xDC00 ∨ 0xDFFF < low then .error "invalid JSON low surrogate"
                      else
                        behind (utf8 (0x10000 + ((high - 0xD800) <<< 10 ||| (low - 0xDC00)))) (parseChars rest)
                  | _ => .error "missing JSON low surrogate"
                else if 0xDC00 ≤ high ∧ high ≤ 0xDFFF then .error "unexpected JSON low surrogate"
                else behind (utf8 high) (parseChars rest)
            | _ => .error "short JSON unicode escape"

def parseString (input : Bytes) : Except String (Bytes × Bytes) := do
  let rest ← expect 34 input
  parseChars rest

/-! ## Numbers -/

def isDigit (c : UInt8) : Bool := 48 ≤ c && c ≤ 57

/-- One digit at least. -/
def parseDigits (message : String) (input : Bytes) : Except String (Bytes × Bytes) :=
  if input.head?.any isDigit then .ok (input.span isDigit) else .error message

def parseSign (signs input : Bytes) : Bytes × Bytes :=
  match input with
  | c :: rest => if c ∈ signs then ([c], rest) else ([], input)
  | [] => ([], input)

def parseWhole (input : Bytes) : Except String (Bytes × Bytes) :=
  match input with
  | [] => .error "invalid JSON number"
  | c :: rest =>
    if c = 48 then
      if rest.head?.any isDigit then .error "invalid JSON number leading zero" else .ok ([c], rest)
    else parseDigits "invalid JSON number" input

def parseFraction (input : Bytes) : Except String (Bytes × Bytes) :=
  match input with
  | c :: rest =>
    if c = 46 then behind (.ok [c]) (parseDigits "invalid JSON number fraction" rest) else .ok ([], input)
  | [] => .ok ([], input)

def parseExponent (input : Bytes) : Except String (Bytes × Bytes) :=
  match input with
  | c :: rest =>
    if c = 101 ∨ c = 69 then
      behind (.ok (c :: (parseSign [43, 45] rest).1))
        (parseDigits "invalid JSON number exponent" (parseSign [43, 45] rest).2)
    else .ok ([], input)
  | [] => .ok ([], input)

/-- `std::from_chars`, of digits behind a sign. -/
def fromChars (sign whole : Bytes) : Except String Int :=
  let magnitude : Int := whole.foldl (fun value c => 10 * value + (c.toNat - 48)) 0
  let value := if sign = [] then magnitude else -magnitude
  if -2 ^ 63 ≤ value ∧ value < 2 ^ 63 then .ok value else .error "invalid JSON integer"

variable {δ : Type} [Strtod δ]

def parseNumber (input : Bytes) : Except String (Json δ × Bytes) := do
  let (sign, rest) := parseSign [45] input
  let (whole, rest) ← parseWhole rest
  let (fraction, rest) ← parseFraction rest
  let (exponent, rest) ← parseExponent rest
  if fraction = [] ∧ exponent = [] then
    let value ← fromChars sign whole
    return (.int64 value, rest)
  match Strtod.strtod (sign ++ whole ++ fraction ++ exponent) with
  | some value => return (.double value, rest)
  | none => .error "invalid JSON number"

/-! ## Values -/

/-- `object.emplace`, where the name is new. -/
def emplaceNew (key : Bytes) (value : Json δ) (object : List (Bytes × Json δ)) :
    Except String (List (Bytes × Json δ)) :=
  if (object.lookup key).isSome then .error "duplicate JSON object member"
  else .ok (Json.emplace key value object)

mutual

def parseValue : Nat → Bytes → Except String (Json δ × Bytes)
  | 0, _ => .error "missing JSON value"
  | fuel + 1, input =>
    let input := skipWhitespace input
    if input = [] then .error "missing JSON value"
    else if (ascii "null").isPrefixOf input then .ok (.null, input.drop 4)
    else if (ascii "true").isPrefixOf input then .ok (.bool true, input.drop 4)
    else if (ascii "false").isPrefixOf input then .ok (.bool false, input.drop 5)
    else if input.head? = some 34 then do
      let (value, rest) ← parseString input
      return (.string value, rest)
    else if input.head? = some 91 then
      match consume 93 (input.drop 1) with
      | some rest => .ok (.array [], rest)
      | none => parseItems fuel [] (input.drop 1)
    else if input.head? = some 123 then
      match consume 125 (input.drop 1) with
      | some rest => .ok (.object [], rest)
      | none => parseMembers fuel [] (input.drop 1)
    else parseNumber input

/-- The loop of `parse_array`. -/
def parseItems : Nat → List (Json δ) → Bytes → Except String (Json δ × Bytes)
  | 0, _, _ => .error "missing JSON value"
  | fuel + 1, values, input => do
    let (value, rest) ← parseValue fuel input
    match consume 93 rest with
    | some rest => return (.array (values ++ [value]), rest)
    | none =>
      let rest ← expect 44 rest
      parseItems fuel (values ++ [value]) rest

/-- The loop of `parse_object`. -/
def parseMembers : Nat → List (Bytes × Json δ) → Bytes → Except String (Json δ × Bytes)
  | 0, _, _ => .error "missing JSON value"
  | fuel + 1, object, input =>
    if (skipWhitespace input).head? ≠ some 34 then .error "JSON object member name must be a string"
    else do
      let (key, rest) ← parseString input
      let rest ← expect 58 rest
      let (value, rest) ← parseValue fuel rest
      let object ← emplaceNew key value object
      match consume 125 rest with
      | some rest => return (.object object, rest)
      | none =>
        let rest ← expect 44 rest
        parseMembers fuel object rest

end

def parse (input : Bytes) : Except String (Json δ) := do
  let (value, rest) ← parseValue (2 * input.length + 1) input
  if skipWhitespace rest ≠ [] then .error "unexpected trailing JSON content"
  else return value

end JsonParser

end StateSpec
