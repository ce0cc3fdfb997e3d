/-
  THE RUST JSON PARSER — `struct Parser` of `bindings/rust/json.rs`, beside the C++ one.

  The input is a `&str`, so it is a text of characters; a position of the source is what is left of the text.  A
  `String` of the source is the bytes of its UTF-8 encoding, as in every document here.  `str::parse::<f64>` is
  the class `ParseF64`.
-/
import StateSpec.JsonGrammar
import StateSpec.Lib.Unicode

namespace StateSpec

/-- `str::parse::<f64>` on the text of a number: nothing where the value is not finite. -/
class ParseF64 (δ : Type) where
  parseF64 : List Char → Option δ

instance : ParseF64 Empty := ⟨fun _ => none⟩

namespace Rust.Parser

open Unicode

def isWhitespace (c : Char) : Bool := c == ' ' || c == '\n' || c == '\r' || c == '\t'

def skipWhitespace (input : List Char) : List Char := input.dropWhile isWhitespace

def consume (expected : Char) (input : List Char) : Option (List Char) :=
  match skipWhitespace input with
  | [] => none
  | c :: rest => if c = expected then some rest else none

def expect (expected : Char) (input : List Char) : Except String (List Char) :=
  match consume expected input with
  | some rest => .ok rest
  | none => .error "unexpected JSON token"

/-! ## Strings -/

def hexValue (c : Char) : Except String Nat :=
  if '0' ≤ c ∧ c ≤ '9' then .ok (c.toNat - 48)
  else if 'a' ≤ c ∧ c ≤ 'f' then .ok (c.toNat - 97 + 10)
  else if 'A' ≤ c ∧ c ≤ 'F' then .ok (c.toNat - 65 + 10)
  else .error "invalid JSON unicode escape"

/-- The loop of `parse_hex_quad`, with the digits that are still to be read. -/
def parseHexDigits : Nat → Nat → List Char → Except String (Nat × List Char)
  | 0, value, input => .ok (value, input)
  | _ + 1, _, [] => .error "short JSON unicode escape"
  | digits + 1, value, c :: rest =>
    match hexValue c with
    | .error message => .error message
    | .ok digit => parseHexDigits digits (value <<< 4 ||| digit) rest

def parseHexQuad (input : List Char) : Except String (Nat × List Char) := parseHexDigits 4 0 input

/-- `char::from_u32`. -/
def fromU32 (value : Nat) : Option Char :=
  if h : value.isValidChar then some (Char.ofNatAux value h) else none

/-- What a letter behind a backslash stands for; 'u' is not among them. -/
def simpleEscape (escaped : Char) : Option Char :=
  if escaped = '"' ∨ escaped = '\\' ∨ escaped = '/' then some escaped
  else if escaped = 'b' then some '\x08'
  else if escaped = 'f' then some '\x0C'
  else if escaped = 'n' then some '\n'
  else if escaped = 'r' then some '\r'
  else if escaped = 't' then some '\t'
  else none

/-- A character in front of the string that has been read. -/
def push (c : Char) (string : Except String (List Char × List Char)) : Except String (List Char × List Char) :=
  string.map fun (out, rest) => (c :: out, rest)

/-- The loop of `parse_string`, behind the opening quote, in at most so many rounds. -/
def parseChars : Nat → List Char → Except String (List Char × List Char)
  | 0, _ => .error "unterminated JSON string"
  | _ + 1, [] => .error "unterminated JSON string"
  | fuel + 1, c :: rest =>
    if c = '"' then .ok ([], rest)
    else if c < ' ' then .error "unescaped control character in JSON string"
    else if c ≠ '\\' then push c (parseChars fuel rest)
    else
      match rest with
      | [] => .error "unterminated JSON escape"
      | escaped :: rest =>
        match simpleEscape escaped with
        | some c => push c (parseChars fuel rest)
        | none =>
          if escaped ≠ 'u' then .error "invalid JSON escape"
          else
            match parseHexQuad rest with
            | .error message => .error message
            | .ok (codePoint, rest) =>
              match fromU32 codePoint with
              | none => .error "invalid JSON unicode escape"
              | some value => push value (parseChars fuel rest)

def parseString (input : List Char) : Except String (List Char × List Char) := do
  let rest ← expect '"' input
  parseChars (rest.length + 1) rest

/-! ## Numbers -/

def isDigit (c : Char) : Bool := '0' ≤ c && c ≤ '9'

/-- One digit at least. -/
def parseDigits (message : String) (input : List Char) : Except String (List Char × List Char) :=
  if input.head?.any isDigit then .ok (input.span isDigit) else .error message

/-- One of some characters, if it is there. -/
def parseSign (signs input : List Char) : List Char × List Char :=
  match input with
  | c :: rest => if c ∈ signs then ([c], rest) else ([], input)
  | [] => ([], input)

def parseWhole (input : List Char) : Except String (List Char × List Char) :=
  match input with
  | [] => .error "invalid JSON number"
  | c :: rest =>
    if c = '0' then
      if rest.head?.any isDigit then .error "invalid JSON number leading zero" else .ok ([c], rest)
    else parseDigits "invalid JSON number" input

def parseFraction (input : List Char) : Except String (List Char × List Char) :=
  match input with
  | c :: rest =>
    if c = '.' then (parseDigits "invalid JSON number fraction" rest).map fun (digits, rest) => (c :: digits, rest)
    else .ok ([], input)
  | [] => .ok ([], input)

def parseExponent (input : List Char) : Except String (List Char × List Char) :=
  match input with
  | c :: rest =>
    if c = 'e' ∨ c = 'E' then
      (parseDigits "invalid JSON number exponent" (parseSign ['+', '-'] rest).2).map fun (digits, behind) =>
        (c :: (parseSign ['+', '-'] rest).1 ++ digits, behind)
    else .ok ([], input)
  | [] => .ok ([], input)

/-- `str::parse::<i64>`, of digits behind a sign. -/
def parseI64 (sign whole : List Char) : Except String Int :=
  let magnitude : Int := whole.foldl (fun value c => 10 * value + (c.toNat - 48)) 0
  let value := if sign = [] then magnitude else -magnitude
  if -2 ^ 63 ≤ value ∧ value < 2 ^ 63 then .ok value else .error "invalid JSON integer"

variable {δ : Type} [ParseF64 δ]

def parseNumber (input : List Char) : Except String (Json δ × List Char) := do
  let (sign, rest) := parseSign ['-'] input
  let (whole, rest) ← parseWhole rest
  let (fraction, rest) ← parseFraction rest
  let (exponent, rest) ← parseExponent rest
  if fraction = [] ∧ exponent = [] then
    let value ← parseI64 sign whole
    return (.int64 value, rest)
  match ParseF64.parseF64 (sign ++ whole ++ fraction ++ exponent) with
  | some value => return (.double value, rest)
  | none => .error "invalid JSON number"

/-! ## Values -/

mutual

def parseValue : Nat → List Char → Except String (Json δ × List Char)
  | 0, _ => .error "missing JSON value"
  | fuel + 1, input =>
    let input := skipWhitespace input
    if ("null".toList).isPrefixOf input then .ok (.null, input.drop 4)
    else if ("true".toList).isPrefixOf input then .ok (.bool true, input.drop 4)
    else if ("false".toList).isPrefixOf input then .ok (.bool false, input.drop 5)
    else
      match input with
      | [] => .error "missing JSON value"
      | c :: rest =>
        if c = '"' then do
          let (value, rest) ← parseString (c :: rest)
          return (.string (utf8 value), rest)
        else if c = '[' then
          match consume ']' rest with
          | some rest => .ok (.array [], rest)
          | none => parseItems fuel [] rest
        else if c = '\x7b' then
          match consume '\x7d' rest with
          | some rest => .ok (.object [], rest)
          | none => parseMembers fuel [] rest
        else parseNumber (c :: rest)

/-- The loop of `parse_array`. -/
def parseItems : Nat → List (Json δ) → List Char → Except String (Json δ × List Char)
  | 0, _, _ => .error "missing JSON value"
  | fuel + 1, values, input => do
    let (value, rest) ← parseValue fuel input
    match consume ']' rest with
    | some rest => return (.array (values ++ [value]), rest)
    | none =>
      let rest ← expect ',' rest
      parseItems fuel (values ++ [value]) rest

/-- The loop of `parse_object`: a name that is there already is refused before its value is read. -/
def parseMembers : Nat → List (Bytes × Json δ) → List Char → Except String (Json δ × List Char)
  | 0, _, _ => .error "missing JSON value"
  | fuel + 1, object, input =>
    if (skipWhitespace input).head? ≠ some '"' then .error "JSON object member name must be a string"
    else do
      let (key, rest) ← parseString input
      let rest ← expect ':' rest
      if (object.lookup (utf8 key)).isSome then .error "duplicate JSON object member"
      else
        let (value, rest) ← parseValue fuel rest
        match consume '\x7d' rest with
        | some rest => return (.object (Json.assign (utf8 key) value object), rest)
        | none =>
          let rest ← expect ',' rest
          parseMembers fuel (Json.assign (utf8 key) value object) rest

end

def parse (input : List Char) : Except String (Json δ) := do
  let (value, rest) ← parseValue (2 * (utf8 input).length + 1) input
  if skipWhitespace rest ≠ [] then .error "unexpected trailing JSON content"
  else return value

end Rust.Parser

end StateSpec
