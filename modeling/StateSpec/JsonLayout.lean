/-
  LAID-OUT TEXTS — JSON texts as a generator writes them, with blanks and line ends, and how they are parsed.

  1. A layout is the text of a document with the blanks in it.  Its objects list their members as they stand in
     the text, with repeated names if there are any.
  2. THE PARSER READS LAYOUTS (`parse_text`): from the text of a layout it makes what `read` makes of the layout,
     and that is the error of a repeated member, or the value.
  3. So it accepts a layout exactly when no object in it repeats a name (`read_of_distinct`,
     `read_of_not_distinct`).
-/
import StateSpec.JsonParser
import StateSpec.Lib.OrderedMap
import Mathlib.Tactic.IntervalCases

namespace StateSpec

/-- Blanks behind a line end, or with none. -/
structure Blanks where
  line : Bool
  indent : Nat

namespace Blanks

def text (blanks : Blanks) : Bytes := (if blanks.line then [10] else []) ++ List.replicate blanks.indent 32

def none : Blanks := ⟨false, 0⟩

def space : Blanks := ⟨false, 1⟩

def newline (indent : Nat) : Blanks := ⟨true, indent⟩

end Blanks

/-- The text of a document.  In front of an item there are blanks; in front of a member there are blanks before
    and behind the comma. -/
inductive Layout where
  | yes
  | string (value : Bytes)
  | array (items : List (Blanks × Layout)) (close : Blanks)
  | object (members : List (Blanks × Blanks × Bytes × Layout)) (close : Blanks)

namespace Layout

mutual

def text : Layout → Bytes
  | .yes => ascii "true"
  | .string value => Json.escapedString value
  | .array items close => 91 :: (itemsText true items ++ close.text ++ [93])
  | .object members close => 123 :: (membersText true members ++ close.text ++ [125])

def itemsText : Bool → List (Blanks × Layout) → Bytes
  | _, [] => []
  | first, (lead, item) :: rest =>
    (if first then [] else [44]) ++ lead.text ++ text item ++ itemsText false rest

def membersText : Bool → List (Blanks × Blanks × Bytes × Layout) → Bytes
  | _, [] => []
  | first, (gap, lead, name, value) :: rest =>
    (if first then [] else gap.text ++ [44]) ++ lead.text ++ Json.escapedString name ++ ascii ": " ++
      text value ++ membersText false rest

end

variable {δ : Type}

mutual

/-- What the parser makes of a layout. -/
def read : Layout → Except String (Json δ)
  | .yes => .ok (.bool true)
  | .string value => .ok (.string value)
  | .array items _ => (readItems [] items).map .array
  | .object members _ => (readMembers [] members).map .object

def readItems (values : List (Json δ)) : List (Blanks × Layout) → Except String (List (Json δ))
  | [] => .ok values
  | (_, item) :: rest => do
    let value ← read item
    readItems (values ++ [value]) rest

def readMembers (object : List (Bytes × Json δ)) :
    List (Blanks × Blanks × Bytes × Layout) → Except String (List (Bytes × Json δ))
  | [] => .ok object
  | (_, _, name, value) :: rest => do
    let value ← read value
    let object ← JsonParser.emplaceNew name value object
    readMembers object rest

end

end Layout

/-! ## Blanks are skipped -/

namespace JsonParser

theorem skipWhitespace_blanks (blanks : Blanks) (rest : Bytes) :
    skipWhitespace (blanks.text ++ rest) = skipWhitespace rest := by
  have hindent : ∀ n, skipWhitespace (List.replicate n 32 ++ rest) = skipWhitespace rest := by
    intro n
    induction n with
    | zero => rfl
    | succ n ih => exact ih
  obtain ⟨line, indent⟩ := blanks
  cases line with
  | false => exact hindent indent
  | true => exact hindent indent

theorem skipWhitespace_cons {c : UInt8} (h : isWhitespace c = false) (rest : Bytes) :
    skipWhitespace (c :: rest) = c :: rest := by
  rw [skipWhitespace, List.dropWhile_cons, h]
  rfl

theorem consume_blanks (expected : UInt8) (blanks : Blanks) (rest : Bytes) :
    consume expected (blanks.text ++ rest) = consume expected rest := by
  rw [consume, skipWhitespace_blanks, consume]

theorem consume_self {expected : UInt8} (h : isWhitespace expected = false) (rest : Bytes) :
    consume expected (expected :: rest) = some rest := by
  rw [consume, skipWhitespace_cons h]
  exact if_pos rfl

theorem consume_other {expected c : UInt8} (h : isWhitespace c = false) (hne : c ≠ expected) (rest : Bytes) :
    consume expected (c :: rest) = none := by
  rw [consume, skipWhitespace_cons h]
  exact if_neg hne

theorem expect_of_consume {expected : UInt8} {input rest : Bytes} (h : consume expected input = some rest) :
    expect expected input = .ok rest := by
  rw [expect, h]

/-! ## Strings are read back -/

/-- An escaped byte is read back. -/
theorem parseChars_escapeByte (c : UInt8) (rest : Bytes) :
    parseChars (Json.escapeByte c ++ rest) = behind (.ok [c]) (parseChars rest) := by
  by_cases hcontrol : c < 32
  · -- a control character is escaped, each in its own way
    have hvalue : c = UInt8.ofNat c.toNat := (UInt8.ofNat_toNat).symm
    have hlt : c.toNat < 32 := hcontrol
    rw [hvalue]
    generalize c.toNat = n at hlt
    interval_cases n <;>
      (show parseChars (92 :: _) = _
       rw [parseChars.eq_def]
       rfl)
  by_cases hquote : c = 34
  · subst hquote
    rfl
  by_cases hslash : c = 92
  · subst hslash
    rfl
  · have hplain : Json.escapeByte c = [c] := by
      have hne : ∀ n : UInt8, n < 32 → c ≠ n := fun n hn heq => hcontrol (heq ▸ hn)
      rw [Json.escapeByte, if_neg hquote, if_neg hslash, if_neg (hne 8 (by decide)),
        if_neg (hne 12 (by decide)), if_neg (hne 10 (by decide)), if_neg (hne 13 (by decide)),
        if_neg (hne 9 (by decide)), if_neg hcontrol]
    rw [hplain, List.singleton_append, parseChars.eq_def]
    exact (if_neg hquote).trans ((if_neg hcontrol).trans (if_pos hslash))

theorem parseString_escapedString (value rest : Bytes) :
    parseString (Json.escapedString value ++ rest) = .ok (value, rest) := by
  have hchars : parseChars (value.flatMap Json.escapeByte ++ 34 :: rest) = .ok (value, rest) := by
    induction value with
    | nil =>
      show parseChars (34 :: rest) = _
      rw [parseChars.eq_def]
      rfl
    | cons c value ih =>
      rw [List.flatMap_cons, List.append_assoc, parseChars_escapeByte, ih]
      rfl
  rw [parseString, Json.escapedString, List.append_assoc]
  exact hchars

/-! ## Values -/

variable {δ : Type} [Strtod δ]

/-- A value starts with a byte that is no blank and closes nothing. -/
theorem exists_head (layout : Layout) : ∃ c tail, layout.text = c :: tail ∧ isWhitespace c = false ∧
    c ≠ 93 ∧ c ≠ 125 := by
  cases layout with
  | yes => exact ⟨116, ascii "rue", by rw [Layout.text]; rfl, by decide, by decide, by decide⟩
  | string value => exact ⟨34, _, by rw [Layout.text]; rfl, by decide, by decide, by decide⟩
  | array items close => exact ⟨91, _, by rw [Layout.text], by decide, by decide, by decide⟩
  | object members close => exact ⟨123, _, by rw [Layout.text], by decide, by decide, by decide⟩

theorem parseValue_blanks (fuel : Nat) (blanks : Blanks) (rest : Bytes) :
    parseValue (δ := δ) fuel (blanks.text ++ rest) = parseValue fuel rest := by
  cases fuel with
  | zero => rfl
  | succ fuel => rw [parseValue, skipWhitespace_blanks, parseValue]

theorem parseValue_string (fuel : Nat) (value rest : Bytes) :
    parseValue (δ := δ) (fuel + 1) (Json.escapedString value ++ rest) = .ok (.string value, rest) := by
  have hread := parseString_escapedString value rest
  rw [parseValue]
  show (parseString (Json.escapedString value ++ rest) >>= fun read => pure (Json.string read.1, read.2)) = _
  rw [hread]
  rfl

theorem parseValue_true (fuel : Nat) (rest : Bytes) :
    parseValue (δ := δ) (fuel + 1) (ascii "true" ++ rest) = .ok (.bool true, rest) := by
  rw [parseValue]
  rfl

/-- What opens with a bracket is an array, and with a brace an object. -/
theorem parseValue_array (fuel : Nat) (body : Bytes) :
    parseValue (δ := δ) (fuel + 1) (91 :: body) =
      match consume 93 body with
      | some rest => .ok (.array [], rest)
      | none => parseItems fuel [] body := by
  rw [parseValue]
  rfl

theorem parseValue_object (fuel : Nat) (body : Bytes) :
    parseValue (δ := δ) (fuel + 1) (123 :: body) =
      match consume 125 body with
      | some rest => .ok (.object [], rest)
      | none => parseMembers fuel [] body := by
  rw [parseValue]
  rfl

/-- An array without items. -/
theorem parseValue_noItems (fuel : Nat) {body rest : Bytes} (h : consume 93 body = some rest) :
    parseValue (δ := δ) (fuel + 1) (91 :: body) = .ok (.array [], rest) := by
  rw [parseValue_array, h]

theorem parseValue_items (fuel : Nat) {body : Bytes} (h : consume 93 body = none) :
    parseValue (δ := δ) (fuel + 1) (91 :: body) = parseItems fuel [] body := by
  rw [parseValue_array, h]

/-- An object without members. -/
theorem parseValue_noMembers (fuel : Nat) {body rest : Bytes} (h : consume 125 body = some rest) :
    parseValue (δ := δ) (fuel + 1) (123 :: body) = .ok (.object [], rest) := by
  rw [parseValue_object, h]

theorem parseValue_members (fuel : Nat) {body : Bytes} (h : consume 125 body = none) :
    parseValue (δ := δ) (fuel + 1) (123 :: body) = parseMembers fuel [] body := by
  rw [parseValue_object, h]

/-! ### The loop of an array -/

section Items

variable {fuel : Nat} {values : List (Json δ)} {value : Json δ} {input behind rest : Bytes}

theorem parseItems_error {message : String} (h : parseValue (δ := δ) fuel input = .error message) :
    parseItems (fuel + 1) values input = .error message := by
  rw [parseItems, h]
  rfl

theorem parseItems_last (h : parseValue fuel input = .ok (value, behind)) (hclose : consume 93 behind = some rest) :
    parseItems (fuel + 1) values input = .ok (.array (values ++ [value]), rest) := by
  rw [parseItems, h]
  simp only [bind, Except.bind, hclose]
  rfl

theorem parseItems_next (h : parseValue fuel input = .ok (value, behind)) (hmore : consume 93 behind = none)
    (hcomma : consume 44 behind = some rest) :
    parseItems (fuel + 1) values input = parseItems fuel (values ++ [value]) rest := by
  rw [parseItems, h]
  simp only [bind, Except.bind, hmore, expect_of_consume hcomma]

end Items

/-! ### The loop of an object -/

section Members

variable {fuel : Nat} {object object' : List (Bytes × Json δ)} {name : Bytes} {value : Json δ}
  {input behind rest : Bytes} {lead : Blanks}

/-- The name of a member and the colon behind it. -/
theorem parseMembers_name : parseMembers (fuel + 1) object
    (lead.text ++ (Json.escapedString name ++ 58 :: input)) =
      (parseValue fuel input).bind fun (value, behind) =>
        (emplaceNew name value object).bind fun object =>
          match consume 125 behind with
          | some rest => .ok (.object object, rest)
          | none => (expect 44 behind).bind (parseMembers fuel object) := by
  have hquote : skipWhitespace (lead.text ++ (Json.escapedString name ++ 58 :: input)) =
      Json.escapedString name ++ 58 :: input := by
    rw [skipWhitespace_blanks, Json.escapedString]
    exact skipWhitespace_cons (by decide) _
  have hname : parseString (lead.text ++ (Json.escapedString name ++ 58 :: input)) = .ok (name, 58 :: input) := by
    rw [← parseString_escapedString name (58 :: input), parseString, parseString, expect, expect, consume_blanks]
  have hstart : ¬ (Json.escapedString name ++ 58 :: input).head? ≠ some 34 := not_not.mpr rfl
  have hcolon : expect 58 (58 :: input) = .ok input := expect_of_consume (consume_self (by decide) _)
  rw [parseMembers, hquote, if_neg hstart, hname]
  simp only [bind, Except.bind, hcolon]
  rfl

theorem parseMembers_last (h : parseValue fuel input = .ok (value, behind))
    (hclose : consume 125 behind = some rest) :
    parseMembers (fuel + 1) object (lead.text ++ (Json.escapedString name ++ 58 :: input)) =
      (emplaceNew name value object).map fun object => (.object object, rest) := by
  rw [parseMembers_name, h]
  show (emplaceNew name value object).bind _ = _
  cases emplaceNew name value object with
  | error message => rfl
  | ok object => simp only [Except.bind, Except.map, hclose]

theorem parseMembers_next (h : parseValue fuel input = .ok (value, behind))
    (hmore : consume 125 behind = none) (hcomma : consume 44 behind = some rest) :
    parseMembers (fuel + 1) object (lead.text ++ (Json.escapedString name ++ 58 :: input)) =
      (emplaceNew name value object).bind fun object => parseMembers fuel object rest := by
  rw [parseMembers_name, h]
  show (emplaceNew name value object).bind _ = _
  cases emplaceNew name value object with
  | error message => rfl
  | ok object => simp only [Except.bind, hmore, expect_of_consume hcomma]

end Members

theorem itemsText_cons (lead : Blanks) (item : Layout) (items : List (Blanks × Layout)) :
    Layout.itemsText true ((lead, item) :: items) = lead.text ++ (item.text ++ Layout.itemsText false items) := by
  rw [Layout.itemsText, List.append_assoc, List.append_assoc]
  rfl

theorem itemsText_comma (first : Blanks × Layout) (items : List (Blanks × Layout)) :
    Layout.itemsText false (first :: items) = 44 :: Layout.itemsText true (first :: items) := by
  rw [Layout.itemsText, Layout.itemsText]
  rfl

theorem membersText_cons (gap lead : Blanks) (name : Bytes) (value : Layout)
    (members : List (Blanks × Blanks × Bytes × Layout)) :
    Layout.membersText true ((gap, lead, name, value) :: members) =
      lead.text ++ (Json.escapedString name ++ (58 :: (Blanks.space.text ++
        (value.text ++ Layout.membersText false members)))) := by
  rw [Layout.membersText]
  simp only [List.append_assoc]
  rfl

theorem membersText_comma (gap : Blanks) (first : Blanks × Bytes × Layout)
    (members : List (Blanks × Blanks × Bytes × Layout)) :
    Layout.membersText false ((gap, first) :: members) =
      gap.text ++ 44 :: Layout.membersText true ((gap, first) :: members) := by
  rw [Layout.membersText, Layout.membersText]
  simp only [List.append_assoc, if_neg Bool.false_ne_true]
  rfl

mutual

/-- **The parser reads layouts**, in front of anything. -/
theorem parseValue_text : ∀ (layout : Layout) (rest : Bytes) {fuel : Nat},
    2 * layout.text.length ≤ fuel →
    parseValue (δ := δ) fuel (layout.text ++ rest) = layout.read.map fun value => (value, rest)
  | .yes, rest, fuel, h => by
    rw [Layout.text] at h ⊢
    obtain ⟨fuel, rfl⟩ := Nat.exists_eq_add_of_le' (Nat.le_trans (by decide : 1 ≤ 8) h)
    exact parseValue_true fuel rest
  | .string value, rest, fuel, h => by
    rw [Layout.text] at h ⊢
    have hpos : 1 ≤ fuel := by
      simp only [Json.escapedString, List.length_append, List.length_cons] at h
      omega
    obtain ⟨fuel, rfl⟩ := Nat.exists_eq_add_of_le' hpos
    exact parseValue_string fuel value rest
  | .array items close, rest, fuel, h => by
    rw [Layout.text] at h ⊢
    simp only [List.length_append, List.length_cons, List.length_nil] at h
    obtain ⟨fuel, rfl⟩ := Nat.exists_eq_add_of_le' (by omega : 1 ≤ fuel)
    rw [Layout.read, List.cons_append, List.append_assoc, List.append_assoc]
    cases items with
    | nil =>
      have hclose : consume 93 (close.text ++ 93 :: rest) = some rest := by
        rw [consume_blanks, consume_self (by decide)]
      exact parseValue_noItems fuel hclose
    | cons first items =>
      have hmore : consume 93 (Layout.itemsText true (first :: items) ++ (close.text ++ 93 :: rest)) = none := by
        obtain ⟨lead, item⟩ := first
        obtain ⟨c, tail, htext, hblank, hne, -⟩ := exists_head item
        rw [itemsText_cons, List.append_assoc, consume_blanks, htext]
        exact consume_other hblank hne _
      have hitems : parseItems (δ := δ) fuel [] _ = _ :=
        parseItems_text (first :: items) nofun [] close rest (by omega)
      rw [List.singleton_append, parseValue_items fuel hmore, hitems]
      cases Layout.readItems [] (first :: items) with
      | error message => rfl
      | ok values => rfl
  | .object members close, rest, fuel, h => by
    rw [Layout.text] at h ⊢
    simp only [List.length_append, List.length_cons, List.length_nil] at h
    obtain ⟨fuel, rfl⟩ := Nat.exists_eq_add_of_le' (by omega : 1 ≤ fuel)
    rw [Layout.read, List.cons_append, List.append_assoc, List.append_assoc]
    cases members with
    | nil =>
      have hclose : consume 125 (close.text ++ 125 :: rest) = some rest := by
        rw [consume_blanks, consume_self (by decide)]
      exact parseValue_noMembers fuel hclose
    | cons first members =>
      have hmore : consume 125 (Layout.membersText true (first :: members) ++ (close.text ++ 125 :: rest)) =
          none := by
        obtain ⟨gap, lead, name, value⟩ := first
        rw [membersText_cons, List.append_assoc, consume_blanks]
        exact consume_other (by decide) (by decide) _
      have hmembers : parseMembers (δ := δ) fuel [] _ = _ :=
        parseMembers_text (first :: members) nofun [] close rest (by omega)
      rw [List.singleton_append, parseValue_members fuel hmore, hmembers]
      cases Layout.readMembers [] (first :: members) with
      | error message => rfl
      | ok object => rfl

theorem parseItems_text : ∀ (items : List (Blanks × Layout)), items ≠ [] → ∀ (values : List (Json δ))
    (close : Blanks) (rest : Bytes) {fuel : Nat}, 2 * (Layout.itemsText true items).length + 1 ≤ fuel →
    parseItems fuel values (Layout.itemsText true items ++ (close.text ++ 93 :: rest)) =
      (Layout.readItems values items).map fun values => (.array values, rest)
  | [], hne, values, close, rest, fuel, h => absurd rfl hne
  | (lead, item) :: items, hne, values, close, rest, fuel, h => by
    rw [itemsText_cons] at h ⊢
    simp only [List.length_append] at h
    obtain ⟨fuel, rfl⟩ := Nat.exists_eq_add_of_le' (by omega : 1 ≤ fuel)
    have hread : parseValue (δ := δ) fuel (item.text ++ (Layout.itemsText false items ++ _)) = _ :=
      parseValue_text item (Layout.itemsText false items ++ (close.text ++ 93 :: rest)) (by omega)
    rw [← parseValue_blanks _ lead] at hread
    rw [Layout.readItems, List.append_assoc, List.append_assoc]
    rcases hvalue : item.read (δ := δ) with message | value
    · rw [hvalue] at hread
      exact parseItems_error hread
    rw [hvalue] at hread
    show _ = (Layout.readItems (values ++ [value]) items).map _
    cases items with
    | nil =>
      rw [Layout.readItems]
      refine parseItems_last hread ?_
      rw [Layout.itemsText, List.nil_append, consume_blanks, consume_self (by decide)]
    | cons first items =>
      have hrest : parseItems fuel (values ++ [value]) _ = _ :=
        parseItems_text (first :: items) nofun (values ++ [value]) close rest (by
          rw [itemsText_comma, List.length_cons] at h
          omega)
      refine (parseItems_next hread ?_ ?_).trans hrest
      · rw [itemsText_comma]
        exact consume_other (by decide) (by decide) _
      · rw [itemsText_comma]
        exact consume_self (by decide) _

theorem parseMembers_text : ∀ (members : List (Blanks × Blanks × Bytes × Layout)), members ≠ [] →
    ∀ (object : List (Bytes × Json δ)) (close : Blanks) (rest : Bytes) {fuel : Nat},
    2 * (Layout.membersText true members).length + 1 ≤ fuel →
    parseMembers fuel object (Layout.membersText true members ++ (close.text ++ 125 :: rest)) =
      (Layout.readMembers object members).map fun object => (.object object, rest)
  | [], hne, object, close, rest, fuel, h => absurd rfl hne
  | (gap, lead, name, value) :: members, hne, object, close, rest, fuel, h => by
    rw [membersText_cons] at h ⊢
    simp only [List.length_append, List.length_cons] at h
    obtain ⟨fuel, rfl⟩ := Nat.exists_eq_add_of_le' (by omega : 1 ≤ fuel)
    have hread : parseValue (δ := δ) fuel (value.text ++ (Layout.membersText false members ++ _)) = _ :=
      parseValue_text value (Layout.membersText false members ++ (close.text ++ 125 :: rest)) (by omega)
    rw [← parseValue_blanks _ Blanks.space] at hread
    simp only [Layout.readMembers, List.append_assoc, List.cons_append]
    rcases hvalue : value.read (δ := δ) with message | value
    · rw [parseMembers_name, hread, hvalue]
      rfl
    rw [hvalue] at hread
    show _ = ((emplaceNew name value object).bind fun object => Layout.readMembers object members).map _
    cases members with
    | nil =>
      have hclose : consume 125 (Layout.membersText false [] ++ (close.text ++ 125 :: rest)) = some rest := by
        rw [Layout.membersText, List.nil_append, consume_blanks, consume_self (by decide)]
      rw [parseMembers_last hread hclose]
      cases emplaceNew name value object with
      | error message => rfl
      | ok object => simp only [Except.bind, Except.map, Layout.readMembers]
    | cons first members =>
      obtain ⟨gap, first⟩ := first
      have hrest : ∀ object, parseMembers fuel object _ = _ := fun object =>
        parseMembers_text ((gap, first) :: members) nofun object close rest (by
          rw [membersText_comma, List.length_append, List.length_cons] at h
          omega)
      have hmore : consume 125 (Layout.membersText false ((gap, first) :: members) ++
          (close.text ++ 125 :: rest)) = none := by
        rw [membersText_comma, List.append_assoc, consume_blanks]
        exact consume_other (by decide) (by decide) _
      have hcomma : consume 44 (Layout.membersText false ((gap, first) :: members) ++
          (close.text ++ 125 :: rest)) =
          some (Layout.membersText true ((gap, first) :: members) ++ (close.text ++ 125 :: rest)) := by
        rw [membersText_comma, List.append_assoc, consume_blanks]
        exact consume_self (by decide) _
      rw [parseMembers_next hread hmore hcomma]
      cases emplaceNew name value object with
      | error message => rfl
      | ok object => exact hrest object

end

/-- **The parser reads a laid-out text**, with a line end behind it. -/
theorem parse_text (layout : Layout) (close : Blanks) :
    parse (δ := δ) (layout.text ++ close.text) = layout.read := by
  have hread : parseValue (δ := δ) (2 * (layout.text ++ close.text).length + 1)
      (layout.text ++ close.text) = _ := parseValue_text layout close.text (by
    rw [List.length_append]
    omega)
  have hclose : skipWhitespace close.text = [] := by
    have hblanks := skipWhitespace_blanks close []
    rwa [List.append_nil] at hblanks
  rw [parse, hread]
  cases layout.read (δ := δ) with
  | error message => rfl
  | ok value =>
    show (if skipWhitespace close.text ≠ [] then _ else _) = _
    rw [if_neg (not_not.mpr hclose)]
    rfl

end JsonParser

/-! ## What is accepted -/

namespace Layout

mutual

/-- No object repeats a member name. -/
def Distinct : Layout → Prop
  | .yes => True
  | .string _ => True
  | .array items _ => DistinctItems items
  | .object members _ => (members.map fun member => member.2.2.1).Nodup ∧ DistinctMembers members

def DistinctItems : List (Blanks × Layout) → Prop
  | [] => True
  | (_, item) :: rest => Distinct item ∧ DistinctItems rest

def DistinctMembers : List (Blanks × Blanks × Bytes × Layout) → Prop
  | [] => True
  | (_, _, _, value) :: rest => Distinct value ∧ DistinctMembers rest

end

variable {δ : Type}

mutual

/-- The value of a layout. -/
def value : Layout → Json δ
  | .yes => .bool true
  | .string value => .string value
  | .array items _ => .array (valuesOf items)
  | .object members _ => Json.ofMembers (membersOf members)

def valuesOf : List (Blanks × Layout) → List (Json δ)
  | [] => []
  | (_, item) :: rest => value item :: valuesOf rest

def membersOf : List (Blanks × Blanks × Bytes × Layout) → List (Bytes × Json δ)
  | [] => []
  | (_, _, name, member) :: rest => (name, value member) :: membersOf rest

end

theorem distinctItems_iff {items : List (Blanks × Layout)} :
    DistinctItems items ↔ ∀ item ∈ items, item.2.Distinct := by
  induction items with
  | nil => simp [DistinctItems]
  | cons item items ih => rw [DistinctItems, ih, List.forall_mem_cons]

theorem distinctMembers_iff {members : List (Blanks × Blanks × Bytes × Layout)} :
    DistinctMembers members ↔ ∀ member ∈ members, member.2.2.2.Distinct := by
  induction members with
  | nil => simp [DistinctMembers]
  | cons member members ih => rw [DistinctMembers, ih, List.forall_mem_cons]

theorem valuesOf_eq (items : List (Blanks × Layout)) :
    valuesOf (δ := δ) items = items.map fun item => item.2.value := by
  induction items with
  | nil => rfl
  | cons item items ih => rw [valuesOf, ih, List.map_cons]

theorem membersOf_eq (members : List (Blanks × Blanks × Bytes × Layout)) :
    membersOf (δ := δ) members = members.map fun member => (member.2.2.1, member.2.2.2.value) := by
  induction members with
  | nil => rfl
  | cons member members ih => rw [membersOf, ih, List.map_cons]

/-- The members may be added to an object. -/
def Fits (object : List (Bytes × Json δ)) (members : List (Blanks × Blanks × Bytes × Layout)) : Prop :=
  DistinctMembers members ∧ (members.map fun member => member.2.2.1).Nodup ∧
    ∀ member ∈ members, object.lookup member.2.2.1 = none

/-- The name of a member is new, and the others may be added behind it. -/
theorem fits_cons {object : List (Bytes × Json δ)} {gap lead : Blanks} {name : Bytes} {layout : Layout}
    {members : List (Blanks × Blanks × Bytes × Layout)} (value : Json δ) :
    Fits object ((gap, lead, name, layout) :: members) ↔
      layout.Distinct ∧ object.lookup name = none ∧ Fits (Json.emplace name value object) members := by
  have hlookup : object.lookup name = none → ∀ other : Bytes,
      (Json.emplace name value object).lookup other = none ↔ other ≠ name ∧ object.lookup other = none := by
    intro hnew other
    by_cases hname : other = name
    · subst hname
      rw [Json.lookup_emplace_self value hnew]
      simp
    · rw [Json.lookup_emplace_ne hname]
      simp [hname]
  rw [Fits, Fits, DistinctMembers, List.map_cons, List.nodup_cons, List.forall_mem_cons]
  constructor
  · rintro ⟨⟨hlayout, hrest⟩, ⟨hfresh, hnodup⟩, hnew, hothers⟩
    refine ⟨hlayout, hnew, hrest, hnodup, fun member hmember => (hlookup hnew _).mpr ⟨?_, hothers member hmember⟩⟩
    exact fun hsame => hfresh (List.mem_map.mpr ⟨member, hmember, hsame⟩)
  · rintro ⟨hlayout, hnew, hrest, hnodup, hothers⟩
    refine ⟨⟨hlayout, hrest⟩, ⟨?_, hnodup⟩, hnew, fun member hmember =>
      ((hlookup hnew _).mp (hothers member hmember)).2⟩
    intro hmem
    obtain ⟨member, hmember, hsame⟩ := List.mem_map.mp hmem
    exact ((hlookup hnew _).mp (hothers member hmember)).1 hsame

def repeated : String := "duplicate JSON object member"

mutual

/-- A layout is read as its value, or an object in it repeats a name. -/
theorem read_cases : ∀ layout : Layout,
    (layout.Distinct ∧ layout.read (δ := δ) = .ok layout.value) ∨
      (¬ layout.Distinct ∧ layout.read (δ := δ) = .error repeated)
  | .yes => .inl ⟨trivial, by rw [read, value]⟩
  | .string text => .inl ⟨trivial, by rw [read, value]⟩
  | .array items close => by
    rw [Distinct, read, value]
    rcases readItems_cases items [] with ⟨hdistinct, hread⟩ | ⟨hdistinct, hread⟩
    · exact .inl ⟨hdistinct, by rw [hread]; rfl⟩
    · exact .inr ⟨hdistinct, by rw [hread]; rfl⟩
  | .object members close => by
    have hfits : Fits ([] : List (Bytes × Json δ)) members ↔
        (members.map fun member => member.2.2.1).Nodup ∧ DistinctMembers members :=
      ⟨fun h => ⟨h.2.1, h.1⟩, fun h => ⟨h.2, h.1, fun _ _ => rfl⟩⟩
    rw [Distinct, read, value, ← hfits]
    rcases readMembers_cases members [] with ⟨hdistinct, hread⟩ | ⟨hdistinct, hread⟩
    · exact .inl ⟨hdistinct, by rw [hread]; rfl⟩
    · exact .inr ⟨hdistinct, by rw [hread]; rfl⟩

theorem readItems_cases : ∀ (items : List (Blanks × Layout)) (values : List (Json δ)),
    (DistinctItems items ∧ readItems values items = .ok (values ++ valuesOf items)) ∨
      (¬ DistinctItems items ∧ readItems values items = .error repeated)
  | [], values => .inl ⟨trivial, by rw [readItems, valuesOf, List.append_nil]⟩
  | (lead, item) :: items, values => by
    rw [DistinctItems, readItems, valuesOf]
    rcases read_cases item with ⟨hitem, hread⟩ | ⟨hitem, hread⟩
    · rw [hread]
      show (_ ∧ readItems (values ++ [item.value]) items = _) ∨
        (_ ∧ readItems (values ++ [item.value]) items = _)
      rcases readItems_cases items (values ++ [item.value]) with ⟨hitems, hrest⟩ | ⟨hitems, hrest⟩
      · exact .inl ⟨⟨hitem, hitems⟩, by rw [hrest, List.append_assoc]; rfl⟩
      · exact .inr ⟨fun hall => hitems hall.2, hrest⟩
    · exact .inr ⟨fun hall => hitem hall.1, by rw [hread]; rfl⟩

theorem readMembers_cases : ∀ (members : List (Blanks × Blanks × Bytes × Layout))
    (built : List (Bytes × Json δ)),
    (Fits built members ∧ readMembers built members =
        .ok ((membersOf members).foldl (fun built member => Json.emplace member.1 member.2 built) built)) ∨
      (¬ Fits built members ∧ readMembers built members = .error repeated)
  | [], built => by
    refine .inl ⟨⟨trivial, List.nodup_nil, fun _ hmem => absurd hmem List.not_mem_nil⟩, ?_⟩
    rw [readMembers, membersOf]
    rfl
  | (gap, lead, name, layout) :: members, built => by
    rw [fits_cons layout.value, readMembers, membersOf, List.foldl_cons]
    rcases read_cases layout with ⟨hlayout, hread⟩ | ⟨hlayout, hread⟩
    · rw [hread]
      show (_ ∧ (JsonParser.emplaceNew name layout.value built).bind _ = _) ∨
        (_ ∧ (JsonParser.emplaceNew name layout.value built).bind _ = _)
      rw [JsonParser.emplaceNew]
      cases hnew : built.lookup name with
      | some other =>
        refine .inr ⟨fun hall => ?_, rfl⟩
        cases hall.2.1
      | none =>
        show (_ ∧ readMembers (Json.emplace name layout.value built) members = _) ∨
          (_ ∧ readMembers (Json.emplace name layout.value built) members = _)
        rcases readMembers_cases members (Json.emplace name layout.value built) with
          ⟨hmembers, hrest⟩ | ⟨hmembers, hrest⟩
        · exact .inl ⟨⟨hlayout, rfl, hmembers⟩, hrest⟩
        · exact .inr ⟨fun hall => hmembers hall.2.2, hrest⟩
    · exact .inr ⟨fun hall => hlayout hall.1, by rw [hread]; rfl⟩

end

/-- What has no repeated names is read as its value. -/
theorem read_of_distinct {layout : Layout} (h : layout.Distinct) :
    layout.read (δ := δ) = .ok layout.value :=
  ((read_cases layout).resolve_right fun hnot => hnot.1 h).2

/-- What has some is not read. -/
theorem read_of_not_distinct {layout : Layout} (h : ¬ layout.Distinct) :
    layout.read (δ := δ) = .error repeated :=
  ((read_cases layout).resolve_left fun hdistinct => h hdistinct.1).2

/-! ## What is in the value -/

theorem find_value (members : List (Blanks × Blanks × Bytes × Layout)) (close : Blanks) (name : Bytes) :
    (value (δ := δ) (.object members close)).find name =
      (members.map fun member => (member.2.2.1, member.2.2.2.value)).lookup name := by
  rw [value, Json.find_ofMembers, membersOf_eq]

/-- The text stands under the name, somewhere in the layout. -/
inductive Under (name text : Bytes) : Layout → Prop where
  | here {members : List (Blanks × Blanks × Bytes × Layout)} {gap lead close : Blanks} :
    (gap, lead, name, .string text) ∈ members → Under name text (.object members close)
  | member {members : List (Blanks × Blanks × Bytes × Layout)} {gap lead close : Blanks} {other : Bytes}
    {value : Layout} :
    (gap, lead, other, value) ∈ members → Under name text value → Under name text (.object members close)
  | item {items : List (Blanks × Layout)} {lead close : Blanks} {value : Layout} :
    (lead, value) ∈ items → Under name text value → Under name text (.array items close)

end Layout

/-- The text stands under the name, somewhere in the document. -/
inductive Json.Under {δ : Type} (name text : Bytes) : Json δ → Prop where
  | here {members : List (Bytes × Json δ)} :
    (name, .string text) ∈ members → Under name text (.object members)
  | member {members : List (Bytes × Json δ)} {other : Bytes} {value : Json δ} :
    (other, value) ∈ members → Under name text value → Under name text (.object members)
  | item {values : List (Json δ)} {value : Json δ} :
    value ∈ values → Under name text value → Under name text (.array values)

namespace Layout

variable {δ : Type}

theorem mem_emplace {key : Bytes} {value : Json δ} {object : List (Bytes × Json δ)} {member : Bytes × Json δ}
    (h : member ∈ Json.emplace key value object) : member = (key, value) ∨ member ∈ object := by
  induction object with
  | nil => exact .inl (List.mem_singleton.mp h)
  | cons first object ih =>
    rw [Json.emplace] at h
    split at h
    · exact List.mem_cons.mp h
    · exact .inr h
    · rcases List.mem_cons.mp h with rfl | h
      · exact .inr List.mem_cons_self
      · exact (ih h).imp_right (List.mem_cons_of_mem _)

/-- The value of an object has no members but its own. -/
theorem mem_members {members : List (Blanks × Blanks × Bytes × Layout)} {close : Blanks}
    {object : List (Bytes × Json δ)} (h : value (.object members close) = .object object)
    {member : Bytes × Json δ} (hmember : member ∈ object) :
    ∃ gap lead layout, (gap, lead, member.1, layout) ∈ members ∧ layout.value = member.2 := by
  rw [value, membersOf_eq, Json.ofMembers, Json.object.injEq] at h
  have hmem : member ∈ members.map fun member => (member.2.2.1, member.2.2.2.value) := by
    rw [← h] at hmember
    revert hmember
    refine foldl_invariant
      (fun (seen : List (Bytes × Json δ)) (built : List (Bytes × Json δ)) => member ∈ built → member ∈ seen)
      (fun hnone => absurd hnone List.not_mem_nil) ?_
    intro seen first rest built _ hseen hbuilt
    rcases mem_emplace hbuilt with rfl | hbuilt
    · exact List.mem_append_right _ List.mem_cons_self
    · exact List.mem_append_left _ (hseen hbuilt)
  obtain ⟨⟨gap, lead, name, layout⟩, hlisted, rfl⟩ := List.mem_map.mp hmem
  exact ⟨gap, lead, layout, hlisted, rfl⟩

/-- What stands in the value stands in the layout. -/
theorem under_of_value {name text : Bytes} {layout : Layout} (h : Json.Under name text (layout.value (δ := δ))) :
    layout.Under name text := by
  generalize hvalue : layout.value (δ := δ) = json at h
  induction h generalizing layout with
  | here hmem =>
    cases layout with
    | object members close =>
      obtain ⟨gap, lead, found, hfound, hsame⟩ := mem_members hvalue hmem
      cases found with
      | string other =>
        rw [value] at hsame
        cases hsame
        exact .here hfound
      | yes => rw [value] at hsame; cases hsame
      | array items close => rw [value] at hsame; cases hsame
      | object members close => rw [value, Json.ofMembers] at hsame; cases hsame
    | yes => rw [value] at hvalue; cases hvalue
    | string other => rw [value] at hvalue; cases hvalue
    | array items close => rw [value] at hvalue; cases hvalue
  | member hmem _ ih =>
    cases layout with
    | object members close =>
      obtain ⟨gap, lead, found, hfound, hsame⟩ := mem_members hvalue hmem
      exact .member hfound (ih hsame)
    | yes => rw [value] at hvalue; cases hvalue
    | string other => rw [value] at hvalue; cases hvalue
    | array items close => rw [value] at hvalue; cases hvalue
  | item hmem _ ih =>
    cases layout with
    | array items close =>
      rw [value, valuesOf_eq, Json.array.injEq] at hvalue
      rw [← hvalue] at hmem
      obtain ⟨⟨lead, found⟩, hfound, hsame⟩ := List.mem_map.mp hmem
      exact .item hfound (ih hsame)
    | yes => rw [value] at hvalue; cases hvalue
    | string other => rw [value] at hvalue; cases hvalue
    | object members close => rw [value, Json.ofMembers] at hvalue; cases hvalue

end Layout

end StateSpec
