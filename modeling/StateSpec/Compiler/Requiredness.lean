/-
  REQUIREDNESS — what the artifacts make of the type of a field.

  Three programs read the text of a type.  A descriptor has the field for an optional one where its type begins
  with `optional<` or ends with `?`; the document, and the C++ of a shape, where it begins with `optional<` and
  ends with `>`, or ends with `?`.  So they part at `optional<string>[]`.  Below the optional layer they have
  their own lists of names: of scalars, of generic types, and of what has a component.

  * `requiredness_agrees_iff` — for which types the artifacts agree.
-/
import Mathlib.Tactic.Tauto
import StateSpec.Compiler.ApiCodecs
import StateSpec.Compiler.FieldTypes

namespace StateSpec.Compiler

open Reading
open Generated (CppType cppShapeType isOptionalType stripOptionalType startsWithText endsWithText)

/-! ## `generator_bindings.cpp` -/

inductive FieldDescriptorType where
  | string | bool | int | int32 | int64 | long | double | decimal | json | timestamp | duration | uuid
  | named | list | set | map | optional | reference
deriving DecidableEq

/-- The types that are told by their names. -/
def scalarTypes : List (Bytes × FieldDescriptorType) :=
  [(ascii "string", .string), (ascii "bool", .bool), (ascii "int", .int), (ascii "int32", .int32),
    (ascii "int64", .int64), (ascii "long", .long), (ascii "double", .double), (ascii "decimal", .decimal),
    (ascii "json", .json), (ascii "timestamp", .timestamp), (ascii "duration", .duration),
    (ascii "uuid", .uuid)]

/-- What is told by the beginning and the end of a type. -/
def formDescriptorType (normalized : Bytes) : FieldDescriptorType :=
  if endsWithText normalized (ascii "?") || startsWithText normalized (ascii "optional<") then .optional
  else if startsWithText normalized (ascii "list<") || endsWithText normalized (ascii "[]") then .list
  else if startsWithText normalized (ascii "set<") then .set
  else if startsWithText normalized (ascii "map<") then .map
  else if startsWithText normalized (ascii "ref<") then .reference
  else .named

/-- `classify_field_descriptor_type`. -/
def classifyFieldDescriptorType (typeName : Bytes) : FieldDescriptorType :=
  let normalized := trimAsciiCopy typeName
  match scalarTypes.find? fun scalar => scalar.1 == normalized with
  | some scalar => scalar.2
  | none => formDescriptorType normalized

/-! ## `generator_cpp_descriptor_support.cpp` -/

def isRequiredDescriptorField (type : Bytes) : Bool := classifyFieldDescriptorType type != .optional

/-- How the types of C++ are written. -/
def cppTypeText : CppType → Bytes
  | .bool => ascii "bool"
  | .int32 => ascii "std::int32_t"
  | .int64 => ascii "std::int64_t"
  | .double => ascii "double"
  | .json => ascii "statespec::backend::Json"
  | .string => ascii "std::string"

/-- The text that `cpp_shape_type` returns. -/
def cppShapeTypeText (type : Bytes) : Bytes :=
  if isOptionalType type then ascii "std::optional<" ++ cppTypeText (cppShapeType type) ++ ascii ">"
  else cppTypeText (cppShapeType type)

/-! ## Kinds of types -/

inductive TypeKind where
  | scalar | list | map | named
deriving DecidableEq

/-- What a descriptor can be taken for: a reference has the name of its entity, and is the text of a key. -/
def FieldDescriptorType.kinds : FieldDescriptorType → List TypeKind
  | .optional => []
  | .list | .set => [.list]
  | .map => [.map]
  | .named => [.named]
  | .reference => [.scalar, .named]
  | _ => [.scalar]

/-- What a schema can be taken for: `json` and a map of what is not known are written the same way. -/
def Schema.kinds : Schema → List TypeKind
  | .ref _ => [.named]
  | .array _ _ => [.list]
  | .map _ => [.map]
  | .object => [.scalar, .map]
  | _ => [.scalar]

def SameKind (kinds others : List TypeKind) : Prop := ∃ kind ∈ kinds, kind ∈ others

/-- A text that `parse_type_name` returns. -/
def BuiltType (type : Bytes) : Prop :=
  ∃ source tokens diagnostics fuel c c', lex source = some (tokens, diagnostics) ∧
    hasErrors diagnostics = false ∧ (parseTypeName ⟨fuel, tokens⟩ c).result = some (type, c')

/-- The artifacts agree on fields of the type. -/
structure ArtifactsAgree (system : IrSystem) (type : Bytes) : Prop where
  document : ∀ (shape : IrShape) (field : IrField), (shape.fields.map IrField.name).Nodup →
    field ∈ shape.fields → field.type = type →
      (isRequiredDescriptorField type = true ↔ field.name ∈ requiredNames shape)
  cpp : isRequiredDescriptorField type = true ↔ ¬ ascii "std::optional<" <+: cppShapeTypeText type
  kind : SameKind (classifyFieldDescriptorType (stripOptionalType type)).kinds (schemaFor system type).kinds

/-- The name of a type that is told by it. -/
def IsScalarName (name : Bytes) : Prop := name ∈ scalarTypes.map Prod.fst

/-- What is told by its beginning or its end is no component. -/
def NamedAlike (type : Bytes) : Prop :=
  ¬ IsScalarName (trimAsciiCopy type) ∧
    (∀ back ∈ [ascii "?", ascii "[]"], ¬ back <:+ trimAsciiCopy type) ∧
    ∀ front ∈ [ascii "optional<", ascii "list<", ascii "set<", ascii "map<"], ¬ front <+: trimAsciiCopy type

/-- What is no component has the name of a scalar, is an array, or is a generic type of the language that is
    closed. -/
def FormedAlike (type : Bytes) : Prop :=
  IsScalarName (trimAsciiCopy type) ∨
    (ascii "[]" <:+ type ∧ ¬ ascii "optional<" <+: trimAsciiCopy type) ∨
    ((∃ front ∈ [ascii "list<", ascii "set<", ascii "map<"], front <+: type) ∧ ascii ">" <:+ type) ∨
    (ascii "ref<" <+: trimAsciiCopy type ∧ ∀ back ∈ [ascii "?", ascii "[]"], ¬ back <:+ trimAsciiCopy type)

/-- The type below the optional layer is of one kind for the descriptor and for the document. -/
def Alike (system : IrSystem) (type : Bytes) : Prop :=
  if type ∈ componentNames system then NamedAlike type else FormedAlike type

/-- What begins as an optional type ends as one. -/
def OptionalThroughout (type : Bytes) : Prop :=
  ascii "optional<" <+: type → ascii ">" <:+ type ∨ ascii "?" <:+ type

/-! ## Texts without blanks around them -/

/-- No blank stands in front, and none behind. -/
structure Solid (text : Bytes) : Prop where
  front : ∀ ch, text.head? = some ch → isSpace ch = false
  back : ∀ ch, text.getLast? = some ch → isSpace ch = false

namespace Solid

theorem nil : Solid [] := ⟨nofun, nofun⟩

theorem append {text more : Bytes} (h : Solid text) (h' : Solid more) : Solid (text ++ more) := by
  constructor
  · intro ch hch
    rw [List.head?_append, Option.or_eq_some_iff] at hch
    rcases hch with hch | ⟨-, hch⟩
    · exact h.front ch hch
    · exact h'.front ch hch
  · intro ch hch
    rw [List.getLast?_append, Option.or_eq_some_iff] at hch
    rcases hch with hch | ⟨-, hch⟩
    · exact h'.back ch hch
    · exact h.back ch hch

theorem of_mem {text : Bytes} (h : ∀ ch ∈ text, isSpace ch = false) : Solid text :=
  ⟨fun ch hch => h ch (List.mem_of_head? hch), fun ch hch => h ch (List.mem_of_getLast? hch)⟩

theorem of_all {text : Bytes} (h : text.all (fun ch => !isSpace ch) = true) : Solid text := by
  refine of_mem fun ch hch => ?_
  have hnot := List.all_eq_true.mp h ch hch
  rwa [Bool.not_eq_true'] at hnot

theorem trim {text : Bytes} (h : Solid text) : trimAsciiCopy text = text := by
  have hfront : text.dropWhile isSpace = text := by
    cases text with
    | nil => rfl
    | cons ch rest => exact List.dropWhile_cons_of_neg (by rw [h.front ch rfl]; decide)
  have hback : text.rdropWhile isSpace = text := by
    rw [List.rdropWhile_eq_self_iff]
    intro hne
    rw [h.back _ (List.getLast?_eq_some_getLast hne)]
    decide
  rw [trimAsciiCopy, hfront, hback]

end Solid

theorem isSpace_of_isIdentifierPart {ch : UInt8} (h : isIdentifierPart ch = true) : isSpace ch = false := by
  have hall : ∀ n : Fin 256, isIdentifierPart (UInt8.ofNat n.val) = true → isSpace (UInt8.ofNat n.val) = false := by
    decide +kernel
  have hch := hall ⟨ch.toNat, ch.toNat_lt⟩
  rw [UInt8.ofNat_toNat] at hch
  exact hch h

/-- Lexemes have no blanks around them. -/
theorem Lexeme.solid {kind : TokenKind} {lexeme : Bytes} (h : Lexeme kind lexeme) : Solid lexeme := by
  have hdigit : ∀ {ch : UInt8}, isDigit ch = true → isSpace ch = false := by
    intro ch hch
    refine isSpace_of_isIdentifierPart ?_
    rw [isIdentifierPart, hch, Bool.or_true]
    rfl
  have hsigned : ∀ {sign : Bytes}, (sign = [] ∨ sign = [byte '-']) → Solid sign := by
    rintro sign (rfl | rfl)
    · exact Solid.nil
    · exact Solid.of_all (by decide)
  cases h with
  | symbol h =>
    have hall : ∀ symbol ∈ symbols, symbol.2.all (fun ch => !isSpace ch) = true := by decide
    exact Solid.of_all (hall _ h)
  | @string body h =>
    have hquote : isSpace quote = false := by decide
    constructor
    · rintro ch ⟨⟩
      exact hquote
    · intro ch hch
      rw [← List.cons_append, List.getLast?_concat] at hch
      obtain rfl := Option.some.inj hch
      exact hquote
  | integer hsign _ h => exact (hsigned hsign).append (Solid.of_mem fun ch hch => hdigit (h ch hch))
  | decimal hsign _ h _ h' =>
    have hdot : Solid (byte '.' :: _) := Solid.of_mem fun ch hch => by
      rcases List.mem_cons.mp hch with rfl | hch
      · decide
      · exact hdigit (h' ch hch)
    exact ((hsigned hsign).append (Solid.of_mem fun ch hch => hdigit (h ch hch))).append hdot
  | word hstart h =>
    refine Solid.of_mem fun ch hch => isSpace_of_isIdentifierPart ?_
    rcases List.mem_cons.mp hch with rfl | hch
    · rw [isIdentifierPart, hstart]
      rfl
    · exact h ch hch

/-! ### What the parser builds -/

section

variable {tokens : List Token} {fuel : Nat} {c c' : Cursor Diagnostic}

theorem solid_advance (hsolid : ∀ token ∈ tokens, Solid token.lexeme) {token : Token}
    (h : ((Reading.advance : Parser Token) ⟨fuel, tokens⟩ c).result = some (token, c')) : Solid token.lexeme := by
  have hlast : Solid (tokens.getLastD default).lexeme := by
    cases tokens with
    | nil => exact Solid.nil
    | cons first rest =>
      refine hsolid _ ?_
      rw [List.getLastD_cons]
      exact List.getLastD_mem_cons
  rw [advance_eq] at h
  obtain ⟨rfl, -⟩ := Prod.mk.inj (Option.some.inj h)
  show Solid (tokens.getD _ _).lexeme
  rw [List.getD_eq_getElem?_getD]
  cases hget : tokens[afterToken tokens c.current - 1]? with
  | none => exact hlast
  | some token => exact hsolid token (List.mem_of_getElem? hget)

/-- One program or the other. -/
theorem ifMatch_result {kind : TokenKind} {p p' : Parser α} {r : α × Cursor Diagnostic}
    (h : (ifMatch kind p p' ⟨fuel, tokens⟩ c).result = some r) :
    (∃ c₁, (p ⟨fuel, tokens⟩ c₁).result = some r) ∨ (p' ⟨fuel, tokens⟩ c).result = some r := by
  rcases ifMatch_cases h with ⟨-, h⟩ | ⟨-, h⟩
  · exact .inl ⟨_, h⟩
  · exact .inr h

theorem solid_argumentToken (hsolid : ∀ token ∈ tokens, Solid token.lexeme) {b b' : Nat × Bytes}
    (hb : Solid b.2) (h : (argumentToken b ⟨fuel, tokens⟩ c).result = some (b', c')) : Solid b'.2 := by
  have hangle : Solid (ascii "<") ∧ Solid (ascii ">") := ⟨Solid.of_all (by decide), Solid.of_all (by decide)⟩
  unfold argumentToken at h
  rcases ifMatch_result h with ⟨_, h⟩ | h
  · cases h
    exact hb.append hangle.1
  · rcases ifMatch_result h with ⟨_, h⟩ | h
    · cases h
      exact hb.append hangle.2
    · obtain ⟨token, _, hadvance, h, -⟩ := bind_result h
      cases h
      exact hb.append (solid_advance hsolid hadvance)

theorem solid_arguments (hsolid : ∀ token ∈ tokens, Solid token.lexeme) {l : ParserLoop} {n : Nat}
    {b b' : Nat × Bytes} (hb : Solid b.2)
    (h : (iterate l (fun b _ _ => decide (0 < b.1)) argumentToken ⟨fuel, tokens⟩ n b c).result =
      some (b', c')) : Solid b'.2 := by
  have hdone : ∀ {n : Nat} {b : Nat × Bytes} {c : Cursor Diagnostic}, Solid b.2 →
      ¬ Reading.goesOn (fun (b : Nat × Bytes) _ _ => decide (0 < b.1)) b tokens c.current →
      (iterate l (fun b _ _ => decide (0 < b.1)) argumentToken ⟨fuel, tokens⟩ n b c).result = some (b', c') →
      Solid b'.2 := by
    intro n b c hb hgo h
    rw [iterate_done (i := ⟨fuel, tokens⟩) hgo] at h
    obtain ⟨rfl, -⟩ := Prod.mk.inj (Option.some.inj h)
    exact hb
  induction n generalizing b c with
  | zero =>
    by_cases hgo : Reading.goesOn (fun (b : Nat × Bytes) _ _ => decide (0 < b.1)) b tokens c.current
    · rw [iterate_zero (i := ⟨fuel, tokens⟩) hgo] at h
      cases h
    · exact hdone hb hgo h
  | succ n ih =>
    by_cases hgo : Reading.goesOn (fun (b : Nat × Bytes) _ _ => decide (0 < b.1)) b tokens c.current
    · cases hstep : (argumentToken b ⟨fuel, tokens⟩ c).result with
      | none =>
        rw [iterate_unfinished (i := ⟨fuel, tokens⟩) hgo hstep] at h
        cases h
      | some r =>
        rw [iterate_finished (i := ⟨fuel, tokens⟩) hgo hstep] at h
        exact ih (solid_argumentToken hsolid hb hstep) h
    · exact hdone hb hgo h

/-- The text of a type has no blanks around it. -/
theorem solid_parseTypeName (hsolid : ∀ token ∈ tokens, Solid token.lexeme) {type : Bytes}
    (h : (parseTypeName ⟨fuel, tokens⟩ c).result = some (type, c')) : Solid type := by
  have hangle : Solid (ascii "<") := Solid.of_all (by decide)
  have hbrackets : Solid (ascii "[") ∧ Solid (ascii "]") := ⟨Solid.of_all (by decide), Solid.of_all (by decide)⟩
  have hquestion : Solid (ascii "?") := Solid.of_all (by decide)
  unfold parseTypeName at h
  cases hhead : checkAny [.identifier, .keywordOptional, .keywordRef] tokens c.current with
  | false =>
    rw [choose_false hhead] at h
    obtain ⟨_, _, -, h, -⟩ := bind_result h
    obtain ⟨_, _, -, h, -⟩ := bind_result h
    cases h
    exact Solid.nil
  | true =>
    rw [choose_true hhead] at h
    obtain ⟨name, _, hname, h, -⟩ := bind_result h
    obtain ⟨type₁, _, hangles, h, -⟩ := bind_result h
    obtain ⟨type₂, _, harray, h, -⟩ := bind_result h
    have hsolidName := solid_advance hsolid hname
    have hsolid₁ : Solid type₁ := by
      rcases ifMatch_result hangles with ⟨_, hangles⟩ | hangles
      · obtain ⟨b, _, hloop, hpure, -⟩ := bind_result hangles
        cases hpure
        exact solid_arguments (b := (1, name.lexeme ++ ascii "<")) hsolid (hsolidName.append hangle) hloop
      · cases hangles
        exact hsolidName
    have hsolid₂ : Solid type₂ := by
      rcases ifMatch_result harray with ⟨_, harray⟩ | harray
      · obtain ⟨_, _, -, hpure, -⟩ := bind_result harray
        cases hpure
        exact (hsolid₁.append hbrackets.1).append hbrackets.2
      · cases harray
        exact hsolid₁
    rcases ifMatch_result h with ⟨_, h⟩ | h
    · cases h
      exact hsolid₂.append hquestion
    · cases h
      exact hsolid₂

end

theorem BuiltType.solid {type : Bytes} (h : BuiltType type) : Solid type := by
  obtain ⟨source, tokens, diagnostics, fuel, c, c', hlex, hclean, hresult⟩ := h
  obtain ⟨spellings, hspellings, hrenders⟩ := renders_of_scan (Reads.refl ⟨{}, source⟩) hlex hclean
  refine solid_parseTypeName (fun token htoken => ?_) hresult
  have hmem : token.spelling ∈ spellings ++ [endSpelling] := by
    rw [← hspellings]
    exact List.mem_map_of_mem htoken
  rcases List.mem_append.mp hmem with hmem | hmem
  · exact (hrenders.lexeme _ hmem).solid
  · have hempty : token.lexeme = [] := congrArg Prod.snd (List.mem_singleton.mp hmem)
    rw [hempty]
    exact Solid.nil

/-! ## Trimming -/

section

variable {type front back : Bytes}

theorem mem_dropWhile {ch : UInt8} (h : ch ∈ type) (hch : isSpace ch = false) :
    ch ∈ type.dropWhile isSpace := by
  have hsplit := List.takeWhile_append_dropWhile (p := isSpace) (l := type)
  rw [← hsplit] at h
  rcases List.mem_append.mp h with h | h
  · have hspace := List.mem_takeWhile_imp h
    rw [hch] at hspace
    cases hspace
  · exact h

theorem trim_subset {ch : UInt8} (h : ch ∈ trimAsciiCopy type) : ch ∈ type :=
  (List.dropWhile_suffix isSpace).subset ((List.rdropWhile_prefix isSpace _).subset h)

theorem mem_trim {ch : UInt8} (h : ch ∈ type) (hch : isSpace ch = false) : ch ∈ trimAsciiCopy type := by
  rw [trimAsciiCopy, List.rdropWhile, List.mem_reverse]
  exact mem_dropWhile (List.mem_reverse.mpr (mem_dropWhile h hch)) hch

theorem dropWhile_solid {rest : Bytes} (hne : front ≠ []) (hfront : Solid front) :
    (front ++ rest).dropWhile isSpace = front ++ rest := by
  cases front with
  | nil => exact absurd rfl hne
  | cons ch more => exact List.dropWhile_cons_of_neg (by rw [hfront.front ch rfl]; decide)

theorem rdropWhile_solid (hback : Solid back) : back.rdropWhile isSpace = back := by
  rw [List.rdropWhile_eq_self_iff]
  intro hne
  rw [hback.back _ (List.getLast?_eq_some_getLast hne)]
  decide

theorem rdropWhile_append (hfront : Solid front) (rest : Bytes) :
    front <+: (front ++ rest).rdropWhile isSpace := by
  induction rest using List.reverseRecOn with
  | nil => rw [List.append_nil, rdropWhile_solid hfront]
  | append_singleton rest ch ih =>
    rw [← List.append_assoc]
    cases hch : isSpace ch with
    | true =>
      rw [List.rdropWhile_concat_pos _ _ _ hch]
      exact ih
    | false =>
      rw [List.rdropWhile_concat_neg _ _ _ (by rw [hch]; decide), List.append_assoc]
      exact List.prefix_append _ _

/-- What a text begins with it begins with when it is trimmed. -/
theorem prefix_trim (hne : front ≠ []) (hfront : Solid front) (h : front <+: type) :
    front <+: trimAsciiCopy type := by
  obtain ⟨rest, rfl⟩ := h
  rw [trimAsciiCopy, dropWhile_solid hne hfront]
  exact rdropWhile_append hfront rest

/-- And so with what it ends with. -/
theorem suffix_trim (hne : back ≠ []) (hback : Solid back) (h : back <:+ type) :
    back <:+ trimAsciiCopy type := by
  have hdrop : back <:+ type.dropWhile isSpace := by
    obtain ⟨rest, rfl⟩ := h
    induction rest with
    | nil =>
      cases back with
      | nil => exact absurd rfl hne
      | cons ch more =>
        rw [List.nil_append, List.dropWhile_cons_of_neg (by rw [hback.front ch rfl]; decide)]
    | cons ch rest ih =>
      rw [List.cons_append, List.dropWhile_cons]
      split
      · exact ih
      · exact ⟨ch :: rest, rfl⟩
  obtain ⟨rest, hrest⟩ := hdrop
  have hself : (type.dropWhile isSpace).rdropWhile isSpace = type.dropWhile isSpace := by
    rw [List.rdropWhile_eq_self_iff, ← hrest]
    intro hne'
    rw [List.getLast_append_of_ne_nil _ hne, hback.back _ (List.getLast?_eq_some_getLast hne)]
    decide
  rw [trimAsciiCopy, hself]
  exact ⟨rest, hrest⟩

/-- A text that does not begin with a blank begins with what it begins with when it is trimmed. -/
theorem prefix_of_trim {ch : UInt8} (hhead : type.head? = some ch) (hch : isSpace ch = false)
    (h : front <+: trimAsciiCopy type) : front <+: type := by
  have hdrop : type.dropWhile isSpace = type := by
    cases type with
    | nil => rfl
    | cons first rest =>
      obtain rfl := Option.some.inj hhead
      exact List.dropWhile_cons_of_neg (by rw [hch]; decide)
  rw [trimAsciiCopy, hdrop] at h
  exact h.trans (List.rdropWhile_prefix isSpace type)

end

/-! ## What begins and what ends a type -/

section

variable {type front other back : Bytes}

theorem forall_byte {P : UInt8 → Prop} (h : ∀ n : Fin 256, P (UInt8.ofNat n.val)) (ch : UInt8) : P ch := by
  have hch := h ⟨ch.toNat, ch.toNat_lt⟩
  rwa [UInt8.ofNat_toNat] at hch

/-- Two beginnings of a text begin with one byte. -/
theorem head_of_start (hne : front ≠ []) (h : front <+: type) : type.head? = front.head? := by
  obtain ⟨rest, rfl⟩ := h
  exact List.head?_append_of_ne_nil _ hne

theorem getLast_of_suffix (hne : back ≠ []) (h : back <:+ type) : type.getLast? = back.getLast? := by
  obtain ⟨rest, rfl⟩ := h
  exact List.getLast?_append_of_ne_nil _ hne

theorem heads_agree (hne : front ≠ []) (hother : other ≠ []) (h : front <+: type) (h' : other <+: type) :
    front.head? = other.head? := (head_of_start hne h).symm.trans (head_of_start hother h')

theorem lasts_agree (hne : back ≠ []) (hother : other ≠ []) (h : back <:+ type) (h' : other <:+ type) :
    back.getLast? = other.getLast? := (getLast_of_suffix hne h).symm.trans (getLast_of_suffix hother h')

theorem prefix_lower (hfront : lowerAscii front = front) (h : front <+: type) : front <+: lowerAscii type := by
  have hmap := h.map toLower
  rwa [show front.map toLower = front from hfront] at hmap

/-- A text that begins so in lower case does not begin with a blank. -/
theorem head_of_start_lower {ch : UInt8} (hhead : front.head? = some ch) (hch : isSpace ch = false)
    (h : front <+: lowerAscii type) : ∃ first, type.head? = some first ∧ isSpace first = false := by
  have hne : front ≠ [] := by
    rintro rfl
    cases hhead
  have hlower := head_of_start hne h
  rw [hhead, lowerAscii, List.head?_map] at hlower
  obtain ⟨first, hfirst, rfl⟩ := Option.map_eq_some_iff.mp hlower
  refine ⟨first, hfirst, ?_⟩
  have hall : isSpace (toLower first) = false → isSpace first = false :=
    forall_byte (P := fun ch => isSpace (toLower ch) = false → isSpace ch = false) (by decide +kernel) first
  exact hall hch

theorem mem_of_mem_lower (h : byte '<' ∈ lowerAscii type) : byte '<' ∈ type := by
  obtain ⟨ch, hch, hlower⟩ := List.mem_map.mp h
  have hall : toLower ch = byte '<' → ch = byte '<' :=
    forall_byte (P := fun ch => toLower ch = byte '<' → ch = byte '<') (by decide +kernel) ch
  rwa [hall hlower] at hch

theorem mem_lower (h : byte '<' ∈ type) : byte '<' ∈ lowerAscii type :=
  List.mem_map.mpr ⟨byte '<', h, by decide⟩

end

/-! ## The document -/

section

variable {system : IrSystem} {type : Bytes}

/-- What the document has an array for. -/
def Arrayed (type : Bytes) : Prop :=
  ((ascii "list<" <+: lowerAscii type ∨ ascii "set<" <+: lowerAscii type) ∧ ascii ">" <:+ type) ∨
    ascii "[]" <:+ type

/-- What it has a map for, or any object, where it has no array. -/
def Mapped (type : Bytes) : Prop := ascii "map<" <+: lowerAscii type ∧ ascii ">" <:+ type

theorem genericBody_cases (type : Bytes) (genericName : String) :
    (∃ body, genericBody type genericName = some body ∧ ascii genericName ++ ascii "<" <+: lowerAscii type ∧
        ascii ">" <:+ type) ∨
      (genericBody type genericName = none ∧
        ¬ (ascii genericName ++ ascii "<" <+: lowerAscii type ∧ ascii ">" <:+ type)) := by
  simp only [genericBody, List.isPrefixOf_iff_prefix, endsWith, decide_eq_true_eq]
  by_cases h : ascii genericName ++ ascii "<" <+: lowerAscii type ∧ ascii ">" <:+ type
  · rw [if_pos h]
    exact .inl ⟨_, rfl, h⟩
  · rw [if_neg h]
    exact .inr ⟨rfl, h⟩

theorem kinds_ref (h : type ∈ componentNames system) :
    (schemaOfForm system (typeForm system type)).kinds = [.named] := by
  rw [typeForm, if_pos h]
  rfl

theorem kinds_array (h : type ∉ componentNames system) (harray : Arrayed type) :
    (schemaOfForm system (typeForm system type)).kinds = [.list] := by
  rw [typeForm, if_neg h]
  rcases genericBody_cases type "list" with ⟨item, hlist, -⟩ | ⟨hlist, hnotList⟩
  · rw [hlist]
    rfl
  · rcases genericBody_cases type "set" with ⟨item, hset, -⟩ | ⟨hset, hnotSet⟩
    · rw [hlist, hset]
      rfl
    · have hends : endsWith type (ascii "[]") = true := by
        rcases harray with ⟨hlist | hset, hclosed⟩ | hends
        · exact absurd ⟨hlist, hclosed⟩ hnotList
        · exact absurd ⟨hset, hclosed⟩ hnotSet
        · exact decide_eq_true hends
      rw [hlist, hset, hends]
      rfl

/-- A map of its second argument, or of what is not known. -/
def mapForm (body : Bytes) : TypeForm :=
  match splitTopLevelCsv body with
  | [_, value] => .map value
  | _ => .anything

theorem kinds_mapForm (body : Bytes) : (schemaOfForm system (mapForm body)).kinds = [.map] ∨
    (schemaOfForm system (mapForm body)).kinds = [.scalar, .map] := by
  unfold mapForm
  split
  · exact .inl rfl
  · exact .inr rfl

theorem typeForm_of_not_arrayed (h : type ∉ componentNames system) (harray : ¬ Arrayed type) :
    typeForm system type = (genericBody type "map").elim (.scalar (lowerAscii type)) mapForm := by
  rw [typeForm, if_neg h]
  rcases genericBody_cases type "list" with ⟨_, -, hlist⟩ | ⟨hlist, -⟩
  · exact absurd (.inl ⟨.inl hlist.1, hlist.2⟩) harray
  · rcases genericBody_cases type "set" with ⟨_, -, hset⟩ | ⟨hset, -⟩
    · exact absurd (.inl ⟨.inr hset.1, hset.2⟩) harray
    · have hends : endsWith type (ascii "[]") = false := decide_eq_false fun hends => harray (.inr hends)
      rw [hlist, hset, hends]
      cases genericBody type "map" with
      | none => rfl
      | some body => rfl

theorem kinds_map (h : type ∉ componentNames system) (harray : ¬ Arrayed type) (hmap : Mapped type) :
    (schemaOfForm system (typeForm system type)).kinds = [.map] ∨
      (schemaOfForm system (typeForm system type)).kinds = [.scalar, .map] := by
  rw [typeForm_of_not_arrayed h harray]
  rcases genericBody_cases type "map" with ⟨body, hbody, -⟩ | ⟨-, hnot⟩
  · rw [hbody]
    exact kinds_mapForm body
  · exact absurd hmap hnot

theorem kinds_scalarSchema (lowered : Bytes) : (scalarSchema lowered).kinds =
    if lowered = ascii "json" ∨ lowered = ascii "object" then [.scalar, .map] else [.scalar] := by
  unfold scalarSchema
  by_cases hobject : lowered = ascii "json" ∨ lowered = ascii "object"
  · rw [if_pos hobject, if_pos hobject]
    rfl
  · rw [if_neg hobject, if_neg hobject]
    repeat' split
    all_goals rfl

theorem kinds_scalar (h : type ∉ componentNames system) (harray : ¬ Arrayed type) (hmap : ¬ Mapped type) :
    (schemaOfForm system (typeForm system type)).kinds = (scalarSchema (lowerAscii type)).kinds := by
  rw [typeForm_of_not_arrayed h harray]
  rcases genericBody_cases type "map" with ⟨_, -, hbody⟩ | ⟨hbody, -⟩
  · exact absurd hbody hmap
  · rw [hbody]
    rfl

theorem scalar_mem_kinds (h : type ∉ componentNames system) (harray : ¬ Arrayed type) (hmap : ¬ Mapped type) :
    .scalar ∈ (schemaOfForm system (typeForm system type)).kinds := by
  rw [kinds_scalar h harray hmap, kinds_scalarSchema]
  split <;> decide

theorem list_mem_kinds (h : type ∉ componentNames system) :
    .list ∈ (schemaOfForm system (typeForm system type)).kinds ↔ Arrayed type := by
  by_cases harray : Arrayed type
  · rw [kinds_array h harray]
    exact ⟨fun _ => harray, fun _ => List.mem_singleton_self _⟩
  · refine ⟨fun hlist => ?_, fun h => absurd h harray⟩
    by_cases hmap : Mapped type
    · rcases kinds_map h harray hmap with hkinds | hkinds
      · rw [hkinds] at hlist
        exact absurd hlist (by decide)
      · rw [hkinds] at hlist
        exact absurd hlist (by decide)
    · rw [kinds_scalar h harray hmap, kinds_scalarSchema] at hlist
      split at hlist
      · exact absurd hlist (by decide)
      · exact absurd hlist (by decide)

theorem map_mem_kinds (h : type ∉ componentNames system) (hangle : byte '<' ∈ type) :
    .map ∈ (schemaOfForm system (typeForm system type)).kinds ↔ ¬ Arrayed type ∧ Mapped type := by
  by_cases harray : Arrayed type
  · rw [kinds_array h harray]
    exact ⟨fun hmap => absurd hmap (by decide), fun hnot => absurd harray hnot.1⟩
  · by_cases hmap : Mapped type
    · refine ⟨fun _ => ⟨harray, hmap⟩, fun _ => ?_⟩
      rcases kinds_map h harray hmap with hkinds | hkinds
      · rw [hkinds]
        decide
      · rw [hkinds]
        decide
    · refine ⟨fun hmem => ?_, fun hboth => absurd hboth.2 hmap⟩
      have hother : ¬ (lowerAscii type = ascii "json" ∨ lowerAscii type = ascii "object") := by
        have hlower := mem_lower hangle
        rintro (hname | hname)
        · rw [hname] at hlower
          revert hlower
          decide
        · rw [hname] at hlower
          revert hlower
          decide
      rw [kinds_scalar h harray hmap, kinds_scalarSchema, if_neg hother] at hmem
      exact absurd hmem (by decide)

theorem named_not_mem_kinds (h : type ∉ componentNames system) :
    .named ∉ (schemaOfForm system (typeForm system type)).kinds := by
  by_cases harray : Arrayed type
  · rw [kinds_array h harray]
    decide
  · by_cases hmap : Mapped type
    · rcases kinds_map h harray hmap with hkinds | hkinds
      · rw [hkinds]
        decide
      · rw [hkinds]
        decide
    · rw [kinds_scalar h harray hmap, kinds_scalarSchema]
      split <;> decide

end

/-! ## The optional layer -/

section

variable {type : Bytes}

theorem formDescriptorType_eq (normalized : Bytes) : formDescriptorType normalized =
    if ascii "?" <:+ normalized ∨ ascii "optional<" <+: normalized then .optional
    else if ascii "list<" <+: normalized ∨ ascii "[]" <:+ normalized then .list
    else if ascii "set<" <+: normalized then .set
    else if ascii "map<" <+: normalized then .map
    else if ascii "ref<" <+: normalized then .reference
    else .named := by
  simp only [formDescriptorType, startsWithText, endsWithText, Bool.or_eq_true, List.isPrefixOf_iff_prefix,
    List.isSuffixOf_iff_suffix]

/-- The name tells the type, or its form does. -/
theorem classify_cases (type : Bytes) :
    (IsScalarName (trimAsciiCopy type) ∧ (classifyFieldDescriptorType type).kinds = [.scalar]) ∨
      (¬ IsScalarName (trimAsciiCopy type) ∧
        classifyFieldDescriptorType type = formDescriptorType (trimAsciiCopy type)) := by
  have hclassify : classifyFieldDescriptorType type =
      match scalarTypes.find? fun scalar => scalar.1 == trimAsciiCopy type with
      | some scalar => scalar.2
      | none => formDescriptorType (trimAsciiCopy type) := rfl
  cases hfind : scalarTypes.find? fun scalar => scalar.1 == trimAsciiCopy type with
  | some scalar =>
    rw [hfind] at hclassify
    have hall : ∀ scalar ∈ scalarTypes, scalar.2.kinds = [.scalar] := by decide
    have hmem := List.mem_of_find?_eq_some hfind
    have hname : scalar.1 = trimAsciiCopy type := by simpa using List.find?_some hfind
    refine .inl ⟨?_, by rw [hclassify]; exact hall scalar hmem⟩
    rw [← hname]
    exact List.mem_map_of_mem hmem
  | none =>
    rw [hfind] at hclassify
    refine .inr ⟨?_, hclassify⟩
    intro hscalar
    obtain ⟨scalar, hmem, hname⟩ := List.mem_map.mp hscalar
    have hnone := List.find?_eq_none.mp hfind scalar hmem
    exact hnone (beq_iff_eq.mpr hname)

/-- The names of scalars have no form. -/
theorem IsScalarName.formless {name : Bytes} (h : IsScalarName name) :
    byte '<' ∉ name ∧ byte ']' ∉ name ∧ byte '?' ∉ name := by
  have hall : ∀ name ∈ scalarTypes.map Prod.fst, byte '<' ∉ name ∧ byte ']' ∉ name ∧ byte '?' ∉ name := by
    decide
  exact hall name h

theorem isRequiredDescriptorField_iff (hsolid : Solid type) : isRequiredDescriptorField type = true ↔
    ¬ (ascii "?" <:+ type ∨ ascii "optional<" <+: type) := by
  rw [isRequiredDescriptorField, bne_iff_ne]
  have htrim := hsolid.trim
  rcases classify_cases type with ⟨hscalar, hkinds⟩ | ⟨-, hform⟩
  · rw [htrim] at hscalar
    constructor
    · rintro - (hquestion | hoptional)
      · exact hscalar.formless.2.2 (hquestion.subset (by decide))
      · exact hscalar.formless.1 (hoptional.subset (by decide))
    · intro _ hoptional
      rw [hoptional] at hkinds
      cases hkinds
  · rw [hform, htrim, formDescriptorType_eq]
    split
    · rename_i hoptional
      exact ⟨fun hne => absurd rfl hne, fun hnot => absurd hoptional hnot⟩
    · rename_i hrequired
      refine ⟨fun _ => hrequired, fun _ => ?_⟩
      repeat' split
      all_goals decide

theorem isOptionalType_iff (type : Bytes) : isOptionalType type = true ↔
    (ascii "optional<" <+: type ∧ ascii ">" <:+ type) ∨ ascii "?" <:+ type := by
  simp only [isOptionalType, startsWithText, endsWithText, Bool.or_eq_true, Bool.and_eq_true,
    List.isPrefixOf_iff_prefix, List.isSuffixOf_iff_suffix]

theorem optional_prefix_iff (type : Bytes) :
    ascii "std::optional<" <+: cppShapeTypeText type ↔ isOptionalType type = true := by
  unfold cppShapeTypeText
  cases isOptionalType type with
  | true => exact ⟨fun _ => rfl, fun _ => ⟨_, (List.append_assoc _ _ _).symm⟩⟩
  | false =>
    have hall : ∀ cpp : CppType, ¬ ascii "std::optional<" <+: cppTypeText cpp := by
      intro cpp
      cases cpp <;> decide
    exact ⟨fun h => absurd h (hall _), nofun⟩

theorem mem_requiredNames_iff {shape : IrShape} {field : IrField}
    (hnames : (shape.fields.map IrField.name).Nodup) (hfield : field ∈ shape.fields) :
    field.name ∈ requiredNames shape ↔ ¬ isOptionalType field.type = true := by
  rw [mem_requiredNames, Bool.not_eq_true]
  constructor
  · rintro ⟨other, hother, hrequired, hname⟩
    rwa [← List.inj_on_of_nodup_map hnames hother hfield hname]
  · intro hrequired
    exact ⟨field, hfield, hrequired, rfl⟩

/-- The optional layer is the same for all just where it is closed. -/
theorem required_iff (hsolid : Solid type) :
    (isRequiredDescriptorField type = true ↔ ¬ isOptionalType type = true) ↔ OptionalThroughout type := by
  rw [isRequiredDescriptorField_iff hsolid, isOptionalType_iff, OptionalThroughout]
  tauto

end

/-! ## The kind -/

section

variable {system : IrSystem} {type : Bytes}

theorem sameKind_singleton {kinds : List TypeKind} {kind : TypeKind} :
    SameKind kinds [kind] ↔ kind ∈ kinds := by
  constructor
  · rintro ⟨other, hother, hkind⟩
    rwa [← List.mem_singleton.mp hkind]
  · intro h
    exact ⟨kind, h, List.mem_singleton_self kind⟩

theorem singleton_sameKind {kinds : List TypeKind} {kind : TypeKind} :
    SameKind [kind] kinds ↔ kind ∈ kinds := by
  constructor
  · rintro ⟨other, hother, hkind⟩
    rwa [← List.mem_singleton.mp hother]
  · intro h
    exact ⟨kind, List.mem_singleton_self kind, h⟩

/-- A component is one for the descriptor where nothing else tells its type. -/
theorem named_mem_kinds (type : Bytes) :
    .named ∈ (classifyFieldDescriptorType type).kinds ↔ NamedAlike type := by
  rcases classify_cases type with ⟨hscalar, hkinds⟩ | ⟨hscalar, hform⟩
  · rw [hkinds]
    exact ⟨fun h => absurd h (by decide), fun h => absurd hscalar h.1⟩
  · rw [hform, formDescriptorType_eq, NamedAlike]
    simp only [List.forall_mem_cons, List.not_mem_nil, false_imp_iff, forall_const, and_true]
    split
    · refine ⟨fun h => absurd h (by decide), fun h => ?_⟩
      tauto
    · split
      · refine ⟨fun h => absurd h (by decide), fun h => ?_⟩
        tauto
      · split
        · refine ⟨fun h => absurd h (by decide), fun h => ?_⟩
          tauto
        · split
          · refine ⟨fun h => absurd h (by decide), fun h => ?_⟩
            tauto
          · refine ⟨fun _ => by tauto, fun _ => ?_⟩
            split <;> decide

end

section

variable {system : IrSystem} {type front other : Bytes}

/-- The beginnings that tell a generic type. -/
def genericFronts : List Bytes :=
  [ascii "optional<", ascii "list<", ascii "set<", ascii "map<", ascii "ref<"]

theorem genericFronts_solid (h : front ∈ genericFronts) : front ≠ [] ∧ Solid front := by
  have hall : ∀ front ∈ genericFronts, front ≠ [] ∧ front.all (fun ch => !isSpace ch) = true := by decide
  exact ⟨(hall front h).1, Solid.of_all (hall front h).2⟩

/-- They begin with different bytes. -/
theorem genericFronts_eq (h : front ∈ genericFronts) (h' : other ∈ genericFronts)
    (hheads : front.head? = other.head?) : front = other := by
  have hall : ∀ front ∈ genericFronts, ∀ other ∈ genericFronts, front.head? = other.head? → front = other := by
    decide
  exact hall front h other h' hheads

theorem generic_unique (h : front ∈ genericFronts) (h' : other ∈ genericFronts) (hfront : front <+: type)
    (hother : other <+: type) : front = other :=
  genericFronts_eq h h' (heads_agree (genericFronts_solid h).1 (genericFronts_solid h').1 hfront hother)

theorem generic_lower (h : front ∈ genericFronts) (hfront : front <+: type) : front <+: lowerAscii type := by
  have hall : ∀ front ∈ genericFronts, lowerAscii front = front := by decide
  exact prefix_lower (hall front h) hfront

theorem generic_trim (h : front ∈ genericFronts) (hfront : front <+: type) : front <+: trimAsciiCopy type :=
  prefix_trim (genericFronts_solid h).1 (genericFronts_solid h).2 hfront

/-- A type that is generic in lower case, and is generic when it is trimmed, is. -/
theorem generic_of_trim (h : front ∈ genericFronts) (hlower : front <+: lowerAscii type)
    (hother : other <+: trimAsciiCopy type) : other <+: type := by
  obtain ⟨hne, hblank⟩ := genericFronts_solid h
  have hhead := List.head?_eq_some_head hne
  obtain ⟨first, hfirst, hfirstBlank⟩ := head_of_start_lower hhead (hblank.front _ hhead) hlower
  exact prefix_of_trim hfirst hfirstBlank hother

/-- The ends that are looked for. -/
theorem end_trim {back : Bytes} (h : back ∈ [ascii "?", ascii "[]", ascii ">"]) (hback : back <:+ type) :
    back <:+ trimAsciiCopy type := by
  have hall : ∀ back ∈ [ascii "?", ascii "[]", ascii ">"], back ≠ [] ∧ back.all (fun ch => !isSpace ch) = true := by
    decide
  exact suffix_trim (hall back h).1 (Solid.of_all (hall back h).2) hback

theorem end_unique {back more : Bytes} (h : back ∈ [ascii "?", ascii "[]", ascii ">"])
    (h' : more ∈ [ascii "?", ascii "[]", ascii ">"]) (hback : back <:+ type) (hmore : more <:+ type) :
    back = more := by
  have hall : ∀ back ∈ [ascii "?", ascii "[]", ascii ">"], ∀ more ∈ [ascii "?", ascii "[]", ascii ">"],
      back ≠ [] ∧ (back.getLast? = more.getLast? → back = more) := by decide
  exact (hall back h more h').2 (lasts_agree (hall back h more h').1 (hall more h' back h).1 hback hmore)

/-- A scalar is neither an array nor a map. -/
theorem IsScalarName.not_arrayed (h : IsScalarName (trimAsciiCopy type)) : ¬ Arrayed type ∧ ¬ Mapped type := by
  have hangle : ∀ front : Bytes, byte '<' ∈ front → ¬ front <+: lowerAscii type := by
    intro front hmem hfront
    exact h.formless.1 (mem_trim (mem_of_mem_lower (hfront.subset hmem)) (by decide))
  constructor
  · rintro (⟨hlist | hset, -⟩ | harray)
    · exact hangle _ (by decide) hlist
    · exact hangle _ (by decide) hset
    · exact h.formless.2.1 (mem_trim (harray.subset (by decide)) (by decide))
  · rintro ⟨hmap, -⟩
    exact hangle _ (by decide) hmap

/-- What has a form that both know, and no name, is an array, a generic type that is closed, or a reference. -/
theorem FormedAlike.cases (h : FormedAlike type) (hscalar : ¬ IsScalarName (trimAsciiCopy type)) :
    ¬ ascii "?" <:+ trimAsciiCopy type ∧ ¬ ascii "optional<" <+: trimAsciiCopy type ∧
      (ascii "[]" <:+ type ∨
        (¬ ascii "[]" <:+ trimAsciiCopy type ∧ ascii ">" <:+ type ∧
          ∃ front ∈ [ascii "list<", ascii "set<", ascii "map<"], front <+: type) ∨
        (¬ ascii "[]" <:+ trimAsciiCopy type ∧ ascii "ref<" <+: trimAsciiCopy type)) := by
  rcases h with h | ⟨harray, hoptional⟩ | ⟨⟨front, hfront, htype⟩, hclosed⟩ | ⟨href, hends⟩
  · exact absurd h hscalar
  · refine ⟨fun hquestion => ?_, hoptional, .inl harray⟩
    exact absurd (end_unique (by decide) (by decide) hquestion (end_trim (by decide) harray)) (by decide)
  · have hends : ascii ">" <:+ trimAsciiCopy type := end_trim (by decide) hclosed
    have hgeneric : front ∈ genericFronts ∧ front ≠ ascii "optional<" := by
      have hall : ∀ front ∈ [ascii "list<", ascii "set<", ascii "map<"],
          front ∈ genericFronts ∧ front ≠ ascii "optional<" := by decide
      exact hall front hfront
    refine ⟨fun hquestion => ?_, fun hoptional => ?_, .inr (.inl ⟨fun harray => ?_, hclosed, front, hfront, htype⟩)⟩
    · exact absurd (end_unique (by decide) (by decide) hquestion hends) (by decide)
    · exact hgeneric.2 (generic_unique hgeneric.1 (by decide) (generic_trim hgeneric.1 htype) hoptional)
    · exact absurd (end_unique (by decide) (by decide) harray hends) (by decide)
  · refine ⟨hends _ (by decide), fun hoptional => ?_, .inr (.inr ⟨hends _ (by decide), href⟩)⟩
    exact absurd (generic_unique (by decide) (by decide) href hoptional) (by decide)

/-- One generic type begins with one front, in lower case too. -/
theorem generic_lower_unique (h : front ∈ genericFronts) (h' : other ∈ genericFronts)
    (htrim : front <+: trimAsciiCopy type) (hlower : other <+: lowerAscii type) :
    front = other ∧ front <+: type := by
  have htype : front <+: type := generic_of_trim h' hlower htrim
  exact ⟨generic_unique h h' (generic_lower h htype) hlower, htype⟩

theorem mem_genericFronts (h : front ∈ [ascii "list<", ascii "set<", ascii "map<"]) : front ∈ genericFronts := by
  have hall : ∀ front ∈ [ascii "list<", ascii "set<", ascii "map<"], front ∈ genericFronts := by decide
  exact hall front h

/-- The descriptor has a list. -/
theorem formed_list (hscalar : ¬ IsScalarName (trimAsciiCopy type))
    (hoptional : ¬ ascii "optional<" <+: trimAsciiCopy type)
    (hitems : ascii "list<" <+: trimAsciiCopy type ∨ ascii "[]" <:+ trimAsciiCopy type) :
    Arrayed type ↔ FormedAlike type := by
  have hlist : ¬ ascii "[]" <:+ trimAsciiCopy type → ascii "list<" <+: trimAsciiCopy type :=
    fun hnot => hitems.resolve_right hnot
  have hlistFront : ascii "list<" ∈ genericFronts := by decide
  have hsetFront : ascii "set<" ∈ genericFronts := by decide
  constructor
  · rintro (⟨hlower, hclosed⟩ | harray)
    · have hnot : ¬ ascii "[]" <:+ trimAsciiCopy type := by
        intro harray
        exact absurd (end_unique (by decide) (by decide) harray (end_trim (by decide) hclosed)) (by decide)
      have htype : ascii "list<" <+: type := by
        rcases hlower with hlower | hlower
        · exact generic_of_trim hlistFront hlower (hlist hnot)
        · exact generic_of_trim hsetFront hlower (hlist hnot)
      exact .inr (.inr (.inl ⟨⟨_, by decide, htype⟩, hclosed⟩))
    · exact .inr (.inl ⟨harray, hoptional⟩)
  · intro hformed
    obtain ⟨-, -, harray | ⟨hnot, hclosed, front, hfront, htype⟩ | ⟨hnot, href⟩⟩ := hformed.cases hscalar
    · exact .inr harray
    · have hgeneric := mem_genericFronts hfront
      have heq := generic_unique (by decide) hgeneric (hlist hnot) (generic_trim hgeneric htype)
      rw [← heq] at htype
      exact .inl ⟨.inl (generic_lower (by decide) htype), hclosed⟩
    · exact absurd (generic_unique (by decide) (by decide) (hlist hnot) href) (by decide)

/-- It has a set. -/
theorem formed_set (hscalar : ¬ IsScalarName (trimAsciiCopy type))
    (hitems : ¬ ascii "[]" <:+ trimAsciiCopy type) (hset : ascii "set<" <+: trimAsciiCopy type) :
    Arrayed type ↔ FormedAlike type := by
  have hlistFront : ascii "list<" ∈ genericFronts := by decide
  have hsetFront : ascii "set<" ∈ genericFronts := by decide
  constructor
  · rintro (⟨hlower, hclosed⟩ | harray)
    · have htype : ascii "set<" <+: type := by
        rcases hlower with hlower | hlower
        · exact generic_of_trim hlistFront hlower hset
        · exact generic_of_trim hsetFront hlower hset
      exact .inr (.inr (.inl ⟨⟨_, by decide, htype⟩, hclosed⟩))
    · exact absurd (end_trim (by decide) harray) hitems
  · intro hformed
    obtain ⟨-, -, harray | ⟨-, hclosed, front, hfront, htype⟩ | ⟨-, href⟩⟩ := hformed.cases hscalar
    · exact absurd (end_trim (by decide) harray) hitems
    · have hgeneric := mem_genericFronts hfront
      have heq := generic_unique (by decide) hgeneric hset (generic_trim hgeneric htype)
      rw [← heq] at htype
      exact .inl ⟨.inr (generic_lower (by decide) htype), hclosed⟩
    · exact absurd (generic_unique (by decide) (by decide) hset href) (by decide)

/-- It has a map. -/
theorem formed_map (hscalar : ¬ IsScalarName (trimAsciiCopy type))
    (hitems : ¬ ascii "[]" <:+ trimAsciiCopy type) (hmap : ascii "map<" <+: trimAsciiCopy type) :
    ¬ Arrayed type ∧ Mapped type ↔ FormedAlike type := by
  constructor
  · rintro ⟨-, hlower, hclosed⟩
    have htype : ascii "map<" <+: type := (generic_lower_unique (by decide) (by decide) hmap hlower).2
    exact .inr (.inr (.inl ⟨⟨_, by decide, htype⟩, hclosed⟩))
  · intro hformed
    obtain ⟨-, -, harray | ⟨-, hclosed, front, hfront, htype⟩ | ⟨-, href⟩⟩ := hformed.cases hscalar
    · exact absurd (end_trim (by decide) harray) hitems
    · have hgeneric := mem_genericFronts hfront
      have heq := generic_unique (by decide) hgeneric hmap (generic_trim hgeneric htype)
      rw [← heq] at htype
      refine ⟨?_, generic_lower (by decide) htype, hclosed⟩
      rintro (⟨hlower | hlower, -⟩ | harray)
      · exact absurd (generic_lower_unique (by decide) (by decide) hmap hlower).1 (by decide)
      · exact absurd (generic_lower_unique (by decide) (by decide) hmap hlower).1 (by decide)
      · exact absurd (end_trim (by decide) harray) hitems
    · exact absurd (generic_unique (by decide) (by decide) hmap href) (by decide)

/-- A reference is no array and no map. -/
theorem reference_not_arrayed (hitems : ¬ ascii "[]" <:+ trimAsciiCopy type)
    (href : ascii "ref<" <+: trimAsciiCopy type) : ¬ Arrayed type ∧ ¬ Mapped type := by
  constructor
  · rintro (⟨hlower | hlower, -⟩ | harray)
    · exact absurd (generic_lower_unique (by decide) (by decide) href hlower).1 (by decide)
    · exact absurd (generic_lower_unique (by decide) (by decide) href hlower).1 (by decide)
    · exact absurd (end_trim (by decide) harray) hitems
  · rintro ⟨hlower, -⟩
    exact absurd (generic_lower_unique (by decide) (by decide) href hlower).1 (by decide)

/-- What is no component is of one kind just where its name or its form is known to both. -/
theorem formed_iff (h : type ∉ componentNames system) :
    SameKind (classifyFieldDescriptorType type).kinds (schemaOfForm system (typeForm system type)).kinds ↔
      FormedAlike type := by
  rcases classify_cases type with ⟨hscalar, hkinds⟩ | ⟨hscalar, hform⟩
  · rw [hkinds, singleton_sameKind]
    have hmem := scalar_mem_kinds h hscalar.not_arrayed.1 hscalar.not_arrayed.2
    exact ⟨fun _ => .inl hscalar, fun _ => hmem⟩
  · rw [hform, formDescriptorType_eq]
    split
    · rename_i hoptional
      constructor
      · rintro ⟨kind, hkind, -⟩
        cases hkind
      · intro hformed
        obtain ⟨hquestion, hfront, -⟩ := hformed.cases hscalar
        exact absurd hoptional (not_or.mpr ⟨hquestion, hfront⟩)
    · rename_i hrequired
      obtain ⟨hquestion, hoptional⟩ := not_or.mp hrequired
      split
      · rename_i hitems
        show SameKind [.list] _ ↔ _
        rw [singleton_sameKind, list_mem_kinds h]
        exact formed_list hscalar hoptional hitems
      · rename_i hitems
        obtain ⟨hlist, hitems⟩ := not_or.mp hitems
        split
        · rename_i hset
          show SameKind [.list] _ ↔ _
          rw [singleton_sameKind, list_mem_kinds h]
          exact formed_set hscalar hitems hset
        · rename_i hset
          split
          · rename_i hmap
            show SameKind [.map] _ ↔ _
            have hangle : byte '<' ∈ trimAsciiCopy type := hmap.subset (by decide)
            rw [singleton_sameKind, map_mem_kinds h (trim_subset hangle)]
            exact formed_map hscalar hitems hmap
          · rename_i hmap
            split
            · rename_i href
              obtain ⟨harray, hmapped⟩ := reference_not_arrayed hitems href
              have hends : ∀ back ∈ [ascii "?", ascii "[]"], ¬ back <:+ trimAsciiCopy type := by
                intro back hback
                rcases List.mem_cons.mp hback with rfl | hback
                · exact hquestion
                · rw [List.mem_singleton.mp hback]
                  exact hitems
              exact ⟨fun _ => .inr (.inr (.inr ⟨href, hends⟩)),
                fun _ => ⟨.scalar, by decide, scalar_mem_kinds h harray hmapped⟩⟩
            · rename_i href
              show SameKind [.named] _ ↔ _
              rw [singleton_sameKind]
              refine ⟨fun hnamed => absurd hnamed (named_not_mem_kinds h), fun hformed => ?_⟩
              obtain ⟨-, -, harray | ⟨-, -, front, hfront, htype⟩ | ⟨-, hfront⟩⟩ := hformed.cases hscalar
              · exact absurd (end_trim (by decide) harray) hitems
              · have htrim := generic_trim (mem_genericFronts hfront) htype
                simp only [List.mem_cons, List.not_mem_nil, or_false] at hfront
                rcases hfront with rfl | rfl | rfl
                · exact absurd htrim hlist
                · exact absurd htrim hset
                · exact absurd htrim hmap
              · exact absurd hfront href

/-- What is a component is of one kind just where the descriptor has a name for it. -/
theorem alike_iff (system : IrSystem) (type : Bytes) :
    SameKind (classifyFieldDescriptorType type).kinds (schemaOfForm system (typeForm system type)).kinds ↔
      Alike system type := by
  unfold Alike
  split
  · rename_i h
    rw [kinds_ref h, sameKind_singleton]
    exact named_mem_kinds type
  · rename_i h
    exact formed_iff h

end

/-- **The artifacts agree on a type** just where what begins as an optional type ends as one, and the type
    below the optional layer has a name or a form that all of them know. -/
theorem requiredness_agrees_iff {system : IrSystem} {type : Bytes} (h : BuiltType type) :
    ArtifactsAgree system type ↔ OptionalThroughout type ∧ Alike system (stripOptionalType type) := by
  have hrequired := required_iff h.solid
  have hkind := alike_iff system (stripOptionalType type)
  rw [← schemaFor_eq] at hkind
  constructor
  · intro hagree
    have hcpp := hagree.cpp
    rw [optional_prefix_iff] at hcpp
    exact ⟨hrequired.mp hcpp, hkind.mp hagree.kind⟩
  · rintro ⟨hthroughout, halike⟩
    have hoptional := hrequired.mpr hthroughout
    refine ⟨?_, ?_, hkind.mpr halike⟩
    · rintro shape field hnames hfield rfl
      exact hoptional.trans (mem_requiredNames_iff hnames hfield).symm
    · rw [optional_prefix_iff]
      exact hoptional

theorem builtType_of_readType {source type : Bytes} (h : ((readType source).map fun r => (r.1, r.2.map Prod.fst)) =
    some ([], some type)) : BuiltType type := by
  obtain ⟨⟨diagnostics, read⟩, hread, hpair⟩ := Option.map_eq_some_iff.mp h
  obtain ⟨⟨tokens, diagnostics'⟩, hlex, hresult⟩ := Option.map_eq_some_iff.mp hread
  obtain ⟨rfl, hread⟩ := Prod.mk.inj hpair
  obtain ⟨rfl, rfl⟩ := Prod.mk.inj hresult
  obtain ⟨⟨type', reports, spelled⟩, hsome, rfl⟩ := Option.map_eq_some_iff.mp hread
  obtain ⟨⟨type', c⟩, hparse, htype⟩ := Option.map_eq_some_iff.mp hsome
  obtain ⟨rfl, -⟩ := Prod.mk.inj htype
  exact ⟨source, tokens, [], tokens.length, ⟨0, []⟩, c, hlex, rfl, hparse⟩

/-- A system in which nothing is declared. -/
def undeclaredSystem : IrSystem := ⟨ascii "Empty", [], [], [], [], [], [], [], []⟩

theorem requiredness_agrees_iff_list : ArtifactsAgree undeclaredSystem (ascii "optional<list<string>>") ↔
    OptionalThroughout (ascii "optional<list<string>>") ∧
      Alike undeclaredSystem (stripOptionalType (ascii "optional<list<string>>")) := by
  have hread : ((readType (ascii "optional<list<string>>;")).map fun r => (r.1, r.2.map Prod.fst)) =
      some ([], some (ascii "optional<list<string>>")) := by decide +kernel
  exact requiredness_agrees_iff (builtType_of_readType hread)

/-- An array of optional strings is optional for the descriptor only. -/
theorem optional_array_disagrees : ¬ ∀ (system : IrSystem) (type : Bytes), BuiltType type →
    ArtifactsAgree system type := by
  intro hall
  have hread : ((readType (ascii "optional<string>[];")).map fun r => (r.1, r.2.map Prod.fst)) =
      some ([], some (ascii "optional<string>[]")) := by decide +kernel
  have hagree := hall undeclaredSystem _ (builtType_of_readType hread)
  have hdescriptor : isRequiredDescriptorField (ascii "optional<string>[]") = false := by decide
  have hcpp : ¬ ascii "std::optional<" <+: cppShapeTypeText (ascii "optional<string>[]") := by decide
  have hrequired := hagree.cpp.mpr hcpp
  rw [hdescriptor] at hrequired
  cases hrequired

end StateSpec.Compiler
