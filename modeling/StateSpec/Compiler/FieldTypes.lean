/-
  THE TYPES OF FIELDS — what `validate_field_types` says about the types of the language.

  Every name in the type of a field should be that of a type.  The check looks at the text of the type only, and
  takes one layer off it: what stands in front of the first `<`, or in front of `[]`, or in front of `?`.  In
  front of a `<` there is the name of a built-in type, so the names behind it are not looked at; behind
  `[]?` there is no type, so that is refused; and whatever has a name in the table of symbols is a type.

  * `fieldTypes_checked_iff` — on which types of the language the check is right.
-/
import StateSpec.Compiler.TypeTexts
import StateSpec.Compiler.ValidatorDeclarations

namespace StateSpec.Compiler

open Reading

/-! ## Types -/

/-- The types of the language, as they are written. -/
inductive TypeSyntax where
  | named (name : TypeName)
  | ref (target : TypeSyntax)
  | optional (item : TypeSyntax)
  | list (item : TypeSyntax)
  | set (item : TypeSyntax)
  | map (key value : TypeSyntax)
  | array (item : TypeSyntax)
  | nullable (item : TypeSyntax)

namespace TypeSyntax

/-- Arguments between their angles. -/
def angled (arguments : List Spelling) : List Spelling :=
  (.less, ascii "<") :: (arguments ++ [(.greater, ascii ">")])

/-- The tokens of a type. -/
def spelled : TypeSyntax → List Spelling
  | .named name => [(.identifier, name.text)]
  | .ref target => (.keywordRef, ascii "ref") :: angled target.spelled
  | .optional item => (.keywordOptional, ascii "optional") :: angled item.spelled
  | .list item => (.identifier, ascii "list") :: angled item.spelled
  | .set item => (.keywordSet, ascii "set") :: angled item.spelled
  | .map key value =>
    (.identifier, ascii "map") :: angled (key.spelled ++ (.comma, ascii ",") :: value.spelled)
  | .array item => item.spelled ++ [(.leftBracket, ascii "["), (.rightBracket, ascii "]")]
  | .nullable item => item.spelled ++ [(.question, ascii "?")]

/-- The names of types in a type. -/
def names : TypeSyntax → List Bytes
  | .named name => [name.text]
  | .ref target => ascii "ref" :: target.names
  | .optional item => ascii "optional" :: item.names
  | .list item => ascii "list" :: item.names
  | .set item => ascii "set" :: item.names
  | .map key value => ascii "map" :: (key.names ++ value.names)
  | .array item => item.names
  | .nullable item => item.names

/-- Nothing stands behind the name or the arguments. -/
def isBare : TypeSyntax → Bool
  | .array _ | .nullable _ => false
  | _ => true

end TypeSyntax

/-- A type as `parse_type_name` takes it: with `[]`, with `?`, or with both. -/
structure FieldType where
  core : TypeSyntax
  bare : core.isBare = true
  array : Bool
  nullable : Bool

namespace FieldType

def arrayed (T : FieldType) : TypeSyntax := if T.array then .array T.core else T.core

def type (T : FieldType) : TypeSyntax := if T.nullable then .nullable T.arrayed else T.arrayed

/-- What stands behind the name or the arguments. -/
def suffix (T : FieldType) : Bytes :=
  (if T.array then ascii "[]" else []) ++ if T.nullable then ascii "?" else []

end FieldType

/-- `parse_type_name` takes the tokens of a type, reports nothing and returns this text. -/
def Builds (T : FieldType) (text : Bytes) : Prop :=
  ∃ source tokens diagnostics fuel c c', lex source = some (tokens, diagnostics) ∧
    hasErrors diagnostics = false ∧ (parseTypeName ⟨fuel, tokens⟩ c).result = some (text, c') ∧
    c'.reports = c.reports ∧ (between tokens c.current c'.current).map Token.spelling = T.type.spelled

/-! ## Texts -/

/-- The text of tokens. -/
def textOf (spellings : List Spelling) : Bytes := spellings.flatMap Prod.snd

theorem textOf_append (spellings more : List Spelling) :
    textOf (spellings ++ more) = textOf spellings ++ textOf more := List.flatMap_append

theorem FieldType.textOf_type (T : FieldType) : textOf T.type.spelled = textOf T.core.spelled ++ T.suffix := by
  have harrayed : textOf T.arrayed.spelled = textOf T.core.spelled ++ if T.array then ascii "[]" else [] := by
    unfold FieldType.arrayed
    cases T.array with
    | false => exact (List.append_nil _).symm
    | true => exact textOf_append _ _
  unfold FieldType.type FieldType.suffix
  cases T.nullable with
  | false =>
    rw [if_neg Bool.false_ne_true, if_neg Bool.false_ne_true, List.append_nil]
    exact harrayed
  | true =>
    rw [if_pos rfl, if_pos rfl, ← List.append_assoc, ← harrayed]
    exact textOf_append _ _

theorem FieldType.names_type (T : FieldType) : T.type.names = T.core.names := by
  have harrayed : T.arrayed.names = T.core.names := by
    unfold FieldType.arrayed
    cases T.array with
    | false => rfl
    | true => rfl
  unfold FieldType.type
  cases T.nullable with
  | false => exact harrayed
  | true => exact harrayed

/-- The text that is built is that of the type. -/
theorem Builds.eq {T : FieldType} {text : Bytes} (h : Builds T text) :
    text = textOf T.core.spelled ++ T.suffix := by
  obtain ⟨source, tokens, diagnostics, fuel, c, c', hlex, hclean, hresult, hquiet, hspelled⟩ := h
  obtain ⟨htext, -⟩ := parseTypeName_takes (lexed_of_lex hlex hclean) hresult hquiet
  rw [htext, ← T.textOf_type, ← hspelled, taken, textOf, List.flatMap_map]
  rfl

/-- A core is the name of a type, or begins with the name of a built-in one and a `<`. -/
theorem core_cases {core : TypeSyntax} (hbare : core.isBare = true) :
    (∃ name, core = .named name) ∨
      ∃ head ∈ builtinTypes, byte '<' ∉ head ∧ (∃ rest, textOf core.spelled = head ++ byte '<' :: rest) ∧
        ∀ name, core ≠ .named name := by
  cases core with
  | named name => exact .inl ⟨name, rfl⟩
  | ref target => exact .inr ⟨ascii "ref", by decide, by decide, ⟨_, rfl⟩, nofun⟩
  | optional item => exact .inr ⟨ascii "optional", by decide, by decide, ⟨_, rfl⟩, nofun⟩
  | list item => exact .inr ⟨ascii "list", by decide, by decide, ⟨_, rfl⟩, nofun⟩
  | set item => exact .inr ⟨ascii "set", by decide, by decide, ⟨_, rfl⟩, nofun⟩
  | map key value => exact .inr ⟨ascii "map", by decide, by decide, ⟨_, rfl⟩, nofun⟩
  | array item => cases hbare
  | nullable item => cases hbare

/-! ## One layer less -/

namespace TypeName

variable (name : TypeName)

theorem isIdentifierPart_of_mem {ch : UInt8} (h : ch ∈ name.text) : isIdentifierPart ch = true := by
  rcases List.mem_cons.mp h with rfl | hrest
  · rw [isIdentifierPart, name.starts]
    rfl
  · exact name.parts ch hrest

theorem not_mem {ch : UInt8} (h : isIdentifierPart ch = false) : ch ∉ name.text := by
  intro hmem
  rw [name.isIdentifierPart_of_mem hmem] at h
  cases h

theorem getLast_ne {ch : UInt8} (h : isIdentifierPart ch = false) : name.text.getLast? ≠ some ch :=
  fun hlast => name.not_mem h (List.mem_of_getLast? hlast)

theorem isBuiltinType_text : isBuiltinType name.text = true ↔ name.text ∈ builtinTypes := by
  rw [isBuiltinType, if_neg (name.getLast_ne rfl), decide_eq_true_eq]

end TypeName

/-- In front of a `<` stands the base. -/
theorem baseTypeName_angle {head rest : Bytes} (h : byte '<' ∉ head) :
    baseTypeName (head ++ byte '<' :: rest) = head := by
  rw [baseTypeName, if_pos (List.mem_append_right _ List.mem_cons_self)]
  refine (List.takeWhile_append_of_pos fun ch hch => ?_).trans ?_
  · exact decide_eq_true fun heq => h (heq ▸ hch)
  · rw [List.takeWhile_cons_of_neg (by simp), List.append_nil]

theorem drop_two {text : Bytes} {a b : UInt8} : (text ++ [a, b]).drop ((text ++ [a, b]).length - 2) = [a, b] ∧
    (text ++ [a, b]).take ((text ++ [a, b]).length - 2) = text := by
  have hlength : (text ++ [a, b]).length - 2 = text.length := by simp
  rw [hlength, List.drop_left, List.take_left]
  exact ⟨rfl, rfl⟩

/-- What the last of the bytes is not. -/
theorem not_ends_of_getLast {text : Bytes} (h : text.getLast? ≠ some (byte ']')) :
    ¬ (2 ≤ text.length ∧ text.drop (text.length - 2) = ascii "[]") := by
  rintro ⟨-, hdrop⟩
  refine h ?_
  have hsplit := List.take_append_drop (text.length - 2) text
  rw [hdrop] at hsplit
  rw [← hsplit]
  exact List.getLast?_append_of_ne_nil _ (by decide)

theorem baseTypeName_name (name : TypeName) (array nullable : Bool) :
    baseTypeName (name.text ++ ((if array then ascii "[]" else []) ++ if nullable then ascii "?" else [])) =
      if array = true ∧ nullable = true then name.text ++ ascii "[]" else name.text := by
  have hangle : ∀ suffix : Bytes, byte '<' ∉ suffix → byte '<' ∉ name.text ++ suffix := by
    intro suffix hsuffix hmem
    rcases List.mem_append.mp hmem with hmem | hmem
    · exact name.not_mem rfl hmem
    · exact hsuffix hmem
  cases array with
  | false =>
    cases nullable with
    | false =>
      have hnone : byte '<' ∉ name.text := name.not_mem rfl
      simp only [List.append_nil, Bool.false_eq_true, and_self, if_false]
      rw [baseTypeName, if_neg hnone, if_neg (not_ends_of_getLast (name.getLast_ne rfl)),
        if_neg (name.getLast_ne rfl)]
    | true =>
      have hlast : (name.text ++ ascii "?").getLast? = some (byte '?') := List.getLast?_concat
      simp only [List.nil_append, Bool.false_eq_true, false_and, if_false,
        if_true]
      rw [baseTypeName, if_neg (hangle _ (by decide)),
        if_neg (not_ends_of_getLast (by rw [hlast]; decide)), if_pos hlast]
      exact List.dropLast_concat
  | true =>
    cases nullable with
    | false =>
      obtain ⟨hdrop, htake⟩ := @drop_two name.text (byte '[') (byte ']')
      simp only [List.append_nil, Bool.false_eq_true, and_false, if_false,
        if_true]
      rw [baseTypeName, if_neg (hangle _ (by decide)), if_pos ⟨by simp [ascii], hdrop⟩]
      exact htake
    | true =>
      have hassoc : name.text ++ (ascii "[]" ++ ascii "?") = name.text ++ ascii "[]" ++ ascii "?" :=
        (List.append_assoc _ _ _).symm
      have hlast : (name.text ++ ascii "[]" ++ ascii "?").getLast? = some (byte '?') := List.getLast?_concat
      simp only [if_true, and_self]
      rw [baseTypeName, if_neg (hangle _ (by decide)), hassoc,
        if_neg (not_ends_of_getLast (by rw [hlast]; decide)), if_pos hlast]
      exact List.dropLast_concat

/-! ## The table -/

/-- The table knows the names of all symbols, whichever of them it has kept. -/
theorem isSome_find_foldl {symbols table : SymbolTable} {diagnostics : Diagnostics} {name : Bytes} :
    ((symbols.foldl addSymbol (table, diagnostics)).1.find name).isSome = true ↔
      (table.find name).isSome = true ∨ name ∈ symbols.map Symbol.name := by
  induction symbols generalizing table diagnostics with
  | nil => simp
  | cons symbol rest ih =>
    rw [List.foldl_cons, ih, List.map_cons, List.mem_cons]
    have hinsert : ((addSymbol (table, diagnostics) symbol).1.find name).isSome = true ↔
        (table.find name).isSome = true ∨ name = symbol.name := by
      show ((table.insert symbol).1.find name).isSome = true ↔ _
      rw [SymbolTable.insert]
      split
      · rename_i hknown
        refine ⟨.inl, ?_⟩
        rintro (h | rfl)
        · exact h
        · exact hknown
      · simp only [SymbolTable.find, List.find?_isSome, List.mem_append, List.mem_singleton, decide_eq_true_eq]
        constructor
        · rintro ⟨other, hother | rfl, rfl⟩
          · exact .inl ⟨other, hother, rfl⟩
          · exact .inr rfl
        · rintro (⟨other, hother, rfl⟩ | rfl)
          · exact ⟨other, .inl hother, rfl⟩
          · exact ⟨symbol, .inr rfl, rfl⟩
    rw [hinsert, or_assoc]

/-- Something of the system has the name. -/
def Declared (system : SystemDecl) (name : Bytes) : Prop := name ∈ (declaredSymbols system).map Symbol.name

theorem isSome_find_iff {system : SystemDecl} {name : Bytes} :
    ((buildSymbolTable system).1.find name).isSome = true ↔ Declared system name := by
  rw [buildSymbolTable, isSome_find_foldl]
  exact ⟨fun h => h.resolve_left Bool.false_ne_true, .inr⟩

/-- The name of a type: built in, or of an entity, a value, an enum or a shape. -/
def Resolves (system : SystemDecl) (name : Bytes) : Prop :=
  name ∈ builtinTypes ∨ name ∈ system.entities.map EntityDecl.name ∨ name ∈ system.values.map ValueDecl.name ∨
    name ∈ system.enums.map EnumDecl.name ∨ name ∈ system.shapes.map ShapeDecl.name

theorem Resolves.builtin_or_declared {system : SystemDecl} {name : Bytes} (h : Resolves system name) :
    name ∈ builtinTypes ∨ Declared system name := by
  rcases h with h | h | h | h | h
  · exact .inl h
  all_goals
    right
    simp only [Declared, declaredSymbols, List.map_append, List.map_map, List.mem_append]
    simp only [Function.comp_def, h, true_or, or_true]

/-! ## The check -/

/-- The types about which the check is right: names in arguments are names of types, no other thing is taken for
    a type, and nothing that is one has `[]?` behind it. -/
def Checked (system : SystemDecl) (T : FieldType) : Prop :=
  match T.core with
  | .named name =>
    if T.array = true ∧ T.nullable = true then
      Declared system (name.text ++ ascii "[]") ↔ Resolves system name.text
    else Declared system name.text → Resolves system name.text
  | core => ∀ name ∈ core.names, Resolves system name

theorem clean_fieldType {system : SystemDecl} {field : FieldDecl} :
    Clean (validateFieldTypes [field] (buildSymbolTable system).1) ↔
      isBuiltinType (baseTypeName field.type) = true ∨ Declared system (baseTypeName field.type) := by
  rw [validateFieldTypes, List.flatMap_cons, List.flatMap_nil, List.append_nil, clean_reportIf,
    isKnownTypeReference, Bool.or_eq_false_iff, ← isSome_find_iff]
  simp only [not_clean_unknownReferenceError, imp_false, not_and, Bool.not_eq_false]
  cases isBuiltinType (baseTypeName field.type) with
  | false => simp
  | true => simp

/-- **The check of a type of the language is right about just these types.** -/
theorem fieldTypes_checked_iff {system : SystemDecl} {T : FieldType} {field : FieldDecl}
    (h : Builds T field.type) :
    (Clean (validateFieldTypes [field] (buildSymbolTable system).1) ↔
        ∀ name ∈ T.type.names, Resolves system name) ↔ Checked system T := by
  rw [clean_fieldType, h.eq, T.names_type]
  rcases core_cases T.bare with ⟨name, hcore⟩ | ⟨head, hbuiltin, hangle, ⟨rest, htext⟩, hnot⟩
  · have hchecked : Checked system T ↔ if T.array = true ∧ T.nullable = true then
        (Declared system (name.text ++ ascii "[]") ↔ Resolves system name.text)
        else Declared system name.text → Resolves system name.text := by
      rw [Checked, hcore]
    have hnames : (∀ n ∈ T.core.names, Resolves system n) ↔ Resolves system name.text := by
      rw [hcore]
      exact List.forall_mem_singleton
    have hbase : baseTypeName (textOf T.core.spelled ++ T.suffix) =
        if T.array = true ∧ T.nullable = true then name.text ++ ascii "[]" else name.text := by
      rw [hcore, FieldType.suffix, ← baseTypeName_name name T.array T.nullable]
      congr 2
      exact List.append_nil _
    rw [hchecked, hnames, hbase]
    split
    · -- `[]?`: no built-in type ends in `[]`
      have hnone : isBuiltinType (name.text ++ ascii "[]") = false := by
        have hlast : (name.text ++ ascii "[]").getLast? = some (byte ']') :=
          List.getLast?_append_of_ne_nil _ (by decide)
        rw [isBuiltinType, if_neg (by rw [hlast]; decide)]
        refine decide_eq_false fun hmem => ?_
        have hall : ∀ type ∈ builtinTypes, type.getLast? ≠ some (byte ']') := by decide
        exact hall _ hmem hlast
      rw [hnone]
      simp
    · rw [name.isBuiltinType_text]
      constructor
      · intro hiff hdeclared
        exact hiff.mp (.inr hdeclared)
      · intro himp
        refine ⟨?_, Resolves.builtin_or_declared⟩
        rintro (hmem | hdeclared)
        · exact .inl hmem
        · exact himp hdeclared
  · have hchecked : Checked system T ↔ ∀ name ∈ T.core.names, Resolves system name := by
      unfold Checked
      split
      · rename_i name hcore
        exact absurd hcore (hnot name)
      · exact Iff.rfl
    have hbase : baseTypeName (textOf T.core.spelled ++ T.suffix) = head := by
      rw [htext, List.append_assoc]
      exact baseTypeName_angle hangle
    have hclean : isBuiltinType head = true := by
      have hall : ∀ type ∈ builtinTypes, isBuiltinType type = true := by decide
      exact hall head hbuiltin
    rw [hchecked, hbase, hclean]
    simp

/-! ### Types that are built -/

set_option synthInstance.maxSize 4096

/-- What the lexer and `parse_type_name` make of the beginning of a text. -/
def readType (source : Bytes) : Option (List Diagnostic × Option (Bytes × List Diagnostic × List Spelling)) :=
  (lex source).map fun (tokens, diagnostics) =>
    (diagnostics, (parseTypeName ⟨tokens.length, tokens⟩ ⟨0, []⟩).result.map fun (type, c) =>
      (type, c.reports, (between tokens 0 c.current).map Token.spelling))

theorem builds_of_readType {source text : Bytes} {T : FieldType}
    (h : readType source = some ([], some (text, [], T.type.spelled))) : Builds T text := by
  obtain ⟨⟨tokens, diagnostics⟩, hlex, hread⟩ := Option.map_eq_some_iff.mp h
  obtain ⟨rfl, hresult⟩ := Prod.mk.inj hread
  obtain ⟨⟨type, c⟩, hparse, hspelled⟩ := Option.map_eq_some_iff.mp hresult
  obtain ⟨rfl, hrest⟩ := Prod.mk.inj hspelled
  obtain ⟨hquiet, hspelled⟩ := Prod.mk.inj hrest
  exact ⟨source, tokens, [], tokens.length, ⟨0, []⟩, c, hlex, rfl, hparse, hquiet, hspelled⟩

/-- `string`. -/
def stringName : TypeName := ⟨byte 's', ascii "tring", by decide, List.all_eq_true.mp (by decide)⟩

/-- `Missing`. -/
def missingName : TypeName := ⟨byte 'M', ascii "issing", by decide, List.all_eq_true.mp (by decide)⟩

/-- The list of strings. -/
def stringList : FieldType := ⟨.list (.named stringName), rfl, false, true⟩

/-- The list of what is not there. -/
def missingList : FieldType := ⟨.list (.named missingName), rfl, false, false⟩

theorem fieldTypes_checked_iff_strings :
    (Clean (validateFieldTypes [{ type := ascii "list<string>?" }] (buildSymbolTable {}).1) ↔
        ∀ name ∈ stringList.type.names, Resolves {} name) ↔ Checked {} stringList := by
  have hread : readType (ascii "list<string>?;") =
      some ([], some (ascii "list<string>?", [], stringList.type.spelled)) := by decide +kernel
  exact fieldTypes_checked_iff (builds_of_readType hread)

/-- A list of what is not there gets no error. -/
theorem missing_item_unreported : ∃ (system : SystemDecl) (T : FieldType) (field : FieldDecl),
    Builds T field.type ∧
      ¬ (Clean (validateFieldTypes [field] (buildSymbolTable system).1) ↔
        ∀ name ∈ T.type.names, Resolves system name) := by
  refine ⟨{}, missingList, { type := ascii "list<Missing>" }, ?_, fun hiff => ?_⟩
  · have hread : readType (ascii "list<Missing>;") =
        some ([], some (ascii "list<Missing>", [], missingList.type.spelled)) := by decide +kernel
    exact builds_of_readType hread
  · have hclean : Clean (validateFieldTypes [{ type := ascii "list<Missing>" }] (buildSymbolTable {}).1) := by
      decide +kernel
    have hresolves := hiff.mp hclean (ascii "Missing") (by decide +kernel)
    have hnot : ¬ Resolves {} (ascii "Missing") := by
      unfold Resolves
      decide +kernel
    exact hnot hresolves

end StateSpec.Compiler
