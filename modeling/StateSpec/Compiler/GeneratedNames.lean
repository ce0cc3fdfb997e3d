/-
  NAMES OF GENERATED CODE — `identifier_case.cpp`, `generator_entity_index_helpers.cpp` and the names of the
  constants in `generator_cpp_descriptor_support.cpp` and its siblings for Go and Rust.

  1. **Program** — `pascal_identifier` leaves out what is no letter or digit and writes the next one in upper case;
     `snake_identifier` writes all in lower case, with a `_` where a word begins.  So `line_1` and `line1` are one
     name in C++ and in Go, and `OrderLine` and `order_line` one in Rust.
  2. **Specification** — `SamePascal` and `SameSnake` compare the letters and digits of two names one by one
     (`letters`), and `GeneratedNamesApart` says of which pairs they must not hold.
  3. **Comparison** — what is the same in snake case is the same in pascal case (`SameSnake.samePascal`), so two
     names that differ in C++ differ in Rust.
  4. **Result** — `generatedNames_distinct_iff`.
-/
import StateSpec.Compiler.LoweredApis
import StateSpec.Compiler.Requiredness

namespace StateSpec.Compiler

/-! ## `identifier_case.cpp` -/

/-- The loop of `snake_identifier`. -/
def snakeFrom (empty previousWasSeparator : Bool) : Bytes → Bytes
  | [] => []
  | ch :: rest =>
    if isAlnum ch = false then
      if empty = false ∧ previousWasSeparator = false then byte '_' :: snakeFrom false true rest
      else snakeFrom empty true rest
    else if isUpper ch = true ∧ previousWasSeparator = false ∧ empty = false then
      byte '_' :: toLower ch :: snakeFrom false false rest
    else toLower ch :: snakeFrom false false rest

def snakeIdentifier (value fallback : Bytes) : Bytes :=
  if snakeFrom true true value = [] then fallback else snakeFrom true true value

def upperSnakeIdentifier (value fallback : Bytes) : Bytes :=
  match (snakeIdentifier value fallback).map toUpper with
  | [] => fallback
  | identifier => identifier

/-! ## The names -/

/-- `pascal_identifier(value)`. -/
def pascal (value : Bytes) : Bytes := pascalIdentifier value (ascii "GeneratedShape")

/-- `upper_snake_identifier(value)`. -/
def upperSnake (value : Bytes) : Bytes := upperSnakeIdentifier value (ascii "GENERATED_EVENT")

def indexNameSuffix (indexName : Bytes) : Bytes :=
  if (ascii "by_").length < indexName.length ∧ ascii "by_" <+: indexName then indexName.drop (ascii "by_").length
  else indexName

def entityIndexRepositoryMethodName (indexName : Bytes) : Bytes :=
  ascii "listBy" ++ pascalIdentifier (indexNameSuffix indexName) (ascii "Index") ++ ascii "Tx"

def goEntityIndexRepositoryMethodName (indexName : Bytes) : Bytes :=
  ascii "ListBy" ++ pascalIdentifier (indexNameSuffix indexName) (ascii "Index") ++ ascii "Tx"

def rustEntityIndexRepositoryMethodName (indexName : Bytes) : Bytes :=
  ascii "list_by_" ++ snakeIdentifier (indexNameSuffix indexName) (ascii "index") ++ ascii "_tx"

/-- A constant of an owner, in C++ and in Go. -/
def pascalConstant (front kind owner name : Bytes) : Bytes := front ++ pascal owner ++ kind ++ pascal name

/-- The second one of a name. -/
def pascalSecond (second front kind owner name : Bytes) :
    Bytes := pascalConstant front kind owner name ++ second

/-- A constant of an owner, in Rust. -/
def snakeConstant (kind owner name : Bytes) : Bytes := upperSnake (owner ++ kind ++ name)

def cppEntityFieldConstantName : Bytes → Bytes → Bytes := pascalConstant (ascii "k") (ascii "Field")
def cppEntityFieldTypeNameConstantName : Bytes → Bytes → Bytes :=
  pascalSecond (ascii "TypeName") (ascii "k") (ascii "Field")
def cppShapeFieldConstantName : Bytes → Bytes → Bytes := pascalConstant (ascii "k") (ascii "Field")
def cppShapeFieldTypeNameConstantName : Bytes → Bytes → Bytes :=
  pascalSecond (ascii "TypeName") (ascii "k") (ascii "Field")
def cppEntityIndexConstantName : Bytes → Bytes → Bytes := pascalConstant (ascii "k") (ascii "Index")
def cppEntityIndexHelperConstantName : Bytes → Bytes → Bytes :=
  pascalSecond (ascii "HelperName") (ascii "k") (ascii "Index")

def goEntityFieldConstantName : Bytes → Bytes → Bytes := pascalConstant [] (ascii "Field")
def goEntityFieldTypeNameConstantName :
    Bytes → Bytes → Bytes := pascalSecond (ascii "TypeName") [] (ascii "Field")
def goShapeFieldConstantName : Bytes → Bytes → Bytes := pascalConstant [] (ascii "Field")
def goShapeFieldTypeNameConstantName :
    Bytes → Bytes → Bytes := pascalSecond (ascii "TypeName") [] (ascii "Field")
def goEntityIndexConstantName : Bytes → Bytes → Bytes := pascalConstant [] (ascii "Index")
def goEntityIndexHelperConstantName :
    Bytes → Bytes → Bytes := pascalSecond (ascii "HelperName") [] (ascii "Index")

def rustEntityFieldConstantName : Bytes → Bytes → Bytes := snakeConstant (ascii "_field_")
def rustEntityFieldTypeNameConstantName (entity field : Bytes) : Bytes :=
  rustEntityFieldConstantName entity field ++ ascii "_TYPE_NAME"
def rustShapeFieldConstantName : Bytes → Bytes → Bytes := snakeConstant (ascii "_field_")
def rustShapeFieldTypeNameConstantName (shape field : Bytes) : Bytes :=
  rustShapeFieldConstantName shape field ++ ascii "_TYPE_NAME"
def rustEntityIndexConstantName : Bytes → Bytes → Bytes := snakeConstant (ascii "_index_")
def rustEntityIndexHelperConstantName (entity index : Bytes) : Bytes :=
  snakeConstant (ascii "_index_") entity (index ++ ascii "_helper_name")

/-- The names that the generator of a language makes. -/
structure Naming where
  entityField : Bytes → Bytes → Bytes
  entityFieldType : Bytes → Bytes → Bytes
  shapeField : Bytes → Bytes → Bytes
  shapeFieldType : Bytes → Bytes → Bytes
  index : Bytes → Bytes → Bytes
  indexHelper : Bytes → Bytes → Bytes
  method : Bytes → Bytes

def cppNaming : Naming where
  entityField := cppEntityFieldConstantName
  entityFieldType := cppEntityFieldTypeNameConstantName
  shapeField := cppShapeFieldConstantName
  shapeFieldType := cppShapeFieldTypeNameConstantName
  index := cppEntityIndexConstantName
  indexHelper := cppEntityIndexHelperConstantName
  method := entityIndexRepositoryMethodName

def goNaming : Naming where
  entityField := goEntityFieldConstantName
  entityFieldType := goEntityFieldTypeNameConstantName
  shapeField := goShapeFieldConstantName
  shapeFieldType := goShapeFieldTypeNameConstantName
  index := goEntityIndexConstantName
  indexHelper := goEntityIndexHelperConstantName
  method := goEntityIndexRepositoryMethodName

def rustNaming : Naming where
  entityField := rustEntityFieldConstantName
  entityFieldType := rustEntityFieldTypeNameConstantName
  shapeField := rustShapeFieldConstantName
  shapeFieldType := rustShapeFieldTypeNameConstantName
  index := rustEntityIndexConstantName
  indexHelper := rustEntityIndexHelperConstantName
  method := rustEntityIndexRepositoryMethodName

/-- The constants of some names: of each its name, and a second one. -/
def constantNames (constant second : Bytes → Bytes) (names : List Bytes) : List Bytes :=
  names.flatMap fun name => [constant name, second name]

/-- A language defines no name twice. -/
structure DistinctFor (ir : IrSystem) (naming : Naming) : Prop where
  entityFields : ∀ entity ∈ ir.entities, (constantNames (naming.entityField entity.name)
    (naming.entityFieldType entity.name) (entity.fields.map IrField.name)).Nodup
  shapeFields : ∀ shape ∈ ir.shapes, (constantNames (naming.shapeField shape.name)
    (naming.shapeFieldType shape.name) (shape.fields.map IrField.name)).Nodup
  indexes : ∀ entity ∈ ir.entities, (constantNames (naming.index entity.name)
    (naming.indexHelper entity.name) (entity.indexes.map IrIndex.name)).Nodup
  methods : ∀ entity ∈ ir.entities, (entity.indexes.map fun index => naming.method index.name).Nodup

/-- **Generated identifiers do not collide.** -/
structure GeneratedNamesDistinct (ir : IrSystem) : Prop where
  namespaces : (ir.entities.map fun entity => snakeIdentifier entity.name (ascii "generated_event")).Nodup
  languages : ∀ naming ∈ [cppNaming, goNaming, rustNaming], DistinctFor ir naming

/-! ## Specification -/

/-- The letters and digits of a name, each with whether it stands at the beginning of a word. -/
def letters (begins : Bool) : Bytes → List (Bool × UInt8)
  | [] => []
  | ch :: rest => if isAlnum ch = false then letters true rest else (begins, ch) :: letters false rest

/-- Letters that are the same when those that begin a word are in upper case. -/
def SameLetter : Bool × UInt8 → Bool × UInt8 → Prop
  | (true, ch), (true, ch') => toUpper ch = toUpper ch'
  | (true, ch), (false, ch') => toUpper ch = ch'
  | (false, ch), (true, ch') => ch = toUpper ch'
  | (false, ch), (false, ch') => ch = ch'

/-- Letters that are the same up to their case, and begin a word both or neither, where one in upper case always
    does. -/
def SameWordLetter (letter other : Bool × UInt8) : Prop :=
  toLower letter.2 = toLower other.2 ∧ (letter.1 || isUpper letter.2) = (other.1 || isUpper other.2)

def SamePascal (name other : Bytes) : Prop := List.Forall₂ SameLetter (letters true name) (letters true other)

/-- The name ends with what is no letter or digit. -/
def endsApart (name : Bytes) : Bool := name.getLast?.any fun ch => !isAlnum ch

def SameSnake (name other : Bytes) : Prop :=
  List.Forall₂ SameWordLetter (letters true name) (letters true other) ∧
    (letters true name ≠ [] → endsApart name = endsApart other)

/-- A name without letters and digits stands for the fallback. -/
def lettered (fallback name : Bytes) : Bytes := if letters true name = [] then fallback else name

/-- What a constant is named after. -/
abbrev constantWord (name : Bytes) : Bytes := lettered (ascii "GeneratedShape") name

/-- What the method of an index is named after. -/
abbrev methodWord (name : Bytes) : Bytes := lettered (ascii "Index") (indexNameSuffix name)

/-- No two of the names are one constant, and none is the second constant of another. -/
structure ConstantsApart (second : Bytes) (names : List Bytes) : Prop where
  apart : names.Pairwise fun name other => ¬ SamePascal (constantWord name) (constantWord other)
  seconds : ∀ name ∈ names, ∀ other ∈ names, ¬ SamePascal (constantWord name) (constantWord other ++ second)

/-- The names of an entity's indexes, and what is left of them for the methods. -/
structure IndexesApart (names : List Bytes) : Prop where
  constants : ConstantsApart (ascii "_helper_name") names
  -- in Rust the helper of an index without letters has the name of an index `helper_name`
  helpers : ∀ name ∈ names, ∀ other ∈ names, letters true other = [] →
    ¬ SameSnake name (other ++ ascii "_helper_name")
  methods : names.Pairwise fun name other => ¬ SamePascal (methodWord name) (methodWord other)

/-- The names of a system stay apart in generated code. -/
structure GeneratedNamesApart (ir : IrSystem) : Prop where
  entities : (ir.entities.map fun entity => lettered (ascii "generated_event") entity.name).Pairwise
    fun name other => ¬ SameSnake name other
  entityFields : ∀ entity ∈ ir.entities, ConstantsApart (ascii "_type_name") (entity.fields.map IrField.name)
  shapeFields : ∀ shape ∈ ir.shapes, ConstantsApart (ascii "_type_name") (shape.fields.map IrField.name)
  indexes : ∀ entity ∈ ir.entities, IndexesApart (entity.indexes.map IrIndex.name)

/-! ## Letters of names -/

theorem letters_append_apart (begins : Bool) (front rest : Bytes) :
    letters begins (front ++ byte '_' :: rest) = letters begins front ++ letters true rest := by
  induction front generalizing begins with
  | nil => rfl
  | cons ch front ih =>
    rw [List.cons_append, letters, letters]
    split
    · exact ih true
    · rw [ih false, List.cons_append]

theorem alnum_of_letters {begins : Bool} {name : Bytes} :
    ∀ letter ∈ letters begins name, isAlnum letter.2 = true := by
  induction name generalizing begins with
  | nil => exact nofun
  | cons ch name ih =>
    rw [letters]
    split
    · exact ih
    · rename_i halnum
      intro letter hletter
      rcases List.mem_cons.mp hletter with rfl | hletter
      · exact Bool.eq_true_of_not_eq_false halnum
      · exact ih letter hletter

/-- A letter as it stands in pascal case. -/
def capital (letter : Bool × UInt8) : UInt8 := if letter.1 then toUpper letter.2 else letter.2

theorem sameLetter_iff {letter other : Bool × UInt8} :
    SameLetter letter other ↔ capital letter = capital other := by
  obtain ⟨begins, ch⟩ := letter
  obtain ⟨begins', ch'⟩ := other
  cases begins <;> cases begins' <;> exact Iff.rfl

theorem pascalFrom_letters (begins : Bool) (name : Bytes) :
    pascalFrom begins name = (letters begins name).map capital := by
  induction name generalizing begins with
  | nil => rfl
  | cons ch name ih =>
    rw [pascalFrom, letters]
    split
    · exact ih true
    · rw [ih false]
      rfl

theorem samePascal_iff {name other : Bytes} :
    SamePascal name other ↔ pascalFrom true name = pascalFrom true other := by
  rw [pascalFrom_letters, pascalFrom_letters, SamePascal]
  have hiff : SameLetter = fun letter other => capital letter = capital other := by
    funext letter other
    exact propext sameLetter_iff
  rw [hiff, ← List.forall₂_eq_eq_eq, List.forall₂_map_left_iff, List.forall₂_map_right_iff]

theorem pascalIdentifier_lettered {fallback : Bytes} (hfallback : pascalFrom true fallback = fallback)
    (name : Bytes) : pascalIdentifier name fallback = pascalFrom true (lettered fallback name) := by
  rw [pascalIdentifier, lettered]
  by_cases hnone : letters true name = []
  · rw [if_pos (by rw [pascalFrom_letters, hnone, List.map_nil]), if_pos hnone, hfallback]
  · rw [if_neg (by rwa [pascalFrom_letters, List.map_eq_nil_iff]), if_neg hnone]

theorem pascal_eq (name : Bytes) : pascal name = pascalFrom true (constantWord name) :=
  pascalIdentifier_lettered (by decide) name

/-! ## Snake case -/

/-- A letter as it stands in snake case. -/
def wordPiece (letter : Bool × UInt8) : Bytes :=
  if (letter.1 || isUpper letter.2) = true then [byte '_', toLower letter.2] else [toLower letter.2]

def wordText (word : List (Bool × UInt8)) : Bytes := word.flatMap wordPiece

theorem wordText_cons (letter : Bool × UInt8) (word : List (Bool × UInt8)) :
    wordText (letter :: word) = wordPiece letter ++ wordText word := List.flatMap_cons

/-- What stands behind the last letter. -/
def wordTail (name : Bytes) : Bytes := if endsApart name = true then [byte '_'] else []

theorem endsApart_cons {ch : UInt8} {rest : Bytes} (h : rest ≠ []) :
    endsApart (ch :: rest) = endsApart rest := by
  rw [endsApart, endsApart, List.getLast?_cons_of_ne_nil h]

theorem wordTail_letter {ch : UInt8} (h : isAlnum ch = true) (rest : Bytes) :
    wordTail (ch :: rest) = wordTail rest := by
  cases rest with
  | nil =>
    have hnot : endsApart [ch] = false := by
      show (!isAlnum ch) = false
      rw [h]
      rfl
    rw [wordTail, hnot]
    rfl
  | cons next rest => rw [wordTail, wordTail, endsApart_cons (List.cons_ne_nil _ _)]

/-- A name without letters ends with what is none. -/
theorem endsApart_of_no_letters {begins : Bool} {name : Bytes} (hnone : letters begins name = [])
    (hne : name ≠ []) : endsApart name = true := by
  induction name generalizing begins with
  | nil => exact absurd rfl hne
  | cons ch rest ih =>
    rw [letters] at hnone
    split at hnone
    · rename_i hapart
      cases rest with
      | nil =>
        show (!isAlnum ch) = true
        rw [hapart]
        rfl
      | cons next rest =>
        rw [endsApart_cons (List.cons_ne_nil _ _)]
        exact ih hnone (List.cons_ne_nil _ _)
    · cases hnone

/-- Behind a separator it does not matter whether there is a text yet. -/
theorem snakeFrom_apart (empty : Bool) (name : Bytes) :
    snakeFrom empty true name = snakeFrom true true name := by
  induction name with
  | nil => rfl
  | cons ch rest ih =>
    rw [snakeFrom, snakeFrom]
    split
    · rw [if_neg (fun h => Bool.noConfusion h.2), if_neg (fun h => Bool.noConfusion h.2)]
      exact ih
    · rw [if_neg (fun h => Bool.noConfusion h.2.1), if_neg (fun h => Bool.noConfusion h.2.1)]

/-- The text behind a letter, and behind a separator, where its `_` has been written. -/
theorem snakeFrom_letters (name : Bytes) :
    snakeFrom false false name = wordText (letters false name) ++ wordTail name ∧
      (letters true name = [] → snakeFrom true true name = []) ∧
      (letters true name ≠ [] →
        byte '_' :: snakeFrom true true name = wordText (letters true name) ++ wordTail name) := by
  induction name with
  | nil => exact ⟨rfl, fun _ => rfl, fun h => absurd rfl h⟩
  | cons ch rest ih =>
    obtain ⟨ihfalse, ihnone, ihsome⟩ := ih
    by_cases halnum : isAlnum ch = false
    · have hletters : ∀ begins, letters begins (ch :: rest) = letters true rest := fun begins => if_pos halnum
      have htrue : snakeFrom true true (ch :: rest) = snakeFrom true true rest := by
        rw [snakeFrom, if_pos halnum, if_neg (fun h => Bool.noConfusion h.2)]
      rw [hletters, hletters, htrue, snakeFrom, if_pos halnum, if_pos ⟨rfl, rfl⟩, snakeFrom_apart]
      by_cases hnone : letters true rest = []
      · have hends : wordTail (ch :: rest) = [byte '_'] := if_pos (by
          refine @endsApart_of_no_letters true _ ?_ (List.cons_ne_nil _ _)
          rw [hletters, hnone])
        rw [ihnone hnone, hnone, hends]
        exact ⟨rfl, fun _ => rfl, fun h => absurd rfl h⟩
      · have hrest : rest ≠ [] := by
          rintro rfl
          exact hnone rfl
        have hends : wordTail (ch :: rest) = wordTail rest := by rw [wordTail, wordTail, endsApart_cons hrest]
        rw [hends, ihsome hnone]
        exact ⟨rfl, fun h => absurd h hnone, fun _ => rfl⟩
    · have hletter : isAlnum ch = true := Bool.eq_true_of_not_eq_false halnum
      have hletters : ∀ begins, letters begins (ch :: rest) = (begins, ch) :: letters false rest :=
        fun begins => if_neg halnum
      rw [hletters, hletters, wordTail_letter hletter]
      refine ⟨?_, nofun, fun _ => ?_⟩
      · rw [snakeFrom, if_neg halnum, ihfalse, wordText_cons, wordPiece]
        by_cases hupper : isUpper ch = true
        · rw [if_pos ⟨hupper, rfl, rfl⟩, if_pos (by rw [hupper]; rfl)]
          rfl
        · rw [if_neg (fun h => hupper h.1), if_neg (by simpa using hupper)]
          rfl
      · rw [snakeFrom, if_neg halnum, if_neg (fun h => Bool.noConfusion h.2.1), ihfalse, wordText_cons,
          wordPiece, if_pos (by rfl)]
        rfl

theorem toLower_ne_underscore {ch : UInt8} (h : isAlnum ch = true) : toLower ch ≠ byte '_' :=
  @forall_byte (fun ch => isAlnum ch = true → toLower ch ≠ byte '_') (by decide +kernel) ch h

/-- **The text says what the letters are**, and what stands behind them. -/
theorem wordText_inj {word other : List (Bool × UInt8)} (hword : ∀ letter ∈ word, isAlnum letter.2 = true)
    (hother : ∀ letter ∈ other, isAlnum letter.2 = true) {name name' : Bytes}
    (h : wordText word ++ wordTail name = wordText other ++ wordTail name') :
    List.Forall₂ SameWordLetter word other ∧ wordTail name = wordTail name' := by
  -- behind the last letter is at most a `_`, and a letter is none
  have hends : ∀ {letter : Bool × UInt8} {rest : List (Bool × UInt8)} {tail : Bytes} (some : Bytes),
      isAlnum letter.2 = true → wordTail some ≠ wordText (letter :: rest) ++ tail := by
    intro letter rest tail some halnum heq
    have hne := toLower_ne_underscore halnum
    rw [wordText_cons, wordPiece, wordTail] at heq
    split at heq <;> split at heq
    · exact absurd (List.cons.inj heq).2.symm (List.cons_ne_nil _ _)
    · exact hne (List.cons.inj heq).1.symm
    · cases heq
    · cases heq
  induction word generalizing other with
  | nil =>
    cases other with
    | nil => exact ⟨.nil, h⟩
    | cons letter other => exact absurd h (hends name (hother letter List.mem_cons_self))
  | cons letter word ih =>
    cases other with
    | nil => exact absurd h.symm (hends name' (hword letter List.mem_cons_self))
    | cons letter' other =>
      have hne := toLower_ne_underscore (hword letter List.mem_cons_self)
      have hne' := toLower_ne_underscore (hother letter' List.mem_cons_self)
      have hmember : ∀ l ∈ other, isAlnum l.2 = true := fun l hl => hother l (List.mem_cons_of_mem _ hl)
      have hrest := ih (fun l hl => hword l (List.mem_cons_of_mem _ hl)) hmember
      rw [wordText_cons, wordText_cons, wordPiece, wordPiece] at h
      split at h <;> split at h <;> rename_i hbegins hbegins'
      · obtain ⟨hsame, hmore⟩ := List.cons.inj (List.cons.inj h).2
        obtain ⟨hforall, htail⟩ := hrest hmore
        exact ⟨.cons ⟨hsame, hbegins.trans hbegins'.symm⟩ hforall, htail⟩
      · exact absurd (List.cons.inj h).1.symm hne'
      · exact absurd (List.cons.inj h).1 hne
      · obtain ⟨hsame, hmore⟩ := List.cons.inj h
        obtain ⟨hforall, htail⟩ := hrest hmore
        rw [Bool.not_eq_true] at hbegins hbegins'
        exact ⟨.cons ⟨hsame, hbegins.trans hbegins'.symm⟩ hforall, htail⟩

theorem wordText_same {word other : List (Bool × UInt8)} (h : List.Forall₂ SameWordLetter word other) :
    wordText word = wordText other := by
  induction h with
  | nil => rfl
  | cons hletter _ ih => rw [wordText_cons, wordText_cons, ih, wordPiece, wordPiece, hletter.1, hletter.2]

theorem wordTail_same {name other : Bytes} :
    wordTail name = wordTail other ↔ endsApart name = endsApart other := by
  rw [wordTail, wordTail]
  cases endsApart name <;> cases endsApart other <;> decide

/-- Snake case tells names apart by `SameSnake`. -/
theorem sameSnake_iff {name other : Bytes} :
    snakeFrom true true name = snakeFrom true true other ↔ SameSnake name other := by
  obtain ⟨-, hnone, hsome⟩ := snakeFrom_letters name
  obtain ⟨-, hnone', hsome'⟩ := snakeFrom_letters other
  -- a text with letters is not empty
  have hlettered : ∀ {letters : List (Bool × UInt8)} {text tail : Bytes}, letters ≠ [] →
      byte '_' :: text = wordText letters ++ tail → (∀ letter ∈ letters, isAlnum letter.2 = true) → text ≠ [] := by
    rintro (_ | ⟨letter, rest⟩) text tail hne htext halnum rfl
    · exact hne rfl
    · rw [wordText_cons, wordPiece] at htext
      split at htext
      · exact absurd (List.cons.inj htext).2.symm (List.cons_ne_nil _ _)
      · exact toLower_ne_underscore (halnum letter List.mem_cons_self) (List.cons.inj htext).1.symm
  by_cases hname : letters true name = [] <;> by_cases hother : letters true other = []
  · rw [hnone hname, hnone' hother, SameSnake, hname, hother]
    exact ⟨fun _ => ⟨.nil, fun h => absurd rfl h⟩, fun _ => rfl⟩
  · rw [hnone hname, SameSnake, hname]
    constructor
    · exact fun h => absurd h.symm (hlettered hother (hsome' hother) alnum_of_letters)
    · rintro ⟨hforall, -⟩
      exact absurd (List.forall₂_nil_left_iff.mp hforall) hother
  · rw [hnone' hother, SameSnake, hother]
    constructor
    · exact fun h => absurd h (hlettered hname (hsome hname) alnum_of_letters)
    · rintro ⟨hforall, -⟩
      exact absurd (List.forall₂_nil_right_iff.mp hforall) hname
  · rw [← List.cons_inj_right (byte '_'), hsome hname, hsome' hother, SameSnake]
    constructor
    · intro h
      obtain ⟨hforall, htail⟩ := wordText_inj alnum_of_letters alnum_of_letters h
      exact ⟨hforall, fun _ => wordTail_same.mp htail⟩
    · rintro ⟨hforall, htail⟩
      rw [wordText_same hforall, wordTail_same.mpr (htail hname)]

/-- Pascal case of what is in snake case, at the beginning of a word and within one. -/
theorem pascalFrom_snakeFrom (name : Bytes) :
    pascalFrom true (snakeFrom true true name) = pascalFrom true name ∧
    pascalFrom false (snakeFrom false false name) = pascalFrom false name := by
  have hbyte : ∀ ch : UInt8, isAlnum ch = true → isAlnum (toLower ch) = true ∧
      toUpper (toLower ch) = toUpper ch ∧ (isUpper ch = true → toUpper ch = ch) ∧
      (isUpper ch = false → toLower ch = ch) :=
    forall_byte (by decide +kernel)
  induction name with
  | nil => exact ⟨rfl, rfl⟩
  | cons ch rest ih =>
    obtain ⟨ihtrue, ihfalse⟩ := ih
    by_cases halnum : isAlnum ch = false
    · have hpascal : ∀ upperNext, pascalFrom upperNext (ch :: rest) = pascalFrom true rest :=
        fun upperNext => if_pos halnum
      have htrue : snakeFrom true true (ch :: rest) = snakeFrom true true rest := by
        rw [snakeFrom, if_pos halnum, if_neg (fun h => Bool.noConfusion h.2)]
      have hfalse : snakeFrom false false (ch :: rest) = byte '_' :: snakeFrom true true rest := by
        rw [snakeFrom, if_pos halnum, if_pos ⟨rfl, rfl⟩, snakeFrom_apart]
      rw [hpascal, hpascal, htrue, hfalse, pascalFrom, if_pos (by decide)]
      exact ⟨ihtrue, ihtrue⟩
    · obtain ⟨hlower, hupper, hsame, hsame'⟩ := hbyte ch (Bool.eq_true_of_not_eq_false halnum)
      have hletter : ∀ upperNext, pascalFrom upperNext (toLower ch :: snakeFrom false false rest) =
          (if upperNext then toUpper ch else toLower ch) :: pascalFrom false rest := by
        intro upperNext
        rw [pascalFrom, if_neg (by rw [hlower]; exact Bool.noConfusion), hupper, ihfalse]
      rw [snakeFrom, if_neg halnum, if_neg (fun h => Bool.noConfusion h.2.1), hletter, pascalFrom, if_neg halnum,
        pascalFrom, if_neg halnum, snakeFrom, if_neg halnum]
      refine ⟨rfl, ?_⟩
      by_cases his : isUpper ch = true
      · rw [if_pos ⟨his, rfl, rfl⟩, pascalFrom, if_pos (by decide), hletter, if_pos rfl, hsame his]
        rfl
      · rw [if_neg (fun h => his h.1), hletter, if_neg Bool.false_ne_true, hsame' (Bool.eq_false_of_not_eq_true his)]
        rfl

/-- **What is the same in snake case is the same in pascal case.** -/
theorem SameSnake.samePascal {name other : Bytes} (h : SameSnake name other) : SamePascal name other := by
  rw [samePascal_iff, ← (pascalFrom_snakeFrom name).1, sameSnake_iff.mpr h]
  exact (pascalFrom_snakeFrom other).1

/-! ## Composed names -/

theorem pascalFrom_append_apart (begins : Bool) (front rest : Bytes) :
    pascalFrom begins (front ++ byte '_' :: rest) = pascalFrom begins front ++ pascalFrom true rest := by
  rw [pascalFrom_letters, pascalFrom_letters, pascalFrom_letters, letters_append_apart, List.map_append]

theorem snakeFrom_append_apart (empty previousWasSeparator : Bool) (front rest : Bytes) :
    snakeFrom empty previousWasSeparator (front ++ byte '_' :: rest) =
      snakeFrom empty previousWasSeparator (front ++ [byte '_']) ++ snakeFrom true true rest := by
  induction front generalizing empty previousWasSeparator with
  | nil =>
    show snakeFrom empty previousWasSeparator (byte '_' :: rest) =
      snakeFrom empty previousWasSeparator [byte '_'] ++ _
    have hapart : isAlnum (byte '_') = false := by decide
    rw [snakeFrom, snakeFrom, if_pos hapart, if_pos hapart, snakeFrom_apart, snakeFrom_apart]
    by_cases hpush : empty = false ∧ previousWasSeparator = false
    · rw [if_pos hpush, if_pos hpush]
      rfl
    · rw [if_neg hpush, if_neg hpush]
      exact snakeFrom_apart empty rest
  | cons ch front ih =>
    rw [List.cons_append, List.cons_append, snakeFrom, snakeFrom]
    split
    · split
      · rw [ih, List.cons_append]
      · exact ih _ _
    · split
      · rw [ih, List.cons_append, List.cons_append]
      · rw [ih, List.cons_append]

/-- A text in snake case can be read off the one in upper case. -/
theorem lower_upperSnake (empty previousWasSeparator : Bool) (name : Bytes) :
    ((snakeFrom empty previousWasSeparator name).map toUpper).map toLower =
      snakeFrom empty previousWasSeparator name := by
  have hbyte : ∀ ch : UInt8, toLower (toUpper (toLower ch)) = toLower ch := forall_byte (by decide +kernel)
  have hunderscore : toLower (toUpper (byte '_')) = byte '_' := by decide
  induction name generalizing empty previousWasSeparator with
  | nil => rfl
  | cons ch rest ih =>
    rw [snakeFrom]
    split
    · split
      · rw [List.map_cons, List.map_cons, hunderscore, ih]
      · exact ih _ _
    · split
      · rw [List.map_cons, List.map_cons, List.map_cons, List.map_cons, hunderscore, hbyte, ih]
      · rw [List.map_cons, List.map_cons, hbyte, ih]

theorem snakeFrom_head (name rest : Bytes) : snakeFrom true true name ≠ byte '_' :: rest := by
  induction name with
  | nil => exact (List.cons_ne_nil _ _).symm
  | cons ch name ih =>
    rw [snakeFrom]
    split
    · rw [if_neg (fun h => Bool.noConfusion h.2)]
      exact ih
    · rename_i halnum
      rw [if_neg (fun h => Bool.noConfusion h.2.1)]
      exact fun h => toLower_ne_underscore (Bool.eq_true_of_not_eq_false halnum) (List.cons.inj h).1

/-- Names that are the same stay so with their fallbacks. -/
theorem samePascal_lettered {name other fallback fallback' : Bytes}
    (hfallback : pascalFrom true fallback = pascalFrom true fallback') (h : SamePascal name other) :
    SamePascal (lettered fallback name) (lettered fallback' other) := by
  have hnone : letters true name = [] ↔ letters true other = [] := by
    rw [← List.length_eq_zero_iff, ← List.length_eq_zero_iff, List.Forall₂.length_eq h]
  rw [lettered, lettered]
  by_cases hname : letters true name = []
  · rw [if_pos hname, if_pos (hnone.mp hname), samePascal_iff]
    exact hfallback
  · rw [if_neg hname, if_neg (fun hother => hname (hnone.mpr hother))]
    exact h

theorem lettered_eq {fallback name : Bytes} (h : pascalFrom true name ≠ []) :
    lettered fallback name = name := by
  rw [pascalFrom_letters] at h
  exact if_neg fun hnone => h (by rw [hnone]; rfl)

/-- Two constants for each name: when all of them are different. -/
theorem nodup_constantNames {constant second : Bytes → Bytes} {names : List Bytes} :
    (constantNames constant second names).Nodup ↔
      names.Pairwise (fun name other => constant name ≠ constant other ∧ second name ≠ second other) ∧
        ∀ name ∈ names, ∀ other ∈ names, constant name ≠ second other := by
  rw [constantNames, List.nodup_flatMap]
  have hpair : ∀ name, [constant name, second name].Nodup ↔ constant name ≠ second name := by
    intro name
    simp
  have hdisjoint : ∀ name other, List.Disjoint [constant name, second name] [constant other, second other] ↔
      (constant name ≠ constant other ∧ second name ≠ second other) ∧
        (constant name ≠ second other ∧ constant other ≠ second name) := by
    intro name other
    simp only [List.disjoint_cons_left, List.mem_cons, List.not_mem_nil, or_false, not_or,
      List.disjoint_nil_left, and_true]
    constructor
    · rintro ⟨⟨hconstants, hcross⟩, hcross', hseconds⟩
      exact ⟨⟨hconstants, hseconds⟩, hcross, Ne.symm hcross'⟩
    · rintro ⟨⟨hconstants, hseconds⟩, hcross, hcross'⟩
      exact ⟨⟨hconstants, hcross⟩, Ne.symm hcross', hseconds⟩
  constructor
  · rintro ⟨hself, happart⟩
    have hall := happart.imp fun h => (hdisjoint _ _).mp h
    refine ⟨hall.imp fun h => h.1, ?_⟩
    have hsymmetric : ∀ name ∈ names, ∀ other ∈ names,
        constant name ≠ second other ∧ constant other ≠ second name := by
      have hown : ∀ name ∈ names, constant name ≠ second name ∧ constant name ≠ second name :=
        fun name hname => ⟨(hpair name).mp (hself name hname), (hpair name).mp (hself name hname)⟩
      intro name hname other hother
      exact List.Pairwise.forall_of_forall_of_flip hown (hall.imp fun h => h.2) (hall.imp fun h => h.2.symm)
        hname hother
    exact fun name hname other hother => (hsymmetric name hname other hother).1
  · rintro ⟨happart, hseconds⟩
    refine ⟨fun name hname => (hpair name).mpr (hseconds name hname name hname), ?_⟩
    refine List.Pairwise.imp_of_mem (fun hname hother h => (hdisjoint _ _).mpr ⟨h, ?_⟩) happart
    exact ⟨hseconds _ hname _ hother, hseconds _ hother _ hname⟩

/-! ## The languages -/

section

variable {names : List Bytes}

theorem pascalConstant_inj {front kind owner name other : Bytes} :
    pascalConstant front kind owner name = pascalConstant front kind owner other ↔
      SamePascal (constantWord name) (constantWord other) := by
  rw [pascalConstant, pascalConstant, List.append_cancel_left_eq, pascal_eq, pascal_eq, samePascal_iff]

/-- **The constants of C++ and of Go.** -/
theorem pascalConstants_iff {second word front kind owner : Bytes} (hsecond : pascalFrom true word = second) :
    (constantNames (pascalConstant front kind owner) (pascalSecond second front kind owner) names).Nodup ↔
      ConstantsApart (byte '_' :: word) names := by
  have hne : ∀ name other, pascalConstant front kind owner name ≠ pascalSecond second front kind owner other ↔
      ¬ SamePascal (constantWord name) (constantWord other ++ byte '_' :: word) := by
    intro name other
    rw [pascalSecond, pascalConstant, pascalConstant, List.append_assoc _ (pascal other), Ne,
      List.append_cancel_left_eq, pascal_eq, pascal_eq, samePascal_iff, pascalFrom_append_apart, hsecond]
  rw [nodup_constantNames]
  constructor
  · rintro ⟨hnames, hseconds⟩
    refine ⟨hnames.imp fun h => ?_, fun name hname other hother => (hne _ _).mp (hseconds name hname other hother)⟩
    rw [← pascalConstant_inj]
    exact h.1
  · rintro ⟨hnames, hseconds⟩
    refine ⟨hnames.imp fun h => ?_, fun name hname other hother => (hne _ _).mpr (hseconds name hname other hother)⟩
    rw [← @pascalConstant_inj front kind owner] at h
    refine ⟨h, fun hsame => h ?_⟩
    rw [pascalSecond, pascalSecond] at hsame
    exact List.append_cancel_right hsame

end

section

variable {names : List Bytes} {word owner name other : Bytes}

theorem snakeFrom_ne_nil (h : pascalFrom true name ≠ []) : snakeFrom true true name ≠ [] := by
  intro hnone
  rw [← (pascalFrom_snakeFrom name).1, hnone] at h
  exact h rfl

theorem upperSnake_eq (h : snakeFrom true true name ≠ []) :
    upperSnake name = (snakeFrom true true name).map toUpper := by
  rw [upperSnake, upperSnakeIdentifier, snakeIdentifier, if_neg h]
  cases htext : snakeFrom true true name with
  | nil => exact absurd htext h
  | cons ch rest => rfl

/-- What stands in front of the name in a constant of Rust. -/
def snakeFront (word owner : Bytes) : Bytes :=
  (snakeFrom true true ((owner ++ byte '_' :: word) ++ [byte '_'])).map toUpper

theorem snakeConstant_eq (hword : pascalFrom true word ≠ []) (owner name : Bytes) :
    snakeConstant (byte '_' :: (word ++ [byte '_'])) owner name =
      snakeFront word owner ++ (snakeFrom true true name).map toUpper := by
  have htext : owner ++ byte '_' :: (word ++ [byte '_']) ++ name =
      (owner ++ byte '_' :: word) ++ byte '_' :: name := by
    simp only [List.append_assoc, List.cons_append, List.nil_append]
  have hsome : snakeFrom true true ((owner ++ byte '_' :: word) ++ byte '_' :: name) ≠ [] := by
    refine snakeFrom_ne_nil ?_
    rw [pascalFrom_append_apart, pascalFrom_append_apart]
    exact List.append_ne_nil_of_left_ne_nil (List.append_ne_nil_of_right_ne_nil _ hword) _
  rw [snakeConstant, htext, upperSnake_eq hsome, snakeFrom_append_apart, List.map_append, snakeFront]

/-- Upper case takes nothing away from snake case. -/
theorem upper_inj {rest rest' : Bytes}
    (h : (snakeFrom true true name).map toUpper = (snakeFrom true true other).map toUpper ++ rest)
    (hrest : rest.map toLower = rest') : snakeFrom true true name = snakeFrom true true other ++ rest' := by
  have hlower := congrArg (List.map toLower) h
  rwa [lower_upperSnake, List.map_append, lower_upperSnake, hrest] at hlower

theorem snakeConstant_inj (hword : pascalFrom true word ≠ []) :
    snakeConstant (byte '_' :: (word ++ [byte '_'])) owner name =
      snakeConstant (byte '_' :: (word ++ [byte '_'])) owner other ↔ SameSnake name other := by
  rw [snakeConstant_eq hword, snakeConstant_eq hword, List.append_cancel_left_eq, ← sameSnake_iff]
  constructor
  · intro h
    rw [← List.append_nil (snakeFrom true true other)]
    exact upper_inj (by rw [List.append_nil]; exact h) rfl
  · intro h
    rw [h]

theorem not_sameSnake (h : ¬ SamePascal (constantWord name) (constantWord other)) : ¬ SameSnake name other :=
  fun hsame => h (samePascal_lettered rfl hsame.samePascal)

/-- A name in snake case that is another one with more words is so in pascal case. -/
theorem samePascal_of_second {second : Bytes} (hsecond : pascalFrom true second ≠ [])
    (hother : pascalFrom true other ≠ [])
    (h : pascalFrom true name = pascalFrom true other ++ pascalFrom true second) :
    SamePascal (constantWord name) (constantWord other ++ byte '_' :: second) := by
  have hname : pascalFrom true name ≠ [] := by
    rw [h]
    exact List.append_ne_nil_of_right_ne_nil _ hsecond
  rw [constantWord, constantWord, lettered_eq hname, lettered_eq hother, samePascal_iff, pascalFrom_append_apart]
  exact h

/-- **The constants of fields in Rust.** -/
theorem snakeFields (h : ConstantsApart (ascii "_type_name") names) :
    (constantNames (snakeConstant (ascii "_field_") owner)
      (fun name => snakeConstant (ascii "_field_") owner name ++ ascii "_TYPE_NAME") names).Nodup := by
  have hword : pascalFrom true (ascii "field") ≠ [] := by decide
  have hinj : ∀ {name other : Bytes}, snakeConstant (ascii "_field_") owner name =
      snakeConstant (ascii "_field_") owner other ↔ SameSnake name other := snakeConstant_inj hword
  rw [nodup_constantNames]
  constructor
  · refine h.apart.imp fun happart => ⟨fun hsame => ?_, fun hsame => ?_⟩
    · exact not_sameSnake happart (hinj.mp hsame)
    · exact not_sameSnake happart (hinj.mp (List.append_cancel_right hsame))
  · intro name hname other hother hsame
    have hfront : ∀ name, snakeConstant (ascii "_field_") owner name =
        snakeFront (ascii "field") owner ++ (snakeFrom true true name).map toUpper := snakeConstant_eq hword owner
    rw [hfront, hfront, List.append_assoc] at hsame
    have htext := upper_inj (List.append_cancel_left hsame) (show _ = ascii "_type_name" by decide)
    have hsome : snakeFrom true true other ≠ [] := by
      intro hnone
      rw [hnone] at htext
      exact snakeFrom_head name (ascii "type_name") htext
    have hpascal := congrArg (pascalFrom true) htext
    rw [show ascii "_type_name" = byte '_' :: ascii "type_name" by decide, pascalFrom_append_apart,
      (pascalFrom_snakeFrom name).1, (pascalFrom_snakeFrom other).1] at hpascal
    refine h.seconds name hname other hother (samePascal_of_second (by decide) ?_ hpascal)
    intro hnone
    rw [pascalFrom_letters, List.map_eq_nil_iff] at hnone
    exact hsome ((snakeFrom_letters other).2.1 hnone)

/-- **The constants of indexes in Rust**, where the helper is named after the index. -/
theorem snakeIndexes_iff (h : ConstantsApart (ascii "_helper_name") names) :
    (constantNames (snakeConstant (ascii "_index_") owner)
      (fun name => snakeConstant (ascii "_index_") owner (name ++ ascii "_helper_name")) names).Nodup ↔
      ∀ name ∈ names, ∀ other ∈ names, letters true other = [] →
        ¬ SameSnake name (other ++ ascii "_helper_name") := by
  have hword : pascalFrom true (ascii "index") ≠ [] := by decide
  have hinj : ∀ {name other : Bytes}, snakeConstant (ascii "_index_") owner name =
      snakeConstant (ascii "_index_") owner other ↔ SameSnake name other := snakeConstant_inj hword
  have hsecond : ∀ name, pascalFrom true (name ++ ascii "_helper_name") =
      pascalFrom true name ++ pascalFrom true (ascii "helper_name") :=
    fun name => pascalFrom_append_apart true name (ascii "helper_name")
  rw [nodup_constantNames]
  constructor
  · intro hnodup name hname other hother _ hsame
    exact hnodup.2 name hname other hother (hinj.mpr hsame)
  · intro hhelpers
    constructor
    · refine h.apart.imp fun happart => ⟨fun hsame => ?_, fun hsame => ?_⟩
      · exact not_sameSnake happart (hinj.mp hsame)
      · have hpascal := samePascal_iff.mp (hinj.mp hsame).samePascal
        rw [hsecond, hsecond] at hpascal
        exact happart (samePascal_lettered rfl (samePascal_iff.mpr (List.append_cancel_right hpascal)))
    · intro name hname other hother hsame
      by_cases hnone : letters true other = []
      · exact hhelpers name hname other hother hnone (hinj.mp hsame)
      · have hpascal := samePascal_iff.mp (hinj.mp hsame).samePascal
        rw [hsecond] at hpascal
        refine h.seconds name hname other hother (samePascal_of_second (by decide) ?_ hpascal)
        rwa [pascalFrom_letters, Ne, List.map_eq_nil_iff]

end

/-! ### Methods and namespaces -/

theorem snakeIdentifier_lettered {fallback : Bytes} (hfallback : snakeFrom true true fallback = fallback)
    (name : Bytes) : snakeIdentifier name fallback = snakeFrom true true (lettered fallback name) := by
  rw [snakeIdentifier, lettered]
  by_cases hnone : letters true name = []
  · rw [if_pos ((snakeFrom_letters name).2.1 hnone), if_pos hnone, hfallback]
  · have hsome : snakeFrom true true name ≠ [] :=
      snakeFrom_ne_nil (by rwa [pascalFrom_letters, Ne, List.map_eq_nil_iff])
    rw [if_neg hsome, if_neg hnone]

/-- The methods of C++ and of Go. -/
theorem pascalMethods_iff {front : Bytes} {names : List Bytes} :
    (names.map fun name => front ++ pascalIdentifier (indexNameSuffix name) (ascii "Index") ++ ascii "Tx").Nodup ↔
      names.Pairwise fun name other => ¬ SamePascal (methodWord name) (methodWord other) := by
  have hinj : ∀ name other : Bytes, front ++ pascalIdentifier (indexNameSuffix name) (ascii "Index") ++ ascii "Tx" =
      front ++ pascalIdentifier (indexNameSuffix other) (ascii "Index") ++ ascii "Tx" ↔
        SamePascal (methodWord name) (methodWord other) := by
    intro name other
    rw [List.append_cancel_right_eq, List.append_cancel_left_eq, pascalIdentifier_lettered (by decide),
      pascalIdentifier_lettered (by decide), samePascal_iff]
  rw [List.Nodup, List.pairwise_map]
  constructor
  · exact fun h => h.imp fun hne hsame => hne ((hinj _ _).mpr hsame)
  · exact fun h => h.imp fun hnot hsame => hnot ((hinj _ _).mp hsame)

/-- The methods of Rust. -/
theorem snakeMethods {names : List Bytes}
    (h : names.Pairwise fun name other => ¬ SamePascal (methodWord name) (methodWord other)) :
    (names.map rustEntityIndexRepositoryMethodName).Nodup := by
  rw [List.Nodup, List.pairwise_map]
  refine h.imp fun happart hsame => happart ?_
  rw [rustEntityIndexRepositoryMethodName, rustEntityIndexRepositoryMethodName, List.append_cancel_right_eq,
    List.append_cancel_left_eq, snakeIdentifier_lettered (by decide), snakeIdentifier_lettered (by decide)] at hsame
  -- the fallbacks of the two cases are the same name
  have hword : ∀ name, pascalFrom true (lettered (ascii "index") name) =
      pascalFrom true (lettered (ascii "Index") name) := by
    intro name
    rw [lettered, lettered]
    split
    · decide
    · rfl
  rw [samePascal_iff, methodWord, methodWord, ← hword, ← hword]
  exact samePascal_iff.mp (sameSnake_iff.mp hsame).samePascal

/-! ## Result -/

/-- C++ and Go define no name twice when the names are apart. -/
theorem distinctFor_pascal {ir : IrSystem} (h : GeneratedNamesApart ir) :
    DistinctFor ir cppNaming ∧ DistinctFor ir goNaming := by
  have htype : pascalFrom true (ascii "type_name") = ascii "TypeName" := by decide
  have hhelper : pascalFrom true (ascii "helper_name") = ascii "HelperName" := by decide
  have hmethods : ∀ entity ∈ ir.entities, ∀ front : Bytes, (entity.indexes.map fun index =>
      front ++ pascalIdentifier (indexNameSuffix index.name) (ascii "Index") ++ ascii "Tx").Nodup := by
    intro entity hentity front
    have hnodup := (@pascalMethods_iff front _).mpr (h.indexes entity hentity).methods
    rwa [List.map_map] at hnodup
  constructor
  · exact
      { entityFields := fun entity hentity => (pascalConstants_iff htype).mpr (h.entityFields entity hentity)
        shapeFields := fun shape hshape => (pascalConstants_iff htype).mpr (h.shapeFields shape hshape)
        indexes := fun entity hentity => (pascalConstants_iff hhelper).mpr (h.indexes entity hentity).constants
        methods := fun entity hentity => hmethods entity hentity _ }
  · exact
      { entityFields := fun entity hentity => (pascalConstants_iff htype).mpr (h.entityFields entity hentity)
        shapeFields := fun shape hshape => (pascalConstants_iff htype).mpr (h.shapeFields shape hshape)
        indexes := fun entity hentity => (pascalConstants_iff hhelper).mpr (h.indexes entity hentity).constants
        methods := fun entity hentity => hmethods entity hentity _ }

/-- So does Rust. -/
theorem distinctFor_snake {ir : IrSystem} (h : GeneratedNamesApart ir) : DistinctFor ir rustNaming where
  entityFields entity hentity := snakeFields (h.entityFields entity hentity)
  shapeFields shape hshape := snakeFields (h.shapeFields shape hshape)
  indexes entity hentity :=
    (snakeIndexes_iff (h.indexes entity hentity).constants).mpr (h.indexes entity hentity).helpers
  methods entity hentity := by
    have hnodup := snakeMethods (h.indexes entity hentity).methods
    rwa [List.map_map] at hnodup

theorem namespaces_iff {ir : IrSystem} :
    (ir.entities.map fun entity => snakeIdentifier entity.name (ascii "generated_event")).Nodup ↔
      (ir.entities.map fun entity => lettered (ascii "generated_event") entity.name).Pairwise
        fun name other => ¬ SameSnake name other := by
  rw [List.Nodup, List.pairwise_map, List.pairwise_map]
  have hinj : ∀ name other : Bytes,
      snakeIdentifier name (ascii "generated_event") = snakeIdentifier other (ascii "generated_event") ↔
        SameSnake (lettered (ascii "generated_event") name) (lettered (ascii "generated_event") other) := by
    intro name other
    rw [snakeIdentifier_lettered (by decide), snakeIdentifier_lettered (by decide), sameSnake_iff]
  constructor
  · exact fun h => h.imp fun hne hsame => hne ((hinj _ _).mpr hsame)
  · exact fun h => h.imp fun hnot hsame => hnot ((hinj _ _).mp hsame)

/-- **Generated identifiers do not collide** just when the names of the system stay apart. -/
theorem generatedNames_distinct_iff (ir : IrSystem) : GeneratedNamesDistinct ir ↔ GeneratedNamesApart ir := by
  constructor
  · rintro ⟨hnamespaces, hlanguages⟩
    have hcpp := hlanguages cppNaming (by simp)
    have hrust := hlanguages rustNaming (by simp)
    have htype : pascalFrom true (ascii "type_name") = ascii "TypeName" := by decide
    have hhelper : pascalFrom true (ascii "helper_name") = ascii "HelperName" := by decide
    refine ⟨namespaces_iff.mp hnamespaces, ?_, ?_, ?_⟩
    · exact fun entity hentity => (pascalConstants_iff htype).mp (hcpp.entityFields entity hentity)
    · exact fun shape hshape => (pascalConstants_iff htype).mp (hcpp.shapeFields shape hshape)
    · intro entity hentity
      have hconstants := (pascalConstants_iff hhelper).mp (hcpp.indexes entity hentity)
      refine ⟨hconstants, (snakeIndexes_iff hconstants).mp (hrust.indexes entity hentity), ?_⟩
      have hmethods := hcpp.methods entity hentity
      rw [← @pascalMethods_iff (ascii "listBy"), List.map_map]
      exact hmethods
  · intro h
    obtain ⟨hcpp, hgo⟩ := distinctFor_pascal h
    have hrust := distinctFor_snake h
    refine ⟨namespaces_iff.mpr h.entities, fun naming hnaming => ?_⟩
    simp only [List.mem_cons, List.not_mem_nil, or_false] at hnaming
    rcases hnaming with rfl | rfl | rfl
    · exact hcpp
    · exact hgo
    · exact hrust

/-- A shape with two lines. -/
def lineSystem : SystemDecl :=
  { name := ascii "Lines"
    tenantScope := some {}
    systemTenant := some {}
    shapes := [{ name := ascii "Address"
                 fields := [{ name := ascii "line_1", type := ascii "string" },
                   { name := ascii "line1", type := ascii "string" }] }] }

/-- They have one constant. -/
theorem generatedNames_collide : ¬ ∀ system, Accepted system → GeneratedNamesDistinct (lowerToIr system) := by
  intro hall
  have haccepted : Accepted lineSystem := by decide +kernel
  have hcpp := (hall lineSystem haccepted).languages cppNaming (by simp)
  have hshape : (⟨ascii "Address", [⟨ascii "line_1", ascii "string"⟩, ⟨ascii "line1", ascii "string"⟩]⟩ : IrShape) ∈
      (lowerToIr lineSystem).shapes := by decide +kernel
  have hnodup := hcpp.shapeFields _ hshape
  exact absurd hnodup (by decide +kernel)

end StateSpec.Compiler
