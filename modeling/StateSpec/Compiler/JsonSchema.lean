/-
  JSON SCHEMAS, as far as `openapi_schema.cpp` writes them, and what they mean.

  A schema is a type with a format, an array or a map of another schema, any object, or a reference to a
  component; a component is a schema, the strings of an enum, or the properties of a shape.  `Accepts` says
  which JSON a schema accepts, and as what (`JsonKind`): components may refer to each other in circles, so it
  is the least such relation.

  * `members_schemaFor` — the schema of a type is the one the document has for it.
-/
import StateSpec.Compiler.OpenApiText

namespace StateSpec.Compiler

open Generated (stripOptionalType)

/-! ## Schemas -/

inductive IntFormat where
  | int32 | int64
deriving DecidableEq

/-- The numbers of a format. -/
def IntFormat.Fits : IntFormat → Int → Prop
  | .int32, n => -2 ^ 31 ≤ n ∧ n < 2 ^ 31
  | .int64, n => -2 ^ 63 ≤ n ∧ n < 2 ^ 63

/-- The schemas of types. -/
inductive Schema where
  | ref (name : Bytes)
  | array (unique : Bool) (items : Schema)
  | map (additional : Schema)
  | object
  | boolean
  | integer (format : IntFormat)
  | number (format : Option String)
  | string (format : Option String)

/-- What a document has under a name. -/
inductive Component where
  | schema (schema : Schema)
  | enum (values : List Bytes)
  | shape (properties : List (Bytes × Schema)) (required : List Bytes)

/-- What a schema takes a JSON value for. -/
inductive JsonKind where
  | boolean
  | integer (format : IntFormat)
  | number
  | string
  | array
  | object
deriving DecidableEq

section Accepts

variable {δ : Type} (components : List (Bytes × Component))

/-- The schema accepts the JSON value as one of a kind. -/
inductive Accepts : Schema → JsonKind → Json δ → Prop where
  | boolean (value : Bool) : Accepts .boolean .boolean (.bool value)
  | integer {format : IntFormat} {n : Int} (h : format.Fits n) :
      Accepts (.integer format) (.integer format) (.int64 n)
  | whole {format : Option String} {n : Int} (h : IntFormat.int64.Fits n) :
      Accepts (.number format) .number (.int64 n)
  | number (format : Option String) (value : δ) : Accepts (.number format) .number (.double value)
  | string (format : Option String) (value : Bytes) : Accepts (.string format) .string (.string value)
  | array {unique : Bool} {items : Schema} {values : List (Json δ)} (kind : Json δ → JsonKind)
      (hunique : unique = true → values.Nodup)
      (h : ∀ value ∈ values, Accepts items (kind value) value) :
      Accepts (.array unique items) .array (.array values)
  | map {additional : Schema} {members : List (Bytes × Json δ)} (kind : Json δ → JsonKind)
      (h : ∀ member ∈ members, Accepts additional (kind member.2) member.2) :
      Accepts (.map additional) .object (.object members)
  | object (members : List (Bytes × Json δ)) : Accepts .object .object (.object members)
  | underlying {name : Bytes} {schema : Schema} {kind : JsonKind} {json : Json δ}
      (hname : (name, .schema schema) ∈ components) (h : Accepts schema kind json) :
      Accepts (.ref name) kind json
  | enum {name : Bytes} {values : List Bytes} {value : Bytes} (hname : (name, .enum values) ∈ components)
      (h : value ∈ values) : Accepts (.ref name) .string (.string value)
  | shape {name : Bytes} {properties : List (Bytes × Schema)} {required : List Bytes}
      {members : List (Bytes × Json δ)} (kind : Schema → Json δ → JsonKind)
      (hname : (name, .shape properties required) ∈ components)
      (hrequired : ∀ property ∈ required, ∃ json, (Json.object members).find property = some json)
      (h : ∀ property ∈ properties, ∀ json, (Json.object members).find property.1 = some json →
        Accepts property.2 (kind property.2 json) json) :
      Accepts (.ref name) .object (.object members)

/-- Some JSON value is accepted as one of the kind. -/
def Admits (δ : Type) (schema : Schema) (kind : JsonKind) : Prop :=
  ∃ json : Json δ, Accepts components schema kind json

/-- The JSON object is accepted by the schema of a shape. -/
structure AcceptsShape (properties : List (Bytes × Schema)) (required : List Bytes) (body : Json δ) : Prop where
  object : ∃ members, body = .object members
  required : ∀ property ∈ required, ∃ json, body.find property = some json
  properties : ∀ property ∈ properties, ∀ json, body.find property.1 = some json →
    ∃ kind, Accepts components property.2 kind json

end Accepts

namespace JsonKind

variable {δ : Type}

/-- The JSON values of a kind. -/
def Holds : JsonKind → Json δ → Prop
  | .boolean, json => ∃ value, json = .bool value
  | .integer format, json => ∃ n, json = .int64 n ∧ format.Fits n
  | .number, json => (∃ n, json = .int64 n) ∨ ∃ value, json = .double value
  | .string, json => ∃ value, json = .string value
  | .array, json => ∃ values, json = .array values
  | .object, json => ∃ members, json = .object members

end JsonKind

section

variable {δ : Type} {components : List (Bytes × Component)} {schema : Schema} {kind : JsonKind} {json : Json δ}

/-- **What is accepted as one of a kind is one.** -/
theorem Accepts.holds (h : Accepts components schema kind json) : kind.Holds json := by
  induction h with
  | boolean value => exact ⟨value, rfl⟩
  | integer h => exact ⟨_, rfl, h⟩
  | whole h => exact Or.inl ⟨_, rfl⟩
  | number format value => exact Or.inr ⟨value, rfl⟩
  | string format value => exact ⟨value, rfl⟩
  | array kind hunique h ih => exact ⟨_, rfl⟩
  | map kind h ih => exact ⟨_, rfl⟩
  | object members => exact ⟨members, rfl⟩
  | underlying hname h ih => exact ih
  | enum hname h => exact ⟨_, rfl⟩
  | shape kind hname hrequired h ih => exact ⟨_, rfl⟩

/-- No schema accepts `null`. -/
theorem Accepts.ne_null (h : Accepts components schema kind json) : json ≠ .null := by
  rintro rfl
  have hholds := h.holds
  cases kind <;> simp [JsonKind.Holds] at hholds

/-- A schema that admits integers of a format admits them all. -/
theorem Accepts.integers {format : IntFormat} (h : Accepts components schema (.integer format) json) {n : Int}
    (hn : format.Fits n) : Accepts components schema (.integer format) (.int64 n : Json δ) := by
  generalize hkind : JsonKind.integer format = kind at h
  induction h with
  | integer h =>
    obtain rfl := JsonKind.integer.inj hkind
    exact .integer hn
  | underlying hname h ih => exact .underlying hname (ih hkind)
  | _ => cases hkind

/-- A schema that admits numbers admits all doubles. -/
theorem Accepts.doubles (h : Accepts components schema .number json) (value : δ) :
    Accepts components schema .number (.double value) := by
  generalize hkind : JsonKind.number = kind at h
  induction h with
  | whole h => exact .number _ value
  | number format _ => exact .number _ value
  | underlying hname h ih => exact .underlying hname (ih hkind)
  | _ => cases hkind

end

/-! ## The schemas of `openapi_schema.cpp` -/

/-- The schema of a type of the language, and that of a string for everything else. -/
def scalarSchema (lowered : Bytes) : Schema :=
  if lowered = ascii "json" ∨ lowered = ascii "object" then .object
  else if lowered = ascii "bool" ∨ lowered = ascii "boolean" then .boolean
  else if lowered = ascii "int" ∨ lowered = ascii "int32" then .integer .int32
  else if lowered = ascii "int64" ∨ lowered = ascii "long" then .integer .int64
  else if lowered = ascii "float" then .number (some "float")
  else if lowered = ascii "double" then .number (some "double")
  else if lowered = ascii "decimal" then .number none
  else if lowered = ascii "uuid" then .string (some "uuid")
  else if lowered = ascii "timestamp" ∨ lowered = ascii "datetime" then .string (some "date-time")
  else if lowered = ascii "date" then .string (some "date")
  else if lowered = ascii "duration" then .string (some "duration")
  else .string none

/-- `openapi_schema_for_type`. -/
def schemaFor (system : IrSystem) (rawType : Bytes) : Schema :=
  match _hform : typeForm system (stripOptionalType rawType) with
  | .ref name => .ref name
  | .list item => .array false (schemaFor system item)
  | .set item => .array true (schemaFor system item)
  | .map value => .map (schemaFor system value)
  | .anything => .object
  | .scalar lowered => scalarSchema lowered
termination_by rawType.length
decreasing_by
  all_goals
    refine Nat.lt_of_lt_of_le (@typeForm_length system _ _ ?_) (stripOptionalType_length rawType)
    rw [_hform]
    rfl

/-- The schema of a form. -/
def schemaOfForm (system : IrSystem) : TypeForm → Schema
  | .ref name => .ref name
  | .list item => .array false (schemaFor system item)
  | .set item => .array true (schemaFor system item)
  | .map value => .map (schemaFor system value)
  | .anything => .object
  | .scalar lowered => scalarSchema lowered

theorem schemaFor_eq (system : IrSystem) (rawType : Bytes) :
    schemaFor system rawType = schemaOfForm system (typeForm system (stripOptionalType rawType)) := by
  rw [schemaFor]
  split
  all_goals
    rename_i hform
    rw [hform]
    rfl

/-- `write_openapi_value_schema`, `write_openapi_enum_schema` and `write_openapi_shape_schema`. -/
def schemaComponents (system : IrSystem) : List (Bytes × Component) :=
  system.values.map (fun value => (value.name, .schema (schemaFor system value.type))) ++
    system.enums.map (fun enumDecl =>
      (enumDecl.name, .enum (enumDecl.members.map fun member => member.value.getD member.name))) ++
    system.shapes.map fun shape =>
      (shape.name, .shape (shape.fields.map fun field => (field.name, schemaFor system field.type))
        (requiredNames shape))

/-! ### The schemas of the document -/

/-- The type and the format of a schema. -/
def formatted (type : String) (format : Option String) : List (Bytes × Layout) :=
  typeMember type :: (format.map formatMember).toList

namespace Schema

/-- How a schema is written. -/
def members : Schema → List (Bytes × Layout)
  | .ref name => [(ascii "$ref", .string (componentRef name))]
  | .array false items => [typeMember "array", (ascii "items", inline items.members)]
  | .array true items =>
    [typeMember "array", (ascii "uniqueItems", .yes), (ascii "items", inline items.members)]
  | .map additional => [typeMember "object", (ascii "additionalProperties", inline additional.members)]
  | .object => [typeMember "object", (ascii "additionalProperties", .yes)]
  | .boolean => formatted "boolean" none
  | .integer .int32 => formatted "integer" (some "int32")
  | .integer .int64 => formatted "integer" (some "int64")
  | .number format => formatted "number" format
  | .string format => formatted "string" format

end Schema

theorem members_ite {c : Prop} [Decidable c] {schema other : Schema} {members others : List (Bytes × Layout)}
    (h : schema.members = members) (hother : other.members = others) :
    (if c then schema else other).members = if c then members else others := by
  split
  · exact h
  · exact hother

theorem members_scalarSchema (lowered : Bytes) : (scalarSchema lowered).members = scalarMembers lowered := by
  unfold scalarSchema scalarMembers
  repeat' apply members_ite
  all_goals rfl

/-- **The schema of a type is the one the document has for it.** -/
theorem members_schemaFor (system : IrSystem) (rawType : Bytes) :
    (schemaFor system rawType).members = schemaMembers system rawType := by
  induction rawType using schema_induction with
  | step rawType ih =>
    rw [schemaFor_eq, schemaMembers_eq]
    cases hform : typeForm system (stripOptionalType rawType) with
    | ref name => rfl
    | list item =>
      rw [hform] at ih
      rw [schemaOfForm, Schema.members, formMembers, ih item rfl]
    | set item =>
      rw [hform] at ih
      rw [schemaOfForm, Schema.members, formMembers, ih item rfl]
    | map value =>
      rw [hform] at ih
      rw [schemaOfForm, Schema.members, formMembers, ih value rfl]
    | anything => rfl
    | scalar lowered => exact members_scalarSchema lowered

end StateSpec.Compiler
