/-
  THE SYSTEM a binding is generated for — `ir_entities.hpp` and `ir_api_workflow.hpp`.

  The generator reads nothing but this representation; what the validator has promised about an
  entity by then is `AcceptedEntity`.  Texts of types are kept as they are written: what a type is in
  C++ is read off its text (`cppShapeType`), and everything that is not one of a few names is a
  string.
-/
import Mathlib.Data.List.Infix
import Mathlib.Data.List.Nodup
import Mathlib.Tactic.MkIffOfInductiveProp
import StateSpec.Backend

namespace StateSpec.Generated

/-! ## `ir_core.hpp`, `ir_entities.hpp`, `ir_api_workflow.hpp` -/

structure IrField where
  name : Bytes
  type : Bytes
deriving DecidableEq

structure IrShape where
  name : Bytes
  fields : List IrField

structure IrGarbageCollectionPolicy where
  after : Bytes
  mode : Bytes

structure IrState where
  name : Bytes
  terminal : Bool := false
  garbageCollection : Option IrGarbageCollectionPolicy := none

structure IrTransition where
  source : Bytes
  target : Bytes
deriving DecidableEq

structure IrIndex where
  name : Bytes
  fields : List Bytes
  unique : Bool := false

structure IrRelation where
  kind : Bytes
  name : Bytes
  target : Bytes
  optional : Bool := false

structure IrEntity where
  name : Bytes
  keyFields : List Bytes
  fields : List IrField
  indexes : List IrIndex := []
  relations : List IrRelation := []
  states : List IrState
  initialState : Option Bytes
  terminalStates : List Bytes := []
  transitions : List IrTransition := []

structure IrApi where
  name : Bytes
  method : Option Bytes
  path : Option Bytes
  input : Option Bytes := none
  output : Option Bytes := none
  entity : Option Bytes := none
  repositoryOperation : Option Bytes := none
  listSelector : List Bytes := []

structure IrSystem where
  shapes : List IrShape
  entities : List IrEntity
  apis : List IrApi

/-! ## Looking declarations up -/

def findShape (system : IrSystem) (name : Bytes) : Option IrShape :=
  system.shapes.find? fun shape => shape.name == name

def findEntity (system : IrSystem) (name : Bytes) : Option IrEntity :=
  system.entities.find? fun entity => entity.name == name

def findField (fields : List IrField) (name : Bytes) : Option IrField :=
  fields.find? fun field => field.name == name

/-! ## The foundational fields -/

def entityCreatedAtFieldName : Bytes := ascii "created_at"
def entityUpdatedAtFieldName : Bytes := ascii "updated_at"
def entityStatusFieldName : Bytes := ascii "status"

/-- `ConventionalSoftDeleteTerminalStateName`. -/
def conventionalSoftDeleteTerminalStateName : Bytes := ascii "Deleted"

def isFoundational (name : Bytes) : Bool :=
  name == entityCreatedAtFieldName || name == entityUpdatedAtFieldName ||
    name == entityStatusFieldName

/-! ## `type_syntax.cpp`, and the C++ type of a field -/

def startsWithText (text pre : Bytes) : Bool := pre.isPrefixOf text
def endsWithText (text suffix : Bytes) : Bool := suffix.isSuffixOf text

def isOptionalType (type : Bytes) : Bool :=
  (startsWithText type (ascii "optional<") && endsWithText type (ascii ">")) ||
    endsWithText type (ascii "?")

def stripOptionalType (type : Bytes) : Bytes :=
  if startsWithText type (ascii "optional<") && endsWithText type (ascii ">") then
    (type.drop (ascii "optional<").length).dropLast
  else if endsWithText type (ascii "?") then type.dropLast
  else type

/-- The C++ types of shape fields; every other type of the language is a `std::string`. -/
inductive CppType where
  | bool | int32 | int64 | double | json | string
deriving DecidableEq

/-- `cpp_shape_type`, without the `std::optional`. -/
def cppShapeType (type : Bytes) : CppType :=
  let base := stripOptionalType type
  if base = ascii "bool" then .bool
  else if base = ascii "int" ∨ base = ascii "int32" then .int32
  else if base = ascii "int64" ∨ base = ascii "long" then .int64
  else if base = ascii "double" ∨ base = ascii "decimal" then .double
  else if base = ascii "json" then .json
  else .string

example : cppShapeType (ascii "optional<int>") = .int32 := by decide
example : cppShapeType (ascii "ref<Account>") = .string := by decide

/-! ## Paths -/

/-- `path.find(text) != npos`. -/
def occursIn (text path : Bytes) : Bool := decide (text <:+: path)

/-- `"{" + name + "}"`. -/
def braced (name : Bytes) : Bytes := ascii "\x7b" ++ name ++ ascii "\x7d"

/-! ## What the validator has accepted -/

/-- **An entity as `validate_entities` lets it pass**, as far as its generated handlers depend on
    it. -/
@[mk_iff]
structure AcceptedEntity (entity : IrEntity) : Prop where
  /-- A name is an identifier. -/
  name_plain : colon ∉ entity.name
  /-- `validate_field_duplicates`. -/
  fields_nodup : (entity.fields.map IrField.name).Nodup
  /-- `validate_entity_management_fields`. -/
  created_at : findField entity.fields entityCreatedAtFieldName =
    some ⟨entityCreatedAtFieldName, ascii "timestamp"⟩
  updated_at : findField entity.fields entityUpdatedAtFieldName =
    some ⟨entityUpdatedAtFieldName, ascii "timestamp"⟩
  status : findField entity.fields entityStatusFieldName =
    some ⟨entityStatusFieldName, ascii "string"⟩
  /-- An entity declares a key, of fields. -/
  key_ne_nil : entity.keyFields ≠ []
  key_declared : ∀ key ∈ entity.keyFields, (findField entity.fields key).isSome = true
  /-- `validate_relations`. -/
  relation_declared : ∀ relation ∈ entity.relations,
    (findField entity.fields relation.name).isSome = true
  /-- `validate_indexes`. -/
  indexes_nodup : (entity.indexes.map IrIndex.name).Nodup
  index_declared : ∀ index ∈ entity.indexes, index.fields ≠ [] ∧
    ∀ field ∈ index.fields, (findField entity.fields field).isSome = true
  /-- `validate_state_machine`: the initial state is declared, -/
  initial_declared : ∃ initial, entity.initialState = some initial ∧
    initial ∈ entity.states.map IrState.name
  /-- terminal states are the ones declared so, and have a garbage collection policy, -/
  terminal_declared : ∀ name ∈ entity.terminalStates, ∃ state ∈ entity.states,
    state.name = name ∧ state.terminal = true
  terminal_collected : ∀ state ∈ entity.states, state.terminal = true →
    state.garbageCollection.isSome = true
  /-- transitions are between declared states, -/
  transition_declared : ∀ transition ∈ entity.transitions,
    transition.source ∈ entity.states.map IrState.name ∧
      transition.target ∈ entity.states.map IrState.name
  /-- and none leaves a state with a garbage collection policy. -/
  transition_live : ∀ transition ∈ entity.transitions, ∀ state ∈ entity.states,
    state.garbageCollection.isSome = true → transition.source ≠ state.name

/-- **A system the validator has accepted**: its entities are, and their names are symbols of it
    (`build_symbol_table`). -/
@[mk_iff]
structure AcceptedSystem (system : IrSystem) : Prop where
  entities_nodup : (system.entities.map IrEntity.name).Nodup
  accepted : ∀ entity ∈ system.entities, AcceptedEntity entity

/-- A bounded search, as the options have it. -/
instance instDecidableExistsSome {α : Type} (o : Option α) (p : α → Prop) [DecidablePred p] :
    Decidable (∃ a, o = some a ∧ p a) :=
  inferInstanceAs (Decidable (∃ a ∈ o, p a))

instance (entity : IrEntity) : Decidable (AcceptedEntity entity) :=
  decidable_of_iff _ (acceptedEntity_iff entity).symm

instance (system : IrSystem) : Decidable (AcceptedSystem system) :=
  decidable_of_iff _ (acceptedSystem_iff system).symm

end StateSpec.Generated
