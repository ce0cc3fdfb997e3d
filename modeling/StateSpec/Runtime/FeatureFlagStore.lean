/-
  THE FEATURE FLAG STORE — `bindings/cpp/runtime/feature_flag_store.hpp`, `RuntimeFeatureFlagStore`,
  with its records (`feature_flag.hpp`) and their documents (`codec_feature_flags.hpp`).

  A flag has a definition with a default value, and overrides, each for an evaluation context.  An
  override is stored under a text that is put together from the name of the flag and the four fields of
  the context (`evaluationKey`); an evaluation answers the override under the text of its own context,
  or the default value.

  A `FeatureFlagValue` of the source is a type together with a value of that type, as its factories
  build it; the model makes the pairing the type.
-/
import StateSpec.Runtime.Codec
import StateSpec.Runtime.Session

namespace StateSpec

namespace Runtime

variable {δ : Type}

/-! ## `feature_flag.hpp` -/

inductive FeatureFlagType where
  | bool | string | integer | decimal
deriving DecidableEq

inductive FeatureFlagScopeKind where
  | system | tenant | user | entity
deriving DecidableEq

inductive FeatureFlagValue (δ : Type) where
  | boolValue (value : Bool)
  | stringValue (value : Bytes)
  | integerValue (value : Int)
  | decimalValue (value : δ)
deriving DecidableEq

structure FeatureFlagDefinition (δ : Type) where
  name : Bytes
  type : FeatureFlagType
  defaultValue : FeatureFlagValue δ
  scope : FeatureFlagScopeKind
  owner : Option Bytes := none
  description : Option Bytes := none
  expires : Option Bytes := none

structure FeatureFlagRegisterDefinitionResult (δ : Type) where
  registeredNew : Bool := false
  definition : FeatureFlagDefinition δ

structure FeatureFlagEvaluationContext where
  tenantId : Option Bytes := none
  userId : Option Bytes := none
  entityType : Option Bytes := none
  entityId : Option Bytes := none
deriving DecidableEq

structure FeatureFlagEvaluationRequest where
  name : Bytes
  context : FeatureFlagEvaluationContext
deriving DecidableEq

/-! ## `codec_feature_flags.hpp` -/

/-- `feature_flag_value_to_json`. -/
def FeatureFlagValue.toJson : FeatureFlagValue δ → Json δ
  | boolValue value =>
    .ofMembers [(ascii "type", .string (ascii "bool")), (ascii "value", .bool value)]
  | stringValue value =>
    .ofMembers [(ascii "type", .string (ascii "string")), (ascii "value", .string value)]
  | integerValue value =>
    .ofMembers [(ascii "type", .string (ascii "integer")), (ascii "value", .int64 value)]
  | decimalValue value =>
    .ofMembers [(ascii "type", .string (ascii "decimal")), (ascii "value", .double value)]

def unknownFlagValueTypeMessage (type : Bytes) : Bytes :=
  ascii "unknown feature flag value type: " ++ type

/-- `feature_flag_value_from_json`. -/
def FeatureFlagValue.fromJson [Widening δ] (json : Json δ) : Except Error (FeatureFlagValue δ) := do
  let type ← (← json.atMember (ascii "type")).asString
  if type = ascii "bool" then
    pure (boolValue (← (← json.atMember (ascii "value")).asBool))
  else if type = ascii "string" then
    pure (stringValue (← (← json.atMember (ascii "value")).asString))
  else if type = ascii "integer" then
    pure (integerValue (← (← json.atMember (ascii "value")).asInt64))
  else if type = ascii "decimal" then
    pure (decimalValue (← (← json.atMember (ascii "value")).asDouble))
  else .error (.backendError (unknownFlagValueTypeMessage type))

/-- `feature_flag_type_name`. -/
def FeatureFlagType.name : FeatureFlagType → Bytes
  | bool => ascii "bool"
  | string => ascii "string"
  | integer => ascii "integer"
  | decimal => ascii "decimal"

def unknownFlagTypeMessage (type : Bytes) : Bytes := ascii "unknown feature flag type: " ++ type

/-- `feature_flag_type_from_string`. -/
def FeatureFlagType.fromString (value : Bytes) : Except Error FeatureFlagType :=
  if value = ascii "bool" then .ok bool
  else if value = ascii "string" then .ok string
  else if value = ascii "integer" then .ok integer
  else if value = ascii "decimal" then .ok decimal
  else .error (.backendError (unknownFlagTypeMessage value))

/-- `feature_flag_scope_name`. -/
def FeatureFlagScopeKind.name : FeatureFlagScopeKind → Bytes
  | system => ascii "system"
  | tenant => ascii "tenant"
  | user => ascii "user"
  | entity => ascii "entity"

def unknownFlagScopeMessage (scope : Bytes) : Bytes := ascii "unknown feature flag scope: " ++ scope

/-- `feature_flag_scope_from_string`. -/
def FeatureFlagScopeKind.fromString (value : Bytes) : Except Error FeatureFlagScopeKind :=
  if value = ascii "system" then .ok system
  else if value = ascii "tenant" then .ok tenant
  else if value = ascii "user" then .ok user
  else if value = ascii "entity" then .ok entity
  else .error (.backendError (unknownFlagScopeMessage value))

/-- `feature_flag_definition_to_json`, the members. -/
def FeatureFlagDefinition.members (definition : FeatureFlagDefinition δ) : List (Bytes × Json δ) :=
  [(ascii "name", .string definition.name),
    (ascii "type", .string definition.type.name),
    (ascii "default_value", definition.defaultValue.toJson),
    (ascii "scope", .string definition.scope.name)] ++
  optionalString (ascii "owner") definition.owner ++
  optionalString (ascii "description") definition.description ++
  optionalString (ascii "expires") definition.expires

/-- `feature_flag_definition_to_json`. -/
def FeatureFlagDefinition.toJson (definition : FeatureFlagDefinition δ) : Json δ :=
  .ofMembers definition.members

/-- `feature_flag_definition_from_json`. -/
def FeatureFlagDefinition.fromJson [Widening δ] (json : Json δ) :
    Except Error (FeatureFlagDefinition δ) := do
  let name ← (← json.atMember (ascii "name")).asString
  let type ← FeatureFlagType.fromString (← (← json.atMember (ascii "type")).asString)
  let defaultValue ← FeatureFlagValue.fromJson (← json.atMember (ascii "default_value"))
  let scope ← FeatureFlagScopeKind.fromString (← (← json.atMember (ascii "scope")).asString)
  let owner ← optionalStringFrom json (ascii "owner")
  let description ← optionalStringFrom json (ascii "description")
  let expires ← optionalStringFrom json (ascii "expires")
  pure { name, type, defaultValue, scope, owner, description, expires }

/-! ## What is read back -/

theorem FeatureFlagType.fromString_name (type : FeatureFlagType) :
    fromString type.name = .ok type := by
  cases type <;> rfl

theorem FeatureFlagScopeKind.fromString_name (scope : FeatureFlagScopeKind) :
    fromString scope.name = .ok scope := by
  cases scope <;> rfl

/-- **What is read back of a value** is the value. -/
theorem FeatureFlagValue.fromJson_toJson [Widening δ] (value : FeatureFlagValue δ) :
    fromJson value.toJson = .ok value := by
  cases value <;> rfl

/-- The optional members are found as they were put. -/
theorem FeatureFlagDefinition.lookup_members (definition : FeatureFlagDefinition δ) :
    definition.members.lookup (ascii "owner") = definition.owner.map .string ∧
    definition.members.lookup (ascii "description") = definition.description.map .string ∧
    definition.members.lookup (ascii "expires") = definition.expires.map .string := by
  obtain ⟨_, _, _, _, owner, description, expires⟩ := definition
  cases owner <;> cases description <;> cases expires <;> exact ⟨rfl, rfl, rfl⟩

/-- **What is read back of a definition** is the definition. -/
theorem FeatureFlagDefinition.fromJson_toJson [Widening δ] (definition : FeatureFlagDefinition δ) :
    fromJson definition.toJson = .ok definition := by
  have hat {key : Bytes} {value : Json δ} (h : definition.members.lookup key = some value) :
      definition.toJson.atMember key = .ok value :=
    Json.atMember_ofMembers h
  obtain ⟨howner, hdescription, hexpires⟩ := definition.lookup_members
  have howner := optionalStringFrom_ofMembers howner
  have hdescription := optionalStringFrom_ofMembers hdescription
  have hexpires := optionalStringFrom_ofMembers hexpires
  rw [← toJson] at howner hdescription hexpires
  have hname := @hat (ascii "name") _ rfl
  have htype := @hat (ascii "type") _ rfl
  have hdefault := @hat (ascii "default_value") _ rfl
  have hscope := @hat (ascii "scope") _ rfl
  rw [fromJson, hname, htype, hdefault, hscope, howner, hdescription, hexpires]
  simp only [Json.asString, bind, Except.bind, pure, Except.pure, FeatureFlagType.fromString_name,
    FeatureFlagScopeKind.fromString_name, FeatureFlagValue.fromJson_toJson]

/-! ## Requests and responses -/

/-- A call on the store. -/
inductive FlagRequest (δ : Type) where
  | registerDefinition (definition : FeatureFlagDefinition δ)
  | inspectDefinition (name : Bytes)
  | evaluate (request : FeatureFlagEvaluationRequest)
  | setOverride (request : FeatureFlagEvaluationRequest) (value : FeatureFlagValue δ)

/-- What a call on the store returns. -/
inductive FlagResponse (δ : Type) where
  | registered (result : FeatureFlagRegisterDefinitionResult δ)
  | definition (definition : Option (FeatureFlagDefinition δ))
  | value (value : FeatureFlagValue δ)
  | overridden

namespace Flags

/-! ## Keys -/

/-- `value_or("")`. -/
def orEmpty (text : Option Bytes) : Bytes := text.getD []

def evaluationKey (request : FeatureFlagEvaluationRequest) : Key :=
  request.name ++ ascii "|tenant:" ++ orEmpty request.context.tenantId ++ ascii "|user:" ++
    orEmpty request.context.userId ++ ascii "|entity:" ++ orEmpty request.context.entityType ++
    ascii ":" ++ orEmpty request.context.entityId

/-! ## Definitions -/

variable [Widening δ]

def inspectDefinitionTx (name : Bytes) : TxProgram δ (Option (FeatureFlagDefinition δ)) := do
  match ← .read .featureFlagDefinitions name with
  | none => pure none
  | some document => .ofExcept ((FeatureFlagDefinition.fromJson document).map some)

def registerDefinitionTx (definition : FeatureFlagDefinition δ) :
    TxProgram δ (FeatureFlagRegisterDefinitionResult δ) := do
  let existing ← inspectDefinitionTx definition.name
  .write .featureFlagDefinitions definition.name definition.toJson
  pure { registeredNew := existing.isNone, definition }

/-! ## Values -/

def unknownFlagMessage (name : Bytes) : Bytes := ascii "unknown feature flag: " ++ name

/-- The second half of `evaluateTx`: the default value. -/
def defaultTx (name : Bytes) : TxProgram δ (FeatureFlagValue δ) := do
  match ← inspectDefinitionTx name with
  | none => .throw (.backendError (unknownFlagMessage name))
  | some definition => pure definition.defaultValue

def evaluateTx (request : FeatureFlagEvaluationRequest) : TxProgram δ (FeatureFlagValue δ) := do
  match ← .read .featureFlagValues (evaluationKey request) with
  | some document => .ofExcept (FeatureFlagValue.fromJson document)
  | none => defaultTx request.name

omit [Widening δ] in
def setOverrideTx (request : FeatureFlagEvaluationRequest) (value : FeatureFlagValue δ) :
    TxProgram δ Unit :=
  .write .featureFlagValues (evaluationKey request) value.toJson

end Flags

/-! ## The store -/

/-- The transaction of a call. -/
def flagProgram [Widening δ] : FlagRequest δ → TxProgram δ (FlagResponse δ)
  | .registerDefinition definition => .registered <$> Flags.registerDefinitionTx definition
  | .inspectDefinition name => .definition <$> Flags.inspectDefinitionTx name
  | .evaluate request => .value <$> Flags.evaluateTx request
  | .setOverride request value => (fun _ => .overridden) <$> Flags.setOverrideTx request value

/-- The collections of `ensure_collections`. -/
def flagCollections : List CollectionDescriptor :=
  [{ name := RuntimeCollection.featureFlagDefinitions.name, keyFields := [ascii "name"] },
   { name := RuntimeCollection.featureFlagValues.name, keyFields := [ascii "scope_key"] }]

/-- `ensure_collections`. -/
def ensureFlagCollections [Decimal δ] (_ : Unit) (s : Cpp.State δ) : Cpp.State δ :=
  Cpp.register flagCollections s

/-- The feature flag store on the C++ in-memory backend. -/
abbrev flagStore [Decimal δ] [Widening δ] : Interleaving.Store (FlagRequest δ) (Cpp.State δ)
    (Session δ (FlagResponse δ)) Unit Unit Unit (Option Error) Unit :=
  sessions flagProgram ensureFlagCollections

end Runtime

end StateSpec
