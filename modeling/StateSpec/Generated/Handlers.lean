/-
  THE GENERATED HANDLERS — `generator_cpp_descriptors.cpp`: what the default handlers do that are
  written for create, get, list, update_status and delete, with the codecs of their shapes and
  `api_handler_registry_support.hpp.tmpl`.

  The generator writes C++ for a system; here a handler is what that C++ does, for the same system.
  Values come in through two doors: fields of the request are decoded by their types (`decodeExpr`),
  parameters of the path are strings, and null when they are missing (`pathParameterJson`).  Every
  handler is one transaction: a `Script`, which returns what is behind the commit, a response or the
  exception of an encoder (`Outcome`).  The clock is an argument, as a text.

  A request field of an optional type makes the C++ of a handler that stores it ill-formed; here it is
  null when it is absent (`requestJson`).  Plain `std::runtime_error`s are `backendError`s.
-/
import StateSpec.Generated.EntityRepository
import StateSpec.Runtime.Codec

set_option linter.unusedSectionVars false

namespace StateSpec.Generated

open Cpp Memory Memory.InMemoryTransaction

variable {δ : Type}

/-! ## `api_handler_registry_support.hpp.tmpl` -/

/-- `split_api_path`: the parts between the '/'s, but for empty ones. -/
def splitApiPath (path : Bytes) : List Bytes := (path.splitOn 47).filter fun part => !part.isEmpty

/-- The name of a template part that is a parameter. -/
def parameterName (part : Bytes) : Option Bytes :=
  if 2 < part.length ∧ part.head? = some 123 ∧ part.getLast? = some 125 then
    some part.tail.dropLast
  else none

/-- `extract_api_path_parameters`: of two parameters of one name, `emplace` keeps the first, and
    `lookup` finds it. -/
def extractApiPathParameters (routeTemplate actualPath : Bytes) : List (Bytes × Bytes) :=
  ((splitApiPath routeTemplate).zip (splitApiPath actualPath)).filterMap fun part =>
    (parameterName part.1).map fun name => (name, part.2)

/-- `path_parameter_json`. -/
def pathParameterJson (parameters : List (Bytes × Bytes)) (name : Bytes) : Json δ :=
  match parameters.lookup name with
  | some value => .string value
  | none => .null

example : extractApiPathParameters (ascii "/v1/\x7ba\x7d/x\x7bb\x7d") (ascii "/v1//7/x8") =
    [(ascii "a", ascii "7")] := by decide

/-! ## Requests and responses -/

structure ApiRequestContext (δ : Type) where
  apiName : Bytes
  path : Option Bytes
  body : Json δ

structure ApiResponse (δ : Type) where
  statusCode : Nat := 200
  body : Json δ

/-- What a handler comes to once its transaction has committed. -/
abbrev Outcome (δ : Type) := Except Error (ApiResponse δ)

/-! ## Codecs -/

/-- A field of a shape in C++. -/
inductive CppValue (δ : Type) where
  | bool (value : Bool)
  | int32 (value : Int)
  | int64 (value : Int)
  | double (value : δ)
  | json (value : Json δ)
  | string (value : Bytes)

/-- `static_cast<std::int32_t>`. -/
def toInt32 (value : Int) : Int := value.bmod (2 ^ 32)

/-- `require_member`. -/
def requireMember (value : Json δ) (fieldName : Bytes) : Except Error (Json δ) :=
  match value.find fieldName with
  | none | some .null => .error (.backendError (ascii "missing required API field"))
  | some member => .ok member

/-- `cpp_decode_expr`. -/
def decodeExpr [Widening δ] (field : IrField) (value : Json δ) : Except Error (CppValue δ) :=
  match cppShapeType field.type with
  | .bool => value.asBool.map .bool
  | .int32 => value.asInt64.map fun n => .int32 (toInt32 n)
  | .int64 => value.asInt64.map .int64
  | .double => value.asDouble.map .double
  | .json => .ok (.json value)
  | .string => value.asString.map .string

/-- `cpp_json_expr`. -/
def jsonExpr : CppValue δ → Json δ
  | .bool value => .bool value
  | .int32 value | .int64 value => .int64 value
  | .double value => .double value
  | .json value => value
  | .string value => .string value

/-- A decoded request: the fields that have a value. -/
abbrev Request (δ : Type) := List (Bytes × CppValue δ)

/-- One field of `decode_<api>_request`. -/
def decodeField [Widening δ] (field : IrField) (body : Json δ) :
    Except Error (Option (CppValue δ)) :=
  if isOptionalType field.type then
    match body.find field.name with
    | none | some .null => .ok none
    | some member => (decodeExpr field member).map some
  else do
    let member ← requireMember body field.name
    let value ← decodeExpr field member
    pure (some value)

/-- `decode_<api>_request`. -/
def decodeRequest [Widening δ] (body : Json δ) : List IrField → Except Error (Request δ)
  | [] => .ok []
  | field :: rest => do
    let value ← decodeField field body
    let request ← decodeRequest body rest
    pure (value.toList.map (field.name, ·) ++ request)

/-- `encode_<api>_response`. -/
def encodeResponse (statusCode : Nat) (response : Request δ) : ApiResponse δ where
  statusCode := statusCode
  body := .ofMembers (response.map fun member => (member.1, jsonExpr member.2))

/-- `cpp_json_expr` of a field of the request. -/
def requestJson (request : Request δ) (name : Bytes) : Json δ :=
  match request.lookup name with
  | some value => jsonExpr value
  | none => .null

/-- `cpp_request_or_path_json_expr`. -/
def requestOrPathJson (shape : IrShape) (request : Request δ) (parameters : List (Bytes × Bytes))
    (name : Bytes) : Json δ :=
  if (findField shape.fields name).isSome then requestJson request name
  else pathParameterJson parameters name

/-- The key values of a handler, one for each key field. -/
def keyValues (entity : IrEntity) (value : Bytes → Json δ) : List (EntityKeyValue δ) :=
  entity.keyFields.map fun key => ⟨key, value key⟩

/-- `response.<field> = decode(require_member(record.document, field))`, for every field. -/
def decodeRecord [Widening δ] (document : Json δ) : List IrField → Except Error (Request δ)
  | [] => .ok []
  | field :: rest => do
    let member ← requireMember document field.name
    let value ← decodeExpr field member
    let response ← decodeRecord document rest
    pure ((field.name, value) :: response)

/-- The response made from a record, in the shape of the api's output if it has one. -/
def recordResponse [Widening δ] (output : Option IrShape) (document : Json δ) : Outcome δ :=
  match output with
  | none => .ok { statusCode := 200, body := document }
  | some shape => (decodeRecord document shape.fields).map (encodeResponse 200)

def outputShape (system : IrSystem) (api : IrApi) : Option IrShape :=
  api.output.bind (findShape system)

/-- `extract_api_path_parameters` of the call. -/
def apiParameters (api : IrApi) (context : ApiRequestContext δ) : List (Bytes × Bytes) :=
  extractApiPathParameters (api.path.getD []) (context.path.getD [])

/-! ## Create -/

/-- `create_api_has_required_request_fields`. -/
def createApiHasRequiredRequestFields (entity : IrEntity) (shape : IrShape) (api : IrApi) : Bool :=
  entity.fields.all fun field =>
    isFoundational field.name || (findField shape.fields field.name).isSome ||
      occursIn (braced field.name) (api.path.getD [])

/-- The block of `write_cpp_parent_validation` for one relation. -/
def validateParent [Decimal δ] (system : IrSystem) (shape : IrShape) (request : Request δ)
    (parameters : List (Bytes × Bytes)) (relation : IrRelation) : Script δ Unit :=
  if relation.kind ≠ ascii "parent" ∨ relation.optional = true then pure ()
  else
    match findEntity system relation.target with
    | none => pure ()
    | some parent => do
      let parentRecord ← repositoryGetTx parent
        (keyValues parent (requestOrPathJson shape request parameters))
      if parentRecord.isSome then pure ()
      else .throw (.backendError (ascii "missing required parent " ++ parent.name))

/-- `write_cpp_parent_validation`. -/
def validateParents [Decimal δ] (system : IrSystem) (shape : IrShape) (request : Request δ)
    (parameters : List (Bytes × Bytes)) : List IrRelation → Script δ Unit
  | [] => pure ()
  | relation :: rest => do
    validateParent system shape request parameters relation
    validateParents system shape request parameters rest

/-- What the created document has in a field, if anything. -/
def createdField (entity : IrEntity) (shape : IrShape) (api : IrApi) (request : Request δ)
    (parameters : List (Bytes × Bytes)) (now : Bytes) (name : Bytes) : Option (Json δ) :=
  if name = entityCreatedAtFieldName ∨ name = entityUpdatedAtFieldName then some (.string now)
  else if name = entityStatusFieldName then
    some (.string (entity.initialState.getD (ascii "Created")))
  else if (findField shape.fields name).isSome then some (requestJson request name)
  else if occursIn (braced name) (api.path.getD []) then some (pathParameterJson parameters name)
  else none

/-- The document of a create handler. -/
def createdDocument (entity : IrEntity) (shape : IrShape) (api : IrApi) (request : Request δ)
    (parameters : List (Bytes × Bytes)) (now : Bytes) : Json δ :=
  .object (entity.fields.foldl (fun document field =>
    match createdField entity shape api request parameters now field.name with
    | some value => Json.assign field.name value document
    | none => document) [])

/-- `cpp_default_response_assignment`. -/
def defaultResponseAssignment [Decimal δ] [Widening δ] (field : IrField)
    (context : ApiRequestContext δ) : CppValue δ :=
  match cppShapeType field.type with
  | .bool => .bool (field.name == ascii "accepted")
  | .int32 => .int32 0
  | .int64 => .int64 0
  | .double => .double (Widening.ofInt 0)
  | .json => .json context.body
  | .string =>
    if field.name = ascii "workflow_execution_id" ∨ field.name = ascii "message_id" then
      .string (context.apiName ++ ascii ":" ++ context.body.canonicalString)
    else if field.name = entityStatusFieldName then .string (ascii "Accepted")
    else .string []

/-- `cpp_create_response_assignment`. -/
def createResponseAssignment [Decimal δ] [Widening δ] (entity : IrEntity) (shape : IrShape)
    (request : Request δ) (context : ApiRequestContext δ) (field : IrField) : Option (CppValue δ) :=
  if (findField shape.fields field.name).isSome then request.lookup field.name
  else if field.name = entityStatusFieldName then some (.string (entity.initialState.getD []))
  else some (defaultResponseAssignment field context)

/-- The response of a create handler. -/
def createResponse [Decimal δ] [Widening δ] (system : IrSystem) (api : IrApi) (entity : IrEntity)
    (shape : IrShape) (request : Request δ) (context : ApiRequestContext δ) : ApiResponse δ :=
  match outputShape system api with
  | none => { statusCode := 201, body := .object [] }
  | some output => encodeResponse 201 (output.fields.filterMap fun field =>
      (createResponseAssignment entity shape request context field).map (field.name, ·))

/-- `write_cpp_create_handler_body`. -/
def createHandler [Decimal δ] [Widening δ] (system : IrSystem) (api : IrApi) (entity : IrEntity)
    (shape : IrShape) (context : ApiRequestContext δ) (now : Bytes) : Script δ (Outcome δ) :=
  if createApiHasRequiredRequestFields entity shape api = false then
    .throw (.backendError (ascii "generated create handler for " ++ api.name ++
      ascii " requires request fields for every non-foundational " ++ entity.name ++
      ascii " entity field"))
  else do
    let request ← Script.ofExcept (decodeRequest context.body shape.fields)
    validateParents system shape request (apiParameters api context) entity.relations
    let record ← repositoryCreateTx entity
      (createdDocument entity shape api request (apiParameters api context) now)
    if record.isSome then pure (.ok (createResponse system api entity shape request context))
    else .throw (.backendError (ascii "entity create failed"))

/-! ## Get and list -/

/-- `write_cpp_get_handler_body`. -/
def getHandler [Decimal δ] [Widening δ] (system : IrSystem) (api : IrApi) (entity : IrEntity)
    (context : ApiRequestContext δ) : Script δ (Outcome δ) := do
  let record ← repositoryGetTx entity (keyValues entity (pathParameterJson (apiParameters api context)))
  match record with
  | none => pure (.ok { statusCode := 404, body := .object [] })
  | some record => pure (recordResponse (outputShape system api) record.document)

/-- `list_item_type`, as far as it is asked whether there is one. -/
def isListType (type : Bytes) : Bool := endsWithText type (ascii "[]") && decide (2 < type.length)

/-- `list_response_field`. -/
def listResponseField (shape : IrShape) : Option IrField :=
  shape.fields.find? fun field => isListType field.type

/-- The name of the entity a list answers: the item type without `Response`. -/
def listedEntityName (field : IrField) : Bytes :=
  let itemType := field.type.dropLast.dropLast
  if endsWithText itemType (ascii "Response") then
    itemType.take (itemType.length - (ascii "Response").length)
  else itemType

/-- `select_entity_list_index_for_selector`. -/
def selectEntityListIndexForSelector (entity : IrEntity) (selector : List Bytes) : Option IrIndex :=
  if selector = [] then none
  else entity.indexes.find? fun index => selector.isPrefixOf index.fields

/-- The members of a list response: the first field of a list type has the records. -/
def listBody (items : List (Json δ)) (parameters : List (Bytes × Bytes)) :
    Bool → List IrField → List (Bytes × Json δ)
  | _, [] => []
  | found, field :: rest =>
    if !found && isListType field.type then
      (field.name, .array items) :: listBody items parameters true rest
    else (field.name, pathParameterJson parameters field.name) :: listBody items parameters found rest

/-- `write_cpp_list_handler_body`. -/
def listHandler (api : IrApi) (entity : IrEntity) (shape : IrShape) (context : ApiRequestContext δ) :
    Script δ (Outcome δ) :=
  match selectEntityListIndexForSelector entity api.listSelector with
  | none =>
    .throw (.backendError (ascii "generated list handler for " ++ api.name ++
      ascii " requires a key or index backed selector"))
  | some index => do
    let values ← Script.ofExcept (api.listSelector.mapM fun name =>
      (pathParameterJson (apiParameters api context) name : Json δ).asString.map IndexValue.stringValue)
    let records ← listEntitiesByIndexTx entity.name index.name values
    pure (.ok { statusCode := 200,
                body := .ofMembers (listBody (records.map VersionedRecord.document)
                  (apiParameters api context) false shape.fields) })

/-! ## Changes of the status -/

/-- `<entity>_status_transition_allowed`. -/
def statusTransitionAllowed (entity : IrEntity) (currentStatus requestedStatus : Bytes) : Bool :=
  currentStatus == requestedStatus || entity.transitions.any fun transition =>
    currentStatus == transition.source && requestedStatus == transition.target

/-- The document with the requested status. -/
def statusDocument (document : Json δ) (requestedStatus now : Bytes) : Json δ :=
  .object (Json.assign entityUpdatedAtFieldName (.string now)
    (Json.assign entityStatusFieldName (.string requestedStatus) document.members))

/-- `as_object`. -/
def requireObject (document : Json δ) : Except Error Unit :=
  match document with
  | .object _ => .ok ()
  | _ => .error .badVariantAccess

/-- What update_status and delete have in common: the record is read, its status is checked and
    changed, and the record is stored again. -/
def changeStatus [Decimal δ] (entity : IrEntity) (keyValues : List (EntityKeyValue δ))
    (requestedStatus now invalid failed : Bytes) (respond : Json δ → Outcome δ) :
    Script δ (Outcome δ) := do
  let record ← repositoryGetTx entity keyValues
  match record with
  | none => pure (.ok { statusCode := 404, body := .object [] })
  | some record => do
    let status ← Script.ofExcept (requireMember record.document entityStatusFieldName)
    let currentStatus ← Script.ofExcept status.asString
    if statusTransitionAllowed entity currentStatus requestedStatus = false then
      .throw (.backendError invalid)
    else do
      Script.ofExcept (requireObject record.document)
      let updated ← repositoryUpdateTx entity keyValues
        (statusDocument record.document requestedStatus now) record.version
      match updated with
      | none => .throw (.backendError failed)
      | some updated => pure (respond updated.document)

/-- `request.status`: a `std::string`, or the handler does not compile. -/
def requestedStatus (request : Request δ) : Except Error Bytes :=
  (requestJson request entityStatusFieldName).asString

/-- `write_cpp_update_status_handler_body`. -/
def updateStatusHandler [Decimal δ] [Widening δ] (system : IrSystem) (api : IrApi)
    (entity : IrEntity) (shape : IrShape) (context : ApiRequestContext δ) (now : Bytes) :
    Script δ (Outcome δ) :=
  if (findField shape.fields entityStatusFieldName).isSome = false then
    .throw (.backendError (ascii "generated status update handler for " ++ api.name ++
      ascii " requires status and entity key request fields"))
  else do
    let request ← Script.ofExcept (decodeRequest context.body shape.fields)
    let status ← Script.ofExcept (requestedStatus request)
    changeStatus entity
      (keyValues entity (requestOrPathJson shape request (apiParameters api context))) status now
      (ascii "invalid entity status transition") (ascii "entity update failed")
      (recordResponse (outputShape system api))

/-- `write_cpp_delete_handler_body`. -/
def deleteHandler [Decimal δ] (api : IrApi) (entity : IrEntity) (context : ApiRequestContext δ)
    (now : Bytes) : Script δ (Outcome δ) :=
  changeStatus entity (keyValues entity (pathParameterJson (apiParameters api context)))
    conventionalSoftDeleteTerminalStateName now (ascii "invalid entity delete transition")
    (ascii "entity delete update failed") fun _ => .ok { statusCode := 204, body := .object [] }

/-! ## Which handler an api has -/

/-- `api_repository_operation_is`, with the entity that is found. -/
def entityForApi (system : IrSystem) (api : IrApi) (operation : Bytes) : Option IrEntity :=
  if api.repositoryOperation = some operation then api.entity.bind (findEntity system) else none

def inputShape (system : IrSystem) (api : IrApi) : Option IrShape :=
  api.input.bind (findShape system)

/-- `list_entity_for_api`, with the shape of the list. -/
def listEntityForApi (system : IrSystem) (api : IrApi) : Option (IrEntity × IrShape) := do
  let entity ← entityForApi system api (ascii "list")
  let shape ← outputShape system api
  let field ← listResponseField shape
  if entity.name = listedEntityName field then pure (entity, shape) else none

/-- **The handlers that are written for entities**; the others do not call the store. -/
def handle [Decimal δ] [Widening δ] (system : IrSystem) (api : IrApi)
    (context : ApiRequestContext δ) (now : Bytes) : Option (Script δ (Outcome δ)) :=
  match entityForApi system api (ascii "create"), inputShape system api with
  | some entity, some shape => some (createHandler system api entity shape context now)
  | _, _ =>
  match entityForApi system api (ascii "get") with
  | some entity => some (getHandler system api entity context)
  | none =>
  match listEntityForApi system api with
  | some (entity, shape) => some (listHandler api entity shape context)
  | none =>
  match entityForApi system api (ascii "update_status"), inputShape system api with
  | some entity, some shape => some (updateStatusHandler system api entity shape context now)
  | _, _ =>
  match entityForApi system api (ascii "delete") with
  | some entity =>
    if conventionalSoftDeleteTerminalStateName ∈ entity.terminalStates then
      some (deleteHandler api entity context now)
    else none
  | none => none

end StateSpec.Generated
