/-
  THE INTERMEDIATE REPRESENTATION — `ir_*.hpp`, `ir_declarations.cpp`, `ir_entities.cpp`,
  `ir_external_systems.cpp` and `ir_runtime.cpp`, with `identifier_case.cpp`.

  The semantic model between the tree and this one (`semantic_*.cpp`) has the same records, with the kind of
  what a reference names beside its name; the lowering reads the names only, so it starts from the tree here.
  The lowering makes APIs and shapes of the `api` blocks of entities.  It makes each of them under a name, and
  leaves out what has a name that is already taken (`addShape`, `appendSyntheticApi`).
-/
import StateSpec.Compiler.ValidatorEntities
import StateSpec.Compiler.Durations

namespace StateSpec.Compiler

/-! ## The records -/

structure IrField where
  name : Bytes
  type : Bytes
deriving DecidableEq

structure IrValue where
  name : Bytes
  type : Bytes
  constraint : Option Bytes

structure IrEnumMember where
  name : Bytes
  value : Option Bytes

structure IrEnum where
  name : Bytes
  members : List IrEnumMember

structure IrShape where
  name : Bytes
  fields : List IrField
deriving DecidableEq

structure IrIndex where
  name : Bytes
  fields : List Bytes
  unique : Bool

structure IrEntity where
  name : Bytes
  keyFields : List Bytes
  fields : List IrField
  indexes : List IrIndex

structure IrExternalSystemMetadata where
  entity : Bytes
  tenantField : Option Bytes
  profileField : Bytes
  keyFields : List Bytes
  requiredFields : List Bytes

structure IrExternalSystem where
  name : Bytes
  metadata : Option IrExternalSystemMetadata

structure IrLease where
  name : Bytes
  resource : Option Bytes
  resourcePattern : Bytes
  ttl : Option Bytes
  ttlSeconds : Int64
  renewEvery : Option Bytes
  renewEverySeconds : Int64
  holder : Option Bytes
  fencingToken : Option Bool
  fencingTokenEnabled : Bool
  maxTtl : Option Bytes
  maxTtlSeconds : Option Int64

structure IrApiServer where
  name : Bytes
  serves : List Bytes
  concurrency : Option Int

structure IrApi where
  name : Bytes
  method : Option Bytes
  path : Option Bytes
  input : Option Bytes
  output : Option Bytes
  error : Option Bytes
  startsWorkflow : Option Bytes
  enqueues : Option Bytes
  entity : Option Bytes
  repositoryOperation : Option Bytes
  listSelector : List Bytes
deriving DecidableEq

structure IrSystem where
  name : Bytes
  values : List IrValue
  enums : List IrEnum
  shapes : List IrShape
  externalSystems : List IrExternalSystem
  entities : List IrEntity
  leases : List IrLease
  apiServers : List IrApiServer
  apis : List IrApi

/-! ## `identifier_case.cpp` -/

/-- The loop of `pascal_identifier`: letters and digits stay, and the first after anything else is in upper
    case. -/
def pascalFrom (upperNext : Bool) : Bytes → Bytes
  | [] => []
  | ch :: rest =>
    if isAlnum ch = false then pascalFrom true rest
    else (if upperNext then toUpper ch else ch) :: pascalFrom false rest

def pascalIdentifier (value fallback : Bytes) : Bytes :=
  if pascalFrom true value = [] then fallback else pascalFrom true value

def lowerCamelIdentifier (value fallback : Bytes) : Bytes :=
  match pascalIdentifier value fallback with
  | [] => fallback
  | first :: rest => toLower first :: rest

def pluralPascalIdentifier (value : Bytes) : Bytes :=
  let singular := pascalIdentifier value (ascii "Entities")
  if singular.getLast? = some (byte 'y') then singular.dropLast ++ ascii "ies"
  else if singular.getLast? = some (byte 's') then singular ++ ascii "es"
  else singular ++ ascii "s"

/-! ## `ir_declarations.cpp` -/

def lowerFields (fields : List FieldDecl) : List IrField :=
  fields.map fun field => ⟨field.name, field.type⟩

def hasShape (shapes : List IrShape) (name : Bytes) : Bool :=
  shapes.any fun shape => decide (shape.name = name)

/-- A shape, unless there is one of its name. -/
def addShape (shapes : List IrShape) (shape : IrShape) : List IrShape :=
  if hasShape shapes shape.name then shapes else shapes ++ [shape]

def fieldType (entity : EntityDecl) (fieldName : Bytes) : Bytes :=
  ((findField entity.fields fieldName).map FieldDecl.type).getD (ascii "string")

def containsField (fields : List IrField) (name : Bytes) : Bool :=
  fields.any fun field => decide (field.name = name)

def appendField (entity : EntityDecl) (fields : List IrField) (fieldName : Bytes) : List IrField :=
  if containsField fields fieldName then fields else fields ++ [⟨fieldName, fieldType entity fieldName⟩]

def entityHasField (entity : EntityDecl) (fieldName : Bytes) : Bool :=
  decide (fieldName ∈ fieldNames entity.fields)

/-- The fields of an entity that are neither there already nor foundational. -/
def appendOtherField (fields : List IrField) (field : FieldDecl) : List IrField :=
  if containsField fields field.name ∨ field.name ∈ canonicalFields then fields
  else fields ++ [⟨field.name, field.type⟩]

/-- A foundational field, if the entity has it. -/
def appendFoundationalField (entity : EntityDecl) (fields : List IrField) (fieldName : Bytes) : List IrField :=
  if entityHasField entity fieldName then appendField entity fields fieldName else fields

def entityResponseFields (entity : EntityDecl) : List IrField :=
  let keys := entity.keyFields.foldl (appendField entity) []
  let others := entity.fields.foldl appendOtherField keys
  [ascii "status", ascii "created_at", ascii "updated_at"].foldl (appendFoundationalField entity) others

/-- The index that a list is by, if it is by one name and that is an index's. -/
def selectedIndex (entity : EntityDecl) (list : EntityApiListDecl) : Option IndexDecl :=
  match list.by' with
  | [name] => entity.indexes.find? fun index => decide (index.name = name)
  | _ => none

def listSelectorFields (entity : EntityDecl) (list : EntityApiListDecl) : List Bytes :=
  match selectedIndex entity list with
  | some index => index.fields
  | none => list.by'

/-- The fields of a request: the key fields that its route does not give, and others. -/
def requestFields (entity : EntityDecl) (resource : Option Bytes) (others : List Bytes) : List IrField :=
  let keys := entity.keyFields.filter fun keyField => decide (keyField ∉ pathParameterSet resource)
  (keys ++ others).foldl (appendField entity) []

def entityName (entity : EntityDecl) : Bytes := pascalIdentifier entity.name (ascii "Entity")

def responseName (entity : EntityDecl) : Bytes := entityName entity ++ ascii "Response"

def createName (entity : EntityDecl) (create : EntityApiCreateDecl) : Bytes :=
  create.name.getD (ascii "Create" ++ entityName entity)

def getName (entity : EntityDecl) (get : EntityApiOperationDecl) : Bytes :=
  get.name.getD (ascii "Get" ++ entityName entity)

def listName (entity : EntityDecl) (list : EntityApiListDecl) : Bytes :=
  list.name.getD (ascii "List" ++ pluralPascalIdentifier entity.name)

def updateName (entity : EntityDecl) (updateStatus : EntityApiOperationDecl) : Bytes :=
  updateStatus.name.getD (ascii "Update" ++ entityName entity ++ ascii "Status")

def deleteName (entity : EntityDecl) (delete' : EntityApiOperationDecl) : Bytes :=
  delete'.name.getD (ascii "Delete" ++ entityName entity)

def requestOf (name : Bytes) : Bytes := name ++ ascii "Request"

def responseShape (entity : EntityDecl) : IrShape := ⟨responseName entity, entityResponseFields entity⟩

def createRequest (entity : EntityDecl) (resource : Option Bytes) (create : EntityApiCreateDecl) : IrShape :=
  ⟨requestOf (createName entity create), requestFields entity resource create.fields⟩

def updateRequest (entity : EntityDecl) (resource : Option Bytes) (updateStatus : EntityApiOperationDecl) :
    IrShape :=
  ⟨requestOf (updateName entity updateStatus), requestFields entity resource [ascii "status"]⟩

def listResponse (entity : EntityDecl) (list : EntityApiListDecl) : IrShape :=
  { name := listName entity list ++ ascii "Response"
    fields := (listSelectorFields entity list).foldl (appendField entity) [] ++
      [⟨lowerCamelIdentifier (pluralPascalIdentifier entity.name) (ascii "entities"),
        responseName entity ++ ascii "[]"⟩] }

/-- The shapes of an entity's `api` block, in the order in which `append_entity_api_shapes` adds them. -/
def entityApiShapes (entity : EntityDecl) : List IrShape :=
  entity.api.elim [] fun api =>
    responseShape entity ::
      (api.create.toList.map (createRequest entity api.resource) ++
        api.updateStatus.toList.map (updateRequest entity api.resource) ++
        api.lists.map (listResponse entity))

def appendEntityApiShapes (shapes : List IrShape) (entity : EntityDecl) : List IrShape :=
  (entityApiShapes entity).foldl addShape shapes

def lowerValue (value : ValueDecl) : IrValue := ⟨value.name, value.type, value.constraint⟩

def lowerEnum (enumDecl : EnumDecl) : IrEnum :=
  ⟨enumDecl.name, enumDecl.members.map fun member => ⟨member.name, member.value⟩⟩

def lowerShape (shape : ShapeDecl) : IrShape := ⟨shape.name, lowerFields shape.fields⟩

/-! ## `ir_entities.cpp` and `ir_external_systems.cpp` -/

def lowerEntity (entity : EntityDecl) : IrEntity :=
  ⟨entity.name, entity.keyFields, lowerFields entity.fields,
    entity.indexes.map fun index => ⟨index.name, index.fields, index.unique⟩⟩

/-- An external system with the metadata that `resolve_semantic_external_systems` has found for it. -/
def lowerExternalSystem (system : SystemDecl) (externalSystem : ExternalSystemDecl) : IrExternalSystem :=
  { name := externalSystem.name
    metadata := externalSystem.metadata.map fun metadata =>
      { entity := metadata.entity.getD []
        tenantField := system.tenantScope.map TenantScopeDecl.fieldName
        profileField := metadata.profileField.getD []
        keyFields := ((findEntity system (metadata.entity.getD [])).map EntityDecl.keyFields).getD []
        requiredFields := metadata.requiredFields } }

/-! ## `ir_runtime.cpp` -/

def lowerLease (lease : LeaseDecl) : IrLease :=
  { name := lease.name
    resource := lease.resource
    resourcePattern := lease.resource.getD lease.name
    ttl := lease.ttl
    ttlSeconds := Ir.durationSeconds lease.ttl
    renewEvery := lease.renewEvery
    renewEverySeconds :=
      if lease.renewEvery.isSome then Ir.durationSeconds lease.renewEvery else Ir.durationSeconds lease.ttl
    holder := lease.holder
    fencingToken := lease.fencingToken
    fencingTokenEnabled := lease.fencingToken.getD false
    maxTtl := lease.maxTtl
    maxTtlSeconds := if lease.maxTtl.isSome then some (Ir.durationSeconds lease.maxTtl) else none }

def lowerApiServer (apiServer : ApiServerDecl) : IrApiServer :=
  ⟨apiServer.name, apiServer.serves, apiServer.concurrency⟩

namespace IrSystem

def hasApi (ir : IrSystem) (name : Bytes) : Bool := ir.apis.any fun api => decide (api.name = name)

def findShape (ir : IrSystem) (name : Bytes) : Option IrShape :=
  ir.shapes.find? fun shape => decide (shape.name = name)

def findEntity (ir : IrSystem) (name : Bytes) : Option IrEntity :=
  ir.entities.find? fun entity => decide (entity.name = name)

end IrSystem

/-- `list_item_type`, and nothing instead of an empty one. -/
def listItemType (type : Bytes) : Option Bytes :=
  if endsWith type (ascii "[]") ∧ 2 < type.length then some (type.take (type.length - 2)) else none

/-- The first field of a shape that is a list of something, with its item type, and the other fields. -/
def splitArrayField : List IrField → Option (Bytes × List IrField)
  | [] => none
  | field :: rest =>
    match listItemType field.type with
    | some item => some (item, rest)
    | none => (splitArrayField rest).map fun found => (found.1, field :: found.2)

/-- The text without the suffix, where it has it. -/
def stripSuffix (suffix value : Bytes) : Option Bytes :=
  if endsWith value suffix then some (value.take (value.length - suffix.length)) else none

def responseEntity (ir : IrSystem) (output : Option Bytes) : Option IrEntity :=
  (output.bind (stripSuffix (ascii "Response"))).bind ir.findEntity

def listResponseEntity (ir : IrSystem) (api : IrApi) : Option IrEntity :=
  ((api.output.bind ir.findShape).bind fun shape => splitArrayField shape.fields).bind fun found =>
    ir.findEntity ((stripSuffix (ascii "Response") found.1).getD found.1)

def listResponseSelector (ir : IrSystem) (api : IrApi) : List Bytes :=
  (((api.output.bind ir.findShape).bind fun shape => splitArrayField shape.fields).map fun found =>
    found.2.map IrField.name).getD []

/-- The first fields of an index, as far as they are parameters. -/
def givenPrefix (parameters : List Bytes) (index : IrIndex) : List Bytes :=
  index.fields.takeWhile fun field => decide (field ∈ parameters)

/-- The longest prefix of an index that the path gives, of the first index that has it. -/
def indexBackedPathSelector (entity : IrEntity) (api : IrApi) : List Bytes :=
  entity.indexes.foldl
    (fun selected index =>
      if selected.length < (givenPrefix (pathParameterSet api.path) index).length then
        givenPrefix (pathParameterSet api.path) index
      else selected)
    []

def selectorHasBackingIndex (entity : IrEntity) (selector : List Bytes) : Bool :=
  decide (selector ≠ []) && entity.indexes.any fun index => selector.isPrefixOf index.fields

/-- An API that does `operation` on an entity. -/
def IrApi.attach (api : IrApi) (entity : IrEntity) (operation : String) (selector : List Bytes) : IrApi :=
  { api with
    entity := some entity.name
    repositoryOperation := some (ascii operation)
    listSelector := selector }

/-- The selector of a declared list: what an index and the path have in common, else the other fields of the
    response, if an index begins with them. -/
def explicitListSelector (ir : IrSystem) (api : IrApi) (entity : IrEntity) : List Bytes :=
  if indexBackedPathSelector entity api = [] then
    if selectorHasBackingIndex entity (listResponseSelector ir api) then listResponseSelector ir api else []
  else indexBackedPathSelector entity api

def attachExplicitCrudMetadata (ir : IrSystem) (api : IrApi) : IrApi :=
  if api.entity.isSome ∨ api.repositoryOperation.isSome then api
  else if api.method = some (ascii "POST") ∧ api.input.isSome then
    match responseEntity ir api.output with
    | some entity => api.attach entity "create" api.listSelector
    | none => api
  else if api.method = some (ascii "GET") then
    match listResponseEntity ir api with
    | some entity => api.attach entity "list" (explicitListSelector ir api entity)
    | none =>
      match responseEntity ir api.output with
      | some entity => api.attach entity "get" api.listSelector
      | none => api
  else if api.method = some (ascii "PATCH") ∧ api.input.isSome then
    match responseEntity ir api.output with
    | some entity => api.attach entity "update_status" api.listSelector
    | none => api
  else if api.method = some (ascii "DELETE") then
    match (Bytes.stripPrefix (ascii "Delete") api.name).bind ir.findEntity with
    | some entity => api.attach entity "delete" api.listSelector
    | none => api
  else api

def statusPath (resource : Bytes) : Bytes :=
  if resource.getLast? = some (byte '/') then resource ++ ascii "status" else resource ++ ascii "/status"

/-- An API of an entity's `api` block. -/
def syntheticApi (entity : EntityDecl) (name : Bytes) (method : String) (path input output : Option Bytes)
    (operation : String) (selector : List Bytes) : IrApi :=
  { name := name
    method := some (ascii method)
    path := path
    input := input
    output := output
    error := none
    startsWorkflow := none
    enqueues := none
    entity := some entity.name
    repositoryOperation := some (ascii operation)
    listSelector := selector }

def createOperation (entity : EntityDecl) (resource : Bytes) (create : EntityApiCreateDecl) : IrApi :=
  syntheticApi entity (createName entity create) "POST" (some resource)
    (some (requestOf (createName entity create))) (some (responseName entity)) "create" []

def getOperation (entity : EntityDecl) (resource : Bytes) (get : EntityApiOperationDecl) : IrApi :=
  syntheticApi entity (getName entity get) "GET" (some resource) none (some (responseName entity)) "get" []

def listOperation (entity : EntityDecl) (list : EntityApiListDecl) : IrApi :=
  syntheticApi entity (listName entity list) "GET" list.path none
    (some (listName entity list ++ ascii "Response")) "list" (listSelectorFields entity list)

def updateOperation (entity : EntityDecl) (resource : Bytes) (updateStatus : EntityApiOperationDecl) : IrApi :=
  syntheticApi entity (updateName entity updateStatus) "PATCH" (some (statusPath resource))
    (some (requestOf (updateName entity updateStatus))) (some (responseName entity)) "update_status" []

def deleteOperation (entity : EntityDecl) (resource : Bytes) (delete' : EntityApiOperationDecl) : IrApi :=
  syntheticApi entity (deleteName entity delete') "DELETE" (some resource) none none "delete" []

/-- The operations of an entity's `api` block, in the order in which `append_entity_api_operations` adds
    them. -/
def entityApiOperations (entity : EntityDecl) : List IrApi :=
  entity.api.elim [] fun api =>
    let resource := api.resource.getD []
    api.create.toList.map (createOperation entity resource) ++
    api.get.toList.map (getOperation entity resource) ++
    api.lists.map (listOperation entity) ++
    api.updateStatus.toList.map (updateOperation entity resource) ++
    api.delete'.toList.map (deleteOperation entity resource)

/-- An API, unless there is one of its name. -/
def appendSyntheticApi (ir : IrSystem) (api : IrApi) : IrSystem :=
  if ir.hasApi api.name then ir else { ir with apis := ir.apis ++ [api] }

/-- The server `serves` what it does not serve yet. -/
def IrApiServer.serve (apiServer : IrApiServer) (apiName : Bytes) : IrApiServer :=
  if apiName ∈ apiServer.serves then apiServer
  else { apiServer with serves := apiServer.serves ++ [apiName] }

def appendEntityApiServerMemberships (ir : IrSystem) (syntheticApiNames : List Bytes) : IrSystem :=
  if syntheticApiNames = [] then ir
  else if ir.apiServers = [] then
    { ir with apiServers := [⟨ascii "EntityApi", syntheticApiNames, none⟩] }
  else
    { ir with apiServers := ir.apiServers.map fun apiServer =>
        syntheticApiNames.foldl IrApiServer.serve apiServer }

def lowerApi (api : ApiDecl) : IrApi :=
  { name := api.name
    method := api.method
    path := api.path
    input := api.input
    output := api.output
    error := api.error
    startsWorkflow := api.startsWorkflow
    enqueues := api.enqueues
    entity := none
    repositoryOperation := none
    listSelector := [] }

/-! ## `lower_to_ir` -/

/-- Everything but the APIs. -/
def lowerDeclarations (system : SystemDecl) : IrSystem :=
  { name := system.name
    values := system.values.map lowerValue
    enums := system.enums.map lowerEnum
    shapes := system.entities.foldl appendEntityApiShapes (system.shapes.map lowerShape)
    externalSystems := system.externalSystems.map (lowerExternalSystem system)
    entities := system.entities.map lowerEntity
    leases := system.leases.map lowerLease
    apiServers := system.apiServers.map lowerApiServer
    apis := [] }

/-- The operations of all entities, in order. -/
def systemApiOperations (system : SystemDecl) : List IrApi := system.entities.flatMap entityApiOperations

/-- The declared APIs, with what is guessed about them. -/
def declaredApis (system : SystemDecl) : List IrApi :=
  system.apis.map fun api => attachExplicitCrudMetadata (lowerDeclarations system) (lowerApi api)

def lowerToIr (system : SystemDecl) : IrSystem :=
  let ir := { lowerDeclarations system with apis := declaredApis system }
  let operations := systemApiOperations system
  appendEntityApiServerMemberships (operations.foldl appendSyntheticApi ir) (operations.map IrApi.name)

end StateSpec.Compiler
