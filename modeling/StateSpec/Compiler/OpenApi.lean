/-
  THE OPENAPI DOCUMENT — `openapi_render.cpp`, `openapi_schema.cpp`, `openapi_paths.cpp`, `openapi_json.cpp` and
  `openapi_operator_metadata.cpp`, with what they use of `string_utils.cpp`.

  The document is written piece by piece, and each loop decides on its own what stands between its items.  Two
  kinds of loops do that: those that write lines (`writeLines`) and those that write on one line
  (`writeSpaced`).  The schema of a type depends on its text only: what kind of type it is (`typeForm`), and
  what its items are.
-/
import Mathlib.Data.List.DropRight
import StateSpec.Lib.Groups
import StateSpec.Generated.System
import StateSpec.Compiler.Ir

namespace StateSpec.Compiler

open Generated (isOptionalType stripOptionalType)

/-! ## `openapi_json.cpp` -/

def openapiJsonEscape (value : Bytes) : Bytes := value.flatMap Json.escapeByte

def openapiQuoted (value : Bytes) : Bytes := ascii "\"" ++ openapiJsonEscape value ++ ascii "\""

/-! ## Loops -/

/-- A comma and a line end behind each item, and a line end behind the last. -/
def writeLines {α : Type} (item : α → Bytes) : List α → Bytes
  | [] => []
  | [a] => item a ++ ascii "\n"
  | a :: rest => item a ++ ascii ",\n" ++ writeLines item rest

/-- A comma and a blank in front of each item but the first. -/
def writeSpaced {α : Type} (item : α → Bytes) : List α → Bytes
  | [] => []
  | a :: rest => item a ++ rest.flatMap fun b => ascii ", " ++ item b

/-! ## `openapi_paths.cpp`, the names of operations -/

def openapiApiPath (api : IrApi) : Bytes :=
  if api.path.getD [] = [] then ascii "/" ++ api.name else api.path.getD []

def openapiApiMethod (api : IrApi) : Bytes :=
  if api.method.getD [] = [] then ascii "post" else lowerAscii (api.method.getD [])

def openapiHasApiOperation (system : IrSystem) (method : String) (path : Bytes) : Bool :=
  system.apis.any fun api =>
    decide (openapiApiMethod api = lowerAscii (ascii method) ∧ openapiApiPath api = path)

/-! ## `openapi_schema.cpp` -/

/-- `find_value`, `find_enum` and `find_shape`: the names that are schemas of the document. -/
def componentNames (system : IrSystem) : List Bytes :=
  system.values.map IrValue.name ++ system.enums.map IrEnum.name ++ system.shapes.map IrShape.name

/-- Before the last brace, if there is one. -/
def addOpenapiSchemaProperty (schema property : Bytes) : Bytes :=
  if byte '\x7d' ∉ schema then schema
  else
    (schema.rdropWhile fun ch => ch != byte '\x7d').dropLast ++
      (ascii ", " ++ property ++ ascii " ") ++
      byte '\x7d' :: schema.rtakeWhile fun ch => ch != byte '\x7d'

def trimAsciiCopy (value : Bytes) : Bytes := (value.dropWhile isSpace).rdropWhile isSpace

/-- The loop of `split_top_level_csv`, with the part that it stands in. -/
def splitTopLevelFrom (depth : Int) (part : Bytes) : Bytes → List Bytes
  | [] => [trimAsciiCopy part]
  | ch :: rest =>
    if ch = byte '<' then splitTopLevelFrom (depth + 1) (part ++ [ch]) rest
    else if ch = byte '>' then splitTopLevelFrom (depth - 1) (part ++ [ch]) rest
    else if ch = byte ',' ∧ depth = 0 then trimAsciiCopy part :: splitTopLevelFrom depth [] rest
    else splitTopLevelFrom depth (part ++ [ch]) rest

def splitTopLevelCsv (value : Bytes) : List Bytes := splitTopLevelFrom 0 [] value

def genericBody (type : Bytes) (genericName : String) : Option Bytes :=
  let front := ascii genericName ++ ascii "<"
  if front.isPrefixOf (lowerAscii type) ∧ endsWith type (ascii ">") then
    some (type.drop front.length).dropLast
  else none

/-- What `openapi_schema_for_type` takes a type for. -/
inductive TypeForm where
  | ref (name : Bytes)
  | list (item : Bytes)
  | set (item : Bytes)
  | map (value : Bytes)
  | anything
  | scalar (lowered : Bytes)

def typeForm (system : IrSystem) (type : Bytes) : TypeForm :=
  if type ∈ componentNames system then .ref type
  else
    match genericBody type "list", genericBody type "set" with
    | some item, _ => .list item
    | none, some item => .set item
    | none, none =>
      if endsWith type (ascii "[]") then .list (type.take (type.length - 2))
      else
        match genericBody type "map" with
        | some body =>
          match splitTopLevelCsv body with
          | [_, value] => .map value
          | _ => .anything
        | none => .scalar (lowerAscii type)

def openapiRefSchema (name : Bytes) : Bytes :=
  ascii "\x7b \"$ref\": \"#/components/schemas/" ++ openapiJsonEscape name ++ ascii "\" \x7d"

/-- The schemas of the types of the language, and that of a string for everything else. -/
def openapiScalarSchema (lowered : Bytes) : Bytes :=
  if lowered = ascii "json" ∨ lowered = ascii "object" then
    ascii "\x7b \"type\": \"object\", \"additionalProperties\": true \x7d"
  else if lowered = ascii "bool" ∨ lowered = ascii "boolean" then ascii "\x7b \"type\": \"boolean\" \x7d"
  else if lowered = ascii "int" ∨ lowered = ascii "int32" then
    ascii "\x7b \"type\": \"integer\", \"format\": \"int32\" \x7d"
  else if lowered = ascii "int64" ∨ lowered = ascii "long" then
    ascii "\x7b \"type\": \"integer\", \"format\": \"int64\" \x7d"
  else if lowered = ascii "float" then ascii "\x7b \"type\": \"number\", \"format\": \"float\" \x7d"
  else if lowered = ascii "double" then ascii "\x7b \"type\": \"number\", \"format\": \"double\" \x7d"
  else if lowered = ascii "decimal" then ascii "\x7b \"type\": \"number\" \x7d"
  else if lowered = ascii "uuid" then ascii "\x7b \"type\": \"string\", \"format\": \"uuid\" \x7d"
  else if lowered = ascii "timestamp" ∨ lowered = ascii "datetime" then
    ascii "\x7b \"type\": \"string\", \"format\": \"date-time\" \x7d"
  else if lowered = ascii "date" then ascii "\x7b \"type\": \"string\", \"format\": \"date\" \x7d"
  else if lowered = ascii "duration" then ascii "\x7b \"type\": \"string\", \"format\": \"duration\" \x7d"
  else ascii "\x7b \"type\": \"string\" \x7d"

/-! ### Types get shorter -/

theorem stripOptionalType_length (type : Bytes) : (stripOptionalType type).length ≤ type.length := by
  unfold stripOptionalType
  split
  · simp only [List.length_dropLast, List.length_drop]
    omega
  · split
    · simp only [List.length_dropLast]
      omega
    · exact Nat.le_refl _

theorem genericBody_length {type body : Bytes} {genericName : String}
    (h : genericBody type genericName = some body) : body.length < type.length := by
  simp only [genericBody] at h
  split at h
  · rename_i hfront
    obtain rfl := Option.some.inj h
    have hle := (List.isPrefixOf_iff_prefix.mp hfront.1).length_le
    simp only [List.length_append, lowerAscii, List.length_map] at hle
    have hopen : (ascii "<").length = 1 := rfl
    simp only [List.length_dropLast, List.length_drop, List.length_append]
    omega
  · cases h

theorem trimAsciiCopy_length (value : Bytes) : (trimAsciiCopy value).length ≤ value.length :=
  (List.rdropWhile_prefix (l := value.dropWhile isSpace) isSpace).length_le.trans (List.dropWhile_suffix _).length_le

theorem splitTopLevelFrom_length {depth : Int} {part text piece : Bytes}
    (h : piece ∈ splitTopLevelFrom depth part text) : piece.length ≤ part.length + text.length := by
  induction text generalizing depth part with
  | nil =>
    obtain rfl := List.mem_singleton.mp h
    exact trimAsciiCopy_length part
  | cons ch rest ih =>
    rw [splitTopLevelFrom] at h
    have hlonger : piece.length ≤ (part ++ [ch]).length + rest.length →
        piece.length ≤ part.length + (ch :: rest).length := by
      simp only [List.length_append, List.length_cons, List.length_nil]
      omega
    split at h
    · exact hlonger (ih h)
    · split at h
      · exact hlonger (ih h)
      · split at h
        · rcases List.mem_cons.mp h with rfl | h
          · exact (trimAsciiCopy_length part).trans (Nat.le_add_right _ _)
          · have hle := ih h
            simp only [List.length_nil, List.length_cons] at hle ⊢
            omega
        · exact hlonger (ih h)

namespace TypeForm

/-- The type of the items of a type. -/
def item : TypeForm → Option Bytes
  | .list item | .set item | .map item => some item
  | .ref _ | .anything | .scalar _ => none

end TypeForm

theorem typeForm_length {system : IrSystem} {type item : Bytes} (h : (typeForm system type).item = some item) :
    item.length < type.length := by
  unfold typeForm at h
  split at h
  · cases h
  cases hlist : genericBody type "list" with
  | some body =>
    rw [hlist] at h
    obtain rfl : body = item := Option.some.inj h
    exact genericBody_length hlist
  | none =>
  cases hset : genericBody type "set" with
  | some body =>
    rw [hlist, hset] at h
    obtain rfl : body = item := Option.some.inj h
    exact genericBody_length hset
  | none =>
  rw [hlist, hset] at h
  dsimp only at h
  split at h
  · rename_i hsuffix
    obtain rfl := Option.some.inj h
    have hle := (of_decide_eq_true hsuffix).length_le
    have hbrackets : (ascii "[]").length = 2 := rfl
    rw [List.length_take]
    omega
  split at h
  · rename_i body hbody
    split at h
    · rename_i _ value hsplit
      obtain rfl := Option.some.inj h
      have hmem : value ∈ splitTopLevelFrom 0 [] body := by
        show value ∈ splitTopLevelCsv body
        rw [hsplit]
        exact List.mem_cons_of_mem _ List.mem_cons_self
      have hle := splitTopLevelFrom_length hmem
      rw [List.length_nil, Nat.zero_add] at hle
      exact hle.trans_lt (genericBody_length hbody)
    · cases h
  · cases h

/-! ### The schemas -/

def openapiSchemaForType (system : IrSystem) (rawType : Bytes) : Bytes :=
  match _hform : typeForm system (stripOptionalType rawType) with
  | .ref name => openapiRefSchema name
  | .list item =>
    ascii "\x7b \"type\": \"array\", \"items\": " ++ openapiSchemaForType system item ++ ascii " \x7d"
  | .set item =>
    ascii "\x7b \"type\": \"array\", \"uniqueItems\": true, \"items\": " ++
      openapiSchemaForType system item ++ ascii " \x7d"
  | .map value =>
    ascii "\x7b \"type\": \"object\", \"additionalProperties\": " ++ openapiSchemaForType system value ++
      ascii " \x7d"
  | .anything => ascii "\x7b \"type\": \"object\", \"additionalProperties\": true \x7d"
  | .scalar lowered => openapiScalarSchema lowered
termination_by rawType.length
decreasing_by
  all_goals
    refine Nat.lt_of_lt_of_le (@typeForm_length system _ _ ?_) (stripOptionalType_length rawType)
    rw [_hform]
    rfl

def writeOpenapiValueSchema (system : IrSystem) (value : IrValue) : Bytes :=
  let schema := openapiSchemaForType system value.type
  let constraint := value.constraint.getD []
  ascii "      " ++ openapiQuoted value.name ++ ascii ": " ++
    if constraint = [] then schema
    else addOpenapiSchemaProperty schema (ascii "\"x-statespec-constraint\": " ++ openapiQuoted constraint)

def writeOpenapiEnumSchema (enumDecl : IrEnum) : Bytes :=
  ascii "      " ++ openapiQuoted enumDecl.name ++ ascii ": \x7b\n" ++
    ascii "        \"type\": \"string\",\n" ++
    ascii "        \"enum\": [" ++
    writeSpaced (fun member => openapiQuoted (member.value.getD member.name)) enumDecl.members ++
    ascii "]\n" ++
    ascii "      \x7d"

/-- The names of the fields that a document of the shape must have. -/
def requiredNames (shape : IrShape) : List Bytes :=
  (shape.fields.filter fun field => !isOptionalType field.type).map IrField.name

def writeOpenapiShapeSchema (system : IrSystem) (shape : IrShape) : Bytes :=
  ascii "      " ++ openapiQuoted shape.name ++ ascii ": \x7b\n" ++
    ascii "        \"type\": \"object\",\n" ++
    ascii "        \"properties\": \x7b\n" ++
    writeLines
      (fun field => ascii "          " ++ openapiQuoted field.name ++ ascii ": " ++
        openapiSchemaForType system field.type)
      shape.fields ++
    ascii "        \x7d" ++
    if requiredNames shape = [] then ascii "\n" ++ ascii "      \x7d"
    else
      ascii ",\n" ++ ascii "        \"required\": [" ++ writeSpaced openapiQuoted (requiredNames shape) ++
        ascii "]\n" ++ ascii "      \x7d"

def writeOpenapiMediaSchema (system : IrSystem) (type indent : Bytes) : Bytes :=
  indent ++ ascii "\"content\": \x7b\n" ++
    indent ++ ascii "  \"application/json\": \x7b\n" ++
    indent ++ ascii "    \"schema\": " ++ openapiSchemaForType system type ++ ascii "\n" ++
    indent ++ ascii "  \x7d\n" ++
    indent ++ ascii "\x7d"

/-! ## `openapi_paths.cpp`, the operations -/

/-- `extract_path_parameters` is the loop of `pathParameters`. -/
def writeOpenapiParameters (parameters : List Bytes) : Bytes :=
  if parameters = [] then []
  else
    ascii ",\n" ++ ascii "      \"parameters\": [\n" ++
      writeLines
        (fun parameter => ascii "        \x7b\n" ++
          ascii "          \"name\": " ++ openapiQuoted parameter ++ ascii ",\n" ++
          ascii "          \"in\": \"path\",\n" ++
          ascii "          \"required\": true,\n" ++
          ascii "          \"schema\": \x7b \"type\": \"string\" \x7d\n" ++
          ascii "        \x7d")
        parameters ++
      ascii "      ]"

def writeOpenapiRequestBody (system : IrSystem) : Option Bytes → Bytes
  | some input =>
    ascii ",\n" ++ ascii "      \"requestBody\": \x7b\n" ++ ascii "        \"required\": true,\n" ++
      writeOpenapiMediaSchema system input (ascii "        ") ++ ascii "\n" ++ ascii "      \x7d"
  | none => []

/-- Behind the description of the response. -/
def writeOpenapiOutput (system : IrSystem) : Option Bytes → Bytes
  | some output =>
    ascii ",\n" ++ writeOpenapiMediaSchema system output (ascii "          ") ++ ascii "\n" ++
      ascii "        \x7d"
  | none => ascii "\n" ++ ascii "        \x7d"

def writeOpenapiError (system : IrSystem) : Option Bytes → Bytes
  | some error =>
    ascii ",\n" ++ ascii "        \"default\": \x7b\n" ++
      ascii "          \"description\": \"Error\",\n" ++
      writeOpenapiMediaSchema system error (ascii "          ") ++ ascii "\n" ++ ascii "        \x7d\n"
  | none => ascii "\n"

def writeOpenapiOperation (system : IrSystem) (api : IrApi) : Bytes :=
  ascii "      \"operationId\": " ++ openapiQuoted api.name ++
    writeOpenapiParameters (pathParameters (openapiApiPath api)) ++
    writeOpenapiRequestBody system api.input ++
    ascii ",\n" ++
    ascii "      \"responses\": \x7b\n" ++
    ascii "        \"200\": \x7b\n" ++
    ascii "          \"description\": \"OK\"" ++
    writeOpenapiOutput system api.output ++
    writeOpenapiError system api.error ++
    ascii "      \x7d\n"

/-! ## `openapi_operator_metadata.cpp` -/

def operatorMetadataBasePath (metadata : IrExternalSystemMetadata) : Bytes :=
  (match metadata.tenantField with
    | some tenantField => ascii "/v1/tenants/\x7b" ++ tenantField ++ ascii "\x7d"
    | none => ascii "/v1") ++
    ascii "/operators/external-systems/\x7bexternal_system_id\x7d/profiles/\x7b" ++
    metadata.profileField ++ ascii "\x7d"

/-- What an operator may say about an external system. -/
def operatorRequestFields (entity : IrEntity) (metadata : IrExternalSystemMetadata) : List IrField :=
  (entity.fields.filter fun field =>
      decide (field.name ∉ entity.keyFields ∧ field.name ∉ canonicalFields)).map fun field =>
    if field.name ∉ metadata.requiredFields ∧ isOptionalType field.type = false then
      { field with type := ascii "optional<" ++ field.type ++ ascii ">" }
    else field

def appendOperatorMetadataShapes (system : IrSystem) (metadata : IrExternalSystemMetadata) : IrSystem :=
  match system.findEntity metadata.entity with
  | none => system
  | some entity =>
    let request := ⟨metadata.entity ++ ascii "Request", operatorRequestFields entity metadata⟩
    let response := ⟨metadata.entity ++ ascii "Response", entity.fields⟩
    { system with shapes := addShape (addShape system.shapes request) response }

/-- An operation on the profiles of an external system. -/
def operatorApi (metadata : IrExternalSystemMetadata) (name method : String) (path : Bytes)
    (input : Option Bytes) : IrApi :=
  { name := ascii name ++ metadata.entity
    method := some (ascii method)
    path := some path
    input := input
    output := some (metadata.entity ++ ascii "Response")
    error := none
    startsWorkflow := none
    enqueues := none
    entity := none
    repositoryOperation := none
    listSelector := [] }

/-- An operation, unless there is one of these methods on its path. -/
def appendOperatorApi (methods : List String) (api : IrApi) (system : IrSystem) : IrSystem :=
  if methods.any fun method => openapiHasApiOperation system method (openapiApiPath api) then system
  else { system with apis := system.apis ++ [api] }

def appendOperatorMetadataApis (system : IrSystem) (metadata : IrExternalSystemMetadata) : IrSystem :=
  let basePath := operatorMetadataBasePath metadata
  let upsert := operatorApi metadata "Upsert" "PUT" basePath (some (metadata.entity ++ ascii "Request"))
  let get := operatorApi metadata "Get" "GET" basePath none
  let disable := operatorApi metadata "Disable" "POST" (basePath ++ ascii "/disable") none
  let delete' := operatorApi metadata "Delete" "DELETE" basePath none
  appendOperatorApi ["DELETE"] delete' (appendOperatorApi ["POST", "PATCH"] disable
    (appendOperatorApi ["GET"] get (appendOperatorApi ["PUT"] upsert system)))

def appendOperatorMetadata (system : IrSystem) (metadata : IrExternalSystemMetadata) : IrSystem :=
  appendOperatorMetadataApis (appendOperatorMetadataShapes system metadata) metadata

def withGeneratedOperatorMetadataOpenapi (system : IrSystem) : IrSystem :=
  system.externalSystems.foldl
    (fun system externalSystem => externalSystem.metadata.elim system (appendOperatorMetadata system)) system

/-! ## `openapi_render.cpp` -/

/-- `apis_by_path[openapi_api_path(api)].push_back(&api)` for each API. -/
def apisByPath (apis : List IrApi) : List (Bytes × List IrApi) := groups openapiApiPath apis

def writePath (system : IrSystem) (entry : Bytes × List IrApi) : Bytes :=
  ascii "    " ++ openapiQuoted entry.1 ++ ascii ": \x7b\n" ++
    writeLines
      (fun api => ascii "      " ++ openapiQuoted (openapiApiMethod api) ++ ascii ": \x7b\n" ++
        writeOpenapiOperation system api ++ ascii "      \x7d")
      entry.2 ++
    ascii "    \x7d"

/-- The schemas of values, enums and shapes; a comma stands in front of each but the first. -/
def writeSchemas (system : IrSystem) : Bytes :=
  writeLines id
    (system.values.map (writeOpenapiValueSchema system) ++ system.enums.map writeOpenapiEnumSchema ++
      system.shapes.map (writeOpenapiShapeSchema system))

def renderDocument (system : IrSystem) : Bytes :=
  ascii "\x7b\n" ++
    ascii "  \"openapi\": \"3.0.3\",\n" ++
    ascii "  \"info\": \x7b\n" ++
    ascii "    \"title\": " ++ openapiQuoted (system.name ++ ascii " API") ++ ascii ",\n" ++
    ascii "    \"version\": \"0.1.0\"\n" ++
    ascii "  \x7d,\n" ++
    ascii "  \"paths\": \x7b\n" ++
    writeLines (writePath system) (apisByPath system.apis) ++
    ascii "  \x7d,\n" ++
    ascii "  \"components\": \x7b\n" ++
    ascii "    \"schemas\": \x7b\n" ++
    writeSchemas system ++
    ascii "    \x7d\n" ++
    ascii "  \x7d\n" ++
    ascii "\x7d\n"

def renderOpenapi (system : IrSystem) : Bytes := renderDocument (withGeneratedOperatorMetadataOpenapi system)

end StateSpec.Compiler
