/-
  DECLARATIONS — the passes of the validator over a system's own members: `validator_declarations.cpp`,
  `validator_ordering.cpp`, `validator_feature_flags.cpp`, `validator_shapes_values_events.cpp`,
  `validator_observability.cpp`, `validator_external_systems.cpp` and `validator_policies.cpp`.
-/
import StateSpec.Compiler.ValidatorExpression

namespace StateSpec.Compiler

/-! ## `validator_declarations.cpp` -/

def validateFieldDuplicates (fields : List FieldDecl) : Diagnostics :=
  eachSeen (fun field => [field.name])
    (fun names field => reportIf (field.name ∈ names) (duplicateError field.range field.name)) [] fields

def isKnownTypeReference (type : Bytes) (symbols : SymbolTable) : Bool :=
  isBuiltinType (baseTypeName type) || (symbols.find (baseTypeName type)).isSome

def validateFieldTypes (fields : List FieldDecl) (symbols : SymbolTable) : Diagnostics :=
  fields.flatMap fun field =>
    reportIf (isKnownTypeReference field.type symbols = false)
      (unknownReferenceError field.range "type" (baseTypeName field.type))

def validateSystemTenancy (system : SystemDecl) : Diagnostics :=
  reportIf system.tenantScope.isNone
    (requiredError system.range ("system '" ++ text system.name ++ "'") "tenant scoped_by") ++
  reportIf system.systemTenant.isNone
    (requiredError system.range ("system '" ++ text system.name ++ "'") "system_tenant configured")

/-- The place of the first list a kind is in. -/
def orderIndex (order : List (List Bytes)) (kind : Bytes) : Nat :=
  order.findIdx fun kinds => decide (kind ∈ kinds)

/-- A warning at the first member that stands behind one of a later kind. -/
def validateMemberOrder (order : List (List Bytes)) (code message : String) :
    Nat → List BlockMemberOrder → Diagnostics
  | _, [] => []
  | previousOrder, member :: rest =>
    if orderIndex order member.kind < previousOrder then .warning member.range code message
    else validateMemberOrder order code message (orderIndex order member.kind) rest

/-! ## `validator_ordering.cpp` -/

def systemMemberOrder : List (List Bytes) :=
  [[ascii "tenant"], [ascii "system_tenant"],
    [ascii "value", ascii "enum", ascii "shape", ascii "external_system", ascii "event"],
    [ascii "feature_flag"], [ascii "log", ascii "metric"], [ascii "entity"], [ascii "queue"],
    [ascii "lease"], [ascii "worker"], [ascii "workflow"], [ascii "api_server", ascii "api"],
    [ascii "policy"]]

def validateSystemMemberOrder (system : SystemDecl) : Diagnostics :=
  validateMemberOrder systemMemberOrder "SSPEC6106"
    ("system '" ++ text system.name ++ "' members should use canonical order: tenant, system_tenant, " ++
      "values/enums/shapes/events, feature_flags, logs/metrics, " ++
      "entities, queues, leases, workers, workflows, APIs, policies")
    0 system.memberOrder

/-! ## `validator_feature_flags.cpp` -/

def isSupportedFeatureFlagType (type : Bytes) : Bool :=
  decide (type ∈ [ascii "bool", ascii "string", ascii "int", ascii "decimal"])

def isIntegerText (value : Bytes) : Bool := decide (value ≠ []) && value.all isDigit

def featureFlagDefaultMatchesType (flag : FeatureFlagDecl) : Bool :=
  match flag.type, flag.defaultValue, flag.defaultValueKind with
  | some type, some value, some kind =>
    if type = ascii "bool" then decide (kind = ascii "BooleanLiteral")
    else if type = ascii "string" then decide (kind = ascii "StringLiteral")
    else if type = ascii "int" then decide (kind = ascii "IntegerLiteral") && isIntegerText value
    else if type = ascii "decimal" then
      decide (kind = ascii "DecimalLiteral" ∨ kind = ascii "IntegerLiteral")
    else true
  | _, _, _ => true

def entityScopeTarget (scope : Bytes) : Option Bytes := Bytes.stripPrefix (ascii "entity ") scope

def validateFeatureFlags (system : SystemDecl) (symbols : SymbolTable) : Diagnostics :=
  system.featureFlags.flatMap fun flag =>
    reportIf (isQualifiedPascalCaseName flag.name = false)
      (.error flag.range "SSPEC4201" ("feature flag '" ++ text flag.name ++ "' must use PascalCase")) ++
    (match flag.type with
      | none => requiredError flag.range ("feature_flag '" ++ text flag.name ++ "'") "type"
      | some type =>
        reportIf (isSupportedFeatureFlagType type = false)
          (.error flag.range "SSPEC4202"
            ("feature flag '" ++ text flag.name ++ "' has unsupported type '" ++ text type ++ "'"))) ++
    (if flag.defaultValue.isNone then
      requiredError flag.range ("feature_flag '" ++ text flag.name ++ "'") "default"
    else
      reportIf (featureFlagDefaultMatchesType flag = false)
        (.error flag.range "SSPEC4203"
          ("feature flag '" ++ text flag.name ++ "' default must match declared type"))) ++
    match flag.scope.bind entityScopeTarget with
    | none => []
    | some entity => validateSymbolReference symbols flag.range "feature flag entity scope" entity [.entity]

/-! ## `validator_shapes_values_events.cpp` -/

def validateShapes (system : SystemDecl) (symbols : SymbolTable) : Diagnostics :=
  system.shapes.flatMap fun shape =>
    reportIf (isQualifiedPascalCaseName shape.name = false)
      (.error shape.range "SSPEC3201" ("shape '" ++ text shape.name ++ "' must use PascalCase")) ++
    reportIf (shape.fields = []) (requiredError shape.range ("shape '" ++ text shape.name ++ "'") "fields") ++
    validateFieldDuplicates shape.fields ++ validateFieldTypes shape.fields symbols

def validateValues (system : SystemDecl) (symbols : SymbolTable) : Diagnostics :=
  system.values.flatMap fun value =>
    reportIf (isQualifiedPascalCaseName value.name = false)
      (.error value.range "SSPEC4501" ("value '" ++ text value.name ++ "' must use PascalCase")) ++
    (if value.type = [] then requiredError value.range ("value '" ++ text value.name ++ "'") "type"
    else
      reportIf (isKnownTypeReference value.type symbols = false)
        (unknownReferenceError value.range "value type" value.type)) ++
    value.constraint.elim [] (validateExpression system value.range)

def validateEnums (system : SystemDecl) : Diagnostics :=
  system.enums.flatMap fun enumDecl =>
    reportIf (isQualifiedPascalCaseName enumDecl.name = false)
      (.error enumDecl.range "SSPEC4601" ("enum '" ++ text enumDecl.name ++ "' must use PascalCase")) ++
    reportIf (enumDecl.members = [])
      (requiredError enumDecl.range ("enum '" ++ text enumDecl.name ++ "'") "member") ++
    eachSeen (fun member => [member.name])
      (fun members member =>
        reportIf (isPascalCaseName member.name = false)
          (.error member.range "SSPEC4602"
            ("enum member '" ++ text enumDecl.name ++ "." ++ text member.name ++ "' must use PascalCase")) ++
        reportIf (member.name ∈ members)
          (duplicateError member.range (enumDecl.name ++ ascii "." ++ member.name)))
      [] enumDecl.members

def validateEvents (system : SystemDecl) (symbols : SymbolTable) : Diagnostics :=
  system.events.flatMap fun event =>
    reportIf (isQualifiedPascalCaseName event.name = false)
      (.error event.range "SSPEC4701" ("event '" ++ text event.name ++ "' must use PascalCase")) ++
    reportIf (event.fields = []) (requiredError event.range ("event '" ++ text event.name ++ "'") "fields") ++
    validateFieldDuplicates event.fields ++ validateFieldTypes event.fields symbols

/-! ## `validator_observability.cpp` -/

def endsWith (value suffix : Bytes) : Bool := decide (suffix <:+ value)

def isHighCardinalityMetricLabelName (system : SystemDecl) (labelName : Bytes) : Bool :=
  if labelName = ascii "tenant_id" then false
  else if system.tenantScope.map TenantScopeDecl.fieldName = some labelName then false
  else
    let name := lowerAscii labelName
    decide (name = ascii "id" ∨ name = ascii "uuid" ∨ name = ascii "guid") ||
      [ascii "_id", ascii "_ids", ascii "_uuid", ascii "_guid", ascii "_at", ascii "_time",
        ascii "_timestamp"].any (endsWith name) ||
      containsText name (ascii "payload") || containsText name (ascii "error_message")

/-- Some field has the name of the tenant field. -/
def declaresTenantField (system : SystemDecl) (fields : List FieldDecl) : Bool :=
  system.tenantScope.all fun scope => decide (scope.fieldName ∈ fieldNames fields)

def tenantFieldText (system : SystemDecl) : String :=
  text (system.tenantScope.elim [] TenantScopeDecl.fieldName)

def validateLogs (system : SystemDecl) (symbols : SymbolTable) : Diagnostics :=
  eachSeen (fun log => log.eventName.toList)
    (fun eventNames log =>
      validateMemberOrder [[ascii "level"], [ascii "event_name"], [ascii "fields"]] "SSPEC6104"
        ("log '" ++ text log.name ++ "' members should use canonical order: level, event_name, fields")
        0 log.memberOrder ++
      reportIf (isQualifiedPascalCaseName log.name = false)
        (.error log.range "SSPEC4301" ("log '" ++ text log.name ++ "' must use PascalCase")) ++
      (match log.level with
        | none => requiredError log.range ("log '" ++ text log.name ++ "'") "level"
        | some level =>
          reportIf (level ∉ [ascii "debug", ascii "info", ascii "warn", ascii "error"])
            (.error log.range "SSPEC4302"
              ("log '" ++ text log.name ++ "' has unsupported level '" ++ text level ++ "'"))) ++
      (match log.eventName with
        | none => requiredError log.range ("log '" ++ text log.name ++ "'") "event_name"
        | some eventName =>
          reportIf (eventName ∈ eventNames)
            (.error log.range "SSPEC4303" ("duplicate log event_name '" ++ text eventName ++ "'"))) ++
      validateFieldDuplicates log.fields ++ validateFieldTypes log.fields symbols ++
      reportIf (declaresTenantField system log.fields = false)
        (.error log.range "SSPEC3407"
          ("log '" ++ text log.name ++ "' fields must declare tenant field '" ++ tenantFieldText system ++
            "'")))
    [] system.logs

def validateMetrics (system : SystemDecl) (symbols : SymbolTable) : Diagnostics :=
  eachSeen (fun metric => metric.backendName.toList)
    (fun backendNames metric =>
      validateMemberOrder [[ascii "kind"], [ascii "name"], [ascii "unit"], [ascii "labels"]] "SSPEC6105"
        ("metric '" ++ text metric.name ++ "' members should use canonical order: kind, name, unit, labels")
        0 metric.memberOrder ++
      reportIf (isQualifiedPascalCaseName metric.name = false)
        (.error metric.range "SSPEC4401" ("metric '" ++ text metric.name ++ "' must use PascalCase")) ++
      (match metric.kind with
        | none => requiredError metric.range ("metric '" ++ text metric.name ++ "'") "kind"
        | some kind =>
          reportIf (kind ∉ [ascii "counter", ascii "gauge", ascii "histogram"])
            (.error metric.range "SSPEC4402"
              ("metric '" ++ text metric.name ++ "' has unsupported kind '" ++ text kind ++ "'"))) ++
      (match metric.backendName with
        | none => requiredError metric.range ("metric '" ++ text metric.name ++ "'") "name"
        | some backendName =>
          reportIf (backendName ∈ backendNames)
            (.error metric.range "SSPEC4403" ("duplicate metric name '" ++ text backendName ++ "'"))) ++
      reportIf metric.unit.isNone (requiredError metric.range ("metric '" ++ text metric.name ++ "'") "unit") ++
      validateFieldDuplicates metric.labels ++ validateFieldTypes metric.labels symbols ++
      reportIf (declaresTenantField system metric.labels = false)
        (.error metric.range "SSPEC3408"
          ("metric '" ++ text metric.name ++ "' labels must declare tenant field '" ++
            tenantFieldText system ++ "'")) ++
      metric.labels.flatMap fun label =>
        reportIf (baseTypeName label.type ∉ [ascii "string", ascii "bool", ascii "int"])
          (.error label.range "SSPEC4404"
            ("metric '" ++ text metric.name ++ "' label '" ++ text label.name ++
              "' must use low-cardinality type string, bool, or int")) ++
        reportIf (isHighCardinalityMetricLabelName system label.name)
          (.error label.range "SSPEC4405"
            ("metric '" ++ text metric.name ++ "' label '" ++ text label.name ++
              "' looks high-cardinality; use a log field or aggregate dimension instead")))
    [] system.metrics

/-! ## `validator_external_systems.cpp` -/

def splitPath (path : Bytes) : List Bytes := List.splitOn (byte '.') path

def findField (fields : List FieldDecl) (name : Bytes) : Option FieldDecl :=
  fields.find? fun field => decide (field.name = name)

def validateMetadataMappingPathShape (externalSystem : ExternalSystemDecl)
    (mapping : ExternalSystemMetadataMappingDecl) (side : String) (path : Bytes) (allowedRoots : List Bytes) :
    Diagnostics :=
  let subject := "external_system '" ++ text externalSystem.name ++ "' metadata mapping " ++ side ++ " '" ++
    text path ++ "'"
  match splitPath path with
  | root :: _ :: _ =>
    reportIf (root ∉ allowedRoots)
      (.error mapping.range "SSPEC4907" (subject ++ " uses unsupported root '" ++ text root ++ "'"))
  | _ => .error mapping.range "SSPEC4906" (subject ++ " must include a root and field")

def metadataStates : List Bytes := [ascii "Active", ascii "Disabled", ascii "Deleted"]

def metadataTransitions : List (Bytes × Bytes) :=
  [(ascii "Active", ascii "Disabled"), (ascii "Disabled", ascii "Active"), (ascii "Active", ascii "Deleted"),
    (ascii "Disabled", ascii "Deleted")]

def hasFieldOfType (entity : EntityDecl) (name type : Bytes) : Bool :=
  (findField entity.fields name).any fun field => decide (field.type = type)

def validateExternalSystemMetadataEntityLifecycle (externalSystem : ExternalSystemDecl)
    (metadata : ExternalSystemMetadataDecl) (entity : EntityDecl) : Diagnostics :=
  let subject := "external_system '" ++ text externalSystem.name ++ "' metadata entity '" ++
    text entity.name ++ "'"
  reportIf (¬ entity.ownership.any fun ownership =>
      decide (ownership.authority.getD [] = ascii "system" ∧ ownership.systemOfRecord.getD [] = ascii "self" ∧
        ownership.lifecycle.getD [] = ascii "authoritative"))
    (.error metadata.range "SSPEC4911" (subject ++ " must use authoritative system ownership")) ++
  reportIf (¬ (hasFieldOfType entity (ascii "created_at") (ascii "timestamp") ∧
      hasFieldOfType entity (ascii "updated_at") (ascii "timestamp") ∧
      hasFieldOfType entity (ascii "status") (ascii "string")))
    (.error metadata.range "SSPEC4912"
      (subject ++ " must declare created_at timestamp, updated_at timestamp, and status string")) ++
  (match metadata.profileField with
    | none => []
    | some profileField =>
      reportIf (profileField ∉ entity.keyFields)
        (.error metadata.range "SSPEC4913"
          ("external_system '" ++ text externalSystem.name ++ "' metadata profile_field '" ++
            text profileField ++ "' must be part of metadata entity '" ++ text entity.name ++ "' key"))) ++
  reportIf (¬ entity.indexes.any fun index => index.unique && decide (index.fields = entity.keyFields))
    (.error metadata.range "SSPEC4914" (subject ++ " must declare a unique index on its key fields")) ++
  match entity.stateMachine with
  | none =>
    .error metadata.range "SSPEC4915" (subject ++ " must declare states Active, Disabled, and Deleted")
  | some stateMachine =>
    (metadataStates.flatMap fun required =>
      reportIf (required ∉ stateMachine.states.map StateDecl.name)
        (.error metadata.range "SSPEC4915" (subject ++ " must declare state " ++ text required))) ++
    reportIf (¬ ((stateMachine.states.find? fun state => decide (state.name = ascii "Deleted")).any
        fun deleted => deleted.terminal && decide (ascii "Deleted" ∈ stateMachine.terminalStates) &&
          deleted.garbageCollection.isSome))
      (.error metadata.range "SSPEC4916"
        (subject ++ " state Deleted must be terminal and declare garbage_collection")) ++
    metadataTransitions.flatMap fun (source, target) =>
      reportIf (¬ stateMachine.transitions.any fun transition =>
          decide (transition.source = source ∧ transition.target = target))
        (.error metadata.range "SSPEC4917"
          (subject ++ " state_machine must declare transition " ++ text source ++ " -> " ++ text target))

/-- What the metadata entity of an external system has to be. -/
def validateExternalSystemMetadataEntity (system : SystemDecl) (externalSystem : ExternalSystemDecl)
    (metadata : ExternalSystemMetadataDecl) (entity : EntityDecl) : Diagnostics :=
  let fields := fieldNames entity.fields
  let subject := "external_system '" ++ text externalSystem.name ++ "' metadata "
  let onEntity := "' must exist on entity '" ++ text entity.name ++ "'"
  (match metadata.profileField with
    | none => []
    | some profileField =>
      reportIf (profileField ∉ fields)
        (.error metadata.range "SSPEC4902"
          (subject ++ "profile_field '" ++ text profileField ++ onEntity))) ++
  (metadata.requiredFields.flatMap fun field =>
    reportIf (field ∉ fields)
      (.error metadata.range "SSPEC4903" (subject ++ "required field '" ++ text field ++ onEntity))) ++
  (metadata.mappings.flatMap fun mapping =>
    match splitPath mapping.source with
    | root :: field :: _ =>
      if root = ascii "metadata" then
        reportIf (field ∉ fields)
          (.error mapping.range "SSPEC4909" (subject ++ "mapping source field '" ++ text field ++ onEntity)) ++
        reportIf (field ∉ metadata.requiredFields)
          (.error mapping.range "SSPEC4910"
            (subject ++ "mapping source field '" ++ text field ++ "' must be listed in required_fields"))
      else []
    | _ => []) ++
  (match system.tenantScope with
    | none => []
    | some scope =>
      reportIf (scope.fieldName ∉ fields)
        (.error metadata.range "SSPEC4904"
          (subject ++ "entity '" ++ text entity.name ++ "' must declare tenant field '" ++
            text scope.fieldName ++ "'")) ++
      reportIf (scope.fieldName ∉ entity.keyFields)
        (.error metadata.range "SSPEC4905"
          (subject ++ "entity '" ++ text entity.name ++ "' key must include tenant field '" ++
            text scope.fieldName ++ "'"))) ++
  validateExternalSystemMetadataEntityLifecycle externalSystem metadata entity

def validateExternalSystemMetadata (system : SystemDecl) (symbols : SymbolTable)
    (externalSystem : ExternalSystemDecl) (metadata : ExternalSystemMetadataDecl) : Diagnostics :=
  reportIf metadata.entity.isNone (requiredError metadata.range "external_system metadata" "entity") ++
  reportIf metadata.profileField.isNone
    (requiredError metadata.range "external_system metadata" "profile_field") ++
  reportIf (metadata.requiredFields = [])
    (requiredError metadata.range "external_system metadata" "required_fields") ++
  eachSeen (fun field => [field]) (fun requiredFields field => reportIf (field ∈ requiredFields)
    (duplicateError metadata.range field)) [] metadata.requiredFields ++
  eachSeen (fun mapping => [mapping.target])
    (fun mappingTargets mapping =>
      validateMetadataMappingPathShape externalSystem mapping "source" mapping.source
        [ascii "input", ascii "entity", ascii "workflow", ascii "metadata"] ++
      validateMetadataMappingPathShape externalSystem mapping "target" mapping.target
        [ascii "client", ascii "request"] ++
      reportIf (mapping.target ≠ [] ∧ mapping.target ∈ mappingTargets)
        (.error mapping.range "SSPEC4908"
          ("external_system '" ++ text externalSystem.name ++ "' metadata mapping target '" ++
            text mapping.target ++ "' is mapped more than once")))
    [] metadata.mappings ++
  match metadata.entity with
  | none => []
  | some name =>
    validateSymbolReference symbols metadata.range "external_system metadata entity" name [.entity] ++
    match findEntity system name with
    | none => []
    | some entity => validateExternalSystemMetadataEntity system externalSystem metadata entity

def validateExternalSystems (system : SystemDecl) (symbols : SymbolTable) : Diagnostics :=
  system.externalSystems.flatMap fun externalSystem =>
    reportIf (isQualifiedPascalCaseName externalSystem.name = false)
      (.error externalSystem.range "SSPEC4901"
        ("external_system '" ++ text externalSystem.name ++ "' must use PascalCase segments")) ++
    eachSeen (fun property => [property.name])
      (fun properties property =>
        reportIf (property.name ∈ properties) (duplicateError property.range property.name))
      [] externalSystem.properties ++
    externalSystem.metadata.elim [] (validateExternalSystemMetadata system symbols externalSystem)

/-! ## `validator_policies.cpp` -/

def validatePolicyRules (system : SystemDecl) (symbols : SymbolTable) (kind : String)
    (rules : List PolicyRuleDecl) : Diagnostics :=
  rules.flatMap fun rule =>
    reportIf (symbols.find rule.action).isNone (unknownReferenceError rule.range kind rule.action) ++
    validateExpression system rule.range rule.condition

def validatePolicies (system : SystemDecl) (symbols : SymbolTable) : Diagnostics :=
  system.policies.flatMap fun policy =>
    validateMemberOrder
      [[ascii "tenant"], [ascii "allow"], [ascii "deny"], [ascii "quota"], [ascii "audit"]] "SSPEC6103"
      ("policy '" ++ text policy.name ++
        "' members should use canonical order: tenant, allow, deny, quota, audit")
      0 policy.memberOrder ++
    (match policy.tenantScopedBy, system.tenantScope with
      | none, _ => requiredError policy.range ("policy '" ++ text policy.name ++ "'") "tenant scoped_by"
      | some _, none => []
      | some field, some scope =>
        reportIf (field ≠ scope.fieldName)
          (.error policy.range "SSPEC3405"
            ("policy '" ++ text policy.name ++ "' tenant field '" ++ text field ++
              "' must match system tenant field '" ++ text scope.fieldName ++ "'"))) ++
    reportIf (policy.allows = [] ∧ policy.denies = [] ∧ policy.quotas = [] ∧ policy.audits = [])
      (requiredError policy.range ("policy '" ++ text policy.name ++ "'")
        "at least one allow, deny, quota, or audit declaration") ++
    validatePolicyRules system symbols "policy allow action" policy.allows ++
    validatePolicyRules system symbols "policy deny action" policy.denies ++
    (policy.quotas.flatMap fun quota => validateExpression system quota.range quota.expression) ++
    policy.audits.flatMap fun audit =>
      reportIf (symbols.find audit).isNone (unknownReferenceError policy.range "policy audit action" audit)

end StateSpec.Compiler
