/-
  ENTITIES — `validator_entities.cpp`: keys, fields, relations, indexes, the entity API and the state
  machine of every entity.
-/
import StateSpec.Compiler.ValidatorDeclarations
import StateSpec.Compiler.Durations

namespace StateSpec.Compiler

def entityMemberOrder : List (List Bytes) :=
  [[ascii "key"], [ascii "ownership"], [ascii "version"], [ascii "fields"], [ascii "state_machine"],
    [ascii "relations"], [ascii "children"], [ascii "invariants"], [ascii "indexes"], [ascii "api"]]

def validateEntityMemberOrder (entity : EntityDecl) : Diagnostics :=
  validateMemberOrder entityMemberOrder "SSPEC6101"
    ("entity '" ++ text entity.name ++ "' members should use canonical order: key, ownership, version, " ++
      "fields, state_machine, relations, children, invariants, indexes, api")
    0 entity.memberOrder

/-! ## The state machine -/

/-- The states that say of themselves that they are terminal. -/
def inlineTerminalStates (stateMachine : StateMachineDecl) : List Bytes :=
  (stateMachine.states.filter StateDecl.terminal).map StateDecl.name

/-- The states in the list of terminal states. -/
def declaredTerminalStates (stateMachine : StateMachineDecl) : List Bytes :=
  stateMachine.terminalStates.filter fun terminal => decide (terminal ∈ stateMachine.states.map StateDecl.name)

def isTerminalState (stateMachine : StateMachineDecl) (state : StateDecl) : Bool :=
  decide (state.name ∈ inlineTerminalStates stateMachine ∨ state.name ∈ declaredTerminalStates stateMachine)

def garbageCollectedStates (stateMachine : StateMachineDecl) : List Bytes :=
  (stateMachine.states.filter fun state =>
    state.garbageCollection.isSome && isTerminalState stateMachine state).map StateDecl.name

def validateGarbageCollection (stateMachine : StateMachineDecl) (state : StateDecl)
    (policy : GarbageCollectionPolicyDecl) : Diagnostics :=
  let subject := "garbage_collection for state '" ++ text state.name ++ "'"
  reportIf (isTerminalState stateMachine state = false)
    (.error policy.range "SSPEC3103" (subject ++ " is valid only on terminal states")) ++
  (match policy.after with
    | none => requiredError policy.range subject "after"
    | some after => reportIf (isDurationLiteral after = false) (durationError policy.range subject "after")) ++
  match policy.mode with
  | none => requiredError policy.range subject "mode"
  | some mode =>
    reportIf (mode ∉ [ascii "delete", ascii "tombstone", ascii "archive"])
      (.error policy.range "SSPEC3104" (subject ++ " mode must be delete, tombstone, or archive"))

def validateTransition (stateMachine : StateMachineDecl) (transition : TransitionDecl) : Diagnostics :=
  let states := stateMachine.states.map StateDecl.name
  reportIf (transition.source ∉ states)
    (unknownReferenceError transition.range "transition source state" transition.source) ++
  reportIf (transition.target ∉ states)
    (unknownReferenceError transition.range "transition target state" transition.target) ++
  reportIf (transition.source ∈ garbageCollectedStates stateMachine)
    (.error transition.range "SSPEC3105"
      ("garbage-collected terminal state '" ++ text transition.source ++
        "' must not have outgoing transitions"))

def validateStateMachine (entity : EntityDecl) : Diagnostics :=
  match entity.stateMachine with
  | none => requiredError entity.range ("entity '" ++ text entity.name ++ "'") "state_machine"
  | some stateMachine =>
    let states := stateMachine.states.map StateDecl.name
    let subject := "state_machine for entity '" ++ text entity.name ++ "'"
    eachSeen (fun state => [state.name])
      (fun names state => reportIf (state.name ∈ names) (duplicateError state.range state.name))
      [] stateMachine.states ++
    reportIf (stateMachine.states = []) (requiredError stateMachine.range subject "at least one state") ++
    (match stateMachine.initialState with
      | none => requiredError stateMachine.range subject "an initial state"
      | some initial =>
        reportIf (initial ∉ states) (unknownReferenceError stateMachine.range "initial state" initial)) ++
    (stateMachine.terminalStates.flatMap fun terminal =>
      reportIf (terminal ∉ states) (unknownReferenceError stateMachine.range "terminal state" terminal)) ++
    (stateMachine.states.flatMap fun state =>
      reportIf (state.name ∈ inlineTerminalStates stateMachine ∧
          state.name ∉ declaredTerminalStates stateMachine)
        (.error state.range "SSPEC3107"
          ("terminal state '" ++ text state.name ++ "' must also appear in the terminal list"))) ++
    ((declaredTerminalStates stateMachine).dedup.flatMap fun terminal =>
      reportIf (terminal ∉ inlineTerminalStates stateMachine)
        (.error stateMachine.range "SSPEC3108"
          ("terminal state '" ++ text terminal ++ "' must declare terminal: true"))) ++
    (stateMachine.states.flatMap fun state =>
      reportIf (isTerminalState stateMachine state = true ∧ state.garbageCollection.isNone)
        (.error state.range "SSPEC3109"
          ("terminal state '" ++ text state.name ++ "' must declare garbage_collection")) ++
      state.garbageCollection.elim [] (validateGarbageCollection stateMachine state)) ++
    (stateMachine.states.flatMap fun state =>
      match state.duplicateGarbageCollectionRange with
      | none => []
      | some range => Diagnostics.error range "SSPEC3001" "duplicate declaration 'garbage_collection'") ++
    stateMachine.transitions.flatMap (validateTransition stateMachine)

/-! ## Fields and key -/

def validateRequiredEntityField (entity : EntityDecl) (fieldName expectedType : Bytes) : Diagnostics :=
  match findField entity.fields fieldName with
  | none =>
    requiredError entity.range ("entity '" ++ text entity.name ++ "'") ("field '" ++ text fieldName ++ "'")
  | some field =>
    reportIf (field.type ≠ expectedType)
      (.error field.range "SSPEC3102"
        ("entity '" ++ text entity.name ++ "' field '" ++ text fieldName ++ "' must have type " ++
          text expectedType))

def canonicalFields : List Bytes := [ascii "created_at", ascii "updated_at", ascii "status"]

/-- The first field that is not the canonical one in its place. -/
def validateCanonicalFields (entity : EntityDecl) : List FieldDecl → List Bytes → Diagnostics
  | field :: fields, canonical :: rest =>
    if field.name ≠ canonical then
      .error field.range "SSPEC3106"
        ("entity '" ++ text entity.name ++ "' fields must begin with canonical management fields: " ++
          "created_at timestamp, updated_at timestamp, status string")
    else validateCanonicalFields entity fields rest
  | _, _ => []

def validateEntityManagementFields (entity : EntityDecl) : Diagnostics :=
  validateRequiredEntityField entity (ascii "created_at") (ascii "timestamp") ++
  validateRequiredEntityField entity (ascii "updated_at") (ascii "timestamp") ++
  validateRequiredEntityField entity (ascii "status") (ascii "string") ++
  reportIf (canonicalFields.length ≤ entity.fields.length)
    (validateCanonicalFields entity entity.fields canonicalFields)

def validateEntityTenantField (system : SystemDecl) (entity : EntityDecl) : Diagnostics :=
  match system.tenantScope with
  | none => []
  | some scope =>
    reportIf (scope.fieldName ∉ fieldNames entity.fields)
      (.error entity.range "SSPEC3401"
        ("entity '" ++ text entity.name ++ "' must declare tenant field '" ++ text scope.fieldName ++ "'"))

def validateEntityTenantKey (system : SystemDecl) (entity : EntityDecl) : Diagnostics :=
  match system.tenantScope with
  | none => []
  | some scope =>
    reportIf (scope.fieldName ∉ entity.keyFields)
      (.error entity.range "SSPEC3404"
        ("entity '" ++ text entity.name ++ "' key must include tenant field '" ++ text scope.fieldName ++
          "'"))

def validateIndexes (entity : EntityDecl) : Diagnostics :=
  eachSeen (fun index => [index.name])
    (fun indexNames index =>
      reportIf (index.name ∈ indexNames) (duplicateError index.range index.name) ++
      reportIf (index.fields = [])
        (requiredError index.range ("index '" ++ text index.name ++ "'") "at least one field") ++
      eachSeen (fun field => [field])
        (fun indexFields field =>
          reportIf (field ∉ fieldNames entity.fields)
            (unknownReferenceError index.range "index field" field) ++
          reportIf (field ∈ indexFields) (duplicateError index.range field))
        [] index.fields)
    [] entity.indexes

/-! ## The entity API -/

/-- `is_prefix`: of a list, and not empty. -/
def isNonemptyPrefix (pre values : List Bytes) : Bool := decide (pre ≠ []) && pre.isPrefixOf values

/-- What stands between the braces of a path: from each `{` to the next `}`, if it is not empty. -/
def pathParametersFrom : Nat → Bytes → List Bytes
  | 0, _ => []
  | fuel + 1, path =>
    match Bytes.splitOnce (byte '\x7b') path with
    | none => []
    | some (_, behind) =>
      match Bytes.splitOnce (byte '\x7d') behind with
      | none => []
      | some (parameter, rest) =>
        if parameter = [] then pathParametersFrom fuel rest
        else parameter :: pathParametersFrom fuel rest

def pathParameters (path : Bytes) : List Bytes := pathParametersFrom (path.length + 1) path

/-- `path_parameter_set`. -/
def pathParameterSet (path : Option Bytes) : List Bytes := path.elim [] pathParameters

def hasAllKeyFields (pathFields : List Bytes) (entity : EntityDecl) : Bool :=
  entity.keyFields.all fun keyField => decide (keyField ∈ pathFields)

def entityApiListSelectorIsAllowed (entity : EntityDecl) (list : EntityApiListDecl) : Bool :=
  isNonemptyPrefix list.by' entity.keyFields ||
    entity.indexes.any fun index =>
      decide (list.by' = [index.name]) || isNonemptyPrefix list.by' index.fields

def validateEntityApiPathParameters (entity : EntityDecl) (path : Option Bytes) (range : SourceRange) :
    Diagnostics :=
  (pathParameterSet path).flatMap fun parameter =>
    reportIf (parameter ∉ fieldNames entity.fields)
      (unknownReferenceError range "entity api path parameter" parameter)

/-- There is an operation on one entity. -/
def EntityApiDecl.hasKeyedOperation (api : EntityApiDecl) : Bool :=
  api.get.isSome || api.updateStatus.isSome || api.delete'.isSome

def validateEntityApiResourcePath (entity : EntityDecl) (api : EntityApiDecl) : Diagnostics :=
  validateEntityApiPathParameters entity api.resource api.range ++
  match api.resource with
  | none => reportIf api.hasKeyedOperation (requiredError api.range "entity api" "resource")
  | some _ =>
    reportIf (hasAllKeyFields (pathParameterSet api.resource) entity = false)
      (.error api.range "SSPEC3002"
        ("entity api resource path for entity '" ++ text entity.name ++ "' must include all key fields")) ++
    reportIf (api.hasKeyedOperation ∧ hasAllKeyFields (pathParameterSet api.resource) entity = false)
      (.error api.range "SSPEC3002"
        "entity api get, update_status, and delete require key fields resolvable from resource path")

def validateEntityApiCreate (entity : EntityDecl) (create : EntityApiCreateDecl) : Diagnostics :=
  create.fields.flatMap fun field =>
    reportIf (field ∉ fieldNames entity.fields)
      (unknownReferenceError create.range "entity api create field" field) ++
    reportIf (field ∈ canonicalFields)
      (.error create.range "SSPEC3106"
        ("entity api create for entity '" ++ text entity.name ++
          "' must not supply created_at, updated_at, or status"))

def hasConventionalDeleteTerminalState (entity : EntityDecl) : Bool :=
  entity.stateMachine.any fun stateMachine =>
    stateMachine.states.any fun state =>
      decide (state.name = ascii "Deleted") && state.terminal && state.garbageCollection.isSome

def validateEntityApiList (entity : EntityDecl) (list : EntityApiListDecl) : Diagnostics :=
  validateEntityApiPathParameters entity list.path list.range ++
  match list.by' with
  | [] => requiredError list.range "entity api list" "by"
  | selector :: _ =>
    reportIf (entityApiListSelectorIsAllowed entity list = false)
      (unknownReferenceError list.range "entity api list selector" selector)

def validateEntityApi (entity : EntityDecl) : Diagnostics :=
  match entity.api with
  | none => []
  | some api =>
    validateEntityApiResourcePath entity api ++
    api.create.elim [] (validateEntityApiCreate entity) ++
    api.lists.flatMap (validateEntityApiList entity) ++
    (match api.updateStatus with
      | none => []
      | some updateStatus =>
        let subject := "entity api update_status for entity '" ++ text entity.name ++ "'"
        reportIf (findField entity.fields (ascii "status")).isNone
          (requiredError updateStatus.range subject "status field") ++
        reportIf entity.stateMachine.isNone (requiredError updateStatus.range subject "state_machine")) ++
    match api.delete' with
    | none => []
    | some delete' =>
      reportIf (hasConventionalDeleteTerminalState entity = false)
        (.error delete'.range "SSPEC3109"
          ("entity api delete for entity '" ++ text entity.name ++
            "' requires terminal state Deleted with garbage_collection"))

/-! ## Ownership, relations and invariants -/

def validateOwnership (entity : EntityDecl) : Diagnostics :=
  match entity.ownership with
  | none => requiredError entity.range ("entity '" ++ text entity.name ++ "'") "ownership"
  | some ownership =>
    let subject := "ownership for entity '" ++ text entity.name ++ "'"
    (match ownership.authority with
      | none => requiredError ownership.range subject "authority"
      | some authority =>
        reportIf (authority ∉ [ascii "system", ascii "external"])
          (.error ownership.range "SSPEC3301" "ownership authority must be system or external")) ++
    reportIf ownership.systemOfRecord.isNone
      (requiredError ownership.range subject "system_of_record") ++
    match ownership.lifecycle with
    | none => requiredError ownership.range subject "lifecycle"
    | some lifecycle =>
      reportIf (lifecycle ∉ [ascii "authoritative", ascii "managed", ascii "observed", ascii "projected"])
        (.error ownership.range "SSPEC3302"
          "ownership lifecycle must be authoritative, managed, observed, or projected")

def validateRelation (system : SystemDecl) (entity : EntityDecl) (relation : RelationDecl) : Diagnostics :=
  let fields := fieldNames entity.fields
  let targetName := relationTargetName relation.target
  reportIf (relation.name ∉ fields) (unknownReferenceError relation.range "relation field" relation.name) ++
  reportIf (findEntity system targetName).isNone
    (unknownReferenceError relation.range "relation target entity" targetName) ++
  (match relation.relationKind with
    | none => []
    | some kind =>
      reportIf (kind ∉ [ascii "composition", ascii "aggregation", ascii "reference"])
        (.error relation.range "SSPEC3303"
          "relation kind must be composition, aggregation, or reference")) ++
  (match relation.onParentDelete with
    | none => []
    | some behavior =>
      reportIf (behavior ∉ [ascii "cascade", ascii "block", ascii "detach", ascii "fail"])
        (.error relation.range "SSPEC3304" "on_parent_delete must be cascade, block, detach, or fail") ++
      reportIf (behavior = ascii "detach" ∧ relation.optional = false)
        (.error relation.range "SSPEC3305"
          "detach parent delete behavior requires an optional parent relation")) ++
  (relation.uniqueWithinParent.flatMap fun field =>
    reportIf (field ∉ fields) (unknownReferenceError relation.range "unique_within_parent field" field)) ++
  match findEntity system targetName with
  | none => []
  | some target =>
    relation.parentMustBeIn.flatMap fun state =>
      reportIf (state ∉ entityStateNames target) (unknownReferenceError relation.range "parent state" state)

def validateRelations (system : SystemDecl) (entity : EntityDecl) : Diagnostics :=
  eachSeen (fun relation => [relation.name])
    (fun relationNames relation =>
      reportIf (relation.name ∈ relationNames) (duplicateError relation.range relation.name) ++
      validateRelation system entity relation)
    [] entity.relations

def validateChild (system : SystemDecl) (entity : EntityDecl) (child : ChildDecl) : Diagnostics :=
  match findEntity system child.targetEntity with
  | none => unknownReferenceError child.range "child entity" child.targetEntity
  | some target =>
    match target.relations.find? fun candidate =>
        decide (candidate.kind = ascii "parent" ∧ candidate.name = child.relation) with
    | none => unknownReferenceError child.range "child parent relation" child.relation
    | some relation =>
      reportIf (relationTargetName relation.target ≠ entity.name)
        (.error child.range "SSPEC3306"
          ("child collection '" ++ text child.name ++ "' must reference a parent relation to entity '" ++
            text entity.name ++ "'"))

def validateChildren (system : SystemDecl) (entity : EntityDecl) : Diagnostics :=
  eachSeen (fun child => [child.name])
    (fun childNames child =>
      reportIf (child.name ∈ childNames) (duplicateError child.range child.name) ++
      validateChild system entity child)
    [] entity.children

def validateInvariants (system : SystemDecl) (entity : EntityDecl) : Diagnostics :=
  eachSeen (fun invariant => [invariant.name])
    (fun invariantNames invariant =>
      reportIf (invariant.name ∈ invariantNames) (duplicateError invariant.range invariant.name) ++
      if invariant.expression = [] then
        requiredError invariant.range ("invariant '" ++ text invariant.name ++ "'") "expression"
      else validateExpression system invariant.range invariant.expression)
    [] entity.invariants

/-! ## `validate_entities` -/

def validateEntity (system : SystemDecl) (symbols : SymbolTable) (entity : EntityDecl) : Diagnostics :=
  validateEntityMemberOrder entity ++
  reportIf (entity.keyFields = [])
    (.error entity.range "SSPEC3101" ("entity '" ++ text entity.name ++ "' must declare a key")) ++
  reportIf (entity.fields = []) (requiredError entity.range ("entity '" ++ text entity.name ++ "'") "fields") ++
  validateFieldDuplicates entity.fields ++
  validateFieldTypes entity.fields symbols ++
  validateEntityManagementFields entity ++
  validateEntityTenantField system entity ++
  validateEntityTenantKey system entity ++
  (entity.keyFields.flatMap fun keyField =>
    reportIf (keyField ∉ fieldNames entity.fields)
      (unknownReferenceError entity.range "entity key field" keyField)) ++
  validateOwnership entity ++
  validateRelations system entity ++
  validateChildren system entity ++
  validateInvariants system entity ++
  validateIndexes entity ++
  validateEntityApi entity ++
  validateStateMachine entity

def validateEntities (system : SystemDecl) (symbols : SymbolTable) : Diagnostics :=
  system.entities.flatMap (validateEntity system symbols)

/-! ## What the validator sees to in an entity -/

section Clean

variable {system : SystemDecl} {symbols : SymbolTable} {entity : EntityDecl}
  (h : Clean (validateEntity system symbols entity))

include h

theorem clean_keyFields :
    entity.keyFields ≠ [] ∧ ∀ keyField ∈ entity.keyFields, keyField ∈ fieldNames entity.fields := by
  simp only [validateEntity, clean_append, clean_reportIf, clean_flatMap, not_clean_error,
    not_clean_unknownReferenceError, imp_false, not_not] at h
  tauto

theorem clean_tenantKey {scope : TenantScopeDecl} (hscope : system.tenantScope = some scope) :
    scope.fieldName ∈ entity.keyFields := by
  have hkey : Clean (validateEntityTenantKey system entity) := by
    simp only [validateEntity, clean_append] at h
    tauto
  rw [validateEntityTenantKey, hscope] at hkey
  simpa only [clean_reportIf, not_clean_error, imp_false, not_not] using hkey

/-- Indexes have fields, and they are fields of the entity. -/
theorem clean_index {index : IndexDecl} (hindex : index ∈ entity.indexes) :
    index.fields ≠ [] ∧ ∀ field ∈ index.fields, field ∈ fieldNames entity.fields := by
  have hclean : Clean (validateIndexes entity) := by
    simp only [validateEntity, clean_append] at h
    tauto
  obtain ⟨before, after, hsplit⟩ := List.append_of_mem hindex
  have hitem := clean_eachSeen.mp hclean before index after hsplit
  simp only [clean_append, clean_reportIf, not_clean_requiredError, imp_false] at hitem
  refine ⟨hitem.1.2, fun field hfield => ?_⟩
  obtain ⟨before', after', hsplit'⟩ := List.append_of_mem hfield
  have hfield := clean_eachSeen.mp hitem.2 before' field after' hsplit'
  simp only [clean_append, clean_reportIf, not_clean_unknownReferenceError, imp_false, not_not] at hfield
  exact hfield.1

theorem clean_entityApi {api : EntityApiDecl} (hapi : entity.api = some api) :
    Clean (validateEntityApiResourcePath entity api) ∧
      ∀ list ∈ api.lists, Clean (validateEntityApiList entity list) := by
  have hclean : Clean (validateEntityApi entity) := by
    simp only [validateEntity, clean_append] at h
    tauto
  rw [validateEntityApi, hapi] at hclean
  simp only [clean_append, clean_flatMap] at hclean
  tauto

/-- A resource gives every key field. -/
theorem clean_resource {api : EntityApiDecl} (hapi : entity.api = some api) {resource : Bytes}
    (hresource : api.resource = some resource) :
    ∀ keyField ∈ entity.keyFields, keyField ∈ pathParameters resource := by
  have hclean := (clean_entityApi h hapi).1
  rw [validateEntityApiResourcePath, hresource] at hclean
  simp only [clean_append, clean_reportIf, not_clean_error, imp_false, Bool.not_eq_false] at hclean
  have hall := hclean.2.1
  rw [hasAllKeyFields, List.all_eq_true] at hall
  exact fun keyField hkey => of_decide_eq_true (hall keyField hkey)

/-- There is one, if there is an operation on one entity. -/
theorem clean_keyedOperation {api : EntityApiDecl} (hapi : entity.api = some api)
    (hkeyed : api.hasKeyedOperation = true) : ∃ resource, api.resource = some resource := by
  have hclean := (clean_entityApi h hapi).1
  rcases hresource : api.resource with _ | resource
  · rw [validateEntityApiResourcePath, hresource] at hclean
    simp only [clean_append, clean_reportIf, not_clean_requiredError, imp_false] at hclean
    exact absurd hkeyed hclean.2
  · exact ⟨resource, rfl⟩

/-- A list is by something that the entity's key or an index begins with, or by the name of an index. -/
theorem clean_list {api : EntityApiDecl} (hapi : entity.api = some api) {list : EntityApiListDecl}
    (hlist : list ∈ api.lists) : entityApiListSelectorIsAllowed entity list = true := by
  have hclean := (clean_entityApi h hapi).2 list hlist
  rw [validateEntityApiList] at hclean
  rcases hby : list.by' with _ | ⟨selector, rest⟩
  · rw [hby] at hclean
    exact absurd (clean_append.mp hclean).2 (not_clean_requiredError _ _ _)
  · rw [hby] at hclean
    simp only [clean_append, clean_reportIf, not_clean_unknownReferenceError, imp_false,
      Bool.not_eq_false] at hclean
    exact hclean.2

end Clean

end StateSpec.Compiler
