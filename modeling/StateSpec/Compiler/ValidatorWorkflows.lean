/-
  WORKFLOWS — `validator_workflows.cpp`: steps, loads, child sets, child workflows and statements, with the
  names `child_workflow_names.hpp` derives for a child workflow.
-/
import StateSpec.Compiler.ValidatorDeclarations
import StateSpec.Compiler.Durations

namespace StateSpec.Compiler

def workflowMemberOrder : List (List Bytes) :=
  [[ascii "version"], [ascii "singleton"], [ascii "expected_execution_time"], [ascii "start"], [ascii "on"],
    [ascii "input"], [ascii "state"], [ascii "load"], [ascii "child_set"], [ascii "child_workflow"],
    [ascii "step"]]

def validateWorkflowMemberOrder (workflow : WorkflowDecl) : Diagnostics :=
  validateMemberOrder workflowMemberOrder "SSPEC6102"
    ("workflow '" ++ text workflow.name ++ "' members should use canonical order: version, singleton, " ++
      "expected_execution_time, start, on, input, state, load, child_set, child_workflow, step")
    0 workflow.memberOrder

/-! ## `child_workflow_names.hpp` -/

structure ChildWorkflowDerivedNames where
  idBucketBase : Bytes
  pendingBucket : Bytes
  creatingBucket : Bytes
  succeededBucket : Bytes
  failedBucket : Bytes
  generateIdsStep : Bytes
  createChildrenStep : Bytes
  waitChildrenStep : Bytes

def deriveChildWorkflowIdBucketBase (childIdField : Bytes) : Bytes :=
  if childIdField = ascii "id" then ascii "ids"
  else if 3 < childIdField.length ∧ childIdField.drop (childIdField.length - 3) = ascii "_id" then
    childIdField.take (childIdField.length - 3) ++ ascii "_ids"
  else childIdField ++ ascii "_ids"

def deriveChildWorkflowNames (childWorkflowName childIdField : Bytes) : ChildWorkflowDerivedNames :=
  let base := deriveChildWorkflowIdBucketBase childIdField
  { idBucketBase := base
    pendingBucket := ascii "pending_" ++ base
    creatingBucket := ascii "creating_" ++ base
    succeededBucket := ascii "succeeded_" ++ base
    failedBucket := ascii "failed_" ++ base
    generateIdsStep := ascii "generate_" ++ base
    createChildrenStep := ascii "create_" ++ childWorkflowName
    waitChildrenStep := ascii "wait_for_" ++ childWorkflowName }

def ChildWorkflowDerivedNames.steps (names : ChildWorkflowDerivedNames) : List Bytes :=
  [names.generateIdsStep, names.createChildrenStep, names.waitChildrenStep]

def ChildWorkflowDerivedNames.buckets (names : ChildWorkflowDerivedNames) : List Bytes :=
  [names.pendingBucket, names.creatingBucket, names.succeededBucket, names.failedBucket]

/-- The buckets of a child workflow, when it says what its children are told apart by. -/
def derivedBuckets (childWorkflow : WorkflowChildWorkflowDecl) : List Bytes :=
  childWorkflow.childIdField.elim [] fun childIdField =>
    (deriveChildWorkflowNames childWorkflow.name childIdField).buckets

/-! ## Child workflows -/

def validateChildWorkflowDerivedNameCollisions (workflow : WorkflowDecl)
    (childWorkflow : WorkflowChildWorkflowDecl) (stepNames derivedBucketNames : List Bytes) : Diagnostics :=
  match childWorkflow.childIdField with
  | none => []
  | some childIdField =>
    let names := deriveChildWorkflowNames childWorkflow.name childIdField
    let subject := workflow.name ++ ascii "." ++ childWorkflow.name
    (names.steps.flatMap fun step =>
      reportIf (step ∈ stepNames)
        (duplicateError childWorkflow.range (subject ++ ascii " derived step '" ++ step ++ ascii "'"))) ++
    names.buckets.flatMap fun bucket =>
      reportIf (bucket ∈ derivedBucketNames)
        (duplicateError childWorkflow.range (subject ++ ascii " derived bucket '" ++ bucket ++ ascii "'"))

def entityHasParentRelation (entity : EntityDecl) (relationName : Bytes) : Bool :=
  entity.relations.any fun relation =>
    decide (relation.name = relationName ∧ relation.kind = ascii "parent")

/-- What a child workflow says of the fields of its child entity. -/
def validateChildWorkflowFields (childWorkflow : WorkflowChildWorkflowDecl) (childEntity : EntityDecl) :
    Diagnostics :=
  (match childWorkflow.childIdField with
    | none => []
    | some childIdField =>
      match findField childEntity.fields childIdField with
      | none =>
        unknownReferenceError childWorkflow.range "workflow child_workflow child_id field" childIdField
      | some field =>
        match childWorkflow.childIdType with
        | none => []
        | some childIdType =>
          reportIf (field.type ≠ childIdType)
            (.error childWorkflow.range "SSPEC3002"
              ("workflow child_workflow '" ++ text childWorkflow.name ++ "' child_id field '" ++
                text childIdField ++ "' must have type " ++ text childIdType))) ++
  match childWorkflow.parentRefField with
  | none => []
  | some parentRefField =>
    reportIf (findField childEntity.fields parentRefField).isNone
      (unknownReferenceError childWorkflow.range "workflow child_workflow parent_ref field"
        parentRefField) ++
    reportIf (entityHasParentRelation childEntity parentRefField = false)
      (unknownReferenceError childWorkflow.range "workflow child_workflow parent_ref relation" parentRefField)

/-- An expression, where there is one. -/
def validateOptionalExpression (system : SystemDecl) (range : SourceRange) (expression : Option Bytes) :
    Diagnostics :=
  expression.elim [] (validateExpression system range)

def validateWorkflowChildWorkflow (system : SystemDecl) (symbols : SymbolTable) (workflow : WorkflowDecl)
    (childWorkflow : WorkflowChildWorkflowDecl) (stepNames derivedBucketNames : List Bytes) : Diagnostics :=
  let subject := "workflow child_workflow '" ++ text childWorkflow.name ++ "'"
  let required := fun (missing : Bool) (field : String) =>
    reportIf (missing = true) (requiredError childWorkflow.range subject field)
  let childEntity := childWorkflow.childEntity.bind (findEntity system)
  let assignedFields := childWorkflow.createAssignments.map WorkflowAssignmentDecl.name
  required childWorkflow.childEntity.isNone "child_entity" ++
  required childWorkflow.childWorkflow.isNone "child_workflow" ++
  required childWorkflow.childIdField.isNone "child_id" ++
  required childWorkflow.childIdType.isNone "child_id type" ++
  required childWorkflow.parentRefField.isNone "parent_ref" ++
  required childWorkflow.parentRefExpression.isNone "parent_ref expression" ++
  required childWorkflow.desiredCount.isNone "desired_count" ++
  required childWorkflow.createAssignments.isEmpty "create" ++
  required childWorkflow.successExpression.isNone "success" ++
  required childWorkflow.failureExpression.isNone "failure" ++
  (childWorkflow.childWorkflow.elim [] fun target =>
    validateSymbolReference symbols childWorkflow.range "workflow child_workflow target" target
      [.workflow]) ++
  (childWorkflow.childEntity.elim [] fun name =>
    reportIf childEntity.isNone
      (unknownReferenceError childWorkflow.range "workflow child_workflow child_entity" name)) ++
  childEntity.elim [] (validateChildWorkflowFields childWorkflow) ++
  validateOptionalExpression system childWorkflow.range childWorkflow.parentRefExpression ++
  validateOptionalExpression system childWorkflow.range childWorkflow.desiredCount ++
  validateOptionalExpression system childWorkflow.range childWorkflow.successExpression ++
  validateOptionalExpression system childWorkflow.range childWorkflow.failureExpression ++
  eachSeen (fun assignment => [assignment.name])
    (fun assigned assignment =>
      reportIf (assignment.name ∈ assigned) (duplicateError assignment.range assignment.name) ++
      reportIf (childEntity.any fun entity => (findField entity.fields assignment.name).isNone)
        (unknownReferenceError assignment.range "workflow child_workflow create field" assignment.name) ++
      validateExpression system assignment.range assignment.expression)
    [] childWorkflow.createAssignments ++
  (childWorkflow.childIdField.elim [] fun field =>
    reportIf (field ∉ assignedFields)
      (requiredError childWorkflow.range subject
        ("create assignment for child_id field '" ++ text field ++ "'"))) ++
  (childWorkflow.parentRefField.elim [] fun field =>
    reportIf (field ∉ assignedFields)
      (requiredError childWorkflow.range subject
        ("create assignment for parent_ref field '" ++ text field ++ "'"))) ++
  validateChildWorkflowDerivedNameCollisions workflow childWorkflow stepNames derivedBucketNames

/-! ## Statements -/

/-- The kinds of statements with a target, and what it may be. -/
def statementTargets : List (List Bytes × String × List SymbolKind) :=
  [([ascii "emit"], "workflow emit target", [.event, .log]),
    ([ascii "enqueue"], "workflow enqueue target", [.message]),
    ([ascii "acquire_lease", ascii "renew_lease", ascii "release_lease"], "workflow lease target", [.lease]),
    ([ascii "start_workflow"], "workflow start target", [.workflow]),
    ([ascii "create_child", ascii "observe_child"], "workflow child entity target", [.entity])]

/-- A text is missing or empty. -/
def missingText (value : Option Bytes) : Bool := decide (value.getD [] = [])

/-- What a statement says of itself, apart from the statements in it. -/
def validateStatementShape (symbols : SymbolTable) (steps childSets : List Bytes)
    (statement : WorkflowStatementDecl) : Diagnostics :=
  statement.target.elim [] (fun target =>
    match statementTargets.find? fun entry => decide (statement.kind ∈ entry.1) with
    | none => []
    | some (_, kind, allowed) => validateSymbolReference symbols statement.range kind target allowed) ++
  statement.target.elim [] (fun target =>
    reportIf (statement.kind = ascii "transition_to" ∧ target ∉ steps)
      (unknownReferenceError statement.range "workflow transition target" target) ++
    reportIf (statement.kind ∈ [ascii "reserve_child_set", ascii "materialize_child_set",
        ascii "reconcile_child_set"] ∧ target ∉ childSets)
      (unknownReferenceError statement.range "workflow child_set target" target)) ++
  reportIf (statement.kind = ascii "for_each" ∧ statement.binding.isNone)
    (requiredError statement.range "workflow for_each statement" "iterator") ++
  reportIf (statement.kind ∈ [ascii "atomic", ascii "for_each", ascii "when"] ∧ statement.statements.isEmpty)
    (requiredError statement.range ("workflow " ++ text statement.kind ++ " block")
      "at least one statement") ++
  reportIf (statement.kind = ascii "move")
    (reportIf (missingText statement.expression)
      (requiredError statement.range "workflow move statement" "expression") ++
    reportIf (missingText statement.fromAssignable)
      (requiredError statement.range "workflow move statement" "from") ++
    reportIf (missingText statement.toAssignable)
      (requiredError statement.range "workflow move statement" "to"))

def validateWorkflowStatement (system : SystemDecl) (symbols : SymbolTable) (steps childSets : List Bytes)
    (statement : WorkflowStatementDecl) : Diagnostics :=
  validateOptionalExpression system statement.range statement.expression ++
  (statement.payload.flatMap fun assignment =>
    validateExpression system assignment.range assignment.expression) ++
  (statement.statements.attach.flatMap fun nested =>
    validateWorkflowStatement system symbols steps childSets nested.1) ++
  validateStatementShape symbols steps childSets statement
termination_by sizeOf statement
decreasing_by
  cases statement with
  | mk kind target expression assignable fromAssignable toAssignable binding payload statements range =>
    have hlt : sizeOf nested.1 < sizeOf statements := List.sizeOf_lt_of_mem nested.2
    simp only [WorkflowStatementDecl.mk.sizeOf_spec]
    omega

/-! ## `validate_workflows` -/

def validateWorkflowLoad (system : SystemDecl) (load : WorkflowLoadDecl) : Diagnostics :=
  match findEntity system load.entity with
  | none => unknownReferenceError load.range "workflow load entity" load.entity
  | some entity =>
    reportIf (load.keyField ∉ entity.keyFields)
      (unknownReferenceError load.range "workflow load key field" load.keyField)

def validateWorkflowChildSet (system : SystemDecl) (childSet : WorkflowChildSetDecl) : Diagnostics :=
  match childSet.entity with
  | none => requiredError childSet.range ("workflow child_set '" ++ text childSet.name ++ "'") "entity"
  | some name =>
    match findEntity system name with
    | none => unknownReferenceError childSet.range "workflow child_set entity" name
    | some childEntity =>
      (childSet.parentField.elim [] fun parentField =>
        reportIf (parentField ∉ fieldNames childEntity.fields)
          (unknownReferenceError childSet.range "workflow child_set parent field" parentField)) ++
      validateOptionalExpression system childSet.range childSet.desiredCount

/-- A duration that a workflow or one of its steps has to have. -/
def validateExecutionTime (range : SourceRange) (subject : String) (value : Option Bytes) : Diagnostics :=
  match value with
  | none => requiredError range subject "expected_execution_time"
  | some duration =>
    reportIf (isDurationLiteral duration = false) (durationError range subject "expected_execution_time")

def validateWorkflowStep (workflow : WorkflowDecl) (step : WorkflowStepDecl) : Diagnostics :=
  let subject := "workflow step '" ++ text (workflowStepName workflow step) ++ "'"
  validateExecutionTime step.range subject step.expectedExecutionTime ++
  match step.maxRetries with
  | none => requiredError step.range subject "max_retries"
  | some retries =>
    reportIf (isNonNegativeInteger retries = false) (nonNegativeIntegerError step.range subject "max_retries")

def validateWorkflow (system : SystemDecl) (symbols : SymbolTable) (workflow : WorkflowDecl) : Diagnostics :=
  let subject := "workflow '" ++ text workflow.name ++ "'"
  let steps := workflow.steps.map WorkflowStepDecl.name
  let childSets := workflow.childSets.map WorkflowChildSetDecl.name
  validateWorkflowMemberOrder workflow ++
  (match workflow.version with
    | none => requiredError workflow.range subject "version"
    | some version =>
      reportIf (isPositiveInteger version = false) (positiveIntegerError workflow.range subject "version")) ++
  reportIf workflow.startStep.isNone (requiredError workflow.range subject "start step") ++
  reportIf workflow.singleton.isNone (requiredError workflow.range subject "singleton") ++
  reportIf workflow.steps.isEmpty (requiredError workflow.range subject "at least one step") ++
  validateExecutionTime workflow.range subject workflow.expectedExecutionTime ++
  (workflow.on'.elim [] fun trigger =>
    validateSymbolReference symbols workflow.range "workflow trigger" trigger [.api, .event, .message]) ++
  (workflow.input.elim [] fun type =>
    reportIf (isKnownTypeReference type symbols = false)
      (unknownReferenceError workflow.range "workflow input" type)) ++
  (workflow.state.elim [] fun type =>
    reportIf (isKnownTypeReference type symbols = false)
      (unknownReferenceError workflow.range "workflow state" type)) ++
  eachSeen (fun load => [load.binding])
    (fun bindings load =>
      reportIf (load.binding ∈ bindings) (duplicateError load.range load.binding) ++
      validateWorkflowLoad system load)
    [] workflow.loads ++
  eachSeen (fun childSet => [childSet.name])
    (fun names childSet =>
      reportIf (childSet.name ∈ names) (duplicateError childSet.range childSet.name) ++
      validateWorkflowChildSet system childSet)
    [] workflow.childSets ++
  eachSeen (fun childWorkflow => [childWorkflow.name])
    (fun names childWorkflow =>
      reportIf (childWorkflow.name ∈ names) (duplicateError childWorkflow.range childWorkflow.name))
    [] workflow.childWorkflows ++
  eachSeen (fun step => [step.name])
    (fun names step =>
      reportIf (step.name ∈ names) (duplicateError step.range (workflowStepName workflow step)) ++
      validateWorkflowStep workflow step)
    [] workflow.steps ++
  eachSeen derivedBuckets
    (fun buckets childWorkflow =>
      validateWorkflowChildWorkflow system symbols workflow childWorkflow steps buckets)
    [] workflow.childWorkflows ++
  (workflow.startStep.elim [] fun startStep =>
    reportIf (startStep ∉ steps) (unknownReferenceError workflow.range "workflow start step" startStep)) ++
  workflow.steps.flatMap fun step =>
    step.statements.flatMap (validateWorkflowStatement system symbols steps childSets)

def validateWorkflows (system : SystemDecl) (symbols : SymbolTable) : Diagnostics :=
  system.workflows.flatMap (validateWorkflow system symbols)

end StateSpec.Compiler
