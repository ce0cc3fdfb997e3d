/-
  CHILD WORKFLOWS — `ir_workflows.cpp`, and the phases that `workflow_synthetic_child_phases` makes of the child
  workflows of a workflow.

  1. **Program** — a child workflow has the names of its steps and its buckets from `deriveChildWorkflowNames`,
     when it says what its children are told apart by.  It makes three phases: ids are generated, children are
     created, and waited for.
  2. The validator compares the steps of a child workflow with the declared ones, and its buckets with those of
     the child workflows before it.  Of the steps of two child workflows it compares nothing; they are apart
     because the buckets are (`bases_apart`) and so are the names of the child workflows.
  3. `derivedNames_apart`: so all names are distinct, and each phase leads to one later phase.
-/
import StateSpec.Compiler.Ir
import StateSpec.Compiler.Validator

namespace StateSpec.Compiler

/-! ## The program -/

structure IrWorkflowAssignment where
  name : Bytes
  expression : Bytes
deriving DecidableEq

structure IrWorkflowChildWorkflow where
  name : Bytes
  childEntity : Option Bytes
  childWorkflow : Option Bytes
  childIdField : Option Bytes
  childIdType : Option Bytes
  parentRefField : Option Bytes
  parentRefExpression : Option Bytes
  desiredCount : Option Bytes
  createAssignments : List IrWorkflowAssignment
  successExpression : Option Bytes
  failureExpression : Option Bytes
  idBucketBase : Option Bytes
  pendingBucket : Option Bytes
  creatingBucket : Option Bytes
  succeededBucket : Option Bytes
  failedBucket : Option Bytes
  generateIdsStep : Option Bytes
  createChildrenStep : Option Bytes
  waitChildrenStep : Option Bytes
deriving DecidableEq

structure IrWorkflowStep where
  name : Bytes
  expectedExecutionTime : Option Bytes
  maxRetries : Option Int

structure IrWorkflow where
  name : Bytes
  version : Option Int
  singleton : Option Bool
  expectedExecutionTime : Option Bytes
  startStep : Option Bytes
  on' : Option Bytes
  input : Option Bytes
  state : Option Bytes
  childWorkflows : List IrWorkflowChildWorkflow
  steps : List IrWorkflowStep

/-- The names of a child workflow, as `resolve_semantic_workflows` derives them. -/
def derivedNames (childWorkflow : WorkflowChildWorkflowDecl) : Option ChildWorkflowDerivedNames :=
  childWorkflow.childIdField.map (deriveChildWorkflowNames childWorkflow.name)

def lowerChildWorkflow (childWorkflow : WorkflowChildWorkflowDecl) : IrWorkflowChildWorkflow :=
  let names := derivedNames childWorkflow
  { name := childWorkflow.name
    childEntity := childWorkflow.childEntity
    childWorkflow := childWorkflow.childWorkflow
    childIdField := childWorkflow.childIdField
    childIdType := childWorkflow.childIdType
    parentRefField := childWorkflow.parentRefField
    parentRefExpression := childWorkflow.parentRefExpression
    desiredCount := childWorkflow.desiredCount
    createAssignments := childWorkflow.createAssignments.map fun assignment =>
      ⟨assignment.name, assignment.expression⟩
    successExpression := childWorkflow.successExpression
    failureExpression := childWorkflow.failureExpression
    idBucketBase := names.map ChildWorkflowDerivedNames.idBucketBase
    pendingBucket := names.map ChildWorkflowDerivedNames.pendingBucket
    creatingBucket := names.map ChildWorkflowDerivedNames.creatingBucket
    succeededBucket := names.map ChildWorkflowDerivedNames.succeededBucket
    failedBucket := names.map ChildWorkflowDerivedNames.failedBucket
    generateIdsStep := names.map ChildWorkflowDerivedNames.generateIdsStep
    createChildrenStep := names.map ChildWorkflowDerivedNames.createChildrenStep
    waitChildrenStep := names.map ChildWorkflowDerivedNames.waitChildrenStep }

/-- A workflow of `lower_ir_workflows`, without its loads, its child sets and the statements of its steps. -/
def lowerWorkflow (workflow : WorkflowDecl) : IrWorkflow :=
  { name := workflow.name
    version := workflow.version
    singleton := workflow.singleton
    expectedExecutionTime := workflow.expectedExecutionTime
    startStep := workflow.startStep
    on' := workflow.on'
    input := workflow.input
    state := workflow.state
    childWorkflows := workflow.childWorkflows.map lowerChildWorkflow
    steps := workflow.steps.map fun step => ⟨step.name, step.expectedExecutionTime, step.maxRetries⟩ }

structure GeneratedWorkflowSyntheticPhase where
  stepName : Bytes
  nextStep : Option Bytes
deriving DecidableEq

/-- The phases of a child workflow. -/
def childPhases (childWorkflow : IrWorkflowChildWorkflow) : List GeneratedWorkflowSyntheticPhase :=
  (match childWorkflow.generateIdsStep, childWorkflow.createChildrenStep with
    | some generate, some create => [⟨generate, some create⟩]
    | _, _ => []) ++
  (match childWorkflow.createChildrenStep, childWorkflow.waitChildrenStep with
    | some create, some wait => [⟨create, some wait⟩]
    | _, _ => []) ++
  childWorkflow.waitChildrenStep.toList.map fun wait => ⟨wait, none⟩

/-- `workflow_synthetic_child_phases`. -/
def workflowSyntheticChildPhases (workflow : IrWorkflow) : List GeneratedWorkflowSyntheticPhase :=
  workflow.childWorkflows.flatMap childPhases

/-! ## Specification -/

/-- The steps of a child workflow, if it has any. -/
def derivedSteps (childWorkflow : WorkflowChildWorkflowDecl) : List Bytes :=
  (derivedNames childWorkflow).elim [] ChildWorkflowDerivedNames.steps

/-- No name of a workflow is taken twice, and where a phase leads is one later phase. -/
structure NamesDistinct (workflow : WorkflowDecl) : Prop where
  steps : (workflow.steps.map WorkflowStepDecl.name ++ workflow.childWorkflows.flatMap derivedSteps).Nodup
  buckets : (workflow.childWorkflows.flatMap derivedBuckets).Nodup
  phases : ∀ before phase later, workflowSyntheticChildPhases (lowerWorkflow workflow) = before ++ phase :: later →
    ∀ next ∈ phase.nextStep, (later.map GeneratedWorkflowSyntheticPhase.stepName).count next = 1
/-! ## What the validator sees to -/

/-- Items with names of their own, none of which an item before them has. -/
theorem nodup_flatMap_of_fresh {α : Type} {names : α → List Bytes} {items : List α}
    (hnodup : ∀ item ∈ items, (names item).Nodup)
    (hfresh : ∀ before item after, items = before ++ item :: after →
      ∀ name ∈ names item, name ∉ before.flatMap names) : (items.flatMap names).Nodup := by
  induction items using List.reverseRecOn with
  | nil => exact List.nodup_nil
  | append_singleton front last ih =>
    have hfront : (front.flatMap names).Nodup := by
      refine ih (fun item hitem => hnodup item (List.mem_append_left _ hitem)) fun before item after hsplit => ?_
      refine hfresh before item (after ++ [last]) ?_
      rw [hsplit, List.append_assoc, List.cons_append]
    rw [List.flatMap_append, List.flatMap_singleton, List.nodup_append]
    refine ⟨hfront, hnodup last (List.mem_append_right _ List.mem_cons_self), ?_⟩
    rintro name hname other hother rfl
    exact hfresh front last [] rfl name hother hname

/-- A loop that has nothing against its items, and would have against one with a name that it has seen. -/
theorem nodup_of_clean_eachSeen {α : Type} {names : α → List Bytes} {check : List Bytes → α → Diagnostics}
    {items : List α} (hnodup : ∀ item ∈ items, (names item).Nodup)
    (hcheck : ∀ seen item, Clean (check seen item) → ∀ name ∈ names item, name ∉ seen)
    (h : Clean (eachSeen names check [] items)) : (items.flatMap names).Nodup := by
  refine nodup_flatMap_of_fresh hnodup fun before item after hsplit => ?_
  have hitem := clean_eachSeen.mp h before item after hsplit
  rw [List.nil_append] at hitem
  exact hcheck _ item hitem

section

variable {system : SystemDecl} {symbols : SymbolTable} {workflow : WorkflowDecl}

/-- What the derived names of an accepted workflow rest on. -/
structure NamesChecked (workflow : WorkflowDecl) : Prop where
  steps : (workflow.steps.map WorkflowStepDecl.name).Nodup
  childWorkflows : (workflow.childWorkflows.map WorkflowChildWorkflowDecl.name).Nodup
  collisions : ∀ before childWorkflow after, workflow.childWorkflows = before ++ childWorkflow :: after →
    Clean (validateChildWorkflowDerivedNameCollisions workflow childWorkflow
      (workflow.steps.map WorkflowStepDecl.name) (before.flatMap derivedBuckets))

theorem nodup_names {α : Type} {name : α → Bytes} {check : List Bytes → α → Diagnostics} {items : List α}
    (hcheck : ∀ seen item, Clean (check seen item) → name item ∉ seen)
    (h : Clean (eachSeen (fun item => [name item]) check [] items)) : (items.map name).Nodup := by
  have hnodup := nodup_of_clean_eachSeen (fun item _ => List.nodup_singleton (name item))
    (fun seen item hitem other hother => List.mem_singleton.mp hother ▸ hcheck seen item hitem) h
  rwa [← List.map_eq_flatMap] at hnodup

/-- The collisions come last in what is said of a child workflow. -/
theorem collisions_of_clean {childWorkflow : WorkflowChildWorkflowDecl} {stepNames buckets : List Bytes}
    (h : Clean (validateWorkflowChildWorkflow system symbols workflow childWorkflow stepNames buckets)) :
    Clean (validateChildWorkflowDerivedNameCollisions workflow childWorkflow stepNames buckets) := by
  unfold validateWorkflowChildWorkflow at h
  exact (clean_append.mp h).2

theorem namesChecked (h : Clean (validateWorkflow system symbols workflow)) : NamesChecked workflow := by
  simp only [validateWorkflow, clean_append] at h
  obtain ⟨⟨⟨⟨⟨-, hchildWorkflows⟩, hsteps⟩, hderived⟩, -⟩, -⟩ := h
  refine ⟨nodup_names ?_ hsteps, nodup_names ?_ hchildWorkflows, ?_⟩
  · intro seen step hstep hseen
    rw [clean_append, clean_reportIf] at hstep
    exact not_clean_duplicateError _ _ (hstep.1 hseen)
  · intro seen childWorkflow hchild hseen
    rw [clean_reportIf] at hchild
    exact not_clean_duplicateError _ _ (hchild hseen)
  · intro before childWorkflow after hsplit
    have hchild := clean_eachSeen.mp hderived before childWorkflow after hsplit
    exact collisions_of_clean hchild

end

/-! ## Names -/

/-- Texts that begin with different bytes. -/
theorem append_ne_of_head {front other : Bytes} {a b : UInt8} (hfront : front.head? = some a)
    (hother : other.head? = some b) (hne : a ≠ b) (rest more : Bytes) : front ++ rest ≠ other ++ more := by
  intro heq
  have hheads := congrArg List.head? heq
  rw [List.head?_append, hfront, List.head?_append, hother] at hheads
  exact hne (Option.some.inj hheads)

section

variable {name other idField otherField : Bytes}

/-- The steps of two child workflows are apart, when their names and the bases of their buckets are. -/
theorem steps_disjoint (hname : name ≠ other)
    (hbase : deriveChildWorkflowIdBucketBase idField ≠ deriveChildWorkflowIdBucketBase otherField) :
    ∀ step ∈ (deriveChildWorkflowNames name idField).steps,
      step ∉ (deriveChildWorkflowNames other otherField).steps := by
  intro step hstep hother
  simp only [ChildWorkflowDerivedNames.steps, deriveChildWorkflowNames, List.mem_cons, List.not_mem_nil,
    or_false] at hstep hother
  rcases hstep with rfl | rfl | rfl
  · rcases hother with heq | heq | heq
    · exact hbase (List.append_cancel_left heq)
    · exact append_ne_of_head rfl rfl (by decide) _ _ heq
    · exact append_ne_of_head rfl rfl (by decide) _ _ heq
  · rcases hother with heq | heq | heq
    · exact append_ne_of_head rfl rfl (by decide) _ _ heq
    · exact hname (List.append_cancel_left heq)
    · exact append_ne_of_head rfl rfl (by decide) _ _ heq
  · rcases hother with heq | heq | heq
    · exact append_ne_of_head rfl rfl (by decide) _ _ heq
    · exact append_ne_of_head rfl rfl (by decide) _ _ heq
    · exact hname (List.append_cancel_left heq)

theorem nodup_steps (name idField : Bytes) : (deriveChildWorkflowNames name idField).steps.Nodup := by
  simp only [ChildWorkflowDerivedNames.steps, deriveChildWorkflowNames, List.nodup_cons, List.mem_cons,
    List.not_mem_nil, or_false, not_or, List.nodup_nil, and_true, not_false_iff]
  exact ⟨⟨append_ne_of_head rfl rfl (by decide) _ _, append_ne_of_head rfl rfl (by decide) _ _⟩,
    append_ne_of_head rfl rfl (by decide) _ _⟩

theorem nodup_buckets (name idField : Bytes) : (deriveChildWorkflowNames name idField).buckets.Nodup := by
  simp only [ChildWorkflowDerivedNames.buckets, deriveChildWorkflowNames, List.nodup_cons, List.mem_cons,
    List.not_mem_nil, or_false, not_or, List.nodup_nil, and_true, not_false_iff]
  exact ⟨⟨append_ne_of_head rfl rfl (by decide) _ _, append_ne_of_head rfl rfl (by decide) _ _,
    append_ne_of_head rfl rfl (by decide) _ _⟩, ⟨append_ne_of_head rfl rfl (by decide) _ _,
    append_ne_of_head rfl rfl (by decide) _ _⟩, append_ne_of_head rfl rfl (by decide) _ _⟩

end
/-! ## No collisions -/

section

variable {workflow : WorkflowDecl} {childWorkflow : WorkflowChildWorkflowDecl} {stepNames buckets : List Bytes}

theorem derivedBuckets_eq {idField : Bytes} (h : childWorkflow.childIdField = some idField) :
    derivedBuckets childWorkflow = (deriveChildWorkflowNames childWorkflow.name idField).buckets := by
  rw [derivedBuckets, h]
  rfl

theorem derivedSteps_eq {idField : Bytes} (h : childWorkflow.childIdField = some idField) :
    derivedSteps childWorkflow = (deriveChildWorkflowNames childWorkflow.name idField).steps := by
  rw [derivedSteps, derivedNames, h]
  rfl

/-- Of what has no names nothing is taken. -/
theorem derived_of_none (h : childWorkflow.childIdField = none) :
    derivedBuckets childWorkflow = [] ∧ derivedSteps childWorkflow = [] := by
  rw [derivedBuckets, derivedSteps, derivedNames, h]
  exact ⟨rfl, rfl⟩

theorem exists_idField_of_step {step : Bytes} (h : step ∈ derivedSteps childWorkflow) :
    ∃ idField, childWorkflow.childIdField = some idField := by
  cases hid : childWorkflow.childIdField with
  | none =>
    rw [(derived_of_none hid).2] at h
    cases h
  | some idField => exact ⟨idField, rfl⟩

/-- **No collisions**: no step is declared, and no bucket taken. -/
theorem noCollision_of_clean
    (h : Clean (validateChildWorkflowDerivedNameCollisions workflow childWorkflow stepNames buckets)) :
    (∀ step ∈ derivedSteps childWorkflow, step ∉ stepNames) ∧
      ∀ bucket ∈ derivedBuckets childWorkflow, bucket ∉ buckets := by
  cases hid : childWorkflow.childIdField with
  | none =>
    obtain ⟨hbuckets, hsteps⟩ := derived_of_none hid
    rw [hbuckets, hsteps]
    exact ⟨nofun, nofun⟩
  | some idField =>
    rw [derivedBuckets_eq hid, derivedSteps_eq hid]
    rw [validateChildWorkflowDerivedNameCollisions, hid, clean_append, clean_flatMap, clean_flatMap] at h
    obtain ⟨hsteps, hbuckets⟩ := h
    constructor
    · intro step hstep htaken
      exact not_clean_duplicateError _ _ (clean_reportIf.mp (hsteps step hstep) htaken)
    · intro bucket hbucket htaken
      exact not_clean_duplicateError _ _ (clean_reportIf.mp (hbuckets bucket hbucket) htaken)

end

namespace NamesChecked

variable {workflow : WorkflowDecl} (h : NamesChecked workflow)

include h

theorem nodup_derivedBuckets : (workflow.childWorkflows.flatMap derivedBuckets).Nodup := by
  refine nodup_flatMap_of_fresh (fun childWorkflow _ => ?_) fun before childWorkflow after hsplit =>
    (noCollision_of_clean (h.collisions before childWorkflow after hsplit)).2
  cases hid : childWorkflow.childIdField with
  | none =>
    rw [(derived_of_none hid).1]
    exact List.nodup_nil
  | some idField =>
    rw [derivedBuckets_eq hid]
    exact nodup_buckets _ _

/-- Two child workflows have different names, and different bases of their buckets. -/
theorem bases_apart {before after : List WorkflowChildWorkflowDecl}
    {childWorkflow other : WorkflowChildWorkflowDecl}
    (hsplit : workflow.childWorkflows = before ++ childWorkflow :: after) (hother : other ∈ before)
    {idField otherField : Bytes} (hid : childWorkflow.childIdField = some idField)
    (hotherId : other.childIdField = some otherField) :
    childWorkflow.name ≠ other.name ∧
      deriveChildWorkflowIdBucketBase idField ≠ deriveChildWorkflowIdBucketBase otherField := by
  constructor
  · have hnames := h.childWorkflows
    rw [hsplit, List.map_append, List.map_cons, List.nodup_append] at hnames
    intro heq
    exact hnames.2.2 other.name (List.mem_map_of_mem hother) childWorkflow.name List.mem_cons_self heq.symm
  · intro hbase
    have hfresh := (noCollision_of_clean (h.collisions before childWorkflow after hsplit)).2
    rw [derivedBuckets_eq hid] at hfresh
    -- the first bucket of one would be the first of the other
    refine hfresh (ascii "pending_" ++ deriveChildWorkflowIdBucketBase idField) List.mem_cons_self ?_
    refine List.mem_flatMap.mpr ⟨other, hother, ?_⟩
    rw [derivedBuckets_eq hotherId, hbase]
    exact List.mem_cons_self

theorem nodup_derivedSteps : (workflow.childWorkflows.flatMap derivedSteps).Nodup := by
  refine nodup_flatMap_of_fresh (fun childWorkflow _ => ?_) fun before childWorkflow after hsplit => ?_
  · cases hid : childWorkflow.childIdField with
    | none =>
      rw [(derived_of_none hid).2]
      exact List.nodup_nil
    | some idField =>
      rw [derivedSteps_eq hid]
      exact nodup_steps _ _
  · intro step hstep htaken
    obtain ⟨other, hother, hotherStep⟩ := List.mem_flatMap.mp htaken
    obtain ⟨idField, hid⟩ := exists_idField_of_step hstep
    obtain ⟨otherField, hotherId⟩ := exists_idField_of_step hotherStep
    obtain ⟨hname, hbase⟩ := h.bases_apart hsplit hother hid hotherId
    rw [derivedSteps_eq hid] at hstep
    rw [derivedSteps_eq hotherId] at hotherStep
    exact steps_disjoint hname hbase step hstep hotherStep

theorem nodup_allSteps :
    (workflow.steps.map WorkflowStepDecl.name ++ workflow.childWorkflows.flatMap derivedSteps).Nodup := by
  refine List.nodup_append.mpr ⟨h.steps, h.nodup_derivedSteps, ?_⟩
  rintro step hstep other hother rfl
  obtain ⟨childWorkflow, hchild, hderived⟩ := List.mem_flatMap.mp hother
  obtain ⟨before, after, hsplit⟩ := List.append_of_mem hchild
  exact (noCollision_of_clean (h.collisions before childWorkflow after hsplit)).1 step hderived hstep

end NamesChecked

/-! ## Phases -/

/-- Every phase leads to a later one, if it leads anywhere. -/
def Leads (phases : List GeneratedWorkflowSyntheticPhase) : Prop :=
  ∀ before phase later, phases = before ++ phase :: later →
    ∀ next ∈ phase.nextStep, next ∈ later.map GeneratedWorkflowSyntheticPhase.stepName

theorem leads_nil : Leads [] := by
  intro before phase later hsplit
  exact absurd hsplit.symm (List.append_ne_nil_of_right_ne_nil before (List.cons_ne_nil phase later))

theorem leads_cons {phase : GeneratedWorkflowSyntheticPhase} {phases : List GeneratedWorkflowSyntheticPhase}
    (hphase : ∀ next ∈ phase.nextStep, next ∈ phases.map GeneratedWorkflowSyntheticPhase.stepName)
    (h : Leads phases) : Leads (phase :: phases) := by
  intro before other later hsplit
  cases before with
  | nil =>
    obtain ⟨rfl, rfl⟩ := List.cons.inj hsplit
    exact hphase
  | cons first before => exact h before other later (List.cons.inj hsplit).2

theorem childPhases_lower (childWorkflow : WorkflowChildWorkflowDecl) :
    childPhases (lowerChildWorkflow childWorkflow) = (derivedNames childWorkflow).elim [] fun names =>
      [⟨names.generateIdsStep, some names.createChildrenStep⟩,
        ⟨names.createChildrenStep, some names.waitChildrenStep⟩, ⟨names.waitChildrenStep, none⟩] := by
  simp only [childPhases, lowerChildWorkflow]
  cases derivedNames childWorkflow with
  | none => rfl
  | some names => rfl

/-- The phases of a child workflow lead to one another, in front of any others. -/
theorem leads_childPhases (childWorkflow : WorkflowChildWorkflowDecl)
    {phases : List GeneratedWorkflowSyntheticPhase} (h : Leads phases) :
    Leads (childPhases (lowerChildWorkflow childWorkflow) ++ phases) := by
  rw [childPhases_lower]
  cases derivedNames childWorkflow with
  | none => exact h
  | some names =>
    refine leads_cons ?_ (leads_cons ?_ (leads_cons nofun h))
    · rintro next ⟨⟩
      exact List.mem_cons_self
    · rintro next ⟨⟩
      exact List.mem_cons_self

theorem syntheticPhases_eq (workflow : WorkflowDecl) : workflowSyntheticChildPhases (lowerWorkflow workflow) =
    workflow.childWorkflows.flatMap fun childWorkflow => childPhases (lowerChildWorkflow childWorkflow) :=
  List.flatMap_map _ _ _

theorem leads_syntheticPhases (workflow : WorkflowDecl) :
    Leads (workflowSyntheticChildPhases (lowerWorkflow workflow)) := by
  rw [syntheticPhases_eq]
  induction workflow.childWorkflows with
  | nil => exact leads_nil
  | cons childWorkflow rest ih =>
    rw [List.flatMap_cons]
    exact leads_childPhases childWorkflow ih

/-- The phases are the derived steps. -/
theorem stepNames_syntheticPhases (workflow : WorkflowDecl) :
    (workflowSyntheticChildPhases (lowerWorkflow workflow)).map GeneratedWorkflowSyntheticPhase.stepName =
      workflow.childWorkflows.flatMap derivedSteps := by
  rw [syntheticPhases_eq, List.map_flatMap]
  refine List.flatMap_congr fun childWorkflow _ => ?_
  rw [childPhases_lower, derivedSteps]
  cases derivedNames childWorkflow with
  | none => rfl
  | some names => rfl

/-- **The derived names of an accepted workflow do not collide.** -/
theorem derivedNames_apart {system : SystemDecl} {symbols : SymbolTable} {workflow : WorkflowDecl}
    (h : Clean (validateWorkflow system symbols workflow)) : NamesDistinct workflow := by
  have hchecked := namesChecked h
  refine ⟨hchecked.nodup_allSteps, hchecked.nodup_derivedBuckets, ?_⟩
  intro before phase later hsplit next hnext
  have hlater := leads_syntheticPhases workflow before phase later hsplit next hnext
  have hnodup : (later.map GeneratedWorkflowSyntheticPhase.stepName).Nodup := by
    have hall := hchecked.nodup_derivedSteps
    rw [← stepNames_syntheticPhases, hsplit, List.map_append, List.map_cons] at hall
    exact ((List.nodup_append.mp hall).2.1.of_cons)
  exact List.count_eq_one_of_mem hnodup hlater

/-! ## A workflow -/

/-- Lines of orders. -/
def lineEntity : EntityDecl :=
  { orderEntity {} with
    name := ascii "Line"
    keyFields := [ascii "tenant_id", ascii "line_id"]
    fields := [
      { name := ascii "created_at", type := ascii "timestamp" },
      { name := ascii "updated_at", type := ascii "timestamp" },
      { name := ascii "status", type := ascii "string" },
      { name := ascii "tenant_id", type := ascii "string" },
      { name := ascii "line_id", type := ascii "string" },
      { name := ascii "order", type := ascii "Order" }]
    indexes := []
    relations := [{ kind := ascii "parent", name := ascii "order", target := ascii "Order" }]
    api := none }

/-- A child workflow for each line. -/
def lineWorkflow (name idField : Bytes) : WorkflowChildWorkflowDecl :=
  { name := name, childEntity := some (ascii "Line"), childWorkflow := some (ascii "Fulfil")
    childIdField := some idField, childIdType := some (ascii "string")
    parentRefField := some (ascii "order"), parentRefExpression := some (ascii "1")
    desiredCount := some (ascii "3")
    createAssignments := [{ name := idField, expression := ascii "1" },
      { name := ascii "order", expression := ascii "1" }]
    successExpression := some (ascii "true"), failureExpression := some (ascii "false") }

def fulfilWorkflow : WorkflowDecl :=
  { name := ascii "Fulfil", version := some 1, singleton := some true
    expectedExecutionTime := some (ascii "PT1M"), startStep := some (ascii "run")
    steps := [{ name := ascii "run", expectedExecutionTime := some (ascii "PT1M"), maxRetries := some 3 }]
    childWorkflows := [lineWorkflow (ascii "pick") (ascii "line_id"), lineWorkflow (ascii "pack") (ascii "status")] }

def fulfilSystem : SystemDecl :=
  { orderSystem {} with entities := [orderEntity {}, lineEntity], workflows := [fulfilWorkflow] }

theorem derivedNames_fulfil : NamesDistinct fulfilWorkflow :=
  @derivedNames_apart fulfilSystem (declaredSymbols fulfilSystem) fulfilWorkflow (by decide +kernel)

end StateSpec.Compiler
