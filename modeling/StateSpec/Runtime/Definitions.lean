/-
  DEFINITIONS — whether a workflow definition, once registered, stays what it is.

  `register_definition` puts its definition under the name and the version without looking at what is
  there (only its answer depends on that), so a second registration replaces the first
  (`definition_replaced`).  Nothing else writes a definition, and different pairs of a name and a
  version never share a key: a numeral has no ':' in it.  So a definition stays as long as each
  registration finds nothing or the same definition: `definitions_immutable`.
-/
import StateSpec.Runtime.Executions

namespace StateSpec.Runtime

open Program Interleaving Memory

variable {δ : Type} {d d' : Docs δ}

/-! ## Reading back -/

/-- Different pairs have different keys. -/
theorem definitionKey_inj {name name' : Bytes} {version version' : Int}
    (h : definitionKey name version = definitionKey name' version') :
    name = name' ∧ version = version' := by
  obtain ⟨hname, hversion⟩ := Bytes.glue_inj_right (Bytes.colon_not_mem_decimalInt version)
    (Bytes.colon_not_mem_decimalInt version') h
  exact ⟨hname, Bytes.decimalInt_injective hversion⟩

/-- The definition that is stored under a name and a version. -/
def definitionAt (d : Docs δ) (name : Bytes) (version : Int) : Option (WorkflowDefinition δ) :=
  (d .workflowDefinitions (definitionKey name version)).bind fun document =>
    (WorkflowDefinition.fromJson document).toOption

theorem definitionAt_congr (h : d' .workflowDefinitions = d .workflowDefinitions) (name : Bytes)
    (version : Int) : definitionAt d' name version = definitionAt d name version :=
  decodedAt_congr (congrFun h _)

/-- What is read back after a definition has been put. -/
theorem definitionAt_set (d : Docs δ) (definition : WorkflowDefinition δ) (name : Bytes)
    (version : Int) :
    definitionAt (d.set .workflowDefinitions
        (definitionKey definition.workflowName definition.workflowVersion)
        (some definition.toJson)) name version =
      if name = definition.workflowName ∧ version = definition.workflowVersion then some definition
      else definitionAt d name version := by
  have hset : definitionAt (d.set .workflowDefinitions
      (definitionKey definition.workflowName definition.workflowVersion)
      (some definition.toJson)) name version = _ :=
    decodedAt_set definition.fromJson_toJson d _ _ _
  rw [hset]
  by_cases h : name = definition.workflowName ∧ version = definition.workflowVersion
  · rw [if_pos h, h.1, h.2, if_pos rfl]
  · rw [if_neg h, if_neg fun hkey => h (definitionKey_inj hkey)]
    rfl

theorem runs_inspectDefinitionTx_eq {name : Bytes} {version : Int}
    {r : Option (WorkflowDefinition δ)} (h : (inspectDefinitionTx name version).Runs d r d') :
    r = definitionAt d name version :=
  (runs_decoded h rfl fun _ => rfl).2

/-! ## What a request does to the definitions -/

/-- The registration puts the definition, whatever is there. -/
theorem runs_registerDefinitionTx_definitions {definition : WorkflowDefinition δ}
    {r : WorkflowDefinitionRegistration δ} (h : (registerDefinitionTx definition).Runs d r d')
    (name : Bytes) (version : Int) :
    definitionAt d' name version =
      if name = definition.workflowName ∧ version = definition.workflowVersion then some definition
      else definitionAt d name version := by
  obtain ⟨existing, mid, hinspect, hrest⟩ := runs_do.mp h
  obtain rfl := runs_inspectDefinitionTx hinspect
  obtain ⟨_, mid', hwrite, hlast⟩ := runs_do.mp hrest
  obtain ⟨-, rfl⟩ := runs_pure.mp hlast
  rw [runs_write.mp hwrite, definitionAt_set]

/-- Every other request leaves the definitions alone. -/
theorem leaves_workflowProgram {request : WorkflowRequest δ}
    (h : ∀ definition, request ≠ .registerDefinition definition) :
    (workflowProgram request).Leaves .workflowDefinitions := by
  cases request with
  | registerDefinition definition => exact absurd rfl (h definition)
  | inspectDefinition name version => exact leaves_map (leaves_inspectDefinitionTx _ _ _)
  | start request => exact leaves_map (leaves_startTx (by decide) _)
  | claimSteps request => exact leaves_map (leaves_claimStepsTx (by decide) (by decide) _)
  | keepAliveStep request => exact leaves_map (leaves_keepAliveStepTx (by decide) _)
  | completeStep request =>
    exact leaves_map (leaves_holder fun _ => leaves_finish (by decide) (by decide) _ _ _)
  | failStep request =>
    exact leaves_map (leaves_holder fun _ => leaves_finish (by decide) (by decide) _ _ _)
  | cancel request =>
    refine leaves_map (leaves_do (leaves_requireExecution _ _) fun _ => ?_)
    exact leaves_finish (by decide) (by decide) _ _ _
  | inspect workflowExecutionId => exact leaves_map (leaves_inspectTx _ _)

/-! ## The property -/

/-- The request registers a definition under the name and the version. -/
def Registers (name : Bytes) (version : Int) : WorkflowRequest δ → Prop
  | .registerDefinition definition =>
    definition.workflowName = name ∧ definition.workflowVersion = version
  | _ => False

/-- **Registered definitions are immutable**: after the first registration under a name and a version,
    every inspection of the pair returns that definition. -/
def DefinitionsImmutable (log : WorkflowLog δ) : Prop :=
  ∀ before definition response middle answer rest,
    log = before ++ (.registerDefinition definition, response) ::
      (middle ++ (.inspectDefinition definition.workflowName definition.workflowVersion,
        .definition answer) :: rest) →
    (∀ entry ∈ before,
      ¬ Registers definition.workflowName definition.workflowVersion entry.1) →
    answer = some definition

/-- What a registration finds: nothing, or the same definition. -/
def SameDefinition (d : Docs δ) : WorkflowRequest δ → Prop
  | .registerDefinition definition =>
    definitionAt d definition.workflowName definition.workflowVersion = none ∨
    definitionAt d definition.workflowName definition.workflowVersion = some definition
  | _ => True

/-- Each definition that has been registered is the one that is stored. -/
def RegisteredStored (log : WorkflowLog δ) (d : Docs δ) : Prop :=
  ∀ definition response, (.registerDefinition definition, response) ∈ log →
    definitionAt d definition.workflowName definition.workflowVersion = some definition

/-- Each request keeps the registered definitions. -/
theorem RegisteredStored.snoc {log : WorkflowLog δ} {request : WorkflowRequest δ}
    {response : WorkflowResponse δ} (hstored : RegisteredStored log d)
    (hsame : SameDefinition d request) (h : (workflowProgram request).Runs d response d') :
    RegisteredStored (log ++ [(request, response)]) d' := by
  intro definition response' hmem
  by_cases hregisters : ∃ definition', request = .registerDefinition definition'
  · obtain ⟨definition', rfl⟩ := hregisters
    obtain ⟨r, hr, -⟩ := runs_map.mp h
    rw [runs_registerDefinitionTx_definitions hr]
    by_cases hpair : definition.workflowName = definition'.workflowName ∧
        definition.workflowVersion = definition'.workflowVersion
    · rw [if_pos hpair]
      rcases List.mem_append.mp hmem with hold | hnew
      · -- the pair has been registered before, so what is there is what is registered now
        have hdefinition := hstored definition response' hold
        rw [hpair.1, hpair.2] at hdefinition
        rcases hsame with hnone | hsome
        · rw [hnone] at hdefinition
          cases hdefinition
        · exact hsome.symm.trans hdefinition
      · cases List.mem_singleton.mp hnew
        rfl
    · rw [if_neg hpair]
      rcases List.mem_append.mp hmem with hold | hnew
      · exact hstored definition response' hold
      · cases List.mem_singleton.mp hnew
        exact absurd ⟨rfl, rfl⟩ hpair
  · have hother : ∀ definition', request ≠ .registerDefinition definition' :=
      fun definition' heq => hregisters ⟨definition', heq⟩
    rw [definitionAt_congr ((leaves_workflowProgram hother).runs h)]
    rcases List.mem_append.mp hmem with hold | hnew
    · exact hstored definition response' hold
    · cases List.mem_singleton.mp hnew
      exact absurd rfl (hother definition)

theorem DefinitionsImmutable.snoc {log : WorkflowLog δ} {request : WorkflowRequest δ}
    {response : WorkflowResponse δ} (himmutable : DefinitionsImmutable log)
    (hstored : RegisteredStored log d) (h : (workflowProgram request).Runs d response d') :
    DefinitionsImmutable (log ++ [(request, response)]) := by
  intro before definition response' middle answer rest hlog hfirst
  rcases snoc_eq_append_pair hlog with ⟨rfl, rfl, heq⟩ | ⟨rest, rfl, hlog'⟩
  · cases heq
    obtain ⟨r, hr, hanswer⟩ := runs_map.mp h
    cases hanswer
    have hmem : (WorkflowRequest.registerDefinition definition, response') ∈
        before ++ (WorkflowRequest.registerDefinition definition, response') :: middle :=
      List.mem_append_right _ List.mem_cons_self
    rw [runs_inspectDefinitionTx_eq hr]
    exact hstored definition response' hmem
  · exact himmutable before definition response' middle answer rest hlog' hfirst

theorem definitions_history {d₀ : Docs δ} {log : WorkflowLog δ}
    (h : History workflowProgram (fun _ d request => SameDefinition d request) d₀ log d) :
    RegisteredStored log d ∧ DefinitionsImmutable log := by
  induction h with
  | nil =>
    refine ⟨nofun, ?_⟩
    intro before definition response middle answer rest hlog
    simp at hlog
  | snoc _ hsame hruns ih =>
    obtain ⟨hstored, himmutable⟩ := ih
    exact ⟨hstored.snoc hsame hruns, himmutable.snoc hstored hruns⟩

/-! ## Runs -/

variable [Decimal δ]

/-- **Registered definitions are immutable** in every history and every run in which each registration
    finds nothing under its name and version, or the same definition. -/
theorem definitions_immutable :
    (∀ (d₀ d : Docs δ) (log : WorkflowLog δ),
      History workflowProgram (fun _ d request => SameDefinition d request) d₀ log d →
      DefinitionsImmutable log) ∧
    ∀ es : List (SessionEvent (WorkflowRequest δ) Unit),
      RunMeets workflowStore (Committing fun _ d request => SameDefinition d request)
        (World.init InMemoryState.empty) es →
      DefinitionsImmutable (workflowLog es) := by
  refine ⟨?_, ?_⟩
  · intro d₀ d log h
    exact (definitions_history h).2
  · intro es hes
    exact (definitions_history (history_workflowStore hes)).2

/-- The definition of the workflow `n`, version 1, with that start step. -/
def oneStepDefinition (step : Bytes) : WorkflowDefinition Empty where
  workflowName := ascii "n"
  workflowVersion := 1
  startStep := step
  expectedExecutionTime := 60
  steps := [{ name := step, expectedExecutionTime := 60 }]
  metadata := .null

/-- Two registrations under one name and version, and an inspection. -/
def registeringRun (first second : Bytes) : List (SessionEvent (WorkflowRequest Empty) Unit) :=
  soloSession 0 (WorkflowRequest.registerDefinition (oneStepDefinition first)) 2 ++
  soloSession 1 (WorkflowRequest.registerDefinition (oneStepDefinition second)) 2 ++
  soloSession 2 (WorkflowRequest.inspectDefinition (ascii "n") 1) 1

/-- The same definition can be registered again. -/
theorem definitions_immutable_registered :
    DefinitionsImmutable (workflowLog (registeringRun (ascii "s") (ascii "s"))) := by
  refine definitions_immutable.2 _ ?_
  simp only [registeringRun, runMeets_append]
  refine ⟨⟨?_, ?_⟩, ?_⟩ <;>
    refine runMeets_soloSession (by simp [length_slots_run, World.init]) ?_ _
  · exact Or.inl rfl
  · exact Or.inr rfl
  · trivial

/-- **A registered definition is replaced** by another one under the same name and version. -/
theorem definition_replaced :
    ¬ DefinitionsImmutable (workflowLog (registeringRun (ascii "s") (ascii "t"))) := by
  intro himmutable
  have hanswer := himmutable [] (oneStepDefinition (ascii "s")) _ [_]
    (some (oneStepDefinition (ascii "t"))) [] rfl (List.forall_mem_nil _)
  have hsteps := congrArg WorkflowDefinition.startStep (Option.some_inj.mp hanswer)
  revert hsteps
  decide

end StateSpec.Runtime
