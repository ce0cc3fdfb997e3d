/-
  THE WORKFLOW STORE IS A STEP ENGINE — `RuntimeWorkflowStore` implements the engine of `Lib/StepEngine`,
  with a registry of definitions beside it.

  1. `record` is how an execution of the engine is stored, and `Stands d s` says that the documents `d`
     are those of the state `s`: definitions, executions and heartbeats.
  2. `implements_workflowProgram` is the crux: on documents that stand for a state, what a call comes to
     is what the engine may do in that state.  A round of the claim loop claims one execution
     (`Stands.claim`).
  3. `workflow_refines`: the committed calls of any interleaving of sessions are served by the engine,
     one after another.
-/
import StateSpec.Lib.Registry
import StateSpec.Lib.StepEngine
import StateSpec.Runtime.Executions

namespace StateSpec.Runtime.Engine

open Program Interleaving Memory

variable {δ : Type} {d d' : Docs δ}

/-! ## Executions and their records -/

abbrev EnginePhase := StepEngine.Phase Bytes Bytes Timestamp

/-- A workflow is a name with a version. -/
abbrev EngineExecution (δ : Type) :=
  StepEngine.Execution (Bytes × Int) Bytes Bytes Bytes Timestamp (Json δ)

abbrev EngineState (δ : Type) :=
  Registry.State Key (WorkflowDefinition δ) ×
    StepEngine.State Key (Bytes × Int) Bytes Bytes Bytes Timestamp (Json δ) Key

/-- Expiries are stored in whole milliseconds, and the counter has 64 bits. -/
def engineRules : StepEngine.Rules Key Bytes Bytes Timestamp Key where
  token id worker shown := (id ++ colon :: worker) ++ colon :: Bytes.decimal shown
  place := heartbeatKey
  stored := Timestamp.stored
  shown claims := claims % 2 ^ 64

def phaseStatus : EnginePhase → Bytes
  | .waiting => running
  | .claimed _ _ _ => running
  | .completed => completed
  | .failed => failed
  | .canceled => canceled

def phaseWorker : EnginePhase → Option Bytes
  | .claimed worker _ _ => some worker
  | _ => none

def phaseExpiry : EnginePhase → Option Timestamp
  | .claimed _ _ expiry => some expiry
  | _ => none

/-- The record of an execution. -/
def record (id : Key) (execution : EngineExecution δ) : WorkflowExecutionRecord δ where
  workflowExecutionId := id
  workflowName := execution.workflow.1
  workflowVersion := execution.workflow.2
  currentStep := execution.step
  status := phaseStatus execution.phase
  attempt := .ofNat execution.claims
  claimedBy := phaseWorker execution.phase
  claimToken := execution.phase.token
  claimExpiresAt := phaseExpiry execution.phase
  state := execution.payload

/-- The record of a heartbeat. -/
def heartbeatRecord (heartbeat : StepEngine.Heartbeat Key Bytes Bytes Bytes Timestamp) :
    WorkflowHeartbeatRecord where
  workflowExecutionId := heartbeat.id
  claimToken := heartbeat.token
  worker := heartbeat.worker
  currentStep := heartbeat.step
  claimExpiresAt := heartbeat.expiry

/-- The execution that a request starts. -/
def begun (request : StartWorkflowRequest δ) : EngineExecution δ where
  workflow := (request.workflowName, request.workflowVersion)
  step := request.startStep
  payload := request.state

theorem record_claim (request : ClaimWorkflowStepRequest) (id : Key) {execution : EngineExecution δ}
    (hstatus : phaseStatus execution.phase = running) :
    claim request (record id execution) =
      record id (execution.claim engineRules id request.worker
        (request.now.plus request.leaseDuration)) := by
  have hattempt : UInt64.ofNat execution.claims + 1 = UInt64.ofNat (execution.claims + 1) := by
    rw [UInt64.ofNat_add]
    rfl
  have hshown : (UInt64.ofNat (execution.claims + 1)).toNat =
      engineRules.shown (execution.claims + 1) := UInt64.toNat_ofNat'
  simp only [claim, record, claimTokenFor, hattempt, hshown, hstatus]
  rfl

theorem stored_record_claim (id : Key) (execution : EngineExecution δ) (worker : Bytes)
    (expiry : Timestamp) :
    (record id (execution.claim engineRules id worker expiry)).stored =
      record id (execution.claim engineRules id worker (engineRules.stored expiry)) := rfl

theorem record_complete (request : CompleteWorkflowStepRequest δ) (id : Key)
    (execution : EngineExecution δ) :
    complete request (record id execution) =
      record id (execution.complete request.nextStep request.state) := by
  rw [complete]
  cases request.nextStep <;> rfl

theorem record_fail (request : FailWorkflowStepRequest) (id : Key) (execution : EngineExecution δ) :
    fail request (record id execution) =
      record id (execution.fail engineRules request.maxAttempts.toNat) := by
  have hshown : (record id execution).attempt.toNat = engineRules.shown execution.claims :=
    UInt64.toNat_ofNat'
  rw [fail, hshown, StepEngine.Execution.fail]
  by_cases hlimit : request.maxAttempts.toNat ≤ engineRules.shown execution.claims
  · rw [if_pos hlimit, if_pos hlimit]
    rfl
  · rw [if_neg hlimit, if_neg hlimit]
    rfl

/-- An execution without a claim is read back as it was put. -/
theorem stored_record (id : Key) {execution : EngineExecution δ} (h : phaseExpiry execution.phase = none) :
    (record id execution).stored = record id execution := by
  have hexpires : (record id execution).claimExpiresAt = none := h
  rw [WorkflowExecutionRecord.stored, hexpires]
  simp only [record, Option.map_none, h]

/-- Who has the claim, said of the record. -/
theorem heldBy_of_record {id : Key} {execution : EngineExecution δ} {worker step token : Bytes}
    (h : HoldsClaim (record id execution) worker step token) : execution.HeldBy worker step token := by
  obtain ⟨hworker, hstep, htoken⟩ := h
  obtain ⟨workflow, step', payload, claims, phase⟩ := execution
  cases phase with
  | claimed worker' token' expiry =>
    obtain rfl := Option.some_inj.mp (show some worker' = some worker from hworker)
    obtain rfl := Option.some_inj.mp (show some token' = some token from htoken)
    exact ⟨hstep, expiry, rfl⟩
  | waiting => cases hworker
  | completed => cases hworker
  | failed => cases hworker
  | canceled => cases hworker

/-- The executions a claim asks for by their identifier: an empty one stands for all. -/
def onlyOf (request : ClaimWorkflowStepRequest) : Option Key :=
  if request.workflowExecutionId = [] then none else some request.workflowExecutionId

/-- What a claim takes was asked for, and is free. -/
theorem free_of_record {request : ClaimWorkflowStepRequest} {id : Key} {execution : EngineExecution δ}
    (hrequested : Requested request (record id execution))
    (hvisible : Visible (record id execution) request.now) :
    (∀ wanted ∈ onlyOf request, id = wanted) ∧
      execution.workflow = (request.workflowName, request.workflowVersion) ∧
      execution.phase.Free request.now := by
  obtain ⟨honly, hname, hversion, hstatus⟩ := hrequested
  refine ⟨?_, Prod.ext hname hversion, ?_⟩
  · intro wanted hwanted
    rw [onlyOf] at hwanted
    split at hwanted
    · cases hwanted
    · obtain rfl := Option.some_inj.mp hwanted
      exact honly.resolve_left ‹_›
  · obtain ⟨workflow, step, payload, claims, phase⟩ := execution
    cases phase with
    | waiting => trivial
    | claimed worker token expiry =>
      rcases hvisible with hnone | ⟨_, ⟨rfl⟩, hexpired⟩
      · cases hnone
      · exact hexpired
    | completed => exact absurd (show completed = running from hstatus) (by decide)
    | failed => exact absurd (show failed = running from hstatus) (by decide)
    | canceled => exact absurd (show canceled = running from hstatus) (by decide)

/-! ## Documents that stand for a state -/

/-- The documents are those of the state. -/
structure Stands (d : Docs δ) (s : EngineState δ) : Prop where
  definitions : Holds WorkflowDefinition.fromJson (fun _ definition => definition) d
    .workflowDefinitions s.1
  executions : Holds WorkflowExecutionRecord.fromJson record d .workflowExecutions s.2.executions
  heartbeats : ∀ place, d .workflowHeartbeats place =
    (s.2.heartbeats place).map fun heartbeat => (heartbeatRecord heartbeat).toJson

/-- An empty store stands for an empty engine. -/
theorem stands_empty :
    Stands (fun _ _ => none : Docs δ) (fun _ => none, StepEngine.State.empty) where
  definitions _ := rfl
  executions _ := rfl
  heartbeats _ := rfl

variable {s : EngineState δ}

/-- Only the three collections matter. -/
theorem Stands.congr (h : Stands d s) (hdefinitions : d' .workflowDefinitions = d .workflowDefinitions)
    (hexecutions : d' .workflowExecutions = d .workflowExecutions)
    (hheartbeats : d' .workflowHeartbeats = d .workflowHeartbeats) : Stands d' s where
  definitions := h.definitions.congr hdefinitions
  executions := h.executions.congr hexecutions
  heartbeats place := (congrFun hheartbeats place).trans (h.heartbeats place)

/-- An execution is put: `after` is what is read back of it. -/
theorem Stands.put (h : Stands d s) (id : Key) {execution after : EngineExecution δ}
    (hstored : (record id execution).stored = record id after) :
    Stands (d.set .workflowExecutions id (some (record id execution).toJson))
      (s.1, s.2.put id after) where
  definitions := h.definitions.other (by decide) _ _
  executions := h.executions.put id (hstored ▸ (record id execution).fromJson_toJson)
  heartbeats place := by
    rw [Documents.set_of_ne (by decide)]
    exact h.heartbeats place

/-- A heartbeat is written. -/
theorem Stands.beat (h : Stands d s)
    (heartbeat : StepEngine.Heartbeat Key Bytes Bytes Bytes Timestamp) :
    Stands (d.set .workflowHeartbeats (heartbeatKey heartbeat.id heartbeat.token)
        (some (heartbeatRecord heartbeat).toJson)) (s.1, s.2.beat engineRules heartbeat) where
  definitions := h.definitions.other (by decide) _ _
  executions := h.executions.other (by decide) _ _
  heartbeats place := by
    show _ = (Function.update s.2.heartbeats (heartbeatKey heartbeat.id heartbeat.token)
      (some heartbeat) place).map _
    by_cases hplace : place = heartbeatKey heartbeat.id heartbeat.token
    · rw [hplace, Documents.set_self, Function.update_self]
      rfl
    · rw [Documents.set_of_key_ne hplace, Function.update_of_ne hplace]
      exact h.heartbeats place

/-- A heartbeat is erased. -/
theorem Stands.quiet (h : Stands d s) (id token : Key) :
    Stands (d.set .workflowHeartbeats (heartbeatKey id token) none)
      (s.1, s.2.quiet engineRules id (some token)) where
  definitions := h.definitions.other (by decide) _ _
  executions := h.executions.other (by decide) _ _
  heartbeats place := by
    show _ = (Function.update s.2.heartbeats (heartbeatKey id token) none place).map _
    by_cases hplace : place = heartbeatKey id token
    · rw [hplace, Documents.set_self, Function.update_self]
      rfl
    · rw [Documents.set_of_key_ne hplace, Function.update_of_ne hplace]
      exact h.heartbeats place

/-- What can be read of an execution. -/
theorem Stands.found (h : Stands d s) {id : Key} {e : WorkflowExecutionRecord δ}
    (he : executionAt d id = some e) :
    ∃ execution, s.2.executions id = some execution ∧ e = record id execution := by
  have hat : executionAt d id = (s.2.executions id).map (record id) := h.executions id
  obtain ⟨execution, hexecution, rfl⟩ := Option.map_eq_some_iff.mp (hat.symm.trans he)
  exact ⟨execution, hexecution, rfl⟩

/-- The worker that has the claim goes on with the execution. -/
theorem Stands.holder (h : Stands d s) {id worker step token : Bytes} {α : Type} {r : α}
    {next : WorkflowExecutionRecord δ → TxProgram δ α}
    (hruns : (do
      let execution ← requireExecution id
      requireClaim execution worker step token
      next execution : TxProgram δ α).Runs d r d') :
    ∃ execution, s.2.executions id = some execution ∧ execution.HeldBy worker step token ∧
      (next (record id execution)).Runs d r d' := by
  obtain ⟨e, he, hholds, hnext⟩ := runs_holder hruns
  obtain ⟨execution, hexecution, rfl⟩ := h.found he
  exact ⟨execution, hexecution, heldBy_of_record hholds, hnext⟩

/-- An execution is put back without its claim, and the heartbeat of the claim is erased. -/
theorem Stands.finish (h : Stands d s) {id : Key} {execution after : EngineExecution δ}
    {r : WorkflowExecutionRecord δ} (hunclaimed : phaseExpiry after.phase = none)
    (hruns : (finish id (record id execution) (record id after)).Runs d r d') :
    r = record id after ∧
      Stands d' (s.1, (s.2.put id after).quiet engineRules id execution.phase.token) := by
  obtain ⟨_, mid, hwrite, hrest⟩ := runs_do.mp hruns
  obtain ⟨_, mid', herase, hlast⟩ := runs_do.mp hrest
  obtain ⟨rfl, rfl⟩ := runs_pure.mp hlast
  rw [runs_write.mp hwrite] at herase
  refine ⟨rfl, ?_⟩
  have hput := h.put id (stored_record id hunclaimed)
  change (eraseHeartbeat id execution.phase.token).Runs _ _ _ at herase
  cases htoken : execution.phase.token with
  | none =>
    rw [htoken] at herase
    rw [(runs_pure.mp herase).2]
    exact hput
  | some token =>
    rw [htoken] at herase
    rw [runs_remove.mp herase]
    exact hput.quiet id token

/-- One round of the claim loop: the execution is claimed, and its heartbeat written. -/
theorem Stands.claim (h : Stands d s) (worker : Bytes) (expiry : Timestamp)
    (p : Key × EngineExecution δ) {u : Unit}
    (hruns : (putHeartbeat (record p.1 (p.2.claim engineRules p.1 worker expiry)) worker expiry).Runs
      (d.set .workflowExecutions p.1
        (some (record p.1 (p.2.claim engineRules p.1 worker expiry)).toJson)) u d') :
    Stands d' (s.1, s.2.claim engineRules worker expiry p) := by
  rw [runs_write.mp hruns]
  exact (h.put p.1 (stored_record_claim p.1 p.2 worker expiry)).beat
    (p.2.heartbeat engineRules p.1 worker expiry)

/-! ## The engine of the store -/

/-- What a call asks of the registry or of the engine. -/
def asked : WorkflowRequest δ → Registry.Request Key (WorkflowDefinition δ) ⊕
    StepEngine.Request Key (Bytes × Int) Bytes Bytes Bytes Timestamp (Json δ)
  | .registerDefinition definition =>
    .inl (.register (definitionKey definition.workflowName definition.workflowVersion) definition)
  | .inspectDefinition name version => .inl (.inspect (definitionKey name version))
  | .start request =>
    .inr (.start request.workflowExecutionId (request.workflowName, request.workflowVersion)
      request.startStep request.state)
  | .claimSteps request =>
    .inr (.claim (onlyOf request) (request.workflowName, request.workflowVersion) request.worker
      request.now (request.now.plus request.leaseDuration) request.maxSteps.toNat)
  | .keepAliveStep request =>
    .inr (.keepAlive request.workflowExecutionId request.worker request.currentStep request.claimToken
      (request.now.plus request.leaseDuration))
  | .completeStep request =>
    .inr (.complete request.workflowExecutionId request.worker request.completedStep request.claimToken
      request.nextStep request.state)
  | .failStep request =>
    .inr (.fail request.workflowExecutionId request.worker request.failedStep request.claimToken
      request.maxAttempts.toNat)
  | .cancel request => .inr (.cancel request.workflowExecutionId)
  | .inspect id => .inr (.inspect id)

/-- How the store shows an answer. -/
def answered : Registry.Answer (WorkflowDefinition δ) ⊕
    StepEngine.Answer Key (Bytes × Int) Bytes Bytes Bytes Timestamp (Json δ) → WorkflowResponse δ
  | .inl (.registered definition created) => .registration { definition, created }
  | .inl (.found definition) => .definition definition
  | .inr (.execution id execution) => .execution (record id execution)
  | .inr (.claimed executions) => .claimed (executions.map fun p => record p.1 p.2)
  | .inr (.inspected execution) => .inspected (execution.map fun p => record p.1 p.2)

/-- The workflow store as an object. -/
def engineObject : Object (EngineState δ) (WorkflowRequest δ) (WorkflowResponse δ) :=
  (Registry.object.beside (StepEngine.object engineRules)).seen asked answered

/-- An execution is started, or the one that is there is shown. -/
theorem Stands.start (h : Stands d s) {request : StartWorkflowRequest δ} {r : WorkflowExecutionRecord δ}
    (hruns : (startTx request).Runs d r d') :
    ∃ s', engineObject s (.start request) (.execution r) s' ∧ Stands d' s' := by
  obtain ⟨existing, mid, hinspect, hrest⟩ := runs_do.mp hruns
  obtain ⟨rfl, rfl⟩ := runs_inspectTx hinspect
  cases hexisting : executionAt mid request.workflowExecutionId with
  | some existing =>
    rw [hexisting] at hrest
    obtain ⟨rfl, rfl⟩ := runs_pure.mp hrest
    obtain ⟨execution, hexecution, rfl⟩ := h.found hexisting
    exact ⟨s, ⟨_, .right (.startAgain hexecution), rfl⟩, h⟩
  | none =>
    rw [hexisting] at hrest
    obtain ⟨_, mid', hwrite, hlast⟩ := runs_do.mp hrest
    obtain ⟨rfl, rfl⟩ := runs_pure.mp hlast
    have hnone := Option.map_eq_none_iff.mp ((h.executions _).symm.trans hexisting)
    have hstored : (record request.workflowExecutionId (begun request)).stored =
      record request.workflowExecutionId (begun request) := rfl
    rw [runs_write.mp hwrite]
    exact ⟨_, ⟨_, .right (.start hnone), rfl⟩, h.put request.workflowExecutionId hstored⟩

/-- A claim is kept alive: its heartbeat is written, and the execution is as it was. -/
theorem Stands.keepAliveStep (h : Stands d s) {request : KeepAliveWorkflowStepRequest}
    {r : WorkflowExecutionRecord δ} (hruns : (keepAliveStepTx request).Runs d r d') :
    ∃ s', engineObject s (.keepAliveStep request) (.execution r) s' ∧ Stands d' s' := by
  obtain ⟨execution, hexecution, ⟨hstep, expiry, hphase⟩, hnext⟩ := h.holder hruns
  obtain ⟨_, mid, hput, hlast⟩ := runs_do.mp hnext
  obtain ⟨rfl, rfl⟩ := runs_pure.mp hlast
  obtain ⟨workflow, step, payload, claims, phase⟩ := execution
  obtain rfl : step = request.currentStep := hstep
  obtain rfl : phase = .claimed request.worker request.claimToken expiry := hphase
  rw [runs_write.mp hput]
  have hbeat := h.beat
    { id := request.workflowExecutionId, token := request.claimToken, worker := request.worker,
      step := request.currentStep, expiry := request.now.plus request.leaseDuration }
  exact ⟨_, ⟨_, .right (.keepAlive hexecution ⟨rfl, expiry, rfl⟩), rfl⟩, hbeat⟩

/-- A claim takes executions that the engine may choose. -/
theorem Stands.claimSteps (h : Stands d s) {request : ClaimWorkflowStepRequest}
    {l : List (WorkflowExecutionRecord δ)} (hruns : (claimStepsTx request).Runs d l d') :
    ∃ s', engineObject s (.claimSteps request) (.claimed l) s' ∧ Stands d' s' := by
  obtain ⟨records, mid, hall, hloop⟩ := runs_do.mp hruns
  obtain ⟨rfl, seen, hnodup, hseen, rfl⟩ := h.executions.scanned hall
  generalize hexpiry : request.now.plus request.leaseDuration = expiry
  -- a round of the loop ends it, skips an execution or claims it
  have hround {d d' : Docs δ} {t} {p : Key × EngineExecution δ} {rest : List (Key × EngineExecution δ)}
      {done l : List (WorkflowExecutionRecord δ)} (hstands : Stands d (s.1, t))
      (hloop : (claimLoop request ((p :: rest).map fun p => record p.1 p.2) done).Runs d l d') :
      (l = done ∧ d' = d) ∨ (claimLoop request (rest.map fun p => record p.1 p.2) done).Runs d l d' ∨
      done.length < request.maxSteps.toNat ∧
        (Requested request (record p.1 p.2) ∧ Visible (record p.1 p.2) request.now) ∧
        ∃ mid, Stands mid (s.1, t.claim engineRules request.worker expiry p) ∧
          (claimLoop request (rest.map fun p => record p.1 p.2)
            (done ++ [record p.1 (p.2.claim engineRules p.1 request.worker expiry)])).Runs mid l d' := by
    refine (runs_claimLoop_cons hloop).imp (fun hover => hover) (Or.imp (fun hskip => hskip) ?_)
    rintro ⟨hroom, hrequested, hvisible, mid, hput, hlast⟩
    rw [record_claim request p.1 hrequested.2.2.2, hexpiry] at hput hlast
    exact ⟨hroom, ⟨hrequested, hvisible⟩, mid, hstands.claim _ _ p hput, hlast⟩
  obtain ⟨taken, hsub, hwanted, rfl, hlimit, hend⟩ := runs_takes
    (fun ps done => claimLoop request (ps.map fun p => record p.1 p.2) done) request.maxSteps.toNat
    (fun p => Requested request (record p.1 p.2) ∧ Visible (record p.1 p.2) request.now)
    (fun p => record p.1 (p.2.claim engineRules p.1 request.worker expiry))
    (StepEngine.State.claim engineRules request.worker expiry) (fun d t => Stands d (s.1, t))
    (fun _ => rfl) hround hloop h (Nat.zero_le _)
  rw [List.length_nil, Nat.zero_add] at hlimit
  subst hexpiry
  refine ⟨_, ⟨_, .right (.claim (hnodup.sublist (hsub.map _)) hlimit ?_), ?_⟩, hend⟩
  · intro p hp
    exact ⟨hseen p (hsub.subset hp), free_of_record (hwanted p hp).1 (hwanted p hp).2⟩
  · show WorkflowResponse.claimed _ = WorkflowResponse.claimed _
    rw [List.map_map]
    rfl

/-- **The store implements the engine**: one case for each request. -/
theorem implements_workflowProgram : Implements (workflowProgram (δ := δ)) engineObject Stands := by
  refine ⟨fun {d d' s request response} h hruns => ?_⟩
  cases request with
  | registerDefinition definition =>
    obtain ⟨r, hr, rfl⟩ := runs_map.mp hruns
    obtain ⟨rfl, rfl, hdefinitions⟩ := Registry.runs_register h.definitions hr rfl (fun _ => rfl)
      definition.fromJson_toJson
    exact ⟨(_, s.2), ⟨_, .left (.register _ _), rfl⟩, hdefinitions, h.executions.other (by decide) _ _,
      fun place => (congrFun (Documents.set_of_ne (by decide)) place).trans (h.heartbeats place)⟩
  | inspectDefinition name version =>
    obtain ⟨r, hr, rfl⟩ := runs_map.mp hruns
    obtain ⟨rfl, rfl⟩ := Registry.runs_inspect h.definitions hr rfl fun _ => rfl
    exact ⟨s, ⟨_, .left (.inspect _), rfl⟩, h⟩
  | start request =>
    obtain ⟨r, hr, rfl⟩ := runs_map.mp hruns
    exact h.start hr
  | claimSteps request =>
    obtain ⟨l, hl, rfl⟩ := runs_map.mp hruns
    exact h.claimSteps hl
  | keepAliveStep request =>
    obtain ⟨r, hr, rfl⟩ := runs_map.mp hruns
    exact h.keepAliveStep hr
  | completeStep request =>
    obtain ⟨r, hr, rfl⟩ := runs_map.mp hruns
    obtain ⟨execution, hexecution, hheld, hnext⟩ := h.holder hr
    rw [record_complete] at hnext
    obtain ⟨rfl, hstands⟩ := h.finish (by cases request.nextStep <;> rfl) hnext
    obtain ⟨expiry, hphase⟩ := hheld.2
    rw [hphase] at hstands
    exact ⟨_, ⟨_, .right (.complete hexecution hheld), rfl⟩, hstands⟩
  | failStep request =>
    obtain ⟨r, hr, rfl⟩ := runs_map.mp hruns
    obtain ⟨execution, hexecution, hheld, hnext⟩ := h.holder hr
    rw [record_fail] at hnext
    have hunclaimed : phaseExpiry (execution.fail engineRules request.maxAttempts.toNat).phase = none := by
      show phaseExpiry (if _ then _ else _) = none
      split <;> rfl
    obtain ⟨rfl, hstands⟩ := h.finish hunclaimed hnext
    obtain ⟨expiry, hphase⟩ := hheld.2
    rw [hphase] at hstands
    exact ⟨_, ⟨_, .right (.fail hexecution hheld), rfl⟩, hstands⟩
  | cancel request =>
    obtain ⟨r, hr, rfl⟩ := runs_map.mp hruns
    obtain ⟨e, he, hfinish⟩ := runs_cancelTx hr
    obtain ⟨execution, hexecution, rfl⟩ := h.found he
    have hcancel : (record request.workflowExecutionId execution).canceled =
        record request.workflowExecutionId execution.cancel := rfl
    rw [hcancel] at hfinish
    obtain ⟨rfl, hstands⟩ := h.finish rfl hfinish
    exact ⟨_, ⟨_, .right (.cancel hexecution), rfl⟩, hstands⟩
  | inspect id =>
    obtain ⟨r, hr, rfl⟩ := runs_map.mp hruns
    obtain ⟨rfl, rfl⟩ := runs_inspectTx hr
    refine ⟨s, ⟨_, .right .inspect, ?_⟩, h⟩
    have hat : executionAt d' id = (s.2.executions id).map (record id) := h.executions id
    show WorkflowResponse.inspected _ = WorkflowResponse.inspected _
    rw [hat, Option.map_map]
    rfl

/-! ## Runs of the store -/

variable [Decimal δ]

/-- **The workflow store is a step engine**: whatever calls interleave on the C++ backend, the committed
    ones are served by the engine one after another, each with the answer it was given, and the
    documents they leave are those of the state the engine is in. -/
theorem workflow_refines (es : List (SessionEvent (WorkflowRequest δ) Unit)) :
    ∃ s : EngineState δ, engineObject.Serves (fun _ => none, StepEngine.State.empty) (workflowLog es) s ∧
      Stands (workflowDocs es) s := by
  have hhistory : History workflowProgram (fun _ _ _ => True) (fun _ _ => none) (workflowLog es)
      (workflowDocs es) :=
    history_workflowStore (runMeets_of_forall _ (fun _ _ _ _ _ _ => trivial) _ es)
  exact implements_workflowProgram.serves hhistory stands_empty

end StateSpec.Runtime.Engine
