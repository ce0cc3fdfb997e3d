/-
  STEP TRANSACTIONS — `WorkflowRunner::run_once`, call by call.

  The programs of the workflow store make calls on a transaction that belongs to somebody else: the
  handler of a step may use it too, for any collection.  `scriptOf` is a program as such code; what it
  performs in the middle of a transaction is one rule for each operation of the store
  (`performs_keepAliveStepTx`, `performs_endTx`, ...).

  `StepPerformed` is the transaction of a step: the claim is checked again, the handler makes its calls,
  and the step is ended on the same transaction.  An exception of the handler is a failure of the step
  (`resultOf`), also when it comes out of a call on the transaction.
-/
import StateSpec.Cpp.Transcripts
import StateSpec.Runtime.WorkflowRunner

set_option linter.unusedSectionVars false

namespace StateSpec.Runtime

open Cpp Memory Memory.InMemoryTransaction Interleaving

variable {δ α β : Type}

/-! ## Programs of the store on a transaction -/

/-- The calls of a program. -/
def scriptOf : TxProgram δ α → Script δ α
  | .ret a => .ret a
  | .throw e => .throw e
  | .get c k next => .get c.name k fun record => scriptOf (next (record.map VersionedRecord.document))
  | .all c next =>
    .query c.name .all fun records =>
      scriptOf (next (records.map fun record => (record.key, record.document)))
  | .put c k document next => .put c.name k document (scriptOf next)
  | .erase c k next => .erase c.name k (scriptOf next)

theorem scriptOf_do (p : TxProgram δ α) (f : α → TxProgram δ β) :
    scriptOf (p >>= f) = scriptOf p >>= fun a => scriptOf (f a) := by
  show scriptOf (p.bind f) = (scriptOf p).bind fun a => scriptOf (f a)
  induction p with
  | ret a => rfl
  | throw e => rfl
  | get c k next ih =>
    simp only [Program.bind, scriptOf, Script.bind]
    exact congrArg _ (funext fun record => ih _)
  | all c next ih =>
    simp only [Program.bind, scriptOf, Script.bind]
    exact congrArg _ (funext fun records => ih _)
  | put c k document next ih =>
    simp only [Program.bind, scriptOf, Script.bind, ih]
  | erase c k next ih =>
    simp only [Program.bind, scriptOf, Script.bind, ih]

/-- The program makes these calls, and returns. -/
abbrev Performs (p : TxProgram δ α) (calls : Transcript δ) (a : α) : Prop :=
  (scriptOf p).Performs calls (.ok a)

variable {calls : Transcript δ} {a b : α}

theorem performs_do {p : TxProgram δ β} {f : β → TxProgram δ α} :
    Performs (p >>= f) calls a ↔
      ∃ b first rest, calls = first ++ rest ∧ Performs p first b ∧ Performs (f b) rest a := by
  rw [Performs, scriptOf_do]
  exact Script.performs_do

theorem performs_pure : Performs (pure b : TxProgram δ α) calls a ↔ calls = [] ∧ a = b :=
  Script.performs_ret

theorem performs_ofExcept {x : Except Error α} :
    Performs (.ofExcept x : TxProgram δ α) calls a ↔ calls = [] ∧ x = .ok a := by
  have hscript : scriptOf (.ofExcept x : TxProgram δ α) = Script.ofExcept x := by cases x <;> rfl
  rw [Performs, hscript]
  exact Script.performs_ofExcept

theorem performs_throw {e : Error} : ¬ Performs (.throw e : TxProgram δ α) calls a :=
  Script.performs_throw

theorem performs_write {c : RuntimeCollection} {k : Key} {document : Json δ} {u : Unit} :
    Performs (.write c k document) calls u ↔ calls = [(.put c.name k document, .ok .done)] := by
  constructor
  · intro h
    obtain ⟨rest, rfl, hrest⟩ := Script.performs_put.mp h
    obtain ⟨rfl, -⟩ := Script.performs_ret.mp hrest
    rfl
  · rintro rfl
    exact .put (.ret u)

theorem performs_remove {c : RuntimeCollection} {k : Key} {u : Unit} :
    Performs (.remove c k : TxProgram δ Unit) calls u ↔ calls = [(.erase c.name k, .ok .done)] := by
  constructor
  · intro h
    obtain ⟨rest, rfl, hrest⟩ := Script.performs_erase.mp h
    obtain ⟨rfl, -⟩ := Script.performs_ret.mp hrest
    rfl
  · rintro rfl
    exact .erase (.ret u)

/-! ## Places -/

/-- The place of an execution. -/
def executionPlace (workflowExecutionId : Bytes) : CollectionName × Key :=
  (RuntimeCollection.workflowExecutions.name, workflowExecutionId)

/-- The place of the heartbeat of a claim. -/
def heartbeatPlace (workflowExecutionId claimToken : Bytes) : CollectionName × Key :=
  (RuntimeCollection.workflowHeartbeats.name, heartbeatKey workflowExecutionId claimToken)

/-- The execution in a record. -/
def executionIn (record : VersionedRecord δ) : Option (WorkflowExecutionRecord δ) :=
  (WorkflowExecutionRecord.fromJson record.document).toOption

/-- `tx.get` of an execution, with its answer. -/
def executionRead (workflowExecutionId : Bytes) (record : Option (VersionedRecord δ)) :
    Operation δ (Query δ) × Except Error (Answer δ) :=
  (.get (executionPlace workflowExecutionId).1 (executionPlace workflowExecutionId).2,
    .ok (.record record))

/-- `tx.put` of an execution. -/
def executionPut (execution : WorkflowExecutionRecord δ) :
    Operation δ (Query δ) × Except Error (Answer δ) :=
  (.put (executionPlace execution.workflowExecutionId).1
    (executionPlace execution.workflowExecutionId).2 execution.toJson, .ok .done)

/-- `put_heartbeat`. -/
def heartbeatPut (execution : WorkflowExecutionRecord δ) (worker : Bytes) (expiry : Timestamp) :
    Operation δ (Query δ) × Except Error (Answer δ) :=
  let place := heartbeatPlace execution.workflowExecutionId (execution.claimToken.getD [])
  (.put place.1 place.2 (WorkflowHeartbeatRecord.toJson
    { workflowExecutionId := execution.workflowExecutionId
      claimToken := execution.claimToken.getD []
      worker
      currentStep := execution.currentStep
      claimExpiresAt := expiry }), .ok .done)

/-- `erase_heartbeat`. -/
def heartbeatErase (workflowExecutionId : Bytes) : Option Bytes → Transcript δ
  | some token =>
    [(.erase (heartbeatPlace workflowExecutionId token).1 (heartbeatPlace workflowExecutionId token).2,
      .ok .done)]
  | none => []

/-! ## What the operations of the store perform -/

section

variable {id : Bytes} {execution r : WorkflowExecutionRecord δ}

theorem performs_inspectTx {found : Option (WorkflowExecutionRecord δ)}
    (h : Performs (inspectTx id) calls found) :
    ∃ record, calls = [executionRead id record] ∧ found = record.bind executionIn := by
  obtain ⟨document, first, rest, rfl, hread, hrest⟩ := performs_do.mp h
  obtain ⟨record, last, rfl, hlast⟩ := Script.performs_get.mp hread
  obtain ⟨rfl, rfl⟩ := Script.performs_ret.mp hlast
  refine ⟨record, ?_⟩
  cases record with
  | none =>
    obtain ⟨rfl, rfl⟩ := performs_pure.mp hrest
    exact ⟨rfl, rfl⟩
  | some record =>
    simp only [Option.map_some] at hrest
    cases hdecoded : WorkflowExecutionRecord.fromJson record.document with
    | error e =>
      rw [hdecoded] at hrest
      exact absurd hrest performs_throw
    | ok execution =>
      rw [hdecoded] at hrest
      obtain ⟨rfl, rfl⟩ := performs_pure.mp hrest
      refine ⟨rfl, ?_⟩
      rw [Option.bind_some, executionIn, hdecoded]
      rfl

theorem performs_requireExecution (h : Performs (requireExecution id) calls execution) :
    ∃ record, calls = [executionRead id (some record)] ∧ executionIn record = some execution := by
  obtain ⟨found, first, rest, rfl, hinspect, hrest⟩ := performs_do.mp h
  obtain ⟨record, rfl, rfl⟩ := performs_inspectTx hinspect
  cases record with
  | none => exact absurd hrest performs_throw
  | some record =>
    rw [Option.bind_some] at hrest
    cases hin : executionIn record with
    | none =>
      rw [hin] at hrest
      exact absurd hrest performs_throw
    | some found =>
      rw [hin] at hrest
      obtain ⟨rfl, rfl⟩ := performs_pure.mp hrest
      exact ⟨record, rfl, hin⟩

theorem performs_requireClaim {worker step claimToken : Bytes} {u : Unit}
    (h : Performs (requireClaim execution worker step claimToken) calls u) :
    calls = [] ∧ HoldsClaim execution worker step claimToken := by
  rw [requireClaim] at h
  split at h
  · exact ⟨(performs_pure.mp h).1, by assumption⟩
  · exact absurd h performs_throw

/-- What the holder of a claim does goes on with the execution that has been read. -/
theorem performs_holder {worker step claimToken : Bytes}
    {next : WorkflowExecutionRecord δ → TxProgram δ α}
    (h : Performs (do
      let execution ← requireExecution id
      requireClaim execution worker step claimToken
      next execution) calls a) :
    ∃ record execution rest, calls = executionRead id (some record) :: rest ∧
      executionIn record = some execution ∧ HoldsClaim execution worker step claimToken ∧
      Performs (next execution) rest a := by
  obtain ⟨execution, first, rest, rfl, hrequire, hrest⟩ := performs_do.mp h
  obtain ⟨record, rfl, hin⟩ := performs_requireExecution hrequire
  obtain ⟨_, first', rest', rfl, hclaim, hlast⟩ := performs_do.mp hrest
  obtain ⟨rfl, hholds⟩ := performs_requireClaim hclaim
  exact ⟨record, execution, rest', rfl, hin, hholds, hlast⟩

/-- **Keeping alive** reads the execution, and writes the heartbeat of its claim. -/
theorem performs_keepAliveStepTx {request : KeepAliveWorkflowStepRequest}
    (h : Performs (keepAliveStepTx request) calls r) :
    ∃ record execution, executionIn record = some execution ∧
      HoldsClaim execution request.worker request.currentStep request.claimToken ∧
      calls = [executionRead request.workflowExecutionId (some record),
        heartbeatPut execution request.worker (request.now.plus request.leaseDuration)] := by
  obtain ⟨record, execution, rest, rfl, hin, hholds, hrest⟩ := performs_holder h
  obtain ⟨_, first, last, rfl, hput, hlast⟩ := performs_do.mp hrest
  obtain rfl := performs_write.mp hput
  obtain ⟨rfl, -⟩ := performs_pure.mp hlast
  exact ⟨record, execution, hin, hholds, rfl⟩

theorem performs_finish {finished : WorkflowExecutionRecord δ}
    (h : Performs (finish id execution finished) calls r) :
    calls = executionPut finished :: heartbeatErase id execution.claimToken ∧ r = finished := by
  obtain ⟨_, first, rest, rfl, hwrite, hrest⟩ := performs_do.mp h
  obtain rfl := performs_write.mp hwrite
  obtain ⟨_, first', rest', rfl, herase, hlast⟩ := performs_do.mp hrest
  obtain ⟨rfl, rfl⟩ := performs_pure.mp hlast
  refine ⟨?_, rfl⟩
  rw [List.append_nil, List.cons_append, List.nil_append]
  cases htoken : execution.claimToken with
  | none =>
    rw [htoken] at herase
    obtain ⟨rfl, -⟩ := performs_pure.mp herase
    rfl
  | some token =>
    rw [htoken] at herase
    obtain rfl := performs_remove.mp herase
    rfl

/-- What `claim_stepsTx` writes for an execution it claims. -/
def claimPuts (request : ClaimWorkflowStepRequest) (execution : WorkflowExecutionRecord δ) :
    Transcript δ :=
  [executionPut execution,
    heartbeatPut execution request.worker (request.now.plus request.leaseDuration)]

theorem performs_claimLoop {request : ClaimWorkflowStepRequest}
    {executions claimed result : List (WorkflowExecutionRecord δ)}
    (hroom : claimed.length ≤ request.maxSteps.toNat)
    (h : Performs (claimLoop request executions claimed) calls result) :
    ∃ new, result = claimed ++ new ∧ calls = new.flatMap (claimPuts request) ∧
      result.length ≤ request.maxSteps.toNat ∧
      ∀ execution ∈ new, ∃ found, execution = claim request found := by
  induction executions generalizing claimed calls with
  | nil =>
    obtain ⟨rfl, rfl⟩ := performs_pure.mp h
    exact ⟨[], by simp, rfl, hroom, nofun⟩
  | cons execution executions ih =>
    rw [claimLoop] at h
    split at h
    · obtain ⟨rfl, rfl⟩ := performs_pure.mp h
      exact ⟨[], by simp, rfl, hroom, nofun⟩
    rename_i hmore
    split at h
    · exact ih hroom h
    split at h
    · exact ih hroom h
    obtain ⟨_, first, rest, rfl, hwrite, hrest⟩ := performs_do.mp h
    obtain rfl := performs_write.mp hwrite
    obtain ⟨_, first', rest', rfl, hput, hlast⟩ := performs_do.mp hrest
    obtain rfl := performs_write.mp hput
    have hroom' : (claimed ++ [claim request execution]).length ≤ request.maxSteps.toNat := by
      rw [List.length_append, List.length_singleton]
      omega
    obtain ⟨new, rfl, rfl, hlength, hnew⟩ := ih hroom' hlast
    refine ⟨claim request execution :: new, by simp, rfl, hlength, ?_⟩
    intro other hmem
    rcases List.mem_cons.mp hmem with rfl | hold
    · exact ⟨execution, rfl⟩
    · exact hnew other hold

/-- **Claiming** lists the executions, and writes each execution it claims and its heartbeat. -/
theorem performs_claimStepsTx {request : ClaimWorkflowStepRequest}
    {result : List (WorkflowExecutionRecord δ)}
    (h : Performs (claimStepsTx request) calls result) :
    ∃ records, calls =
        (.query RuntimeCollection.workflowExecutions.name .all, .ok (.records records)) ::
        result.flatMap (claimPuts request) ∧ result.length ≤ request.maxSteps.toNat ∧
      ∀ execution ∈ result, ∃ found, execution = claim request found := by
  obtain ⟨executions, first, rest, rfl, hlist, hloop⟩ := performs_do.mp h
  obtain ⟨records, first', rest', rfl, hscan, hdecode⟩ := performs_do.mp hlist
  obtain ⟨new, rfl, rfl, hlength, hnew⟩ := performs_claimLoop (Nat.zero_le _) hloop
  cases hscan with
  | @query _ _ _ found last _ hlast =>
    obtain ⟨rfl, -⟩ := Script.performs_ret.mp hlast
    obtain ⟨rfl, -⟩ := performs_ofExcept.mp hdecode
    exact ⟨found, rfl, hlength, hnew⟩

/-! ## The end of a step -/

/-- The call on the store that ends a step, on the transaction of the step. -/
def WorkflowRunner.endTx (runner : WorkflowRunner) (current : WorkflowExecutionRecord δ)
    (result : WorkflowStepResult) (now : Timestamp) : TxProgram δ (WorkflowExecutionRecord δ) :=
  match result.kind with
  | .fail => failStepTx (runner.failRequest current result now)
  | .cancel =>
    cancelTx { workflowExecutionId := current.workflowExecutionId, reason := result.reason }
  | .complete => completeStepTx (runner.completeRequest current result)

/-- **The end of a step** reads the execution, puts it back without its claim, and erases the heartbeat
    of the claim it had. -/
theorem performs_endTx {runner : WorkflowRunner} {current : WorkflowExecutionRecord δ}
    {result : WorkflowStepResult} {now : Timestamp}
    (h : Performs (runner.endTx current result now) calls r) :
    ∃ record found, executionIn record = some found ∧
      calls = executionRead current.workflowExecutionId (some record) :: executionPut r ::
        heartbeatErase current.workflowExecutionId found.claimToken ∧
      r.workflowExecutionId = found.workflowExecutionId ∧ r.claimedBy = none ∧
      (result.kind ≠ .cancel →
        HoldsClaim found runner.workerName current.currentStep (current.claimToken.getD [])) := by
  rw [WorkflowRunner.endTx] at h
  cases hkind : result.kind with
  | fail =>
    rw [hkind] at h
    obtain ⟨record, found, rest, rfl, hin, hholds, hrest⟩ := performs_holder h
    obtain ⟨rfl, rfl⟩ := performs_finish hrest
    exact ⟨record, found, hin, rfl, rfl, rfl, fun _ => hholds⟩
  | cancel =>
    rw [hkind] at h
    obtain ⟨found, first, rest, rfl, hrequire, hrest⟩ := performs_do.mp h
    obtain ⟨record, rfl, hin⟩ := performs_requireExecution hrequire
    obtain ⟨rfl, rfl⟩ := performs_finish hrest
    exact ⟨record, found, hin, rfl, rfl, rfl, fun hne => absurd rfl hne⟩
  | complete =>
    rw [hkind] at h
    obtain ⟨record, found, rest, rfl, hin, hholds, hrest⟩ := performs_holder h
    obtain ⟨rfl, rfl⟩ := performs_finish hrest
    refine ⟨record, found, hin, rfl, ?_, ?_, fun _ => hholds⟩
    · rw [complete]
      split <;> rfl
    · rw [complete]
      split <;> rfl

/-- **The claim is checked again**: the execution is read, and has the claim that was taken. -/
theorem performs_revalidateClaimedStep {runner : WorkflowRunner}
    {claimed current : WorkflowExecutionRecord δ} {now : Timestamp}
    (h : Performs (runner.revalidateClaimedStep claimed now) calls current) :
    ∃ record, calls = [executionRead claimed.workflowExecutionId (some record)] ∧
      executionIn record = some current ∧
      HoldsClaim current runner.workerName claimed.currentStep (claimed.claimToken.getD []) := by
  obtain ⟨found, first, rest, rfl, hinspect, hrest⟩ := performs_do.mp h
  obtain ⟨record, rfl, rfl⟩ := performs_inspectTx hinspect
  cases record with
  | none => exact absurd hrest performs_throw
  | some record =>
    rw [Option.bind_some] at hrest
    cases hin : executionIn record with
    | none =>
      rw [hin] at hrest
      exact absurd hrest performs_throw
    | some execution =>
      rw [hin] at hrest
      simp only at hrest
      -- each check throws, and otherwise the execution is returned
      split at hrest
      · exact absurd hrest performs_throw
      rename_i hsame
      split at hrest
      · exact absurd hrest performs_throw
      rename_i hworker
      split at hrest
      · exact absurd hrest performs_throw
      rename_i htoken
      split at hrest
      · exact absurd hrest performs_throw
      split at hrest
      · exact absurd hrest performs_throw
      · obtain ⟨rfl, rfl⟩ := performs_pure.mp hrest
        push Not at hsame hworker htoken
        obtain ⟨token, hsome⟩ := Option.ne_none_iff_exists'.mp htoken.1
        refine ⟨record, rfl, hin, hworker, hsame.2.2, ?_⟩
        rw [← htoken.2, hsome]
        rfl

end

/-! ## The transaction of a step -/

abbrev StepHandler (δ : Type) := WorkflowStepHandlerContext δ → Script δ WorkflowStepResult

/-- What the transaction of a step is given: the step that was claimed, the handlers by the key of
    their step, and the times at which the clock is read. -/
structure StepTx (δ : Type) where
  claimed : WorkflowExecutionRecord δ
  invokers : Bytes → Option (StepHandler δ)
  revalidatedAt : Timestamp
  endedAt : Timestamp

/-- The context a handler gets. -/
def handlerContext (current : WorkflowExecutionRecord δ) : WorkflowStepHandlerContext δ where
  workflowName := current.workflowName
  workflowVersion := Int32.ofInt current.workflowVersion
  stepName := current.currentStep
  executionId := some current.workflowExecutionId
  input := current.state

/-- The calls of the handler of the step, and how it ends. -/
def Invoked (invokers : Bytes → Option (StepHandler δ)) (current : WorkflowExecutionRecord δ)
    (calls : Transcript δ) (outcome : Except Error WorkflowStepResult) : Prop :=
  let key := workflowStepKey current.workflowName current.workflowVersion current.currentStep
  match invokers key with
  | none =>
    calls = [] ∧ outcome =
      .ok { kind := .fail, reason := ascii "unknown generated workflow step handler: " ++ key }
  | some handler => (handler (handlerContext current)).Performs calls outcome

/-- `catch (const std::exception& ex)`: an exception of the handler fails the step. -/
def resultOf : Except Error WorkflowStepResult → WorkflowStepResult
  | .ok result => result
  | .error e => { kind := .fail, reason := what e }

/-- The calls of a step on its transaction. -/
structure StepCalls (δ : Type) where
  revalidation : Transcript δ
  handler : Transcript δ
  ending : Transcript δ

def StepCalls.transcript (calls : StepCalls δ) : Transcript δ :=
  calls.revalidation ++ calls.handler ++ calls.ending

/-- **The transaction of a step**, up to its commit. -/
structure StepPerformed (runner : WorkflowRunner) (step : StepTx δ) (calls : StepCalls δ)
    (current : WorkflowExecutionRecord δ) (outcome : Except Error WorkflowStepResult)
    (ended : WorkflowExecutionRecord δ) : Prop where
  revalidated : Performs (runner.revalidateClaimedStep step.claimed step.revalidatedAt)
    calls.revalidation current
  invoked : Invoked step.invokers current calls.handler outcome
  ends : Performs (runner.endTx current (resultOf outcome) step.endedAt) calls.ending ended

variable [Decimal δ]

/-! ## At the commit -/

theorem executionPlace_ne_heartbeatPlace (id id' token : Bytes) :
    executionPlace id ≠ heartbeatPlace id' token := by
  intro h
  have hname : RuntimeCollection.workflowExecutions.name = RuntimeCollection.workflowHeartbeats.name :=
    congrArg Prod.fst h
  exact absurd (RuntimeCollection.name_injective hname) (by decide)

theorem colon_executionPlace (id : Bytes) : colon ∉ (executionPlace id).1 :=
  RuntimeCollection.colon_not_mem_name .workflowExecutions

theorem colon_heartbeatPlace (id token : Bytes) : colon ∉ (heartbeatPlace id token).1 :=
  RuntimeCollection.colon_not_mem_name .workflowHeartbeats

/-- What is read of an execution that was put. -/
theorem executionIn_of_document {record : VersionedRecord δ} {execution : WorkflowExecutionRecord δ}
    (h : record.document = execution.toJson) : executionIn record = some execution.stored := by
  rw [executionIn, h, WorkflowExecutionRecord.fromJson_toJson]
  rfl

section

variable {s : State δ} {t : Tx δ} {calls : Transcript δ} {r : WorkflowExecutionRecord δ}

/-- **A keep-alive at its commit**: the execution is there, and has the claim. -/
theorem keepAlive_at_commit {request : KeepAliveWorkflowStepRequest}
    (hreplay : storeDiscipline.Replay s () calls t)
    (h : Performs (keepAliveStepTx request) calls r) :
    ∃ record execution, s.recordAt (executionPlace request.workflowExecutionId).1
        (executionPlace request.workflowExecutionId).2 = some record ∧
      executionIn record = some execution ∧
      HoldsClaim execution request.worker request.currentStep request.claimToken ∧
      calls = [executionRead request.workflowExecutionId (some record),
        heartbeatPut execution request.worker (request.now.plus request.leaseDuration)] := by
  obtain ⟨record, execution, hin, hholds, rfl⟩ := performs_keepAliveStepTx h
  have hat := @read_at_commit δ _ s t [] _ _ _ _ hreplay fun _ hmem => absurd hmem List.not_mem_nil
  exact ⟨record, execution, hat, hin, hholds, rfl⟩

end

/-! ## The claim of a step -/

variable {runner : WorkflowRunner} {s : State δ}

/-- **A step has been claimed** by the runner. -/
structure ClaimedStep (runner : WorkflowRunner) (s : State δ) where
  workflowExecutionId : Bytes
  workflowName : Bytes
  workflowVersion : Int
  now : Timestamp
  record : WorkflowExecutionRecord δ
  others : List (WorkflowExecutionRecord δ)
  claimedState : State δ
  claim : (scriptOf (claimStepsTx (runner.claimRequest workflowExecutionId workflowName
    workflowVersion now))).transact s = .ok (record :: others, claimedState)

namespace ClaimedStep

/-- A transaction that has kept the claim alive. -/
def KeepsAlive (step : ClaimedStep runner s) (slot : TxSlot δ (Query δ)) : Prop :=
  ∃ now kept, Performs (keepAliveStepTx (runner.keepAliveRequest step.record now)) slot.script kept

/-- The place of the claimed execution. -/
def execution (step : ClaimedStep runner s) : CollectionName × Key :=
  executionPlace step.record.workflowExecutionId

/-- The place of the heartbeat of the claim. -/
def heartbeat (step : ClaimedStep runner s) : CollectionName × Key :=
  heartbeatPlace step.record.workflowExecutionId (step.record.claimToken.getD [])

theorem heartbeat_ne_execution (step : ClaimedStep runner s) : step.execution ≠ step.heartbeat :=
  executionPlace_ne_heartbeatPlace _ _ _

/-- **What the claim leaves.** -/
theorem claimed (step : ClaimedStep runner s) :
    (∃ record, step.claimedState.recordAt step.execution.1 step.execution.2 = some record ∧
      executionIn record = some step.record.stored) ∧
    ∀ c k, step.claimedState.recordAt c k ≠ s.recordAt c k →
      (c, k) = step.execution ∨ (c, k) = step.heartbeat := by
  obtain ⟨t, heval, r, hcommit, hstate⟩ := of_transact step.claim
  obtain ⟨calls, hperforms, hstaged⟩ := Script.performs_of_eval (by rfl) heval
  obtain ⟨records, rfl, hlength, -⟩ := performs_claimStepsTx hperforms
  -- one step is claimed
  have hone : step.others = [] := by
    have hmax : (runner.claimRequest step.workflowExecutionId step.workflowName
        step.workflowVersion step.now).maxSteps.toNat = 1 := rfl
    rw [hmax, List.length_cons] at hlength
    exact List.eq_nil_of_length_eq_zero (by omega)
  rw [hone, List.flatMap_cons, List.flatMap_nil, List.append_nil, claimPuts] at hstaged
  have hbegin : ∀ vk, stagedAt (begin : Tx δ) vk = none := fun vk => by simp [stagedAt, begin]
  simp only [hbegin, Option.or_none] at hstaged
  rw [← hstate]
  constructor
  · -- the execution is put, and then its heartbeat, which is elsewhere
    have hput : stagedAt t (recordVersionKey step.execution.1 step.execution.2) =
        some (some (stagedRecord step.execution.1 step.execution.2 step.record.toJson)) := by
      rw [hstaged]
      simp only [lastWritten, heartbeatPut, executionPut, written, execution]
      rfl
    have hdocument := recordAt_commit_of_staged hcommit
      (RuntimeCollection.colon_not_mem_name .workflowExecutions) hput
      fun found heq => Option.some_inj.mp heq ▸ ⟨rfl, rfl⟩
    obtain ⟨record, hrecord, hjson⟩ := Option.map_eq_some_iff.mp hdocument
    exact ⟨record, hrecord, executionIn_of_document hjson⟩
  · intro c k hchanged
    obtain ⟨call, hcall, c', k', hwrites, -, hplace⟩ := written_of_changed hcommit hstaged hchanged
    simp only [List.mem_cons, List.not_mem_nil, or_false] at hcall
    rcases hcall with rfl | rfl | rfl
    · exact hwrites.elim
    · obtain ⟨rfl, rfl⟩ := hwrites
      obtain ⟨rfl, rfl⟩ := hplace (colon_executionPlace _)
      exact Or.inl rfl
    · obtain ⟨rfl, rfl⟩ := hwrites
      obtain ⟨rfl, rfl⟩ := hplace (colon_heartbeatPlace _ _)
      exact Or.inr rfl

end ClaimedStep

end StateSpec.Runtime
