/-
  THE WORKFLOW RUNNER — `worker/workflow_runner.hpp.tmpl`, and `WorkerRuntime::run_once` as it is
  generated for a system with workflows.

  A run of a worker is a sequence of transactions: it claims one step (`claimTx`), keeps the claim alive
  in the background (`keepAliveOnceTx`), and carries the step out in a transaction of its own
  (`runStepTx`): the claim is checked again, the handler is invoked, and the step completes, fails or
  cancels the execution as the handler says.  Each is a request of its own here, so that runs of any
  number of workers interleave with each other and with the clients of the store.

  Which workflow a worker claims steps of is declared; the version, the lease and the number of
  attempts are constants of the generated code (`WorkerContext.runner`, `generatedVersion`).

  A handler is the application's.  It runs in the transaction of its step and may use any collection;
  what it does to the executions is to start some (`StartsOnly`).

  `change_of_worker` reads a transaction of a worker as one call on the store, possibly after its handler
  has started the execution.
-/
import StateSpec.Runtime.Executions

namespace StateSpec.Runtime

open Program Interleaving Memory

variable {δ : Type}

/-! ## `workflow_step_types.hpp.tmpl` -/

/-- `workflow_step_key`. -/
def workflowStepKey (workflowName : Bytes) (workflowVersion : Int) (stepName : Bytes) : Bytes :=
  workflowName ++ colon :: (Bytes.decimalInt workflowVersion ++ colon :: stepName)

structure WorkflowStepHandlerContext (δ : Type) where
  workflowName : Bytes
  workflowVersion : Int32
  stepName : Bytes
  executionId : Option Bytes
  input : Json δ

inductive WorkflowStepResultKind where
  | complete | fail | cancel
deriving DecidableEq

structure WorkflowStepResult where
  kind : WorkflowStepResultKind := .complete
  nextStep : Option Bytes := none
  reason : Bytes := []

/-- `ex.what()`; the texts of the library's own exceptions are those of libstdc++. -/
def what : Error → Bytes
  | .backendError message => message
  | .conflictError _ message => message
  | .outOfRange => ascii "map::at"
  | .badVariantAccess => ascii "std::get: wrong index for variant"

/-- `catch (const std::exception& ex)` around the rest of a program: what it has done stays. -/
def caught {α : Type} (handle : Error → α) : TxProgram δ α → TxProgram δ α
  | .ret a => .ret a
  | .throw e => .ret (handle e)
  | .get c k next => .get c k fun r => caught handle (next r)
  | .all c next => .all c fun l => caught handle (next l)
  | .put c k document next => .put c k document (caught handle next)
  | .erase c k next => .erase c k (caught handle next)

/-- The program leaves every execution as it is, or starts it. -/
def StartsOnly {α : Type} (p : TxProgram δ α) : Prop :=
  ∀ d a d', p.Runs d a d' → ∀ k, executionAt d' k = executionAt d k ∨
    executionAt d k = none ∧ ∃ request : StartWorkflowRequest δ,
      request.workflowExecutionId = k ∧ executionAt d' k = some (started request).stored

/-- A handler, with the exceptions it throws caught. -/
def invoked (handler : WorkflowStepHandlerContext δ → TxProgram δ WorkflowStepResult)
    (context : WorkflowStepHandlerContext δ) : TxProgram δ WorkflowStepResult :=
  caught (fun e => { kind := .fail, reason := what e }) (handler context)

/-- `WorkflowStepInvokerMap`. -/
structure WorkflowStepInvokerMap (δ : Type) where
  find : Bytes → Option (WorkflowStepHandlerContext δ → TxProgram δ WorkflowStepResult)
  startsOnly : ∀ key handler, find key = some handler → ∀ context, StartsOnly (invoked handler context)

/-! ## `WorkflowRunner` -/

structure WorkflowRunner where
  workerName : Bytes
  leaseDuration : Seconds
  maxAttempts : UInt32

/-- A `std::runtime_error` of the runner; nothing here tells it from its subclass. -/
def runnerError (message : Bytes) : Error := .backendError message

/-- The claim of `run_once`. -/
def WorkflowRunner.claimRequest (runner : WorkflowRunner) (workflowExecutionId workflowName : Bytes)
    (workflowVersion : Int) (now : Timestamp) : ClaimWorkflowStepRequest where
  workflowExecutionId := workflowExecutionId
  workflowName := workflowName
  workflowVersion := workflowVersion
  worker := runner.workerName
  now := now
  leaseDuration := runner.leaseDuration
  maxSteps := 1

/-- `keep_alive_once`. -/
def WorkflowRunner.keepAliveRequest (runner : WorkflowRunner) (record : WorkflowExecutionRecord δ)
    (now : Timestamp) : KeepAliveWorkflowStepRequest where
  workflowExecutionId := record.workflowExecutionId
  worker := runner.workerName
  currentStep := record.currentStep
  claimToken := record.claimToken.getD []
  now := now
  leaseDuration := runner.leaseDuration

/-- `revalidate_claimed_step`. -/
def WorkflowRunner.revalidateClaimedStep (runner : WorkflowRunner)
    (claimed : WorkflowExecutionRecord δ) (now : Timestamp) :
    TxProgram δ (WorkflowExecutionRecord δ) := do
  match ← inspectTx claimed.workflowExecutionId with
  | none => .throw (runnerError (ascii "claimed workflow execution disappeared"))
  | some current =>
    if current.workflowName ≠ claimed.workflowName ∨
        current.workflowVersion ≠ claimed.workflowVersion ∨
        current.currentStep ≠ claimed.currentStep then
      .throw (runnerError (ascii "claimed workflow execution changed before execution"))
    else if current.claimedBy ≠ some runner.workerName then
      .throw (runnerError (ascii "claimed workflow execution is no longer owned by worker"))
    else if current.claimToken = none ∨ current.claimToken ≠ claimed.claimToken then
      .throw (runnerError (ascii "claimed workflow execution token changed before execution"))
    else
      match current.claimExpiresAt with
      | none => .throw (runnerError (ascii "claimed workflow execution lease expired before execution"))
      | some expiry =>
        if expiry ≤ now then
          .throw (runnerError (ascii "claimed workflow execution lease expired before execution"))
        else pure current

/-- What the handler of the step answers. -/
def invokeStep (invokers : WorkflowStepInvokerMap δ) (current : WorkflowExecutionRecord δ) :
    TxProgram δ WorkflowStepResult :=
  let key := workflowStepKey current.workflowName current.workflowVersion current.currentStep
  match invokers.find key with
  | none =>
    pure { kind := .fail, reason := ascii "unknown generated workflow step handler: " ++ key }
  | some handler =>
    invoked handler
      { workflowName := current.workflowName
        workflowVersion := Int32.ofInt current.workflowVersion
        stepName := current.currentStep
        executionId := some current.workflowExecutionId
        input := current.state }

/-- What the transaction of a step is given: the step that was claimed, the handlers, the times at which
    the clock is read, and the error the keeping alive has come to by then, if any. -/
structure StepRun (δ : Type) where
  claimed : WorkflowExecutionRecord δ
  invokers : WorkflowStepInvokerMap δ
  revalidatedAt : Timestamp
  keepAliveError : Option Bytes := none
  failedAt : Timestamp

def WorkflowRunner.failRequest (runner : WorkflowRunner) (current : WorkflowExecutionRecord δ)
    (result : WorkflowStepResult) (now : Timestamp) : FailWorkflowStepRequest where
  workflowExecutionId := current.workflowExecutionId
  worker := runner.workerName
  failedStep := current.currentStep
  reason := result.reason
  now := now
  maxAttempts := runner.maxAttempts
  claimToken := current.claimToken.getD []

def WorkflowRunner.completeRequest (runner : WorkflowRunner) (current : WorkflowExecutionRecord δ)
    (result : WorkflowStepResult) : CompleteWorkflowStepRequest δ where
  workflowExecutionId := current.workflowExecutionId
  worker := runner.workerName
  completedStep := current.currentStep
  nextStep := result.nextStep
  state := current.state
  claimToken := current.claimToken.getD []

/-- The call on the store that ends a step. -/
def WorkflowRunner.endRequest (runner : WorkflowRunner) (current : WorkflowExecutionRecord δ)
    (result : WorkflowStepResult) (now : Timestamp) : WorkflowRequest δ :=
  match result.kind with
  | .fail => .failStep (runner.failRequest current result now)
  | .cancel =>
    .cancel { workflowExecutionId := current.workflowExecutionId, reason := result.reason }
  | .complete => .completeStep (runner.completeRequest current result)

/-- The transaction of the step, with the call that ends it. -/
def WorkflowRunner.runStepTx (runner : WorkflowRunner) (step : StepRun δ) :
    TxProgram δ (WorkflowRequest δ × WorkflowResponse δ) := do
  let current ← runner.revalidateClaimedStep step.claimed step.revalidatedAt
  let result ← invokeStep step.invokers current
  match step.keepAliveError with
  | some error => .throw (runnerError (ascii "workflow keep alive failed: " ++ error))
  | none =>
    let request := runner.endRequest current result step.failedAt
    let response ← workflowProgram request
    pure (request, response)

/-! ## The generated `WorkerRuntime::run_once` -/

structure WorkerContext where
  workerName : Bytes
  executes : Option Bytes

/-- The version `run_once` passes to the runner. -/
def generatedVersion : Int := 1

/-- The runner `run_once` constructs. -/
def WorkerContext.runner (context : WorkerContext) : WorkflowRunner where
  workerName := context.workerName
  leaseDuration := 30
  maxAttempts := 3

/-- The claim of `run_once`; a worker that executes nothing makes none. -/
def WorkerContext.claim (context : WorkerContext) (workflowExecutionId : Bytes) (now : Timestamp) :
    Option ClaimWorkflowStepRequest :=
  context.executes.map fun name =>
    context.runner.claimRequest workflowExecutionId name generatedVersion now

/-- The transaction of the claim. -/
def WorkerContext.claimTx (context : WorkerContext) (workflowExecutionId : Bytes) (now : Timestamp) :
    TxProgram δ (List (WorkflowExecutionRecord δ)) :=
  match context.claim workflowExecutionId now with
  | none => pure []
  | some request => claimStepsTx request

/-! ## Workers and clients -/

/-- What the clients of the workflow store call: everything but the calls of a worker. -/
inductive ClientRequest (δ : Type) where
  | registerDefinition (definition : WorkflowDefinition δ)
  | inspectDefinition (workflowName : Bytes) (workflowVersion : Int)
  | start (request : StartWorkflowRequest δ)
  | cancel (request : CancelWorkflowRequest)
  | inspect (workflowExecutionId : Bytes)

def ClientRequest.toRequest : ClientRequest δ → WorkflowRequest δ
  | .registerDefinition definition => .registerDefinition definition
  | .inspectDefinition name version => .inspectDefinition name version
  | .start request => .start request
  | .cancel request => .cancel request
  | .inspect workflowExecutionId => .inspect workflowExecutionId

/-- A transaction: of a client, or one of those of a run of a worker. -/
inductive WorkerRequest (δ : Type) where
  | client (request : ClientRequest δ)
  | claim (context : WorkerContext) (workflowExecutionId : Bytes) (now : Timestamp)
  | keepAlive (context : WorkerContext) (record : WorkflowExecutionRecord δ) (now : Timestamp)
  | step (context : WorkerContext) (step : StepRun δ)

/-- The call on the store a transaction comes to, with the answer: a worker that executes nothing makes
    none. -/
abbrev WorkerResponse (δ : Type) := Option (WorkflowRequest δ × WorkflowResponse δ)

def workerProgram : WorkerRequest δ → TxProgram δ (WorkerResponse δ)
  | .client request => do
    let response ← workflowProgram request.toRequest
    pure (some (request.toRequest, response))
  | .claim context workflowExecutionId now =>
    match context.claim workflowExecutionId now with
    | none => pure none
    | some request => do
      let response ← workflowProgram (.claimSteps request)
      pure (some (.claimSteps request, response))
  | .keepAlive context record now => do
    let request := .keepAliveStep (context.runner.keepAliveRequest record now)
    let response ← workflowProgram request
    pure (some (request, response))
  | .step context step => some <$> context.runner.runStepTx step

/-! ## The rules -/

variable {d d' : Docs δ}

/-- What has been claimed is still there. -/
theorem runs_revalidateClaimedStep {runner : WorkflowRunner}
    {claimed current : WorkflowExecutionRecord δ} {now : Timestamp}
    (h : (runner.revalidateClaimedStep claimed now).Runs d current d') :
    d' = d ∧ executionAt d claimed.workflowExecutionId = some current := by
  obtain ⟨existing, mid, hinspect, hrest⟩ := runs_do.mp h
  obtain ⟨rfl, rfl⟩ := runs_inspectTx hinspect
  cases hexecution : executionAt mid claimed.workflowExecutionId with
  | none =>
    rw [hexecution] at hrest
    exact absurd hrest runs_throw
  | some execution =>
    rw [hexecution] at hrest
    simp only at hrest
    -- each check throws, and otherwise the execution is returned
    split at hrest
    · exact absurd hrest runs_throw
    split at hrest
    · exact absurd hrest runs_throw
    split at hrest
    · exact absurd hrest runs_throw
    split at hrest
    · exact absurd hrest runs_throw
    split at hrest
    · exact absurd hrest runs_throw
    · obtain ⟨rfl, rfl⟩ := runs_pure.mp hrest
      exact ⟨rfl, rfl⟩

/-- Whatever the handler of a step does, it starts executions at most. -/
theorem startsOnly_invokeStep (invokers : WorkflowStepInvokerMap δ)
    (current : WorkflowExecutionRecord δ) : StartsOnly (invokeStep invokers current) := by
  rw [invokeStep]
  cases hfind : invokers.find
      (workflowStepKey current.workflowName current.workflowVersion current.currentStep) with
  | none =>
    intro d a d' h k
    simp only at h
    obtain ⟨-, rfl⟩ := runs_pure.mp h
    exact Or.inl rfl
  | some handler =>
    simp only
    exact invokers.startsOnly _ handler hfind _

/-- What is between two calls on the store: nothing, or a handler has started the execution. -/
def Started (k : Key) (before mid : Option (WorkflowExecutionRecord δ)) : Prop :=
  mid = before ∨ before = none ∧ ∃ request : StartWorkflowRequest δ,
    request.workflowExecutionId = k ∧ mid = some (started request).stored

theorem Started.of_some {k : Key} {execution : WorkflowExecutionRecord δ}
    {mid : Option (WorkflowExecutionRecord δ)} (h : Started k (some execution) mid) :
    mid = some execution := by
  rcases h with rfl | ⟨hnone, -⟩
  · rfl
  · cases hnone

/-- **The transactions of a step**: the claim is held, the handler may have started executions, and the
    call that ends the step has been carried out. -/
theorem runs_runStepTx {runner : WorkflowRunner} {step : StepRun δ}
    {request : WorkflowRequest δ} {response : WorkflowResponse δ}
    (h : (runner.runStepTx step).Runs d (request, response) d') :
    ∃ current result mid, executionAt d step.claimed.workflowExecutionId = some current ∧
      (invokeStep step.invokers current).Runs d result mid ∧
      request = runner.endRequest current result step.failedAt ∧
      (workflowProgram request).Runs mid response d' := by
  obtain ⟨current, mid, hcurrent, hrest⟩ := runs_do.mp h
  obtain ⟨rfl, hexecution⟩ := runs_revalidateClaimedStep hcurrent
  obtain ⟨result, mid', hinvoke, hlast⟩ := runs_do.mp hrest
  cases herror : step.keepAliveError with
  | some error =>
    rw [herror] at hlast
    exact absurd hlast runs_throw
  | none =>
    rw [herror] at hlast
    obtain ⟨answer, mid'', hcall, hpure⟩ := runs_do.mp hlast
    obtain ⟨heq, rfl⟩ := runs_pure.mp hpure
    obtain ⟨rfl, rfl⟩ := Prod.mk.inj heq
    exact ⟨current, result, mid', hexecution, hinvoke, rfl, hcall⟩

/-- The executions are under their own ids after a handler, too. -/
theorem Keyed.startsOnly {α : Type} {p : TxProgram δ α} {a : α} (hkeyed : Keyed d)
    (hp : StartsOnly p) (h : p.Runs d a d') : Keyed d' := by
  intro k execution hexecution
  rcases hp d a d' h k with hsame | ⟨-, request, hk, hstarted⟩
  · exact hkeyed k execution (hsame.symm.trans hexecution)
  · obtain rfl := Option.some_inj.mp (hstarted.symm.trans hexecution)
    exact hk

/-- **A transaction of a worker or a client** leaves an execution alone, or is one call on the store,
    before which a handler may have started the execution. -/
theorem change_of_worker {request : WorkerRequest δ} {response : WorkerResponse δ}
    (hkeyed : Keyed d) (h : (workerProgram request).Runs d response d') (k : Key) :
    (response = none ∧ executionAt d' k = executionAt d k) ∨
    ∃ call answer mid, response = some (call, answer) ∧ Started k (executionAt d k) mid ∧
      Change k call answer mid (executionAt d' k) := by
  -- a single call
  have hcall {call : WorkflowRequest δ}
      (hruns : (do
        let answer ← workflowProgram call
        pure (some (call, answer)) : TxProgram δ (WorkerResponse δ)).Runs d response d') :
      ∃ call answer mid, response = some (call, answer) ∧ Started k (executionAt d k) mid ∧
        Change k call answer mid (executionAt d' k) := by
    obtain ⟨answer, mid, hprogram, hpure⟩ := runs_do.mp hruns
    obtain ⟨rfl, rfl⟩ := runs_pure.mp hpure
    exact ⟨call, answer, _, rfl, Or.inl rfl, change_of_runs hkeyed hprogram k⟩
  cases request with
  | client request => exact Or.inr (hcall h)
  | claim context workflowExecutionId now =>
    rw [workerProgram] at h
    cases hclaim : context.claim workflowExecutionId now with
    | none =>
      rw [hclaim] at h
      obtain ⟨rfl, rfl⟩ := runs_pure.mp h
      exact Or.inl ⟨rfl, rfl⟩
    | some request =>
      rw [hclaim] at h
      exact Or.inr (hcall h)
  | keepAlive context record now => exact Or.inr (hcall h)
  | step context step =>
    obtain ⟨⟨call, answer⟩, hstep, rfl⟩ := runs_map.mp h
    obtain ⟨current, result, mid, -, hinvoke, -, hprogram⟩ := runs_runStepTx hstep
    have hstarts := startsOnly_invokeStep step.invokers current
    refine Or.inr ⟨call, answer, executionAt mid k, rfl, hstarts d result mid hinvoke k, ?_⟩
    exact change_of_runs (hkeyed.startsOnly hstarts hinvoke) hprogram k

end StateSpec.Runtime
