/-
  THE WORKFLOW STORE — `bindings/cpp/runtime/workflow_store.hpp`, `RuntimeWorkflowStore`.

  Each operation of the store is a program of one transaction (the `...Tx` methods); the wrappers
  begin a transaction, run the program and commit, which is what a session does.  `start` and
  `register_definition` first call `ensure_collections` on the backend, outside of the transaction:
  that is the administrative call of the store.

  A claim is taken by a worker for a lease.  Whether an execution can be claimed is decided from the
  execution document alone, by its status and the expiry in it; keeping a claim alive writes the
  heartbeat document alone.
-/
import StateSpec.Runtime.Codec
import StateSpec.Runtime.Session

namespace StateSpec.Runtime

variable {δ : Type}

/-! ## Requests and responses -/

structure StartWorkflowRequest (δ : Type) where
  workflowExecutionId : Bytes
  workflowName : Bytes
  workflowVersion : Int := 0
  startStep : Bytes
  state : Json δ

structure ClaimWorkflowStepRequest where
  workflowExecutionId : Bytes
  workflowName : Bytes
  workflowVersion : Int := 0
  worker : Bytes
  now : Timestamp
  leaseDuration : Seconds
  maxSteps : UInt32 := 1

structure KeepAliveWorkflowStepRequest where
  workflowExecutionId : Bytes
  worker : Bytes
  currentStep : Bytes
  claimToken : Bytes
  now : Timestamp
  leaseDuration : Seconds

structure CompleteWorkflowStepRequest (δ : Type) where
  workflowExecutionId : Bytes
  worker : Bytes
  completedStep : Bytes
  nextStep : Option Bytes := none
  state : Json δ
  claimToken : Bytes

structure FailWorkflowStepRequest where
  workflowExecutionId : Bytes
  worker : Bytes
  failedStep : Bytes
  reason : Bytes
  now : Timestamp
  maxAttempts : UInt32 := 1
  claimToken : Bytes

structure CancelWorkflowRequest where
  workflowExecutionId : Bytes
  reason : Bytes

structure WorkflowDefinitionRegistration (δ : Type) where
  definition : WorkflowDefinition δ
  created : Bool := false

/-- A call on the store. -/
inductive WorkflowRequest (δ : Type) where
  | registerDefinition (definition : WorkflowDefinition δ)
  | inspectDefinition (workflowName : Bytes) (workflowVersion : Int)
  | start (request : StartWorkflowRequest δ)
  | claimSteps (request : ClaimWorkflowStepRequest)
  | keepAliveStep (request : KeepAliveWorkflowStepRequest)
  | completeStep (request : CompleteWorkflowStepRequest δ)
  | failStep (request : FailWorkflowStepRequest)
  | cancel (request : CancelWorkflowRequest)
  | inspect (workflowExecutionId : Bytes)

/-- What a call on the store returns. -/
inductive WorkflowResponse (δ : Type) where
  | registration (registration : WorkflowDefinitionRegistration δ)
  | definition (definition : Option (WorkflowDefinition δ))
  | execution (execution : WorkflowExecutionRecord δ)
  | claimed (executions : List (WorkflowExecutionRecord δ))
  | inspected (execution : Option (WorkflowExecutionRecord δ))

/-! ## Statuses -/

def running : Bytes := ascii "Running"
def completed : Bytes := ascii "Completed"
def failed : Bytes := ascii "Failed"
def canceled : Bytes := ascii "Canceled"

/-! ## Keys, tokens, heartbeats -/

def definitionKey (workflowName : Bytes) (workflowVersion : Int) : Key :=
  workflowName ++ colon :: Bytes.decimalInt workflowVersion

def heartbeatKey (workflowExecutionId claimToken : Bytes) : Key :=
  workflowExecutionId ++ colon :: claimToken

def claimTokenFor (execution : WorkflowExecutionRecord δ) (worker : Bytes) : Bytes :=
  (execution.workflowExecutionId ++ colon :: worker) ++ colon :: Bytes.decimal execution.attempt.toNat

def putHeartbeat (execution : WorkflowExecutionRecord δ) (worker : Bytes)
    (claimExpiresAt : Timestamp) : TxProgram δ Unit :=
  let token := execution.claimToken.getD []
  .write .workflowHeartbeats (heartbeatKey execution.workflowExecutionId token)
    (WorkflowHeartbeatRecord.toJson
      { workflowExecutionId := execution.workflowExecutionId, claimToken := token, worker,
        currentStep := execution.currentStep, claimExpiresAt })

def eraseHeartbeat (workflowExecutionId : Bytes) (claimToken : Option Bytes) : TxProgram δ Unit :=
  match claimToken with
  | some token => .remove .workflowHeartbeats (heartbeatKey workflowExecutionId token)
  | none => pure ()

/-! ## Definitions -/

def inspectDefinitionTx (workflowName : Bytes) (workflowVersion : Int) :
    TxProgram δ (Option (WorkflowDefinition δ)) := do
  match ← .read .workflowDefinitions (definitionKey workflowName workflowVersion) with
  | none => pure none
  | some document => .ofExcept ((WorkflowDefinition.fromJson document).map some)

def registerDefinitionTx (definition : WorkflowDefinition δ) :
    TxProgram δ (WorkflowDefinitionRegistration δ) := do
  let existing ← inspectDefinitionTx definition.workflowName definition.workflowVersion
  .write .workflowDefinitions
    (definitionKey definition.workflowName definition.workflowVersion) definition.toJson
  pure { definition, created := existing.isNone }

/-! ## Executions -/

def inspectTx (workflowExecutionId : Bytes) : TxProgram δ (Option (WorkflowExecutionRecord δ)) := do
  match ← .read .workflowExecutions workflowExecutionId with
  | none => pure none
  | some document => .ofExcept ((WorkflowExecutionRecord.fromJson document).map some)

def allExecutions : TxProgram δ (List (WorkflowExecutionRecord δ)) := do
  let records ← .scan .workflowExecutions
  .ofExcept (records.mapM fun record => WorkflowExecutionRecord.fromJson record.2)

def unknownExecutionMessage (workflowExecutionId : Bytes) : Bytes :=
  ascii "unknown workflow execution: " ++ workflowExecutionId

def requireExecution (workflowExecutionId : Bytes) : TxProgram δ (WorkflowExecutionRecord δ) := do
  match ← inspectTx workflowExecutionId with
  | some execution => pure execution
  | none => .throw (.backendError (unknownExecutionMessage workflowExecutionId))

/-- The execution is claimed by the caller. -/
def HoldsClaim (execution : WorkflowExecutionRecord δ) (worker step claimToken : Bytes) : Prop :=
  execution.claimedBy = some worker ∧ execution.currentStep = step ∧
    execution.claimToken = some claimToken

instance (execution : WorkflowExecutionRecord δ) (worker step claimToken : Bytes) :
    Decidable (HoldsClaim execution worker step claimToken) :=
  inferInstanceAs (Decidable (_ ∧ _ ∧ _))

def claimConflictMessage : Bytes := ascii "workflow step is not claimed by caller"

def requireClaim (execution : WorkflowExecutionRecord δ) (worker step claimToken : Bytes) :
    TxProgram δ Unit :=
  if HoldsClaim execution worker step claimToken then pure ()
  else .throw (.conflictError .workflowClaimConflict claimConflictMessage)

/-! ## `start` -/

/-- The execution a request starts. -/
def started (request : StartWorkflowRequest δ) : WorkflowExecutionRecord δ where
  workflowExecutionId := request.workflowExecutionId
  workflowName := request.workflowName
  workflowVersion := request.workflowVersion
  currentStep := request.startStep
  status := running
  state := request.state

def startTx (request : StartWorkflowRequest δ) : TxProgram δ (WorkflowExecutionRecord δ) := do
  match ← inspectTx request.workflowExecutionId with
  | some existing => pure existing
  | none =>
    let record := started request
    .write .workflowExecutions record.workflowExecutionId record.toJson
    pure record

/-! ## `claim_steps` -/

/-- Nobody has the execution claimed, or the claim has expired. -/
def Visible (execution : WorkflowExecutionRecord δ) (now : Timestamp) : Prop :=
  execution.claimedBy = none ∨ ∃ expiry ∈ execution.claimExpiresAt, expiry ≤ now

instance (execution : WorkflowExecutionRecord δ) (now : Timestamp) :
    Decidable (Visible execution now) :=
  inferInstanceAs (Decidable (_ ∨ _))

/-- The execution is one the request asks for. -/
def Requested (request : ClaimWorkflowStepRequest) (execution : WorkflowExecutionRecord δ) : Prop :=
  (request.workflowExecutionId = [] ∨
      execution.workflowExecutionId = request.workflowExecutionId) ∧
    execution.workflowName = request.workflowName ∧
    execution.workflowVersion = request.workflowVersion ∧ execution.status = running

instance (request : ClaimWorkflowStepRequest) (execution : WorkflowExecutionRecord δ) :
    Decidable (Requested request execution) :=
  inferInstanceAs (Decidable ((_ ∨ _) ∧ _ ∧ _ ∧ _))

/-- The execution, claimed. -/
def claim (request : ClaimWorkflowStepRequest) (execution : WorkflowExecutionRecord δ) :
    WorkflowExecutionRecord δ :=
  let execution :=
    { execution with
      claimedBy := some request.worker
      claimExpiresAt := some (request.now.plus request.leaseDuration)
      attempt := execution.attempt + 1 }
  { execution with claimToken := some (claimTokenFor execution request.worker) }

/-- The loop of `claim_stepsTx`: the executions still to look at, and those claimed so far. -/
def claimLoop (request : ClaimWorkflowStepRequest) :
    List (WorkflowExecutionRecord δ) → List (WorkflowExecutionRecord δ) →
      TxProgram δ (List (WorkflowExecutionRecord δ))
  | [], claimed => pure claimed
  | execution :: rest, claimed =>
    if claimed.length ≥ request.maxSteps.toNat then pure claimed
    else if ¬ Requested request execution then claimLoop request rest claimed
    else if ¬ Visible execution request.now then claimLoop request rest claimed
    else do
      let execution := claim request execution
      .write .workflowExecutions execution.workflowExecutionId execution.toJson
      putHeartbeat execution request.worker (request.now.plus request.leaseDuration)
      claimLoop request rest (claimed ++ [execution])

def claimStepsTx (request : ClaimWorkflowStepRequest) :
    TxProgram δ (List (WorkflowExecutionRecord δ)) := do
  let executions ← allExecutions
  claimLoop request executions []

/-! ## `keep_alive_step` -/

def keepAliveStepTx (request : KeepAliveWorkflowStepRequest) :
    TxProgram δ (WorkflowExecutionRecord δ) := do
  let execution ← requireExecution request.workflowExecutionId
  requireClaim execution request.worker request.currentStep request.claimToken
  putHeartbeat execution request.worker (request.now.plus request.leaseDuration)
  pure { execution with claimExpiresAt := some (request.now.plus request.leaseDuration) }

/-! ## `complete_step`, `fail_step`, `cancel` -/

/-- The execution without its claim. -/
def WorkflowExecutionRecord.released (execution : WorkflowExecutionRecord δ) :
    WorkflowExecutionRecord δ :=
  { execution with claimedBy := none, claimToken := none, claimExpiresAt := none }

/-- The execution after its step has been completed. -/
def complete (request : CompleteWorkflowStepRequest δ) (execution : WorkflowExecutionRecord δ) :
    WorkflowExecutionRecord δ :=
  let execution := { execution.released with state := request.state }
  match request.nextStep with
  | some step => { execution with currentStep := step, status := running }
  | none => { execution with status := completed }

/-- The execution after its step has failed. -/
def fail (request : FailWorkflowStepRequest) (execution : WorkflowExecutionRecord δ) :
    WorkflowExecutionRecord δ :=
  { execution.released with
    status := if execution.attempt.toNat ≥ request.maxAttempts.toNat then failed else running }

/-- The execution after it has been canceled. -/
def WorkflowExecutionRecord.canceled (execution : WorkflowExecutionRecord δ) :
    WorkflowExecutionRecord δ :=
  { execution.released with status := Runtime.canceled }

/-- Put back the execution that was `execution` before, and erase the heartbeat of its claim. -/
def finish (workflowExecutionId : Bytes) (execution finished : WorkflowExecutionRecord δ) :
    TxProgram δ (WorkflowExecutionRecord δ) := do
  .write .workflowExecutions finished.workflowExecutionId finished.toJson
  eraseHeartbeat workflowExecutionId execution.claimToken
  pure finished

def completeStepTx (request : CompleteWorkflowStepRequest δ) :
    TxProgram δ (WorkflowExecutionRecord δ) := do
  let execution ← requireExecution request.workflowExecutionId
  requireClaim execution request.worker request.completedStep request.claimToken
  finish request.workflowExecutionId execution (complete request execution)

def failStepTx (request : FailWorkflowStepRequest) : TxProgram δ (WorkflowExecutionRecord δ) := do
  let execution ← requireExecution request.workflowExecutionId
  requireClaim execution request.worker request.failedStep request.claimToken
  finish request.workflowExecutionId execution (fail request execution)

def cancelTx (request : CancelWorkflowRequest) : TxProgram δ (WorkflowExecutionRecord δ) := do
  let execution ← requireExecution request.workflowExecutionId
  finish request.workflowExecutionId execution execution.canceled

/-! ## The store -/

/-- The transaction of a call. -/
def workflowProgram : WorkflowRequest δ → TxProgram δ (WorkflowResponse δ)
  | .registerDefinition definition => .registration <$> registerDefinitionTx definition
  | .inspectDefinition name version => .definition <$> inspectDefinitionTx name version
  | .start request => .execution <$> startTx request
  | .claimSteps request => .claimed <$> claimStepsTx request
  | .keepAliveStep request => .execution <$> keepAliveStepTx request
  | .completeStep request => .execution <$> completeStepTx request
  | .failStep request => .execution <$> failStepTx request
  | .cancel request => .execution <$> cancelTx request
  | .inspect workflowExecutionId => .inspected <$> inspectTx workflowExecutionId

/-- The collections of `ensure_collections`. -/
def workflowCollections : List CollectionDescriptor :=
  [{ name := RuntimeCollection.workflowDefinitions.name,
     keyFields := [ascii "workflow_definition"] },
   { name := RuntimeCollection.workflowExecutions.name,
     keyFields := [ascii "workflow_execution_id"] },
   { name := RuntimeCollection.workflowHeartbeats.name,
     keyFields := [ascii "workflow_heartbeat"] }]

variable [Decimal δ]

/-- `ensure_collections`. -/
def ensureWorkflowCollections (_ : Unit) (s : Cpp.State δ) : Cpp.State δ :=
  Cpp.register workflowCollections s

/-- The workflow store on the C++ in-memory backend. -/
abbrev workflowStore : Interleaving.Store (WorkflowRequest δ) (Cpp.State δ)
    (Session δ (WorkflowResponse δ)) Unit Unit Unit (Option Error) Unit :=
  sessions workflowProgram ensureWorkflowCollections

end StateSpec.Runtime
