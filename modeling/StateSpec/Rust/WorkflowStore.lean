/-
  THE RUST WORKFLOW STORE — `bindings/rust/runtime/workflows.rs`, `RuntimeWorkflowStore`, with its
  documents (`codec_workflows.rs`).

  Its executions and requests are those of the C++ store, but for the durations of claims, which are
  in nanoseconds; its documents have nanoseconds and `null`.  It checks the claim token of a caller
  after the claim itself, and refuses to write a heartbeat of an execution without a token.
-/
import StateSpec.Rust.Codec
import StateSpec.Runtime.WorkflowStore

namespace StateSpec.Rust.Workflow

open StateSpec.Runtime (WorkflowExecutionRecord WorkflowHeartbeatRecord StartWorkflowRequest
  CompleteWorkflowStepRequest FailWorkflowStepRequest CancelWorkflowRequest Timestamp running
  completed failed canceled)

variable {δ : Type}

/-! ## `workflow.rs` -/

structure ClaimWorkflowStepRequest where
  workflowExecutionId : Bytes
  workflowName : Bytes
  workflowVersion : Int
  worker : Bytes
  now : Timestamp
  leaseDuration : Duration
  maxSteps : UInt32

structure KeepAliveWorkflowStepRequest where
  workflowExecutionId : Bytes
  worker : Bytes
  currentStep : Bytes
  claimToken : Bytes
  now : Timestamp
  leaseDuration : Duration

/-! ## `codec_workflows.rs` -/

def workflowExecutionToJson (execution : WorkflowExecutionRecord δ) : Json δ :=
  object [
    (ascii "workflow_execution_id", .string execution.workflowExecutionId),
    (ascii "workflow_name", .string execution.workflowName),
    (ascii "workflow_version", .int64 execution.workflowVersion),
    (ascii "current_step", .string execution.currentStep),
    (ascii "status", .string execution.status),
    (ascii "attempt", u64ToJson execution.attempt),
    (ascii "claimed_by", optionalString execution.claimedBy),
    (ascii "claim_token", optionalString execution.claimToken),
    (ascii "claim_expires_at", optionalTime execution.claimExpiresAt),
    (ascii "state", execution.state)]

def workflowExecutionFromJson (value : Json δ) : WorkflowExecutionRecord δ where
  workflowExecutionId := stringFromJson (member value (ascii "workflow_execution_id"))
  workflowName := stringFromJson (member value (ascii "workflow_name"))
  workflowVersion := i64FromJson (member value (ascii "workflow_version"))
  currentStep := stringFromJson (member value (ascii "current_step"))
  status := stringFromJson (member value (ascii "status"))
  attempt := u64FromJson (member value (ascii "attempt"))
  claimedBy := optionalStringFromJson (member value (ascii "claimed_by"))
  claimToken := optionalStringFromJson (member value (ascii "claim_token"))
  claimExpiresAt := optionalTimeFromJson (member value (ascii "claim_expires_at"))
  state := member value (ascii "state")

def workflowHeartbeatToJson (heartbeat : WorkflowHeartbeatRecord) : Json δ :=
  object [
    (ascii "workflow_execution_id", .string heartbeat.workflowExecutionId),
    (ascii "claim_token", .string heartbeat.claimToken),
    (ascii "worker", .string heartbeat.worker),
    (ascii "current_step", .string heartbeat.currentStep),
    (ascii "claim_expires_at", optionalTime (some heartbeat.claimExpiresAt))]

/-- An execution after it has been stored. -/
def storedExecution (execution : WorkflowExecutionRecord δ) : WorkflowExecutionRecord δ :=
  { execution with
    attempt := storedU64 execution.attempt
    claimExpiresAt := execution.claimExpiresAt.map storedTime }

/-- **What is read back of an execution.** -/
theorem workflowExecutionFromJson_toJson (execution : WorkflowExecutionRecord δ) :
    workflowExecutionFromJson (workflowExecutionToJson execution) = storedExecution execution := by
  have hclaimedBy : member (workflowExecutionToJson execution) (ascii "claimed_by") =
    optionalString execution.claimedBy := rfl
  have htoken : member (workflowExecutionToJson execution) (ascii "claim_token") =
    optionalString execution.claimToken := rfl
  have hexpires : member (workflowExecutionToJson execution) (ascii "claim_expires_at") =
    optionalTime execution.claimExpiresAt := rfl
  rw [workflowExecutionFromJson, hclaimedBy, htoken, hexpires, optionalStringFromJson_optionalString,
    optionalStringFromJson_optionalString, optionalTimeFromJson_optionalTime]
  rfl

/-! ## Tokens and heartbeats -/

def workflowHeartbeatKey (workflowExecutionId claimToken : Bytes) : Key :=
  workflowExecutionId ++ colon :: claimToken

def workflowClaimToken (execution : WorkflowExecutionRecord δ) (worker : Bytes) : Bytes :=
  execution.workflowExecutionId ++ colon :: (worker ++ colon :: Bytes.decimal execution.attempt.toNat)

def putWorkflowHeartbeat (execution : WorkflowExecutionRecord δ) (worker : Bytes)
    (claimExpiresAt : Timestamp) : TxProgram δ Unit :=
  match execution.claimToken with
  | none =>
    .throw (.conflict .workflowClaimConflict (ascii "workflow step claim token is missing"))
  | some claimToken =>
    .write .workflowHeartbeats (workflowHeartbeatKey execution.workflowExecutionId claimToken)
      (workflowHeartbeatToJson
        { workflowExecutionId := execution.workflowExecutionId, claimToken, worker,
          currentStep := execution.currentStep, claimExpiresAt })

def eraseWorkflowHeartbeat (workflowExecutionId : Bytes) (claimToken : Option Bytes) :
    TxProgram δ Unit :=
  match claimToken with
  | none => pure ()
  | some claimToken =>
    .remove .workflowHeartbeats (workflowHeartbeatKey workflowExecutionId claimToken)

/-! ## `workflows.rs` -/

def inspectTx (workflowExecutionId : Bytes) : TxProgram δ (Option (WorkflowExecutionRecord δ)) := do
  match ← .read .workflowExecutions workflowExecutionId with
  | none => pure none
  | some document => pure (some (workflowExecutionFromJson document))

def requireExecution (workflowExecutionId : Bytes) : TxProgram δ (WorkflowExecutionRecord δ) := do
  match ← inspectTx workflowExecutionId with
  | some execution => pure execution
  | none => .throw (.notFound (ascii "unknown workflow execution"))

def allExecutions : TxProgram δ (List (WorkflowExecutionRecord δ)) := do
  let records ← .scan .workflowExecutions
  pure (records.map fun record => workflowExecutionFromJson record.2)

def requireClaim (execution : WorkflowExecutionRecord δ) (worker step : Bytes) : TxProgram δ Unit :=
  if execution.claimedBy ≠ some worker ∨ execution.currentStep ≠ step then
    .throw (.conflict .workflowClaimConflict (ascii "workflow step is not claimed by caller"))
  else pure ()

def requireClaimToken (execution : WorkflowExecutionRecord δ) (claimToken : Bytes) :
    TxProgram δ Unit :=
  if execution.claimToken ≠ some claimToken then
    .throw (.conflict .workflowClaimConflict
      (ascii "workflow step claim token does not match caller"))
  else pure ()

/-- The execution a request starts. -/
def started (request : StartWorkflowRequest δ) : WorkflowExecutionRecord δ where
  workflowExecutionId := request.workflowExecutionId
  workflowName := request.workflowName
  workflowVersion := request.workflowVersion
  currentStep := request.startStep
  status := running
  attempt := 0
  claimedBy := none
  claimToken := none
  claimExpiresAt := none
  state := request.state

def startTx (request : StartWorkflowRequest δ) : TxProgram δ (WorkflowExecutionRecord δ) := do
  match ← inspectTx request.workflowExecutionId with
  | some existing => pure existing
  | none =>
    let record := started request
    .write .workflowExecutions record.workflowExecutionId (workflowExecutionToJson record)
    pure record

/-- The execution is none that the request asks for. -/
def Skipped (request : ClaimWorkflowStepRequest) (execution : WorkflowExecutionRecord δ) : Prop :=
  ¬ (request.workflowExecutionId = [] ∨
      execution.workflowExecutionId = request.workflowExecutionId) ∨
    execution.workflowName ≠ request.workflowName ∨
    execution.workflowVersion ≠ request.workflowVersion ∨ execution.status ≠ running

instance (request : ClaimWorkflowStepRequest) (execution : WorkflowExecutionRecord δ) :
    Decidable (Skipped request execution) :=
  inferInstanceAs (Decidable (¬ (_ ∨ _) ∨ _ ∨ _ ∨ _))

def Visible (execution : WorkflowExecutionRecord δ) (now : Timestamp) : Prop :=
  execution.claimedBy = none ∨
    (execution.claimExpiresAt.map fun expires => decide (expires ≤ now)).getD false = true

instance (execution : WorkflowExecutionRecord δ) (now : Timestamp) :
    Decidable (Visible execution now) :=
  inferInstanceAs (Decidable (_ ∨ _))

/-- The execution, claimed. -/
def claim (request : ClaimWorkflowStepRequest) (execution : WorkflowExecutionRecord δ) :
    WorkflowExecutionRecord δ :=
  let execution :=
    { execution with
      claimedBy := some request.worker
      claimExpiresAt := some (plus request.now request.leaseDuration)
      attempt := execution.attempt + 1 }
  { execution with claimToken := some (workflowClaimToken execution request.worker) }

/-- The loop of `claim_steps_tx`: the executions still to look at, and those claimed so far. -/
def claimLoop (request : ClaimWorkflowStepRequest) :
    List (WorkflowExecutionRecord δ) → List (WorkflowExecutionRecord δ) →
      TxProgram δ (List (WorkflowExecutionRecord δ))
  | [], claimed => pure claimed
  | execution :: rest, claimed =>
    if claimed.length ≥ request.maxSteps.toNat then pure claimed
    else if Skipped request execution then claimLoop request rest claimed
    else if ¬ Visible execution request.now then claimLoop request rest claimed
    else do
      let execution := claim request execution
      .write .workflowExecutions execution.workflowExecutionId (workflowExecutionToJson execution)
      putWorkflowHeartbeat execution request.worker (plus request.now request.leaseDuration)
      claimLoop request rest (claimed ++ [execution])

def claimStepsTx (request : ClaimWorkflowStepRequest) :
    TxProgram δ (List (WorkflowExecutionRecord δ)) := do
  let executions ← allExecutions
  claimLoop request executions []

def keepAliveStepTx (request : KeepAliveWorkflowStepRequest) :
    TxProgram δ (WorkflowExecutionRecord δ) := do
  let execution ← requireExecution request.workflowExecutionId
  requireClaim execution request.worker request.currentStep
  requireClaimToken execution request.claimToken
  let execution :=
    { execution with claimExpiresAt := some (plus request.now request.leaseDuration) }
  putWorkflowHeartbeat execution request.worker (plus request.now request.leaseDuration)
  pure execution

/-- The execution without its claim. -/
def released (execution : WorkflowExecutionRecord δ) : WorkflowExecutionRecord δ :=
  { execution with claimedBy := none, claimToken := none, claimExpiresAt := none }

/-- The execution after its step has been completed. -/
def complete (request : CompleteWorkflowStepRequest δ) (execution : WorkflowExecutionRecord δ) :
    WorkflowExecutionRecord δ :=
  let execution := released { execution with state := request.state }
  match request.nextStep with
  | some nextStep => { execution with currentStep := nextStep, status := running }
  | none => { execution with status := completed }

/-- The execution after its step has failed. -/
def fail (request : FailWorkflowStepRequest) (execution : WorkflowExecutionRecord δ) :
    WorkflowExecutionRecord δ :=
  { released execution with
    status := if execution.attempt.toNat ≥ request.maxAttempts.toNat then failed else running }

/-- The execution after it has been canceled. -/
def cancel (execution : WorkflowExecutionRecord δ) : WorkflowExecutionRecord δ :=
  released { execution with status := canceled }

/-- Put back the execution that was `execution` before, and erase the heartbeat of its claim. -/
def finish (workflowExecutionId : Bytes) (execution finished : WorkflowExecutionRecord δ) :
    TxProgram δ (WorkflowExecutionRecord δ) := do
  .write .workflowExecutions finished.workflowExecutionId (workflowExecutionToJson finished)
  eraseWorkflowHeartbeat workflowExecutionId execution.claimToken
  pure finished

def completeStepTx (request : CompleteWorkflowStepRequest δ) :
    TxProgram δ (WorkflowExecutionRecord δ) := do
  let execution ← requireExecution request.workflowExecutionId
  requireClaim execution request.worker request.completedStep
  requireClaimToken execution request.claimToken
  finish request.workflowExecutionId execution (complete request execution)

def failStepTx (request : FailWorkflowStepRequest) : TxProgram δ (WorkflowExecutionRecord δ) := do
  let execution ← requireExecution request.workflowExecutionId
  requireClaim execution request.worker request.failedStep
  requireClaimToken execution request.claimToken
  finish request.workflowExecutionId execution (fail request execution)

def cancelTx (request : CancelWorkflowRequest) : TxProgram δ (WorkflowExecutionRecord δ) := do
  let execution ← requireExecution request.workflowExecutionId
  finish request.workflowExecutionId execution (cancel execution)

end StateSpec.Rust.Workflow
