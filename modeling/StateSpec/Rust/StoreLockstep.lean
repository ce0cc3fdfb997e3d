/-
  THE QUEUE AND WORKFLOW STORES IN LOCKSTEP — operation by operation, the C++ and the Rust program
  come to the same.

  They read the same records, compute the same ones and write documents that correspond
  (`SameDocument`); each operation has its lemma, `lockstep_request` has them all.  The loops of a
  claim go over the same list, since both backends scan in the order of the keys, so the cap cuts it
  at the same place.
-/
import StateSpec.Rust.StoreRecords

set_option linter.unusedSectionVars false

namespace StateSpec.Rust

open Memory Program StateSpec.Runtime

variable {δ : Type} [Decimal δ] {s s' : Cpp.State δ}

/-! ## Requests -/

/-- A call on the two stores, as a C++ client makes it. -/
inductive StoreRequest (δ : Type) where
  | enqueue (request : EnqueueMessageRequest δ)
  | claim (request : ClaimMessageRequest)
  | acknowledge (request : AckMessageRequest)
  | fail (request : FailMessageRequest)
  | inspect (messageId : Bytes)
  | start (request : StartWorkflowRequest δ)
  | claimSteps (request : ClaimWorkflowStepRequest)
  | keepAliveStep (request : KeepAliveWorkflowStepRequest)
  | completeStep (request : CompleteWorkflowStepRequest δ)
  | failStep (request : FailWorkflowStepRequest)
  | cancel (request : CancelWorkflowRequest)
  | inspectExecution (workflowExecutionId : Bytes)

/-- What a call returns. -/
inductive StoreResponse (δ : Type) where
  | message (message : QueueMessageRecord δ)
  | claimedMessages (messages : List (QueueMessageRecord δ))
  | acknowledged
  | inspectedMessage (message : Option (QueueMessageRecord δ))
  | execution (execution : WorkflowExecutionRecord δ)
  | claimedSteps (executions : List (WorkflowExecutionRecord δ))
  | inspectedExecution (execution : Option (WorkflowExecutionRecord δ))

/-- A number of seconds as a Rust client passes it. -/
def nanoseconds (seconds : Seconds) : Duration := seconds.toNat * 1000000000

theorem plus_nanoseconds (now : Timestamp) {seconds : Seconds} (h : 0 ≤ seconds) :
    plus now (nanoseconds seconds) = now.plus seconds := by
  have hcast : ((seconds.toNat * 1000000000 : Nat) : Int) = seconds * 1000000000 := by
    rw [Int.natCast_mul, Int.toNat_of_nonneg h]
    rfl
  rw [plus, nanoseconds, hcast, Timestamp.plus]

/-- The same request as a Rust client makes it. -/
def Queue.claimRequest (request : Runtime.ClaimMessageRequest) : Queue.ClaimMessageRequest where
  queue := request.queue
  channel := request.channel
  claimant := request.claimant
  now := request.now
  visibilityTimeout := nanoseconds request.visibilityTimeout
  maxMessages := request.maxMessages

def Workflow.claimRequest (request : Runtime.ClaimWorkflowStepRequest) :
    Workflow.ClaimWorkflowStepRequest where
  workflowExecutionId := request.workflowExecutionId
  workflowName := request.workflowName
  workflowVersion := request.workflowVersion
  worker := request.worker
  now := request.now
  leaseDuration := nanoseconds request.leaseDuration
  maxSteps := request.maxSteps

def Workflow.keepAliveRequest (request : Runtime.KeepAliveWorkflowStepRequest) :
    Workflow.KeepAliveWorkflowStepRequest where
  workflowExecutionId := request.workflowExecutionId
  worker := request.worker
  currentStep := request.currentStep
  claimToken := request.claimToken
  now := request.now
  leaseDuration := nanoseconds request.leaseDuration

/-- The transaction of the C++ store. -/
def StoreRequest.cpp : StoreRequest δ → Runtime.TxProgram δ (StoreResponse δ)
  | .enqueue request => .message <$> Runtime.Queue.enqueueTx request
  | .claim request => .claimedMessages <$> Runtime.Queue.claimTx request
  | .acknowledge request => (fun _ => .acknowledged) <$> Runtime.Queue.acknowledgeTx request
  | .fail request => .message <$> Runtime.Queue.failTx request
  | .inspect messageId => .inspectedMessage <$> Runtime.Queue.inspectTx messageId
  | .start request => .execution <$> startTx request
  | .claimSteps request => .claimedSteps <$> claimStepsTx request
  | .keepAliveStep request => .execution <$> keepAliveStepTx request
  | .completeStep request => .execution <$> completeStepTx request
  | .failStep request => .execution <$> failStepTx request
  | .cancel request => .execution <$> cancelTx request
  | .inspectExecution workflowExecutionId =>
    .inspectedExecution <$> Runtime.inspectTx workflowExecutionId

/-- The transaction of the Rust store. -/
def StoreRequest.rust : StoreRequest δ → TxProgram δ (StoreResponse δ)
  | .enqueue request => .message <$> Queue.enqueueTx request
  | .claim request => .claimedMessages <$> Queue.claimTx (Queue.claimRequest request)
  | .acknowledge request => (fun _ => .acknowledged) <$> Queue.acknowledgeTx request
  | .fail request => .message <$> Queue.failTx request
  | .inspect messageId => .inspectedMessage <$> Queue.inspectTx messageId
  | .start request => .execution <$> Workflow.startTx request
  | .claimSteps request => .claimedSteps <$> Workflow.claimStepsTx (Workflow.claimRequest request)
  | .keepAliveStep request =>
    .execution <$> Workflow.keepAliveStepTx (Workflow.keepAliveRequest request)
  | .completeStep request => .execution <$> Workflow.completeStepTx request
  | .failStep request => .execution <$> Workflow.failStepTx request
  | .cancel request => .execution <$> Workflow.cancelTx request
  | .inspectExecution workflowExecutionId =>
    .inspectedExecution <$> Workflow.inspectTx workflowExecutionId

/-- A period that begins now: in whole milliseconds, for whole seconds, to an instant below 2^63
    nanoseconds. -/
structure TimelyPeriod (now duration : Int) : Prop where
  begins : WholeMillis now
  nonneg : 0 ≤ duration
  lt : Timestamp.plus now duration < 2 ^ 63

/-- Its end is in whole milliseconds again. -/
theorem TimelyPeriod.ends {now duration : Int} (h : TimelyPeriod now duration) :
    WholeMillis (Timestamp.plus now duration) := by
  have hnow := h.begins.nonneg
  have hwhole := h.begins.whole
  have hduration := h.nonneg
  constructor
  · show 0 ≤ now + duration * 1000000000
    omega
  · exact h.lt
  · show (now + duration * 1000000000) % 1000000 = 0
    omega

/-- The times of a request are as both codecs keep them. -/
def StoreRequest.Timely : StoreRequest δ → Prop
  | .claim request => TimelyPeriod request.now request.visibilityTimeout
  | .claimSteps request => TimelyPeriod request.now request.leaseDuration
  | .keepAliveStep request => TimelyPeriod request.now request.leaseDuration
  | _ => True

/-! ## The queue store -/

namespace Queue

variable {hs : SameStore Stored s s'}

theorem lockstep_inspectTx (messageId : Bytes) :
    (coupling Written hs).LockstepFresh (fun r r' => r = r' ∧ ∀ m ∈ r, WholeExpiry m.claimExpiresAt)
      (Runtime.Queue.inspectTx messageId) (inspectTx messageId) :=
  lockstep_inspect (fun _ _ => read_message) rfl rfl (fun _ => rfl) fun _ => rfl

theorem lockstep_requireMessage (messageId : Bytes) :
    (coupling Written hs).LockstepFresh (fun m m' => m = m' ∧ WholeExpiry m.claimExpiresAt)
      (Runtime.Queue.requireMessage messageId) (requireMessage messageId) := by
  refine Coupling.lockstepFresh_do (lockstep_inspectTx messageId) ?_
  rintro found _ ⟨rfl, hexpiry⟩
  cases found with
  | none => exact Coupling.lockstep_throw rfl
  | some message => exact Coupling.lockstep_ret ⟨rfl, hexpiry message rfl⟩

theorem lockstep_requireClaimant (message : QueueMessageRecord δ) (claimant : Bytes) :
    (coupling Written hs).Lockstep (fun _ _ => True)
      (Runtime.Queue.requireClaimant message claimant) (requireClaimant message claimant) := by
  rw [Runtime.Queue.requireClaimant, requireClaimant]
  by_cases hclaimant : message.claimedBy = some claimant
  · rw [if_pos hclaimant, if_neg (not_not.mpr hclaimant)]
    exact Coupling.lockstep_ret trivial
  · rw [if_neg hclaimant, if_pos hclaimant]
    exact Coupling.lockstep_throw rfl

/-- Both put the same message. -/
theorem lockstep_put (message : QueueMessageRecord δ) (hexpiry : WholeExpiry message.claimExpiresAt) :
    (coupling Written hs).Lockstep (fun _ _ => True)
      (.write .queueMessages message.messageId message.toJson)
      (.write .queueMessages message.messageId (queueMessageToJson message)) :=
  Coupling.lockstep_write (SameDocument.message hexpiry trivial) _

theorem lockstep_putEnqueued (request : EnqueueMessageRequest δ) :
    (coupling Written hs).Lockstep Eq (Runtime.Queue.putEnqueued request) (putEnqueued request) :=
  Coupling.lockstep_do (lockstep_put (enqueued request) .none) fun _ _ _ =>
    Coupling.lockstep_ret rfl

theorem lockstep_enqueueTx (request : EnqueueMessageRequest δ) :
    (coupling Written hs).LockstepFresh Eq (Runtime.Queue.enqueueTx request) (enqueueTx request) := by
  rw [Runtime.Queue.enqueueTx, enqueueTx]
  cases request.idempotencyKey with
  | none => exact (lockstep_putEnqueued request).fresh
  | some key =>
    simp only [idempotencyKey_eq]
    refine Coupling.lockstepFresh_read fun r r' hr => ?_
    cases hr with
    | none =>
      -- the key has not been used: it is remembered, and the message is put
      refine (Coupling.lockstep_do (Coupling.lockstep_write ?_ _) fun _ _ _ => ?_).fresh
      · exact SameDocument.remembered request.messageId
      · exact lockstep_putEnqueued request
    | some hdocument =>
      -- an object with the id in C++, the id itself in Rust
      cases hdocument with
      | remembered messageId =>
        show (coupling Written hs).LockstepFresh Eq (Runtime.Queue.inspectTx messageId >>= _)
          (inspectTx messageId >>= _)
        refine Coupling.lockstepFresh_do (lockstep_inspectTx messageId) ?_
        rintro found _ ⟨rfl, -⟩
        cases found with
        | none => exact Coupling.lockstep_throw rfl
        | some message => exact Coupling.lockstep_ret rfl

/-! ### Claims -/

variable {request : Runtime.ClaimMessageRequest}

theorem skipped_iff (request : Runtime.ClaimMessageRequest) (message : QueueMessageRecord δ) :
    Skipped (claimRequest request) message ↔ ¬ Runtime.Queue.Requested request message := by
  simp only [Skipped, Runtime.Queue.Requested, claimRequest, not_and_or, not_not]

theorem visible_iff (request : Runtime.ClaimMessageRequest) (message : QueueMessageRecord δ) :
    Visible message (claimRequest request).now ↔ Runtime.Queue.Visible message request.now := by
  refine or_congr Iff.rfl ?_
  rw [claimRequest, Runtime.Queue.Expired]
  cases message.claimExpiresAt <;> simp

theorem capped_iff (request : Runtime.ClaimMessageRequest) (claimed : List (QueueMessageRecord δ)) :
    claimed.length ≥ (claimRequest request).maxMessages.toNat ↔
      claimed.length ≥ request.maxMessages.toNat := Iff.rfl

/-- Both compute the same claimed message. -/
theorem claim_eq (h : TimelyPeriod request.now request.visibilityTimeout)
    (message : QueueMessageRecord δ) :
    claim (claimRequest request) message = Runtime.Queue.claim request message := by
  rw [claim, Runtime.Queue.claim, claimRequest, plus_nanoseconds _ h.nonneg]

/-- **The loop of a claim**, over the same messages. -/
theorem lockstep_claimLoop (h : TimelyPeriod request.now request.visibilityTimeout)
    (messages claimed : List (QueueMessageRecord δ)) :
    (coupling Written hs).Lockstep Eq (Runtime.Queue.claimLoop request messages claimed)
      (claimLoop (claimRequest request) messages claimed) := by
  induction messages generalizing claimed with
  | nil => exact Coupling.lockstep_ret rfl
  | cons message rest ih =>
    rw [Runtime.Queue.claimLoop, claimLoop]
    -- both stop at the limit, and both pass over what is not asked for and what is not visible
    refine Coupling.lockstep_ite (capped_iff request claimed).symm
      (fun _ => Coupling.lockstep_ret rfl) fun _ => ?_
    refine Coupling.lockstep_ite (skipped_iff request message).symm (fun _ => ih claimed) fun _ => ?_
    refine Coupling.lockstep_ite (not_congr (visible_iff request message).symm)
      (fun _ => ih claimed) fun _ => ?_
    simp only [claim_eq h]
    refine Coupling.lockstep_do (lockstep_put _ ?_) fun _ _ _ => ih _
    rintro _ ⟨rfl⟩
    exact h.ends

theorem lockstep_claimTx (h : TimelyPeriod request.now request.visibilityTimeout) :
    (coupling Written hs).LockstepFresh Eq (Runtime.Queue.claimTx (δ := δ) request)
      (claimTx (claimRequest request)) := by
  refine Coupling.lockstepFresh_do (lockstep_all fun _ _ => read_message) ?_
  rintro messages _ ⟨rfl, -⟩
  exact lockstep_claimLoop h messages []

/-! ### Acknowledgements and failures -/

theorem lockstep_acknowledgeTx (request : AckMessageRequest) :
    (coupling Written hs).LockstepFresh (fun _ _ => True)
      (Runtime.Queue.acknowledgeTx (δ := δ) request) (acknowledgeTx request) := by
  refine Coupling.lockstepFresh_do (lockstep_requireMessage request.messageId) ?_
  rintro message _ ⟨rfl, hexpiry⟩
  refine Coupling.lockstep_do (lockstep_requireClaimant message request.claimant) fun _ _ _ => ?_
  exact lockstep_put (Runtime.Queue.acknowledge message) hexpiry

theorem lockstep_failTx (request : FailMessageRequest) :
    (coupling Written hs).LockstepFresh Eq (Runtime.Queue.failTx (δ := δ) request)
      (failTx request) := by
  refine Coupling.lockstepFresh_do (lockstep_requireMessage request.messageId) ?_
  rintro message _ ⟨rfl, -⟩
  refine Coupling.lockstep_do (lockstep_requireClaimant message request.claimant) fun _ _ _ => ?_
  exact Coupling.lockstep_do (lockstep_put (Runtime.Queue.fail request message) .none)
    fun _ _ _ => Coupling.lockstep_ret rfl

end Queue

/-! ## The workflow store -/

namespace Workflow

variable {hs : SameStore Stored s s'} {execution : WorkflowExecutionRecord δ}

theorem lockstep_inspectTx (workflowExecutionId : Bytes) :
    (coupling Written hs).LockstepFresh (fun r r' => r = r' ∧ ∀ e ∈ r, WholeExpiry e.claimExpiresAt)
      (Runtime.inspectTx workflowExecutionId) (inspectTx workflowExecutionId) :=
  lockstep_inspect (fun _ _ => read_execution) rfl rfl (fun _ => rfl) fun _ => rfl

theorem lockstep_requireExecution (workflowExecutionId : Bytes) :
    (coupling Written hs).LockstepFresh (fun e e' => e = e' ∧ WholeExpiry e.claimExpiresAt)
      (Runtime.requireExecution workflowExecutionId) (requireExecution workflowExecutionId) := by
  refine Coupling.lockstepFresh_do (lockstep_inspectTx workflowExecutionId) ?_
  rintro found _ ⟨rfl, hexpiry⟩
  cases found with
  | none => exact Coupling.lockstep_throw rfl
  | some execution => exact Coupling.lockstep_ret ⟨rfl, hexpiry execution rfl⟩

/-- Rust checks the claim in two steps. -/
theorem lockstep_requireClaim {ρ : Type} {worker step claimToken : Bytes}
    {p : Runtime.TxProgram δ ρ} {q : TxProgram δ ρ}
    (hnext : execution.claimToken = some claimToken → (coupling Written hs).Lockstep Eq p q) :
    (coupling Written hs).Lockstep Eq
      (Runtime.requireClaim execution worker step claimToken >>= fun _ => p)
      (requireClaim execution worker step >>= fun _ =>
        requireClaimToken execution claimToken >>= fun _ => q) := by
  rw [Runtime.requireClaim, requireClaim, requireClaimToken]
  by_cases hclaim : execution.claimedBy = some worker ∧ execution.currentStep = step
  · have hfirst : ¬ (execution.claimedBy ≠ some worker ∨ execution.currentStep ≠ step) := by
      rw [not_or, not_not, not_not]
      exact hclaim
    rw [if_neg hfirst]
    by_cases htoken : execution.claimToken = some claimToken
    · have hholds : HoldsClaim execution worker step claimToken := ⟨hclaim.1, hclaim.2, htoken⟩
      rw [if_pos hholds, if_neg (not_not.mpr htoken)]
      exact hnext htoken
    · have hholds : ¬ HoldsClaim execution worker step claimToken := fun h => htoken h.2.2
      rw [if_neg hholds, if_pos htoken]
      exact Coupling.lockstep_throw rfl
  · have hfirst : execution.claimedBy ≠ some worker ∨ execution.currentStep ≠ step :=
      not_and_or.mp hclaim
    have hholds : ¬ HoldsClaim execution worker step claimToken := fun h => hclaim ⟨h.1, h.2.1⟩
    rw [if_pos hfirst, if_neg hholds]
    exact Coupling.lockstep_throw rfl

/-- Both put the same execution. -/
theorem lockstep_put (execution : WorkflowExecutionRecord δ)
    (hexpiry : WholeExpiry execution.claimExpiresAt) :
    (coupling Written hs).Lockstep (fun _ _ => True)
      (.write .workflowExecutions execution.workflowExecutionId execution.toJson)
      (.write .workflowExecutions execution.workflowExecutionId (workflowExecutionToJson execution)) :=
  Coupling.lockstep_write (SameDocument.execution hexpiry trivial) _

/-- Both put the same heartbeat, of an execution that has a token. -/
theorem lockstep_putHeartbeat {claimToken : Bytes} (htoken : execution.claimToken = some claimToken)
    (worker : Bytes) (claimExpiresAt : Timestamp) :
    (coupling Written hs).Lockstep (fun _ _ => True)
      (putHeartbeat execution worker claimExpiresAt)
      (putWorkflowHeartbeat execution worker claimExpiresAt) := by
  rw [putHeartbeat, putWorkflowHeartbeat, htoken]
  exact Coupling.lockstep_write (SameDocument.heartbeat _) _

theorem lockstep_eraseHeartbeat (workflowExecutionId : Bytes) (claimToken : Option Bytes) :
    (coupling Written hs).Lockstep (fun _ _ => True)
      (eraseHeartbeat workflowExecutionId claimToken)
      (eraseWorkflowHeartbeat workflowExecutionId claimToken) := by
  cases claimToken with
  | none => exact Coupling.lockstep_ret trivial
  | some claimToken => exact Coupling.lockstep_remove _ _

theorem lockstep_startTx (request : StartWorkflowRequest δ) :
    (coupling Written hs).LockstepFresh Eq (Runtime.startTx request) (startTx request) := by
  refine Coupling.lockstepFresh_do (lockstep_inspectTx request.workflowExecutionId) ?_
  rintro found _ ⟨rfl, -⟩
  cases found with
  | some existing => exact Coupling.lockstep_ret rfl
  | none =>
    exact Coupling.lockstep_do (lockstep_put (started request) .none) fun _ _ _ =>
      Coupling.lockstep_ret rfl

/-! ### Claims -/

section

variable {request : Runtime.ClaimWorkflowStepRequest}

theorem skipped_iff (request : Runtime.ClaimWorkflowStepRequest)
    (execution : WorkflowExecutionRecord δ) :
    Skipped (claimRequest request) execution ↔ ¬ Runtime.Requested request execution := by
  simp only [Skipped, Runtime.Requested, claimRequest, not_and_or]

theorem visible_iff (request : Runtime.ClaimWorkflowStepRequest)
    (execution : WorkflowExecutionRecord δ) :
    Visible execution (claimRequest request).now ↔ Runtime.Visible execution request.now := by
  refine or_congr Iff.rfl ?_
  rw [claimRequest]
  cases execution.claimExpiresAt <;> simp

theorem capped_iff (request : Runtime.ClaimWorkflowStepRequest)
    (claimed : List (WorkflowExecutionRecord δ)) :
    claimed.length ≥ (claimRequest request).maxSteps.toNat ↔
      claimed.length ≥ request.maxSteps.toNat := Iff.rfl

/-- Both compute the same claimed execution, with the same token. -/
theorem claim_eq (h : TimelyPeriod request.now request.leaseDuration)
    (execution : WorkflowExecutionRecord δ) :
    claim (claimRequest request) execution = Runtime.claim request execution := by
  simp only [claim, Runtime.claim, claimRequest, plus_nanoseconds _ h.nonneg, workflowClaimToken,
    claimTokenFor, List.append_assoc, List.cons_append]

/-- **The loop of a claim**, over the same executions. -/
theorem lockstep_claimLoop (h : TimelyPeriod request.now request.leaseDuration)
    (executions claimed : List (WorkflowExecutionRecord δ)) :
    (coupling Written hs).Lockstep Eq (Runtime.claimLoop request executions claimed)
      (claimLoop (claimRequest request) executions claimed) := by
  induction executions generalizing claimed with
  | nil => exact Coupling.lockstep_ret rfl
  | cons execution rest ih =>
    rw [Runtime.claimLoop, claimLoop]
    refine Coupling.lockstep_ite (capped_iff request claimed).symm
      (fun _ => Coupling.lockstep_ret rfl) fun _ => ?_
    refine Coupling.lockstep_ite (skipped_iff request execution).symm (fun _ => ih claimed) fun _ => ?_
    refine Coupling.lockstep_ite (not_congr (visible_iff request execution).symm)
      (fun _ => ih claimed) fun _ => ?_
    -- the heartbeat says when the claim ends a second time
    have hends : plus (claimRequest request).now (claimRequest request).leaseDuration =
        request.now.plus request.leaseDuration := plus_nanoseconds _ h.nonneg
    simp only [claim_eq h, hends]
    refine Coupling.lockstep_do (lockstep_put _ ?_) fun _ _ _ => ?_
    · rintro _ ⟨rfl⟩
      exact h.ends
    · exact Coupling.lockstep_do (lockstep_putHeartbeat rfl _ _) fun _ _ _ => ih _

theorem lockstep_claimStepsTx (h : TimelyPeriod request.now request.leaseDuration) :
    (coupling Written hs).LockstepFresh Eq (Runtime.claimStepsTx (δ := δ) request)
      (claimStepsTx (claimRequest request)) := by
  refine Coupling.lockstepFresh_do (lockstep_all fun _ _ => read_execution) ?_
  rintro executions _ ⟨rfl, -⟩
  exact lockstep_claimLoop h executions []

end

/-! ### Heartbeats and ends -/

theorem lockstep_keepAliveStepTx {request : Runtime.KeepAliveWorkflowStepRequest}
    (h : TimelyPeriod request.now request.leaseDuration) :
    (coupling Written hs).LockstepFresh Eq (Runtime.keepAliveStepTx (δ := δ) request)
      (keepAliveStepTx (keepAliveRequest request)) := by
  have hends : plus (keepAliveRequest request).now (keepAliveRequest request).leaseDuration =
      request.now.plus request.leaseDuration := plus_nanoseconds _ h.nonneg
  refine Coupling.lockstepFresh_do (lockstep_requireExecution request.workflowExecutionId) ?_
  rintro execution _ ⟨rfl, -⟩
  refine lockstep_requireClaim fun htoken => ?_
  simp only [hends]
  -- the expiry Rust has already changed is not in the heartbeat
  exact Coupling.lockstep_do (lockstep_putHeartbeat htoken request.worker _) fun _ _ _ =>
    Coupling.lockstep_ret rfl

/-- Both put back the same execution. -/
theorem lockstep_finish (workflowExecutionId : Bytes)
    (execution finished : WorkflowExecutionRecord δ) (hexpiry : finished.claimExpiresAt = none) :
    (coupling Written hs).Lockstep Eq (Runtime.finish workflowExecutionId execution finished)
      (finish workflowExecutionId execution finished) := by
  refine Coupling.lockstep_do (lockstep_put _ ?_) fun _ _ _ => ?_
  · rw [hexpiry]
    exact .none
  · exact Coupling.lockstep_do (lockstep_eraseHeartbeat _ _) fun _ _ _ => Coupling.lockstep_ret rfl

theorem complete_eq (request : CompleteWorkflowStepRequest δ)
    (execution : WorkflowExecutionRecord δ) :
    complete request execution = Runtime.complete request execution := by
  rw [complete, Runtime.complete]
  cases request.nextStep <;> rfl

theorem lockstep_completeStepTx (request : CompleteWorkflowStepRequest δ) :
    (coupling Written hs).LockstepFresh Eq (Runtime.completeStepTx request)
      (completeStepTx request) := by
  refine Coupling.lockstepFresh_do (lockstep_requireExecution request.workflowExecutionId) ?_
  rintro execution _ ⟨rfl, -⟩
  refine lockstep_requireClaim fun _ => ?_
  rw [complete_eq]
  refine lockstep_finish _ execution _ ?_
  rw [Runtime.complete]
  cases request.nextStep <;> rfl

theorem lockstep_failStepTx (request : FailWorkflowStepRequest) :
    (coupling Written hs).LockstepFresh Eq (Runtime.failStepTx (δ := δ) request)
      (failStepTx request) := by
  refine Coupling.lockstepFresh_do (lockstep_requireExecution request.workflowExecutionId) ?_
  rintro execution _ ⟨rfl, -⟩
  refine lockstep_requireClaim fun _ => ?_
  exact lockstep_finish _ execution (Runtime.fail request execution) rfl

theorem lockstep_cancelTx (request : CancelWorkflowRequest) :
    (coupling Written hs).LockstepFresh Eq (Runtime.cancelTx (δ := δ) request)
      (cancelTx request) := by
  refine Coupling.lockstepFresh_do (lockstep_requireExecution request.workflowExecutionId) ?_
  rintro execution _ ⟨rfl, -⟩
  exact lockstep_finish _ execution execution.canceled rfl

end Workflow

/-- **Every request** comes to the same. -/
theorem lockstep_request {hs : SameStore Stored s s'} {request : StoreRequest δ}
    (h : request.Timely) :
    (coupling Written hs).LockstepFresh Eq request.cpp request.rust := by
  cases request with
  | enqueue request =>
    exact Coupling.lockstepFresh_map (Queue.lockstep_enqueueTx request) fun _ _ => congrArg _
  | claim request =>
    exact Coupling.lockstepFresh_map (Queue.lockstep_claimTx h) fun _ _ => congrArg _
  | acknowledge request =>
    exact Coupling.lockstepFresh_map (Queue.lockstep_acknowledgeTx request) fun _ _ _ => rfl
  | fail request =>
    exact Coupling.lockstepFresh_map (Queue.lockstep_failTx request) fun _ _ => congrArg _
  | inspect messageId =>
    exact Coupling.lockstepFresh_map (Queue.lockstep_inspectTx messageId) fun _ _ h => congrArg _ h.1
  | start request =>
    exact Coupling.lockstepFresh_map (Workflow.lockstep_startTx request) fun _ _ => congrArg _
  | claimSteps request =>
    exact Coupling.lockstepFresh_map (Workflow.lockstep_claimStepsTx h) fun _ _ => congrArg _
  | keepAliveStep request =>
    exact Coupling.lockstepFresh_map (Workflow.lockstep_keepAliveStepTx h) fun _ _ => congrArg _
  | completeStep request =>
    exact Coupling.lockstepFresh_map (Workflow.lockstep_completeStepTx request) fun _ _ => congrArg _
  | failStep request =>
    exact Coupling.lockstepFresh_map (Workflow.lockstep_failStepTx request) fun _ _ => congrArg _
  | cancel request =>
    exact Coupling.lockstepFresh_map (Workflow.lockstep_cancelTx request) fun _ _ => congrArg _
  | inspectExecution workflowExecutionId =>
    exact Coupling.lockstepFresh_map (Workflow.lockstep_inspectTx workflowExecutionId)
      fun _ _ h => congrArg _ h.1

end StateSpec.Rust
