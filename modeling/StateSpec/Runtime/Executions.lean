/-
  EXECUTIONS — what the operations of the workflow store do to one execution.

  `executionAt` reads an execution back from the documents.  Each operation has one rule that says
  what its program returns and leaves (`runs_startTx`, `runs_claimStepsTx`, ...); from them,
  `change_of_runs` lists, for one execution, everything a request can do to it (`Change`), and what
  is proved of executions over whole runs splits on that list.

  `WellFormed` is the invariant of the executions: each is stored under its own id, and either has a
  complete claim and is running, or has none (`wellFormed_history`).
-/
import StateSpec.Lib.Claims
import StateSpec.Runtime.WorkflowStore

namespace StateSpec.Runtime

open Program Interleaving Memory

variable {δ : Type}

/-- The requests of a history, with their responses. -/
abbrev WorkflowLog (δ : Type) := List (WorkflowRequest δ × WorkflowResponse δ)

variable {d d' : Docs δ}

/-! ## Reading back -/

/-- The execution that is stored under an id. -/
def executionAt (d : Docs δ) (k : Key) : Option (WorkflowExecutionRecord δ) :=
  (d .workflowExecutions k).bind fun document => (WorkflowExecutionRecord.fromJson document).toOption

theorem executionAt_congr {k : Key} (h : d' .workflowExecutions k = d .workflowExecutions k) :
    executionAt d' k = executionAt d k :=
  decodedAt_congr h

/-- What is read back after an execution has been put. -/
theorem executionAt_set (d : Docs δ) (execution : WorkflowExecutionRecord δ) (k k' : Key) :
    executionAt (d.set .workflowExecutions k (some execution.toJson)) k' =
      if k' = k then some execution.stored else executionAt d k' :=
  decodedAt_set execution.fromJson_toJson d _ k k'

/-- Writing to another collection changes no execution. -/
theorem set_executions {c : RuntimeCollection} (hc : c ≠ .workflowExecutions) (k k' : Key)
    (document : Option (Json δ)) :
    d.set c k document .workflowExecutions k' = d .workflowExecutions k' := by
  rw [Documents.set, if_neg fun h => hc h.1.symm]

/-! ## The rules of the programs -/

theorem runs_inspectTx {k : Key} {r : Option (WorkflowExecutionRecord δ)}
    (h : (inspectTx k).Runs d r d') : d' = d ∧ r = executionAt d k :=
  runs_decoded h rfl fun _ => rfl

theorem runs_requireExecution {k : Key} {execution : WorkflowExecutionRecord δ}
    (h : (requireExecution k).Runs d execution d') : d' = d ∧ executionAt d k = some execution := by
  obtain ⟨r, mid, hinspect, hrest⟩ := runs_do.mp h
  obtain ⟨rfl, rfl⟩ := runs_inspectTx hinspect
  cases hexecution : executionAt mid k with
  | none =>
    rw [hexecution] at hrest
    exact absurd hrest runs_throw
  | some execution =>
    rw [hexecution] at hrest
    obtain ⟨rfl, rfl⟩ := runs_pure.mp hrest
    exact ⟨rfl, rfl⟩

theorem runs_requireClaim {execution : WorkflowExecutionRecord δ} {worker step claimToken : Bytes}
    {u : Unit} (h : (requireClaim execution worker step claimToken).Runs d u d') :
    d' = d ∧ HoldsClaim execution worker step claimToken := by
  rw [requireClaim] at h
  split at h
  · exact ⟨(runs_pure.mp h).2, ‹_›⟩
  · exact absurd h runs_throw

theorem runs_putHeartbeat {execution : WorkflowExecutionRecord δ} {worker : Bytes}
    {expiry : Timestamp} {u : Unit} (h : (putHeartbeat execution worker expiry).Runs d u d') :
    d' .workflowExecutions = d .workflowExecutions := by
  rw [runs_write.mp h]
  funext k
  exact set_executions (by decide) _ _ _

theorem runs_eraseHeartbeat {k : Bytes} {claimToken : Option Bytes} {u : Unit}
    (h : (eraseHeartbeat k claimToken).Runs d u d') :
    d' .workflowExecutions = d .workflowExecutions := by
  cases claimToken with
  | none => rw [(runs_pure.mp h).2]
  | some token =>
    rw [runs_remove.mp h]
    funext k
    exact set_executions (by decide) _ _ _

/-- The execution is put back as it was finished, and no other is touched. -/
theorem runs_finish {k : Bytes} {execution finished r : WorkflowExecutionRecord δ}
    (h : (finish k execution finished).Runs d r d') (k' : Key) :
    executionAt d' k' =
      if k' = finished.workflowExecutionId then some finished.stored else executionAt d k' := by
  obtain ⟨_, mid, hwrite, hrest⟩ := runs_do.mp h
  obtain ⟨_, mid', herase, hlast⟩ := runs_do.mp hrest
  obtain ⟨-, rfl⟩ := runs_pure.mp hlast
  rw [executionAt_congr (congrFun (runs_eraseHeartbeat herase) k'), runs_write.mp hwrite,
    executionAt_set]

theorem runs_startTx {request : StartWorkflowRequest δ} {r : WorkflowExecutionRecord δ}
    (h : (startTx request).Runs d r d') :
    (executionAt d request.workflowExecutionId = some r ∧ d' = d) ∨
    (executionAt d request.workflowExecutionId = none ∧ r = started request ∧
      ∀ k, executionAt d' k =
        if k = request.workflowExecutionId then some (started request).stored
        else executionAt d k) := by
  obtain ⟨existing, mid, hinspect, hrest⟩ := runs_do.mp h
  obtain ⟨rfl, rfl⟩ := runs_inspectTx hinspect
  cases hexisting : executionAt mid request.workflowExecutionId with
  | some existing =>
    rw [hexisting] at hrest
    obtain ⟨rfl, rfl⟩ := runs_pure.mp hrest
    exact Or.inl ⟨rfl, rfl⟩
  | none =>
    rw [hexisting] at hrest
    obtain ⟨_, mid', hwrite, hlast⟩ := runs_do.mp hrest
    obtain ⟨rfl, rfl⟩ := runs_pure.mp hlast
    refine Or.inr ⟨rfl, rfl, fun k => ?_⟩
    rw [runs_write.mp hwrite, executionAt_set]
    rfl

/-- What the holder of a claim does goes on with the claimed execution. -/
theorem runs_holder {k worker step claimToken : Bytes} {α : Type} {r : α}
    {next : WorkflowExecutionRecord δ → TxProgram δ α}
    (h : (do
      let execution ← requireExecution k
      requireClaim execution worker step claimToken
      next execution : TxProgram δ α).Runs d r d') :
    ∃ execution, executionAt d k = some execution ∧
      HoldsClaim execution worker step claimToken ∧ (next execution).Runs d r d' := by
  obtain ⟨execution, mid, hrequire, hrest⟩ := runs_do.mp h
  obtain ⟨rfl, hexecution⟩ := runs_requireExecution hrequire
  obtain ⟨_, mid', hclaim, hlast⟩ := runs_do.mp hrest
  obtain ⟨rfl, hholds⟩ := runs_requireClaim hclaim
  exact ⟨execution, hexecution, hholds, hlast⟩

theorem runs_keepAliveStepTx {request : KeepAliveWorkflowStepRequest}
    {r : WorkflowExecutionRecord δ} (h : (keepAliveStepTx request).Runs d r d') :
    ∃ execution, executionAt d request.workflowExecutionId = some execution ∧
      HoldsClaim execution request.worker request.currentStep request.claimToken ∧
      d' .workflowExecutions = d .workflowExecutions := by
  obtain ⟨execution, hexecution, hholds, hrest⟩ := runs_holder h
  obtain ⟨_, mid, hput, hlast⟩ := runs_do.mp hrest
  obtain ⟨-, rfl⟩ := runs_pure.mp hlast
  exact ⟨execution, hexecution, hholds, runs_putHeartbeat hput⟩

theorem runs_cancelTx {request : CancelWorkflowRequest} {r : WorkflowExecutionRecord δ}
    (h : (cancelTx request).Runs d r d') :
    ∃ execution, executionAt d request.workflowExecutionId = some execution ∧
      (finish request.workflowExecutionId execution execution.canceled).Runs d r d' := by
  obtain ⟨execution, mid, hrequire, hrest⟩ := runs_do.mp h
  obtain ⟨rfl, hexecution⟩ := runs_requireExecution hrequire
  exact ⟨execution, hexecution, hrest⟩

theorem runs_inspectDefinitionTx {name : Bytes} {version : Int}
    {r : Option (WorkflowDefinition δ)} (h : (inspectDefinitionTx name version).Runs d r d') :
    d' = d :=
  (runs_decoded h rfl fun _ => rfl).1

theorem runs_registerDefinitionTx {definition : WorkflowDefinition δ}
    {r : WorkflowDefinitionRegistration δ} (h : (registerDefinitionTx definition).Runs d r d') :
    d' .workflowExecutions = d .workflowExecutions := by
  obtain ⟨existing, mid, hinspect, hrest⟩ := runs_do.mp h
  obtain rfl := runs_inspectDefinitionTx hinspect
  obtain ⟨_, mid', hwrite, hlast⟩ := runs_do.mp hrest
  obtain ⟨-, rfl⟩ := runs_pure.mp hlast
  rw [runs_write.mp hwrite]
  funext k
  exact set_executions (by decide) _ _ _

/-! ## The claim loop -/

/-- The execution with that id among those a request has claimed. -/
def claimedOf (k : Key) (executions : List (WorkflowExecutionRecord δ)) :
    Option (WorkflowExecutionRecord δ) :=
  executions.find? fun execution => execution.workflowExecutionId == k

/-- What a claim does to the execution `k`: nothing, or it claims it. -/
def ClaimedOrNot (request : ClaimWorkflowStepRequest) (d d' : Docs δ)
    (executions claimed : List (WorkflowExecutionRecord δ)) (k : Key) : Prop :=
  (claimedOf k claimed = none ∧ executionAt d' k = executionAt d k) ∨
  ∃ execution ∈ executions, execution.workflowExecutionId = k ∧ Requested request execution ∧
    Visible execution request.now ∧ claimedOf k claimed = some (claim request execution) ∧
    executionAt d' k = some (claim request execution).stored

/-- One round of the loop: it is over, or it skips the execution, or it claims it. -/
theorem runs_claimLoop_cons {request : ClaimWorkflowStepRequest} {execution : WorkflowExecutionRecord δ}
    {rest claimed l : List (WorkflowExecutionRecord δ)}
    (h : (claimLoop request (execution :: rest) claimed).Runs d l d') :
    (l = claimed ∧ d' = d) ∨ (claimLoop request rest claimed).Runs d l d' ∨
    (claimed.length < request.maxSteps.toNat ∧ Requested request execution ∧
      Visible execution request.now ∧
      ∃ mid, (putHeartbeat (claim request execution) request.worker
          (request.now.plus request.leaseDuration)).Runs
          (d.set .workflowExecutions execution.workflowExecutionId
            (some (claim request execution).toJson)) () mid ∧
        (claimLoop request rest (claimed ++ [claim request execution])).Runs mid l d') := by
  rw [claimLoop] at h
  by_cases hmax : claimed.length ≥ request.maxSteps.toNat
  · rw [if_pos hmax] at h
    exact Or.inl (runs_pure.mp h)
  rw [if_neg hmax] at h
  by_cases hrequested : Requested request execution
  swap
  · rw [if_pos hrequested] at h
    exact Or.inr (Or.inl h)
  rw [if_neg (not_not_intro hrequested)] at h
  by_cases hvisible : Visible execution request.now
  swap
  · rw [if_pos hvisible] at h
    exact Or.inr (Or.inl h)
  rw [if_neg (not_not_intro hvisible)] at h
  obtain ⟨_, mid, hwrite, hrest⟩ := runs_do.mp h
  obtain ⟨_, mid', hput, hlast⟩ := runs_do.mp hrest
  rw [runs_write.mp hwrite] at hput
  exact Or.inr (Or.inr ⟨by omega, hrequested, hvisible, mid', hput, hlast⟩)

/-- The same, by what can be read back. -/
theorem runs_claimLoop_round {request : ClaimWorkflowStepRequest}
    {execution : WorkflowExecutionRecord δ} {rest claimed l : List (WorkflowExecutionRecord δ)}
    (h : (claimLoop request (execution :: rest) claimed).Runs d l d') :
    (l = claimed ∧ d' = d) ∨ (claimLoop request rest claimed).Runs d l d' ∨
    (Requested request execution ∧ Visible execution request.now) ∧ ∃ mid,
      (∀ k, executionAt mid k =
        if k = execution.workflowExecutionId then some (claim request execution).stored
        else executionAt d k) ∧
      (claimLoop request rest (claimed ++ [claim request execution])).Runs mid l d' := by
  refine (runs_claimLoop_cons h).imp (fun hover => hover) (Or.imp (fun hskip => hskip) ?_)
  rintro ⟨-, hrequested, hvisible, mid, hput, hlast⟩
  refine ⟨⟨hrequested, hvisible⟩, mid, fun k => ?_, hlast⟩
  rw [executionAt_congr (congrFun (runs_putHeartbeat hput) k), executionAt_set]

/-- The loop claims some of the executions that are still to look at. -/
theorem runs_claimLoop {request : ClaimWorkflowStepRequest}
    {executions claimed l : List (WorkflowExecutionRecord δ)}
    (hnodup : (executions.map WorkflowExecutionRecord.workflowExecutionId).Nodup)
    (h : (claimLoop request executions claimed).Runs d l d') :
    ∃ new, l = claimed ++ new ∧ ∀ k, ClaimedOrNot request d d' executions new k := by
  obtain ⟨new, hl, hnew⟩ := runs_sweep (claimLoop request)
    WorkflowExecutionRecord.workflowExecutionId (claim request) WorkflowExecutionRecord.stored
    (fun execution => Requested request execution ∧ Visible execution request.now) executionAt
    (fun _ => rfl) runs_claimLoop_round (fun _ => rfl) hnodup h
  refine ⟨new, hl, fun k => (hnew k).imp (fun hsame => hsame) ?_⟩
  rintro ⟨execution, hmem, hid, ⟨hrequested, hvisible⟩, hclaimed⟩
  exact ⟨execution, hmem, hid, hrequested, hvisible, hclaimed⟩

/-- Each execution is stored under its own id. -/
def Keyed (d : Docs δ) : Prop :=
  ∀ k execution, executionAt d k = some execution → execution.workflowExecutionId = k

theorem runs_allExecutions {l : List (WorkflowExecutionRecord δ)} (hkeyed : Keyed d)
    (h : (allExecutions).Runs d l d') :
    d' = d ∧ (l.map WorkflowExecutionRecord.workflowExecutionId).Nodup ∧
      ∀ e ∈ l, executionAt d e.workflowExecutionId = some e :=
  runs_scanDecoded hkeyed h

theorem runs_claimStepsTx {request : ClaimWorkflowStepRequest}
    {l : List (WorkflowExecutionRecord δ)} (hkeyed : Keyed d)
    (h : (claimStepsTx request).Runs d l d') (k : Key) :
    (claimedOf k l = none ∧ executionAt d' k = executionAt d k) ∨
    ∃ execution, executionAt d k = some execution ∧ Requested request execution ∧
      Visible execution request.now ∧ claimedOf k l = some (claim request execution) ∧
      executionAt d' k = some (claim request execution).stored := by
  obtain ⟨executions, mid, hall, hrest⟩ := runs_do.mp h
  obtain ⟨rfl, hnodup, hexecutions⟩ := runs_allExecutions hkeyed hall
  obtain ⟨new, rfl, hnew⟩ := runs_claimLoop hnodup hrest
  refine (hnew k).imp id ?_
  rintro ⟨execution, hmem, rfl, hclaimed⟩
  exact ⟨execution, hexecutions execution hmem, hclaimed⟩

/-! ## The collections the programs leave alone -/

section

variable (c : RuntimeCollection)

theorem leaves_inspectTx (k : Bytes) : (inspectTx k : TxProgram δ _).Leaves c :=
  leaves_decoded rfl fun _ => rfl

theorem leaves_inspectDefinitionTx (name : Bytes) (version : Int) :
    (inspectDefinitionTx name version : TxProgram δ _).Leaves c :=
  leaves_decoded rfl fun _ => rfl

theorem leaves_requireExecution (k : Bytes) : (requireExecution k : TxProgram δ _).Leaves c := by
  refine leaves_do (leaves_inspectTx c k) fun execution => ?_
  cases execution with
  | none => trivial
  | some execution => trivial

theorem leaves_requireClaim (execution : WorkflowExecutionRecord δ) (worker step token : Bytes) :
    (requireClaim execution worker step token).Leaves c := by
  rw [requireClaim]
  split <;> trivial

variable {c}

theorem leaves_registerDefinitionTx (hc : RuntimeCollection.workflowDefinitions ≠ c)
    (definition : WorkflowDefinition δ) : (registerDefinitionTx definition).Leaves c := by
  refine leaves_do (leaves_inspectDefinitionTx c _ _) fun existing => ?_
  exact leaves_do (leaves_write hc _ _) fun _ => trivial

theorem leaves_startTx (hc : RuntimeCollection.workflowExecutions ≠ c)
    (request : StartWorkflowRequest δ) : (startTx request).Leaves c := by
  refine leaves_do (leaves_inspectTx c _) fun existing => ?_
  cases existing with
  | none => exact leaves_do (leaves_write hc _ _) fun _ => trivial
  | some existing => trivial

theorem leaves_putHeartbeat (hc : RuntimeCollection.workflowHeartbeats ≠ c)
    (execution : WorkflowExecutionRecord δ) (worker : Bytes) (expiry : Timestamp) :
    (putHeartbeat execution worker expiry).Leaves c :=
  leaves_write hc _ _

theorem leaves_eraseHeartbeat (hc : RuntimeCollection.workflowHeartbeats ≠ c) (k : Bytes)
    (claimToken : Option Bytes) : (eraseHeartbeat k claimToken : TxProgram δ _).Leaves c := by
  cases claimToken with
  | none => trivial
  | some token => exact leaves_remove hc _

theorem leaves_claimLoop (hc : RuntimeCollection.workflowExecutions ≠ c)
    (hc' : RuntimeCollection.workflowHeartbeats ≠ c) (request : ClaimWorkflowStepRequest)
    (executions claimed : List (WorkflowExecutionRecord δ)) :
    (claimLoop request executions claimed).Leaves c := by
  induction executions generalizing claimed with
  | nil => trivial
  | cons execution rest ih =>
    rw [claimLoop]
    split_ifs
    · trivial
    · refine leaves_do (leaves_write hc _ _) fun _ => ?_
      exact leaves_do (leaves_putHeartbeat hc' _ _ _) fun _ => ih _
    · exact ih claimed
    · exact ih claimed

theorem leaves_claimStepsTx (hc : RuntimeCollection.workflowExecutions ≠ c)
    (hc' : RuntimeCollection.workflowHeartbeats ≠ c) (request : ClaimWorkflowStepRequest) :
    (claimStepsTx request : TxProgram δ _).Leaves c := by
  refine leaves_do ?_ fun executions => leaves_claimLoop hc hc' request executions []
  exact leaves_do (leaves_scan c _) fun records => leaves_ofExcept c _

/-- The frame of the operations on a claim. -/
theorem leaves_holder {k worker step claimToken : Bytes}
    {next : WorkflowExecutionRecord δ → TxProgram δ (WorkflowExecutionRecord δ)}
    (hnext : ∀ execution, (next execution).Leaves c) :
    (do
      let execution ← requireExecution k
      requireClaim execution worker step claimToken
      next execution : TxProgram δ (WorkflowExecutionRecord δ)).Leaves c := by
  refine leaves_do (leaves_requireExecution c k) fun execution => ?_
  exact leaves_do (leaves_requireClaim c _ _ _ _) fun _ => hnext execution

theorem leaves_keepAliveStepTx (hc : RuntimeCollection.workflowHeartbeats ≠ c)
    (request : KeepAliveWorkflowStepRequest) : (keepAliveStepTx request : TxProgram δ _).Leaves c :=
  leaves_holder fun _ => leaves_do (leaves_putHeartbeat hc _ _ _) fun _ => trivial

theorem leaves_finish (hc : RuntimeCollection.workflowExecutions ≠ c)
    (hc' : RuntimeCollection.workflowHeartbeats ≠ c) (k : Bytes)
    (execution finished : WorkflowExecutionRecord δ) : (finish k execution finished).Leaves c := by
  refine leaves_do (leaves_write hc _ _) fun _ => ?_
  exact leaves_do (leaves_eraseHeartbeat hc' _ _) fun _ => trivial

end

/-! ## What a request can do to one execution -/

/-- What a committed request has done to the claim of the execution `k`. -/
def claimEvent (k : Key) : WorkflowRequest δ × WorkflowResponse δ → ClaimEvent Bytes
  | (.claimSteps _, .claimed executions) =>
    match claimedOf k executions with
    | some execution => .issue (execution.claimToken.getD [])
    | none => .other
  | (.completeStep request, _) =>
    if request.workflowExecutionId = k then .finalize request.claimToken else .other
  | (.failStep request, _) =>
    if request.workflowExecutionId = k then .finalize request.claimToken else .other
  | (.cancel request, _) => if request.workflowExecutionId = k then .cancel else .other
  | _ => .other

/-- The request keeps a claim of the execution `k` alive. -/
def KeepsAlive (k : Key) : WorkflowRequest δ → Prop
  | .keepAliveStep request => request.workflowExecutionId = k
  | _ => False

/-- **Everything a request can do to the execution `k`**, with the execution before and after. -/
inductive Change (k : Key) : WorkflowRequest δ → WorkflowResponse δ →
    Option (WorkflowExecutionRecord δ) → Option (WorkflowExecutionRecord δ) → Prop where
  | other {request : WorkflowRequest δ} {response : WorkflowResponse δ}
      (execution : Option (WorkflowExecutionRecord δ)) :
      claimEvent k (request, response) = .other → ¬ KeepsAlive k request →
      Change k request response execution execution
  | start (request : StartWorkflowRequest δ) (response : WorkflowResponse δ) :
      request.workflowExecutionId = k →
      Change k (.start request) response none (some (started request).stored)
  | claim (request : ClaimWorkflowStepRequest) (executions : List (WorkflowExecutionRecord δ))
      (execution : WorkflowExecutionRecord δ) : Requested request execution →
      Visible execution request.now → claimedOf k executions = some (claim request execution) →
      Change k (.claimSteps request) (.claimed executions) (some execution)
        (some (Runtime.claim request execution).stored)
  | keepAlive (request : KeepAliveWorkflowStepRequest) (response : WorkflowResponse δ)
      (execution : WorkflowExecutionRecord δ) : request.workflowExecutionId = k →
      HoldsClaim execution request.worker request.currentStep request.claimToken →
      Change k (.keepAliveStep request) response (some execution) (some execution)
  | complete (request : CompleteWorkflowStepRequest δ) (response : WorkflowResponse δ)
      (execution : WorkflowExecutionRecord δ) : request.workflowExecutionId = k →
      HoldsClaim execution request.worker request.completedStep request.claimToken →
      Change k (.completeStep request) response (some execution)
        (some (Runtime.complete request execution).stored)
  | fail (request : FailWorkflowStepRequest) (response : WorkflowResponse δ)
      (execution : WorkflowExecutionRecord δ) : request.workflowExecutionId = k →
      HoldsClaim execution request.worker request.failedStep request.claimToken →
      Change k (.failStep request) response (some execution)
        (some (Runtime.fail request execution).stored)
  | cancel (request : CancelWorkflowRequest) (response : WorkflowResponse δ)
      (execution : WorkflowExecutionRecord δ) : request.workflowExecutionId = k →
      Change k (.cancel request) response (some execution) (some execution.canceled.stored)

theorem complete_id (request : CompleteWorkflowStepRequest δ)
    (execution : WorkflowExecutionRecord δ) :
    (complete request execution).workflowExecutionId = execution.workflowExecutionId := by
  rw [complete]
  cases request.nextStep <;> rfl

theorem complete_attempt (request : CompleteWorkflowStepRequest δ)
    (execution : WorkflowExecutionRecord δ) :
    (complete request execution).attempt = execution.attempt := by
  rw [complete]
  cases request.nextStep <;> rfl

/-- A request that puts the execution `id` back changes this one and no other. -/
theorem change_of_finish {id : Bytes} {execution finished r : WorkflowExecutionRecord δ}
    {request : WorkflowRequest δ} {response : WorkflowResponse δ} {k : Key} (hkeyed : Keyed d)
    (he : executionAt d id = some execution) (h : (finish id execution finished).Runs d r d')
    (hfinished : finished.workflowExecutionId = execution.workflowExecutionId)
    (hthis : id = k → Change k request response (some execution) (some finished.stored))
    (hother : id ≠ k → claimEvent k (request, response) = .other ∧ ¬ KeepsAlive k request) :
    Change k request response (executionAt d k) (executionAt d' k) := by
  rw [runs_finish h, hfinished, hkeyed _ _ he]
  by_cases hk : id = k
  · rw [if_pos hk.symm, ← hk, he]
    exact hk ▸ hthis hk
  · rw [if_neg (Ne.symm hk)]
    exact .other _ (hother hk).1 (hother hk).2

/-- **The step**: a request changes an execution in one of the listed ways. -/
theorem change_of_runs (hkeyed : Keyed d) {request : WorkflowRequest δ}
    {response : WorkflowResponse δ} (h : (workflowProgram request).Runs d response d') (k : Key) :
    Change k request response (executionAt d k) (executionAt d' k) := by
  -- a request that leaves the execution alone
  have hframe (hd : d' .workflowExecutions k = d .workflowExecutions k)
      (hevent : claimEvent k (request, response) = .other) (hkeep : ¬ KeepsAlive k request) :
      Change k request response (executionAt d k) (executionAt d' k) := by
    rw [executionAt_congr hd]
    exact .other _ hevent hkeep
  cases request with
  | registerDefinition definition =>
    obtain ⟨r, hr, rfl⟩ := runs_map.mp h
    exact hframe (congrFun (runs_registerDefinitionTx hr) k) rfl id
  | inspectDefinition name version =>
    obtain ⟨r, hr, rfl⟩ := runs_map.mp h
    obtain rfl := runs_inspectDefinitionTx hr
    exact hframe rfl rfl id
  | start request =>
    obtain ⟨r, hr, rfl⟩ := runs_map.mp h
    rcases runs_startTx hr with ⟨-, rfl⟩ | ⟨hnone, rfl, hd⟩
    · exact hframe rfl rfl id
    · by_cases hk : k = request.workflowExecutionId
      · rw [hd, if_pos hk, hk, hnone]
        exact .start _ _ rfl
      · rw [hd, if_neg hk]
        exact .other _ rfl id
  | claimSteps request =>
    obtain ⟨l, hl, rfl⟩ := runs_map.mp h
    rcases runs_claimStepsTx hkeyed hl k with ⟨hnone, hd⟩ | ⟨e, he, hreq, hvis, hclaimed, hd⟩
    · rw [hd]
      exact .other _ (by rw [claimEvent, hnone]) id
    · rw [hd, he]
      exact .claim request l e hreq hvis hclaimed
  | keepAliveStep request =>
    obtain ⟨r, hr, rfl⟩ := runs_map.mp h
    obtain ⟨execution, he, hholds, hd⟩ := runs_keepAliveStepTx hr
    by_cases hk : request.workflowExecutionId = k
    · rw [executionAt_congr (congrFun hd k), ← hk, he]
      exact .keepAlive _ _ _ rfl hholds
    · exact hframe (congrFun hd k) rfl hk
  | completeStep request =>
    obtain ⟨r, hr, rfl⟩ := runs_map.mp h
    obtain ⟨execution, he, hholds, hfinish⟩ := runs_holder hr
    exact change_of_finish hkeyed he hfinish (complete_id request execution)
      (fun hk => .complete _ _ _ hk hholds) fun hk => ⟨if_neg hk, id⟩
  | failStep request =>
    obtain ⟨r, hr, rfl⟩ := runs_map.mp h
    obtain ⟨execution, he, hholds, hfinish⟩ := runs_holder hr
    exact change_of_finish hkeyed he hfinish rfl (fun hk => .fail _ _ _ hk hholds)
      fun hk => ⟨if_neg hk, id⟩
  | cancel request =>
    obtain ⟨r, hr, rfl⟩ := runs_map.mp h
    obtain ⟨execution, he, hfinish⟩ := runs_cancelTx hr
    exact change_of_finish hkeyed he hfinish rfl (fun hk => .cancel _ _ _ hk)
      fun hk => ⟨if_neg hk, id⟩
  | inspect workflowExecutionId =>
    obtain ⟨r, hr, rfl⟩ := runs_map.mp h
    obtain ⟨rfl, -⟩ := runs_inspectTx hr
    exact hframe rfl rfl id

/-! ## The invariant of the executions -/

/-- A claim is there as a whole or not at all, and only on an execution that is running. -/
structure WorkflowExecutionRecord.Sound (execution : WorkflowExecutionRecord δ) : Prop where
  token : execution.claimToken = none ↔ execution.claimedBy = none
  expires : execution.claimExpiresAt = none ↔ execution.claimedBy = none
  running : execution.claimedBy ≠ none → execution.status = Runtime.running

theorem WorkflowExecutionRecord.Sound.stored {execution : WorkflowExecutionRecord δ}
    (h : execution.Sound) : execution.stored.Sound where
  token := h.token
  expires := by
    rw [← show execution.claimExpiresAt = none ↔ execution.stored.claimedBy = none from h.expires]
    exact Option.map_eq_none_iff
  running := h.running

/-- Without a claim an execution is sound. -/
theorem WorkflowExecutionRecord.Sound.of_unclaimed {execution : WorkflowExecutionRecord δ}
    (hby : execution.claimedBy = none) (htoken : execution.claimToken = none)
    (hexpires : execution.claimExpiresAt = none) : execution.Sound where
  token := ⟨fun _ => hby, fun _ => htoken⟩
  expires := ⟨fun _ => hby, fun _ => hexpires⟩
  running h := absurd hby h

/-- Each execution is stored under its own id, and sound. -/
def WellFormed (d : Docs δ) : Prop :=
  ∀ k execution, executionAt d k = some execution →
    execution.workflowExecutionId = k ∧ execution.Sound

theorem WellFormed.keyed (h : WellFormed d) : Keyed d := fun k execution he => (h k execution he).1

theorem complete_claim (request : CompleteWorkflowStepRequest δ)
    (execution : WorkflowExecutionRecord δ) :
    (complete request execution).claimedBy = none ∧ (complete request execution).claimToken = none ∧
      (complete request execution).claimExpiresAt = none := by
  rw [complete]
  cases request.nextStep <;> exact ⟨rfl, rfl, rfl⟩

theorem Change.wellFormed {k : Key} {request : WorkflowRequest δ} {response : WorkflowResponse δ}
    {before after : Option (WorkflowExecutionRecord δ)} (h : Change k request response before after)
    (hbefore : ∀ execution, before = some execution →
      execution.workflowExecutionId = k ∧ execution.Sound) :
    ∀ execution, after = some execution →
      execution.workflowExecutionId = k ∧ execution.Sound := by
  cases h with
  | other execution hevent hkeep => exact hbefore
  | start request response hk =>
    rintro _ ⟨rfl⟩
    exact ⟨hk, WorkflowExecutionRecord.Sound.stored (.of_unclaimed rfl rfl rfl)⟩
  | claim request executions execution hrequested hvisible hclaimed =>
    rintro _ ⟨rfl⟩
    obtain ⟨hid, -⟩ := hbefore execution rfl
    refine ⟨hid, WorkflowExecutionRecord.Sound.stored ⟨?_, ?_, fun _ => hrequested.2.2.2⟩⟩ <;>
      simp [Runtime.claim]
  | keepAlive request response execution hk hholds => exact hbefore
  | complete request response execution hk hholds =>
    rintro _ ⟨rfl⟩
    obtain ⟨hid, -⟩ := hbefore execution rfl
    obtain ⟨hby, htoken, hexpires⟩ := complete_claim request execution
    exact ⟨(complete_id request execution).trans hid,
      WorkflowExecutionRecord.Sound.stored (.of_unclaimed hby htoken hexpires)⟩
  | fail request response execution hk hholds =>
    rintro _ ⟨rfl⟩
    exact ⟨(hbefore execution rfl).1,
      WorkflowExecutionRecord.Sound.stored (.of_unclaimed rfl rfl rfl)⟩
  | cancel request response execution hk =>
    rintro _ ⟨rfl⟩
    exact ⟨(hbefore execution rfl).1,
      WorkflowExecutionRecord.Sound.stored (.of_unclaimed rfl rfl rfl)⟩

/-- **Induction over a history, for one execution**: what every change of a well-formed execution
    preserves holds at the end of the history. -/
theorem history_invariant
    {P : List (WorkflowRequest δ × WorkflowResponse δ) → Docs δ → WorkflowRequest δ → Prop}
    {Q : List (WorkflowRequest δ × WorkflowResponse δ) → Option (WorkflowExecutionRecord δ) → Prop}
    {d₀ : Docs δ} {log : List (WorkflowRequest δ × WorkflowResponse δ)} (k : Key)
    (h : History workflowProgram P d₀ log d) (hwf : WellFormed d₀) (hinit : Q [] (executionAt d₀ k))
    (hstep : ∀ log d request response after, P log d request → WellFormed d →
      Q log (executionAt d k) → Change k request response (executionAt d k) after →
      Q (log ++ [(request, response)]) after) :
    WellFormed d ∧ Q log (executionAt d k) := by
  induction h with
  | nil => exact ⟨hwf, hinit⟩
  | snoc _ hP hruns ih =>
    obtain ⟨hwf', hQ⟩ := ih
    have hchange := change_of_runs hwf'.keyed hruns
    exact ⟨fun k => (hchange k).wellFormed (hwf' k), hstep _ _ _ _ _ hP hwf' hQ (hchange k)⟩

/-! ## The store on the C++ backend -/

variable [Decimal δ]

/-- The documents after a run of the store. -/
def workflowDocs (es : List (SessionEvent (WorkflowRequest δ) Unit)) : Docs δ :=
  docs (run workflowStore (World.init InMemoryState.empty) es).shared

/-- The requests a run of the store has carried out, with their responses. -/
def workflowLog (es : List (SessionEvent (WorkflowRequest δ) Unit)) : WorkflowLog δ :=
  answers (run workflowStore (World.init InMemoryState.empty) es).log

theorem later_ensureWorkflowCollections (s : Cpp.State δ) (u : Unit) :
    Later s (ensureWorkflowCollections u s) :=
  Cpp.later_register s workflowCollections

/-- Registering the collections changes no document. -/
theorem docs_ensureWorkflowCollections (s : Cpp.State δ) (u : Unit) :
    docs (ensureWorkflowCollections u s) = docs s :=
  docs_register s workflowCollections

/-- An empty backend has no executions. -/
theorem executionAt_empty (k : Key) :
    executionAt (docs (InMemoryState.empty : Cpp.State δ)) k = none := rfl

theorem wellFormed_empty : WellFormed (docs (InMemoryState.empty : Cpp.State δ)) := by
  intro k execution h
  cases h

/-- **The runs of the store are histories**, from the empty backend. -/
theorem history_workflowStore
    {P : List (WorkflowRequest δ × WorkflowResponse δ) → Docs δ → WorkflowRequest δ → Prop}
    {es : List (SessionEvent (WorkflowRequest δ) Unit)}
    (hes : RunMeets workflowStore (Committing P) (World.init InMemoryState.empty) es) :
    History workflowProgram P (docs (InMemoryState.empty : Cpp.State δ))
      (answers (run workflowStore (World.init InMemoryState.empty) es).log)
      (docs (run workflowStore (World.init InMemoryState.empty) es).shared) := by
  have h := history_run later_ensureWorkflowCollections docs_ensureWorkflowCollections
    (Discipline.inv_init _ _) hes
  rw [log_run]
  exact h

/-- Every state that can be reached is well formed. -/
theorem wellFormed_run (es : List (SessionEvent (WorkflowRequest δ) Unit)) :
    WellFormed (docs (run workflowStore (World.init InMemoryState.empty) es).shared) :=
  (history_invariant (Q := fun _ _ => True) []
    (history_from later_ensureWorkflowCollections docs_ensureWorkflowCollections _ [] es)
    wellFormed_empty trivial fun _ _ _ _ _ _ _ _ _ => trivial).1

end StateSpec.Runtime
