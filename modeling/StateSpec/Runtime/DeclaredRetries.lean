/-
  DECLARED RETRIES — whether the workers of a system run what its workflows declare.

  The generated `run_once` claims steps of version 1 of its workflow, whatever version is declared, so
  it claims what it should exactly when that is version 1 (first part of `declared_workers`).  It allows
  three attempts of an execution, over all its steps, whatever retries the steps declare.  So an
  execution becomes Failed as declared as long as, whenever a step fails at the third attempt or later,
  its own failures make up for its retries: the attempts that were made for other steps, or completed
  the step, are not counted (second part).

  `StepTries` counts what has happened to one step of an execution; `Tried` relates the counts to the
  record.
-/
import StateSpec.Runtime.RetryBudget
import StateSpec.Runtime.WorkflowRunner

namespace StateSpec.Runtime

open Program Interleaving Memory

variable {δ : Type}

/-! ## The declaration -/

structure DeclaredStep where
  name : Bytes
  maxRetries : Nat

/-- A workflow as the validator accepts it: with a version, and its steps with their retries. -/
structure DeclaredWorkflow where
  name : Bytes
  version : Int
  steps : List DeclaredStep
  version_pos : 0 < version
  nodup : (steps.map DeclaredStep.name).Nodup

/-! ## What has happened to a step -/

/-- What has happened to one step of an execution: how often it has been claimed, has failed and has
    been completed, and how often another step has been claimed. -/
structure StepTries where
  claims : Nat := 0
  fails : Nat := 0
  completions : Nat := 0
  others : Nat := 0

/-- The counts of the step `s` of the execution `k` after one more call. -/
def StepTries.next (k : Key) (s : Bytes) (tries : StepTries) :
    WorkflowRequest δ × WorkflowResponse δ → StepTries
  | (.claimSteps _, .claimed executions) =>
    match claimedOf k executions with
    | none => tries
    | some execution =>
      if execution.currentStep = s then { tries with claims := tries.claims + 1 }
      else { tries with others := tries.others + 1 }
  | (.completeStep request, _) =>
    if request.workflowExecutionId = k ∧ request.completedStep = s then
      { tries with completions := tries.completions + 1 }
    else tries
  | (.failStep request, _) =>
    if request.workflowExecutionId = k ∧ request.failedStep = s then
      { tries with fails := tries.fails + 1 }
    else tries
  | _ => tries

/-- The attempts that were made for other steps, or completed the step. -/
def StepTries.elsewhere (tries : StepTries) : Nat := tries.others + tries.completions

/-- The calls on the store in a log of transactions. -/
def calls (log : List (WorkerRequest δ × WorkerResponse δ)) : WorkflowLog δ :=
  log.filterMap Prod.snd

def stepTries (k : Key) (s : Bytes) (log : List (WorkerRequest δ × WorkerResponse δ)) : StepTries :=
  (calls log).foldl (StepTries.next k s) {}

theorem stepTries_snoc (k : Key) (s : Bytes) (log : List (WorkerRequest δ × WorkerResponse δ))
    (request : WorkerRequest δ) (response : WorkerResponse δ) :
    stepTries k s (log ++ [(request, response)]) =
      match response with
      | none => stepTries k s log
      | some call => (stepTries k s log).next k s call := by
  rw [stepTries, calls, List.filterMap_append, List.foldl_append]
  cases response <;> rfl

/-- A call that does nothing to the claims of the execution does not count. -/
theorem StepTries.next_of_other {k : Key} (s : Bytes) (tries : StepTries)
    {request : WorkflowRequest δ} {response : WorkflowResponse δ}
    (h : claimEvent k (request, response) = .other) : tries.next k s (request, response) = tries := by
  cases request with
  | claimSteps request =>
    cases response with
    | claimed executions =>
      cases hclaimed : claimedOf k executions with
      | none => rw [next, hclaimed]
      | some execution =>
        rw [claimEvent, hclaimed] at h
        cases h
    | _ => rfl
  | completeStep request =>
    refine if_neg fun hk => ?_
    rw [claimEvent, if_pos hk.1] at h
    cases h
  | failStep request =>
    refine if_neg fun hk => ?_
    rw [claimEvent, if_pos hk.1] at h
    cases h
  | _ => rfl

/-! ## The invariant -/

/-- The counts of a step, and the record of the execution. -/
structure Tried (s : Bytes) (tries : StepTries) (execution : WorkflowExecutionRecord δ) : Prop where
  attempt : execution.attempt.toNat ≤ tries.claims + tries.others
  claimed : execution.claimedBy ≠ none → execution.currentStep = s →
    tries.claims = tries.fails + tries.completions + 1
  idle : execution.status = running → execution.claimedBy = none ∨ execution.currentStep ≠ s →
    tries.claims = tries.fails + tries.completions

/-- The invariant of an execution, if it has been started. -/
def Tried.Holds (s : Bytes) (tries : StepTries) (execution : Option (WorkflowExecutionRecord δ)) :
    Prop :=
  (execution = none → tries = {}) ∧ ∀ e, execution = some e → Tried s tries e

theorem Tried.Holds.of_some {s : Bytes} {tries : StepTries} {e : WorkflowExecutionRecord δ}
    (h : Tried s tries e) : Tried.Holds s tries (some e) := by
  refine ⟨nofun, ?_⟩
  rintro _ ⟨rfl⟩
  exact h

theorem Tried.started (s : Bytes) (request : StartWorkflowRequest δ) :
    Tried s {} (started request).stored where
  attempt := Nat.zero_le _
  claimed h := absurd rfl h
  idle _ _ := rfl

/-- What a handler does to the execution keeps the invariant. -/
theorem Tried.Holds.started {k : Key} {s : Bytes} {tries : StepTries}
    {before mid : Option (WorkflowExecutionRecord δ)} (h : Tried.Holds s tries before)
    (hstarted : Started k before mid) : Tried.Holds s tries mid := by
  rcases hstarted with rfl | ⟨rfl, request, -, rfl⟩
  · exact h
  · rw [h.1 rfl]
    exact .of_some (Tried.started s request)

/-- Each call keeps the invariant, as long as no claim is claimed away. -/
theorem Tried.Holds.change {k : Key} {s : Bytes} {tries : StepTries} {request : WorkflowRequest δ}
    {response : WorkflowResponse δ} {before after : Option (WorkflowExecutionRecord δ)}
    (h : Tried.Holds s tries before) (hsound : ∀ e, before = some e → e.Sound)
    (hfree : ∀ r e, request = .claimSteps r → before = some e → Requested r e → Visible e r.now →
      e.claimedBy = none)
    (hchange : Change k request response before after) :
    Tried.Holds s (tries.next k s (request, response)) after := by
  cases hchange with
  | other execution hevent hkeep =>
    rw [tries.next_of_other s hevent]
    exact h
  | start request response hk =>
    obtain rfl := h.1 rfl
    exact .of_some (Tried.started s request)
  | keepAlive request response execution hk hholds => exact h
  | claim request executions execution hrequested hvisible hclaimed =>
    have hnobody : execution.claimedBy = none := hfree request execution rfl rfl hrequested hvisible
    obtain ⟨hattempt, -, hidle⟩ := h.2 _ rfl
    have hequal := hidle hrequested.2.2.2 (Or.inl hnobody)
    have hcount : (execution.attempt + 1).toNat ≤ execution.attempt.toNat + 1 := by
      rw [UInt64.toNat_add]
      exact Nat.mod_le _ _
    rw [StepTries.next, hclaimed]
    simp only
    by_cases hstep : execution.currentStep = s
    · rw [if_pos (show (Runtime.claim request execution).currentStep = s from hstep)]
      refine .of_some ⟨?_, fun _ _ => ?_, fun _ hidle => ?_⟩
      · show (execution.attempt + 1).toNat ≤ tries.claims + 1 + tries.others
        omega
      · show tries.claims + 1 = tries.fails + tries.completions + 1
        omega
      · rcases hidle with hnone | hother
        · cases hnone
        · exact absurd hstep hother
    · rw [if_neg (show ¬ (Runtime.claim request execution).currentStep = s from hstep)]
      refine .of_some ⟨?_, fun _ hhere => absurd hhere hstep, fun _ _ => hequal⟩
      show (execution.attempt + 1).toNat ≤ tries.claims + (tries.others + 1)
      omega
  | complete request response execution hk hholds =>
    obtain ⟨hattempt, hclaimed, hidle⟩ := h.2 _ rfl
    have hheld : execution.claimedBy ≠ none := by
      rw [hholds.1]
      nofun
    have hrunning : execution.status = running := (hsound _ rfl).running hheld
    have hreleased : (complete request execution).stored.claimedBy = none :=
      (complete_claim request execution).1
    have hattempt' : (complete request execution).stored.attempt = execution.attempt :=
      complete_attempt request execution
    rw [StepTries.next]
    by_cases hstep : request.completedStep = s
    · rw [if_pos ⟨hk, hstep⟩]
      have hequal := hclaimed hheld (hholds.2.1.trans hstep)
      refine .of_some ⟨hattempt' ▸ hattempt, fun hclaim => absurd hreleased hclaim, fun _ _ => ?_⟩
      show tries.claims = tries.fails + (tries.completions + 1)
      omega
    · rw [if_neg fun hthis => hstep hthis.2]
      have hother : execution.currentStep ≠ s := fun heq => hstep (hholds.2.1.symm.trans heq)
      exact .of_some ⟨hattempt' ▸ hattempt, fun hclaim => absurd hreleased hclaim,
        fun _ _ => hidle hrunning (Or.inr hother)⟩
  | fail request response execution hk hholds =>
    obtain ⟨hattempt, hclaimed, hidle⟩ := h.2 _ rfl
    have hheld : execution.claimedBy ≠ none := by
      rw [hholds.1]
      nofun
    have hrunning : execution.status = running := (hsound _ rfl).running hheld
    rw [StepTries.next]
    by_cases hstep : request.failedStep = s
    · rw [if_pos ⟨hk, hstep⟩]
      have hequal := hclaimed hheld (hholds.2.1.trans hstep)
      refine .of_some ⟨hattempt, fun hclaim => absurd rfl hclaim, fun _ _ => ?_⟩
      show tries.claims = tries.fails + 1 + tries.completions
      omega
    · rw [if_neg fun hthis => hstep hthis.2]
      have hother : execution.currentStep ≠ s := fun heq => hstep (hholds.2.1.symm.trans heq)
      exact .of_some ⟨hattempt, fun hclaim => absurd rfl hclaim,
        fun _ _ => hidle hrunning (Or.inr hother)⟩
  | cancel request response execution hk =>
    have hstatus : (canceled : Bytes) ≠ running := by decide
    exact .of_some ⟨(h.2 _ rfl).attempt, fun hclaim => absurd rfl hclaim,
      fun hrunning => absurd hrunning hstatus⟩

/-! ## The conditions -/

/-- No claim of the execution has expired when a worker claims it. -/
def NoWorkerExpiry (k : Key) (d : Docs δ) : WorkerRequest δ → Prop
  | .claim context workflowExecutionId now =>
    ∀ request, context.claim workflowExecutionId now = some request →
      NoClaimExpired k d (.claimSteps request)
  | _ => True

/-- When a step of an execution of the workflow fails at the third attempt or later, the attempts made
    for other steps, or completed, leave it its retries. -/
def RetriesLeft (W : DeclaredWorkflow) (k : Key) (log : List (WorkerRequest δ × WorkerResponse δ))
    (d : Docs δ) : WorkerRequest δ → Prop
  | .step _ step =>
    step.claimed.workflowExecutionId = k → ∀ execution result mid,
      executionAt d k = some execution → execution.workflowName = W.name →
      (invokeStep step.invokers execution).Runs d result mid → result.kind = .fail →
      execution.attempt.toNat < 3 ∨ ∃ declared ∈ W.steps, declared.name = execution.currentStep ∧
        1 + declared.maxRetries + (stepTries k declared.name log).elsewhere ≤ execution.attempt.toNat
  | _ => True

/-- What the runs of the workers are about, and when the retries are as declared in them. -/
def DeclaredRun (W : DeclaredWorkflow) (k : Key) (log : List (WorkerRequest δ × WorkerResponse δ))
    (d : Docs δ) (request : WorkerRequest δ) : Prop :=
  NoWorkerExpiry k d request ∧ RetriesLeft W k log d request

/-- Some step of the workflow has been claimed and has failed once more than it may be retried. -/
def RetriesUsed (W : DeclaredWorkflow) (k : Key)
    (log : List (WorkerRequest δ × WorkerResponse δ)) : Prop :=
  ∃ declared ∈ W.steps, 1 + declared.maxRetries ≤ (stepTries k declared.name log).claims ∧
    1 + declared.maxRetries ≤ (stepTries k declared.name log).fails

/-! ## Histories -/

variable {d d' : Docs δ}

/-- The call a transaction comes to. -/
def CallOf (d : Docs δ) (call : WorkflowRequest δ) : WorkerRequest δ → Prop
  | .client request => call = request.toRequest
  | .claim context workflowExecutionId now =>
    ∃ request, context.claim workflowExecutionId now = some request ∧ call = .claimSteps request
  | .keepAlive context record now => call = .keepAliveStep (context.runner.keepAliveRequest record now)
  | .step context step => ∃ current result mid,
    executionAt d step.claimed.workflowExecutionId = some current ∧
    (invokeStep step.invokers current).Runs d result mid ∧
    call = context.runner.endRequest current result step.failedAt

theorem callOf_runs {request : WorkerRequest δ} {call : WorkflowRequest δ}
    {answer : WorkflowResponse δ} (h : (workerProgram request).Runs d (some (call, answer)) d') :
    CallOf d call request := by
  have hcall {call' : WorkflowRequest δ} (hruns : (do
      let answer ← workflowProgram call'
      pure (some (call', answer)) : TxProgram δ (WorkerResponse δ)).Runs d (some (call, answer)) d') :
      call = call' := by
    obtain ⟨_, mid, -, hpure⟩ := runs_do.mp hruns
    exact (Prod.mk.inj (Option.some_inj.mp (runs_pure.mp hpure).1)).1
  cases request with
  | client request => exact hcall h
  | claim context workflowExecutionId now =>
    rw [workerProgram] at h
    cases hclaim : context.claim workflowExecutionId now with
    | none =>
      rw [hclaim] at h
      cases (runs_pure.mp h).1
    | some request =>
      rw [hclaim] at h
      exact ⟨request, hclaim, hcall h⟩
  | keepAlive context record now => exact hcall h
  | step context step =>
    obtain ⟨_, hstep, heq⟩ := runs_map.mp h
    obtain rfl := Option.some_inj.mp heq
    obtain ⟨current, result, mid, hcurrent, hinvoke, hend, -⟩ := runs_runStepTx hstep
    exact ⟨current, result, mid, hcurrent, hinvoke, hend⟩

/-- A worker claims what its request asks for; a client claims nothing, nor does the end of a step. -/
theorem CallOf.claim {request : WorkerRequest δ} {r : ClaimWorkflowStepRequest}
    (h : CallOf d (.claimSteps r) request) :
    ∃ context workflowExecutionId now, request = .claim context workflowExecutionId now ∧
      context.claim workflowExecutionId now = some r := by
  cases request with
  | client request => cases request <;> cases h
  | claim context workflowExecutionId now =>
    obtain ⟨_, hclaim, ⟨rfl⟩⟩ := h
    exact ⟨context, workflowExecutionId, now, rfl, hclaim⟩
  | keepAlive context record now => cases h
  | step context step =>
    obtain ⟨current, result, mid, -, -, hend⟩ := h
    rw [WorkflowRunner.endRequest] at hend
    split at hend <;> cases hend

/-- A step fails at the end of its transaction, as its handler says. -/
theorem CallOf.fail {request : WorkerRequest δ} {r : FailWorkflowStepRequest}
    (h : CallOf d (.failStep r) request) :
    ∃ context step current result mid, request = .step context step ∧
      executionAt d step.claimed.workflowExecutionId = some current ∧
      (invokeStep step.invokers current).Runs d result mid ∧ result.kind = .fail ∧
      r = context.runner.failRequest current result step.failedAt := by
  cases request with
  | client request => cases request <;> cases h
  | claim context workflowExecutionId now =>
    obtain ⟨_, -, heq⟩ := h
    cases heq
  | keepAlive context record now => cases h
  | step context step =>
    obtain ⟨current, result, mid, hcurrent, hinvoke, hend⟩ := h
    rw [WorkflowRunner.endRequest] at hend
    split at hend
    · rename_i hkind
      exact ⟨context, step, current, result, mid, rfl, hcurrent, hinvoke, hkind,
        WorkflowRequest.failStep.inj hend⟩
    · cases hend
    · cases hend

/-- An execution a handler has started is sound. -/
theorem Started.wellFormed {k : Key} {before mid : Option (WorkflowExecutionRecord δ)}
    (h : Started k before mid)
    (hbefore : ∀ e, before = some e → e.workflowExecutionId = k ∧ e.Sound) :
    ∀ e, mid = some e → e.workflowExecutionId = k ∧ e.Sound := by
  rcases h with rfl | ⟨-, request, hk, rfl⟩
  · exact hbefore
  · rintro _ ⟨rfl⟩
    exact ⟨hk, WorkflowExecutionRecord.Sound.stored (.of_unclaimed rfl rfl rfl)⟩

theorem WellFormed.worker {request : WorkerRequest δ} {response : WorkerResponse δ}
    (hwf : WellFormed d) (h : (workerProgram request).Runs d response d') : WellFormed d' := by
  intro k
  rcases change_of_worker hwf.keyed h k with ⟨-, hsame⟩ | ⟨call, answer, mid, -, hstarted, hchange⟩
  · rw [hsame]
    exact hwf k
  · exact hchange.wellFormed (hstarted.wellFormed (hwf k))

/-- One more transaction keeps the invariant. -/
theorem Tried.Holds.worker {k : Key} {s : Bytes} {log : List (WorkerRequest δ × WorkerResponse δ)}
    {request : WorkerRequest δ} {response : WorkerResponse δ} (hwf : WellFormed d)
    (h : Tried.Holds s (stepTries k s log) (executionAt d k)) (hexpiry : NoWorkerExpiry k d request)
    (hruns : (workerProgram request).Runs d response d') :
    Tried.Holds s (stepTries k s (log ++ [(request, response)])) (executionAt d' k) := by
  rw [stepTries_snoc]
  rcases change_of_worker hwf.keyed hruns k with
    ⟨rfl, hsame⟩ | ⟨call, answer, mid, rfl, hstarted, hchange⟩
  · rw [hsame]
    exact h
  · refine (h.started hstarted).change (fun e he => (hstarted.wellFormed (hwf k) e he).2) ?_ hchange
    rintro r e rfl rfl hrequested hvisible
    rcases hstarted with hsame | ⟨-, request', -, hnew⟩
    · obtain ⟨context, id, now, rfl, hclaim⟩ := (callOf_runs hruns).claim
      exact hexpiry r hclaim e hsame.symm hrequested hvisible
    · obtain rfl := Option.some_inj.mp hnew
      rfl

theorem tried_history {W : DeclaredWorkflow} {k : Key} {d₀ : Docs δ}
    {log : List (WorkerRequest δ × WorkerResponse δ)}
    (h : History workerProgram (DeclaredRun W k) d₀ log d) (hempty : ∀ k, executionAt d₀ k = none) :
    WellFormed d ∧ ∀ s, Tried.Holds s (stepTries k s log) (executionAt d k) := by
  induction h with
  | nil =>
    refine ⟨fun k execution hexecution => ?_, fun s => ?_⟩
    · rw [hempty k] at hexecution
      cases hexecution
    · rw [hempty k]
      exact ⟨fun _ => rfl, nofun⟩
  | snoc _ hrun hruns ih =>
    obtain ⟨hwf, htried⟩ := ih
    exact ⟨hwf.worker hruns, fun s => (htried s).worker hwf hrun.1 hruns⟩

/-- A call that makes an execution fail is a `fail_step` that finds the maximum reached. -/
theorem fails_of_change {k : Key} {call : WorkflowRequest δ} {answer : WorkflowResponse δ}
    {before mid after : Option (WorkflowExecutionRecord δ)} (hstarted : Started k before mid)
    (hchange : Change k call answer mid after)
    (hbefore : before.map WorkflowExecutionRecord.status ≠ some failed)
    (hafter : after.map WorkflowExecutionRecord.status = some failed) :
    ∃ request execution, call = .failStep request ∧ mid = some execution ∧
      request.workflowExecutionId = k ∧
      HoldsClaim execution request.worker request.failedStep request.claimToken ∧
      request.maxAttempts.toNat ≤ execution.attempt.toNat := by
  have hrunning : (running : Bytes) ≠ failed := by decide
  have hcompleted : (completed : Bytes) ≠ failed := by decide
  have hcanceled : (canceled : Bytes) ≠ failed := by decide
  have hmid : mid.map WorkflowExecutionRecord.status ≠ some failed := by
    rcases hstarted with rfl | ⟨-, request, -, rfl⟩
    · exact hbefore
    · exact fun h => hrunning (Option.some_inj.mp h)
  cases hchange with
  | other execution hevent hkeep => exact absurd hafter hmid
  | start request response hk => exact absurd (Option.some_inj.mp hafter) hrunning
  | claim request executions execution hrequested hvisible hclaimed =>
    exact absurd hafter hmid
  | keepAlive request response execution hk hholds => exact absurd hafter hmid
  | complete request response execution hk hholds =>
    have hstatus : (complete request execution).status = failed := Option.some_inj.mp hafter
    rw [complete] at hstatus
    cases hnext : request.nextStep with
    | some step =>
      rw [hnext] at hstatus
      exact absurd hstatus hrunning
    | none =>
      rw [hnext] at hstatus
      exact absurd hstatus hcompleted
  | fail request response execution hk hholds =>
    refine ⟨request, execution, rfl, rfl, hk, hholds, ?_⟩
    by_contra hlt
    have hstill : (fail request execution).status = running := if_neg hlt
    exact hrunning (hstill.symm.trans (Option.some_inj.mp hafter))
  | cancel request response execution hk => exact absurd (Option.some_inj.mp hafter) hcanceled

/-- **A transaction that makes an execution of the workflow fail** is the last failure a step was
    allowed. -/
theorem retriesUsed_of_runs {W : DeclaredWorkflow} {k : Key}
    {log : List (WorkerRequest δ × WorkerResponse δ)} {request : WorkerRequest δ}
    {response : WorkerResponse δ} (hwf : WellFormed d)
    (htried : ∀ s, Tried.Holds s (stepTries k s log) (executionAt d k))
    (hleft : RetriesLeft W k log d request) (hruns : (workerProgram request).Runs d response d')
    (hname : ∀ e, executionAt d k = some e → e.workflowName = W.name)
    (hbefore : statusAt d k ≠ some failed) (hafter : statusAt d' k = some failed) :
    RetriesUsed W k (log ++ [(request, response)]) := by
  rcases change_of_worker hwf.keyed hruns k with
    ⟨-, hsame⟩ | ⟨call, answer, mid, rfl, hstarted, hchange⟩
  · rw [statusAt, hsame] at hafter
    exact absurd hafter hbefore
  obtain ⟨r, execution, rfl, rfl, hk, hholds, hreached⟩ :=
    fails_of_change hstarted hchange hbefore hafter
  obtain ⟨context, step, current, result, mid, rfl, hcurrent, hinvoke, hkind, rfl⟩ :=
    (callOf_runs hruns).fail
  have hid : step.claimed.workflowExecutionId = k := (hwf _ _ hcurrent).1.symm.trans hk
  rw [hid] at hcurrent
  rw [hcurrent] at hstarted
  obtain rfl := Option.some_inj.mp hstarted.of_some
  have hthree : 3 ≤ execution.attempt.toNat := hreached
  rcases hleft hid execution result mid hcurrent (hname _ hcurrent) hinvoke hkind with
    hfew | ⟨declared, hmem, hstep, henough⟩
  · omega
  obtain ⟨hattempt, hclaimed, -⟩ := (htried declared.name).2 _ hcurrent
  have hheld : execution.claimedBy ≠ none := by
    rw [hholds.1]
    exact Option.some_ne_none _
  have hequal := hclaimed hheld hstep.symm
  rw [StepTries.elsewhere] at henough
  refine ⟨declared, hmem, ?_⟩
  rw [stepTries_snoc]
  simp only [StepTries.next]
  rw [if_pos ⟨hk, hstep.symm⟩]
  constructor
  · show 1 + declared.maxRetries ≤ (stepTries k declared.name log).claims
    omega
  · show 1 + declared.maxRetries ≤ (stepTries k declared.name log).fails + 1
    omega

/-! ## What a worker claims -/

/-- The scan answers every execution that is stored, and nothing else. -/
def ScansExecutions (scan : Docs δ → RuntimeCollection → List (Key × Json δ)) (d : Docs δ) : Prop :=
  ∀ k document, (k, document) ∈ scan d .workflowExecutions ↔ d .workflowExecutions k = some document

/-- The execution waits for a worker. -/
def Waiting (workflowExecutionId : Bytes) (now : Timestamp) (execution : WorkflowExecutionRecord δ) :
    Prop :=
  (workflowExecutionId = [] ∨ execution.workflowExecutionId = workflowExecutionId) ∧
    execution.status = running ∧ Visible execution now

/-- **The worker claims exactly the executions of one version of a workflow**: what it claims is of this
    version, and it claims nothing only if no execution of this version is waiting. -/
def ClaimsExactly (δ : Type) (context : WorkerContext) (name : Bytes) (version : Int) : Prop :=
  ∀ (scan : Docs δ → RuntimeCollection → List (Key × Json δ)) (d : Docs δ) workflowExecutionId now
    claimed d', ScansExecutions scan d →
    (context.claimTx workflowExecutionId now).eval scan d = .ok (claimed, d') →
    (∀ execution ∈ claimed, execution.workflowName = name ∧ execution.workflowVersion = version) ∧
    (claimed = [] → ∀ k execution, executionAt d k = some execution →
      execution.workflowName = name → execution.workflowVersion = version →
      ¬ Waiting workflowExecutionId now execution)

/-- The loop of a claim of one step: it claims the first execution it can. -/
theorem eval_claimLoop_one {scan : Docs δ → RuntimeCollection → List (Key × Json δ)}
    {request : ClaimWorkflowStepRequest} (hone : request.maxSteps = 1)
    {executions claimed : List (WorkflowExecutionRecord δ)}
    (h : (claimLoop request executions []).eval scan d = .ok (claimed, d')) :
    (claimed = [] ∧ ∀ e ∈ executions, Requested request e → ¬ Visible e request.now) ∨
    ∃ e ∈ executions, Requested request e ∧ claimed = [claim request e] := by
  induction executions with
  | nil =>
    cases h
    exact Or.inl ⟨rfl, nofun⟩
  | cons execution rest ih =>
    have hzero : ¬ ([] : List (WorkflowExecutionRecord δ)).length ≥ request.maxSteps.toNat := by
      rw [hone]
      exact Nat.not_succ_le_zero 0
    rw [claimLoop, if_neg hzero] at h
    -- an execution that is passed over
    have hskip (hpass : Requested request execution → ¬ Visible execution request.now)
        (hrest : (claimLoop request rest []).eval scan d = .ok (claimed, d')) :
        (claimed = [] ∧ ∀ e ∈ execution :: rest, Requested request e → ¬ Visible e request.now) ∨
          ∃ e ∈ execution :: rest, Requested request e ∧ claimed = [claim request e] := by
      rcases ih hrest with ⟨hnone, hall⟩ | ⟨e, hmem, he⟩
      · exact Or.inl ⟨hnone, List.forall_mem_cons.mpr ⟨hpass, hall⟩⟩
      · exact Or.inr ⟨e, List.mem_cons_of_mem _ hmem, he⟩
    by_cases hrequested : Requested request execution
    swap
    · rw [if_pos hrequested] at h
      exact hskip (fun hthis => absurd hthis hrequested) h
    rw [if_neg (not_not_intro hrequested)] at h
    by_cases hvisible : Visible execution request.now
    swap
    · rw [if_pos hvisible] at h
      exact hskip (fun _ => hvisible) h
    rw [if_neg (not_not_intro hvisible)] at h
    refine Or.inr ⟨execution, List.mem_cons_self, hrequested, ?_⟩
    -- one step is claimed, and then the loop is over
    have hover : claimLoop request rest ([] ++ [claim request execution]) =
        pure [claim request execution] := by
      cases rest with
      | nil => rfl
      | cons e rest =>
        rw [claimLoop, if_pos]
        · rfl
        · rw [hone]
          exact Nat.le_refl 1
    simp only [hover] at h
    exact (Prod.mk.inj (Except.ok.inj h)).1.symm

/-- A list that is decoded has what each of its documents decodes to. -/
theorem mem_of_mapM {α β ε : Type} {f : α → Except ε β} {l : List α} {l' : List β}
    (h : l.mapM f = .ok l') {a : α} (ha : a ∈ l) {b : β} (hb : f a = .ok b) : b ∈ l' := by
  have hforall := forall₂_of_mapM h
  clear h
  induction hforall with
  | nil => cases ha
  | cons hhead _ ih =>
    rcases List.mem_cons.mp ha with rfl | ha
    · exact Except.ok.inj (hhead.symm.trans hb) ▸ List.mem_cons_self
    · exact List.mem_cons_of_mem _ (ih ha)

/-- All executions that are stored are looked at. -/
theorem eval_allExecutions {scan : Docs δ → RuntimeCollection → List (Key × Json δ)}
    (hscan : ScansExecutions scan d) {executions : List (WorkflowExecutionRecord δ)}
    (h : (allExecutions : TxProgram δ _).eval scan d = .ok (executions, d')) :
    d' = d ∧ ∀ k execution, executionAt d k = some execution → execution ∈ executions := by
  have hdecoded : (ofExcept ((scan d .workflowExecutions).mapM fun record =>
      WorkflowExecutionRecord.fromJson record.2) : TxProgram δ _).eval scan d =
      .ok (executions, d') := h
  cases hmap : (scan d .workflowExecutions).mapM fun record =>
      WorkflowExecutionRecord.fromJson record.2 with
  | error e =>
    rw [hmap] at hdecoded
    cases hdecoded
  | ok l =>
    rw [hmap] at hdecoded
    obtain ⟨rfl, rfl⟩ := Prod.mk.inj (Except.ok.inj hdecoded)
    refine ⟨rfl, fun k execution hexecution => ?_⟩
    obtain ⟨document, hdocument, hdecode⟩ := Option.bind_eq_some_iff.mp hexecution
    have hmem : (k, document) ∈ scan d .workflowExecutions := (hscan k document).mpr hdocument
    refine mem_of_mapM hmap hmem ?_
    cases hfrom : WorkflowExecutionRecord.fromJson document with
    | error e =>
      rw [hfrom] at hdecode
      cases hdecode
    | ok record =>
      rw [hfrom] at hdecode
      exact congrArg _ (Option.some_inj.mp hdecode)

/-- One execution is stored. -/
def onlyExecution (execution : WorkflowExecutionRecord δ) : Docs δ :=
  Documents.set (fun _ _ => none) .workflowExecutions execution.workflowExecutionId
    (some execution.toJson)

/-- The scan that finds it. -/
def onlyScan (execution : WorkflowExecutionRecord δ) (_ : Docs δ) (_ : RuntimeCollection) :
    List (Key × Json δ) :=
  [(execution.workflowExecutionId, execution.toJson)]

theorem scansExecutions_only (execution : WorkflowExecutionRecord δ) :
    ScansExecutions (onlyScan execution) (onlyExecution execution) := by
  intro k document
  rw [onlyScan, List.mem_singleton, Prod.mk.injEq]
  by_cases hk : k = execution.workflowExecutionId
  · rw [hk, onlyExecution, Documents.set_self, Option.some_inj]
    exact ⟨fun h => h.2.symm, fun h => ⟨rfl, h.symm⟩⟩
  · rw [onlyExecution, Documents.set_of_key_ne hk]
    exact ⟨fun h => absurd h.1 hk, nofun⟩

/-- An execution the request does not ask for is not claimed. -/
theorem eval_claimStepsTx_only {execution : WorkflowExecutionRecord δ}
    {request : ClaimWorkflowStepRequest} (h : ¬ Requested request execution.stored) :
    (claimStepsTx request).eval (onlyScan execution) (onlyExecution execution) =
      .ok ([], onlyExecution execution) := by
  have hall : (allExecutions : TxProgram δ _).eval (onlyScan execution) (onlyExecution execution) =
      .ok ([execution.stored], onlyExecution execution) := by
    show (ofExcept ((onlyScan execution (onlyExecution execution) .workflowExecutions).mapM
      fun record => WorkflowExecutionRecord.fromJson record.2) : TxProgram δ _).eval
        (onlyScan execution) (onlyExecution execution) = _
    rw [onlyScan, List.mapM_cons, execution.fromJson_toJson]
    rfl
  rw [claimStepsTx, eval_do hall, claimLoop]
  by_cases hmax : ([] : List (WorkflowExecutionRecord δ)).length ≥ request.maxSteps.toNat
  · rw [if_pos hmax]
    rfl
  · rw [if_neg hmax, if_pos h]
    rfl

/-- **A worker claims exactly its version when that is the one the generated code asks for.** -/
theorem claimsExactly_iff {context : WorkerContext} {name : Bytes}
    (hexecutes : context.executes = some name) (version : Int) :
    ClaimsExactly δ context name version ↔ version = generatedVersion := by
  have hclaim (id : Bytes) (now : Timestamp) : (context.claimTx id now : TxProgram δ _) =
      claimStepsTx (context.runner.claimRequest id name generatedVersion now) := by
    rw [WorkerContext.claimTx, WorkerContext.claim, hexecutes]
    rfl
  constructor
  · intro h
    by_contra hversion
    -- an execution of the version is waiting, and nothing is claimed
    let execution : WorkflowExecutionRecord δ :=
      started { workflowExecutionId := [], workflowName := name, workflowVersion := version,
                startStep := [], state := .null }
    have hother : ¬ Requested (context.runner.claimRequest [] name generatedVersion 0)
        execution.stored :=
      fun hrequested => hversion hrequested.2.2.1
    have heval := eval_claimStepsTx_only hother
    rw [← hclaim] at heval
    have hat : executionAt (onlyExecution execution) execution.workflowExecutionId =
        some execution.stored := by
      rw [onlyExecution, executionAt_set, if_pos rfl]
    exact (h _ _ [] 0 [] _ (scansExecutions_only execution) heval).2 rfl _ _ hat rfl rfl
      ⟨Or.inl rfl, rfl, Or.inl rfl⟩
  · rintro rfl scan d id now claimed d' hscan h
    rw [hclaim, claimStepsTx] at h
    cases hall : (allExecutions : TxProgram δ _).eval scan d with
    | error e =>
      rw [eval_do_error hall] at h
      cases h
    | ok read =>
      obtain ⟨executions, mid⟩ := read
      rw [eval_do hall] at h
      obtain ⟨rfl, hstored⟩ := eval_allExecutions hscan hall
      rcases eval_claimLoop_one rfl h with ⟨rfl, hnone⟩ | ⟨e, -, hrequested, rfl⟩
      · refine ⟨nofun, ?_⟩
        rintro - k execution hexecution hname hversion ⟨hid, hstatus, hvisible⟩
        exact hnone execution (hstored k execution hexecution) ⟨hid, hname, hversion, hstatus⟩ hvisible
      · refine ⟨fun execution hmem => ?_, nofun⟩
        obtain rfl := List.mem_singleton.mp hmem
        exact ⟨hrequested.2.1, hrequested.2.2.1⟩

/-! ## Runs -/

variable [Decimal δ]

/-- The workers and the clients on the C++ in-memory backend. -/
abbrev workerStore : Interleaving.Store (WorkerRequest δ) (Cpp.State δ)
    (Session δ (WorkerResponse δ)) Unit Unit Unit (Option Error) Unit :=
  sessions workerProgram ensureWorkflowCollections

/-- The documents after a run. -/
def workerDocs (es : List (SessionEvent (WorkerRequest δ) Unit)) : Docs δ :=
  docs (run workerStore (World.init InMemoryState.empty) es).shared

/-- The transactions a run has committed. -/
def workerLog (es : List (SessionEvent (WorkerRequest δ) Unit)) :
    List (WorkerRequest δ × WorkerResponse δ) :=
  answers (run workerStore (World.init InMemoryState.empty) es).log

/-- **Executions of the workflow fail as declared**: whenever an event makes one fail, some step of the
    workflow has been claimed and has failed once more than it may be retried. -/
def FailsAsDeclared (W : DeclaredWorkflow) (k : Key)
    (es : List (SessionEvent (WorkerRequest δ) Unit)) : Prop :=
  ∀ before e after, es = before ++ e :: after →
    (∀ execution, executionAt (workerDocs before) k = some execution →
      execution.workflowName = W.name) →
    statusAt (workerDocs before) k ≠ some failed →
    statusAt (workerDocs (before ++ [e])) k = some failed →
    RetriesUsed W k (workerLog (before ++ [e]))

/-- **The workers of a workflow run what it declares**: they claim exactly its executions when it is
    version 1, and its executions fail as declared in every run in which no claim expires, and a step
    that fails at the third attempt or later has used up its own retries. -/
theorem declared_workers (W : DeclaredWorkflow) (context : WorkerContext)
    (hexecutes : context.executes = some W.name) :
    (ClaimsExactly δ context W.name W.version ↔ W.version = generatedVersion) ∧
    ∀ (k : Key) (es : List (SessionEvent (WorkerRequest δ) Unit)),
      RunMeets workerStore (Committing (DeclaredRun W k)) (World.init InMemoryState.empty) es →
      FailsAsDeclared W k es := by
  refine ⟨claimsExactly_iff hexecutes W.version, ?_⟩
  rintro k _ hes before e after rfl hname hbefore hafter
  rw [List.append_cons] at hes
  have hlast := ((runMeets_append _).mp hes).1
  have hhistory := history_run later_ensureWorkflowCollections docs_ensureWorkflowCollections
    (Discipline.inv_init _ _) ((runMeets_append _).mp hlast).1
  have hlog : workerLog before =
      answers (commits workerStore (World.init InMemoryState.empty) before) := by
    rw [workerLog, log_run]
    rfl
  obtain ⟨hwf, htried⟩ := tried_history hhistory executionAt_empty
  rcases committed_last later_ensureWorkflowCollections docs_ensureWorkflowCollections hlast with
    ⟨-, hsame⟩ | ⟨request, response, hnew, ⟨-, hleft⟩, hruns⟩
  · rw [workerDocs, hsame] at hafter
    exact absurd hafter hbefore
  · rw [workerLog, hnew]
    refine retriesUsed_of_runs hwf ?_ hleft hruns hname hbefore hafter
    rw [← workerLog, hlog]
    exact htried

/-! ## A step that always fails -/

/-- The workflow `n` has one step, `s`. -/
def oneStep (version : Int) (maxRetries : Nat) (h : 0 < version) : DeclaredWorkflow where
  name := ascii "n"
  version := version
  steps := [{ name := ascii "s", maxRetries := maxRetries }]
  version_pos := h
  nodup := List.nodup_singleton _

/-- The worker `w` executes the workflow `n`. -/
def workerOfN : WorkerContext where
  workerName := ascii "w"
  executes := some (ascii "n")

/-- The execution `e`, claimed for the time that is numbered. -/
def claimedE (attempt : UInt64) : WorkflowExecutionRecord Empty where
  workflowExecutionId := ascii "e"
  workflowName := ascii "n"
  workflowVersion := 1
  currentStep := ascii "s"
  status := running
  attempt := attempt
  claimedBy := some (ascii "w")
  claimToken := some (ascii "e:w:" ++ Bytes.decimal attempt.toNat)
  claimExpiresAt := some 30000000000
  state := .null

/-- The step of that claim, for which no handler is registered. -/
def stepE (attempt : UInt64) : StepRun Empty where
  claimed := claimedE attempt
  invokers := { find := fun _ => none, startsOnly := nofun }
  revalidatedAt := 0
  failedAt := 0

/-- The start of the execution `e`. -/
def startE : WorkerRequest Empty :=
  .client (.start
    { workflowExecutionId := ascii "e", workflowName := ascii "n", workflowVersion := 1,
      startStep := ascii "s", state := .null })

/-- The execution is started, and the worker runs twice. -/
def twoAttempts : List (SessionEvent (WorkerRequest Empty) Unit) :=
  soloSession 0 startE 2 ++
  soloSession 1 (WorkerRequest.claim workerOfN [] 0) 3 ++
  soloSession 2 (WorkerRequest.keepAlive workerOfN (claimedE 1) 0) 2 ++
  soloSession 3 (WorkerRequest.step workerOfN (stepE 1)) 4 ++
  soloSession 4 (WorkerRequest.claim workerOfN [] 0) 3 ++
  soloSession 5 (WorkerRequest.keepAlive workerOfN (claimedE 2) 0) 2 ++
  soloSession 6 (WorkerRequest.step workerOfN (stepE 2)) 4

/-- The worker runs once more. -/
def threeAttempts : List (SessionEvent (WorkerRequest Empty) Unit) :=
  twoAttempts ++
  soloSession 7 (WorkerRequest.claim workerOfN [] 0) 3 ++
  soloSession 8 (WorkerRequest.keepAlive workerOfN (claimedE 3) 0) 2 ++
  soloSession 9 (WorkerRequest.step workerOfN (stepE 3)) 4

/-- The last step is about to commit. -/
def thirdRunning : List (SessionEvent (WorkerRequest Empty) Unit) :=
  twoAttempts ++
  soloSession 7 (WorkerRequest.claim workerOfN [] 0) 3 ++
  soloSession 8 (WorkerRequest.keepAlive workerOfN (claimedE 3) 0) 2 ++
  (.begin (WorkerRequest.step workerOfN (stepE 3)) :: List.replicate 4 (.op 9 ()))

omit [Decimal δ] in
theorem noWorkerExpiry_of_free {k : Key} {context : WorkerContext} {id : Bytes} {now : Timestamp}
    (h : (executionAt d k).bind WorkflowExecutionRecord.claimedBy = none) :
    NoWorkerExpiry k d (.claim context id now) := by
  intro request _ execution he _ _
  rw [he] at h
  exact h

omit [Decimal δ] in
theorem retriesLeft_of_few {W : DeclaredWorkflow} {k : Key}
    {log : List (WorkerRequest δ × WorkerResponse δ)} {context : WorkerContext} {step : StepRun δ}
    (attempt : UInt64) (h : (executionAt d k).map WorkflowExecutionRecord.attempt = some attempt)
    (hfew : attempt.toNat < 3) : RetriesLeft W k log d (.step context step) := by
  intro _ execution result mid he _ _ _
  rw [he] at h
  obtain rfl := Option.some_inj.mp h
  exact Or.inl hfew

omit [Decimal δ] in
theorem retriesLeft_of_declared {W : DeclaredWorkflow} {k : Key}
    {log : List (WorkerRequest δ × WorkerResponse δ)} {context : WorkerContext} {step : StepRun δ}
    (declared : DeclaredStep) (attempt : UInt64) (hmem : declared ∈ W.steps)
    (h : (executionAt d k).map WorkflowExecutionRecord.attempt = some attempt)
    (hstep : (executionAt d k).map WorkflowExecutionRecord.currentStep = some declared.name)
    (henough : 1 + declared.maxRetries + (stepTries k declared.name log).elsewhere ≤ attempt.toNat) :
    RetriesLeft W k log d (.step context step) := by
  intro _ execution result mid he _ _ _
  rw [he] at h hstep
  obtain rfl := Option.some_inj.mp h
  exact Or.inr ⟨declared, hmem, (Option.some_inj.mp hstep).symm, henough⟩

/-- No claim expires in the three runs, and the last failure is one the step is allowed. -/
theorem declaredRun_threeAttempts :
    RunMeets workerStore (Committing (DeclaredRun (oneStep 1 2 (by decide)) (ascii "e")))
      (World.init InMemoryState.empty) threeAttempts := by
  simp only [threeAttempts, twoAttempts, runMeets_append]
  refine ⟨⟨⟨⟨⟨⟨⟨⟨⟨?_, ?_⟩, ?_⟩, ?_⟩, ?_⟩, ?_⟩, ?_⟩, ?_⟩, ?_⟩, ?_⟩ <;>
    refine runMeets_soloSession (by simp [length_slots_run, World.init]) ?_ _
  · exact ⟨trivial, trivial⟩
  · exact ⟨noWorkerExpiry_of_free (by decide +kernel), trivial⟩
  · exact ⟨trivial, trivial⟩
  · exact ⟨trivial, retriesLeft_of_few 1 (by decide +kernel) (by decide)⟩
  · exact ⟨noWorkerExpiry_of_free (by decide +kernel), trivial⟩
  · exact ⟨trivial, trivial⟩
  · exact ⟨trivial, retriesLeft_of_few 2 (by decide +kernel) (by decide)⟩
  · exact ⟨noWorkerExpiry_of_free (by decide +kernel), trivial⟩
  · exact ⟨trivial, trivial⟩
  · exact ⟨trivial, retriesLeft_of_declared { name := ascii "s", maxRetries := 2 } 3
      (List.mem_singleton.mpr rfl) (by decide +kernel) (by decide +kernel) (by decide +kernel)⟩

/-- A step with two retries makes its execution fail at the third attempt. -/
theorem declared_workers_threeAttempts :
    ClaimsExactly Empty workerOfN (ascii "n") 1 ∧
      FailsAsDeclared (oneStep 1 2 (by decide)) (ascii "e") threeAttempts ∧
      statusAt (workerDocs threeAttempts) (ascii "e") = some failed :=
  ⟨(declared_workers (oneStep 1 2 (by decide)) workerOfN rfl).1.mpr rfl,
    (declared_workers (oneStep 1 2 (by decide)) workerOfN rfl).2 _ _ declaredRun_threeAttempts,
    by decide +kernel⟩

/-- No claim expires in the three runs. -/
theorem noExpiry_threeAttempts :
    RunMeets workerStore (Committing fun _ d request => NoWorkerExpiry (ascii "e") d request)
      (World.init InMemoryState.empty) threeAttempts :=
  declaredRun_threeAttempts.mono _ fun _ _ h n slot he hslot => (h n slot he hslot).1

/-- **What is declared is not what runs**: of version 2 of the workflow nothing is claimed, and a step
    with three retries makes its execution fail at the third attempt, too. -/
theorem declared_ignored :
    ¬ ClaimsExactly Empty workerOfN (ascii "n") 2 ∧
    RunMeets workerStore (Committing fun _ d request => NoWorkerExpiry (ascii "e") d request)
      (World.init InMemoryState.empty) threeAttempts ∧
    ¬ FailsAsDeclared (oneStep 1 3 (by decide)) (ascii "e") threeAttempts := by
  refine ⟨fun h => absurd ((claimsExactly_iff rfl 2).mp h) (by decide), noExpiry_threeAttempts, ?_⟩
  intro h
  have hname : (executionAt (workerDocs thirdRunning) (ascii "e")).map
      WorkflowExecutionRecord.workflowName = some (ascii "n") := by
    decide +kernel
  have hused : RetriesUsed (oneStep 1 3 (by decide)) (ascii "e") (workerLog threeAttempts) := by
    refine h thirdRunning (.commit 9 ()) [] rfl ?_ (by decide +kernel) (by decide +kernel)
    intro execution hexecution
    rw [hexecution] at hname
    exact Option.some_inj.mp hname
  obtain ⟨declared, hmem, hclaims, -⟩ := hused
  obtain rfl := List.mem_singleton.mp hmem
  -- three times the step has been claimed, and four tries are declared
  revert hclaims
  decide +kernel

end StateSpec.Runtime
