/-
  THE RETRY BUDGET — how often a step can fail before its execution does.

  The attempt counter counts the claims of an execution, over all its steps; `fail_step` compares it
  with the maximum of the step that fails.  So what earlier steps have used up is missing from the
  budget of the current one (`budget_consumed`): a step that fails for the first time can be over.

  `StepTally` counts what has happened to the step an execution is in since it entered the step, and
  the claims of the steps before.  `Budget` relates the tally to the record.  As long as an attempt
  counter that has reached the maximum is ahead of the claims of earlier steps by the maximum, the
  budget is per step: `retry_budget_per_step`.
-/
import StateSpec.Runtime.Executions

namespace StateSpec.Runtime

open Interleaving Memory

variable {δ : Type}

/-! ## What has happened to the current step -/

/-- The claims and the failures of the step an execution is in, since it entered the step, and the
    claims of the steps it has completed before. -/
structure StepTally where
  earlier : Nat := 0
  claims : Nat := 0
  fails : Nat := 0

/-- The tally after one more request. -/
def StepTally.next (k : Key) (tally : StepTally) :
    WorkflowRequest δ × WorkflowResponse δ → StepTally
  | (.claimSteps _, .claimed executions) =>
    if (claimedOf k executions).isSome then { tally with claims := tally.claims + 1 } else tally
  | (.completeStep request, _) =>
    if request.workflowExecutionId = k then { earlier := tally.earlier + tally.claims } else tally
  | (.failStep request, _) =>
    if request.workflowExecutionId = k then { tally with fails := tally.fails + 1 } else tally
  | _ => tally

def stepTally (k : Key) (log : WorkflowLog δ) : StepTally := log.foldl (StepTally.next k) {}

theorem stepTally_snoc (k : Key) (log : WorkflowLog δ)
    (entry : WorkflowRequest δ × WorkflowResponse δ) :
    stepTally k (log ++ [entry]) = (stepTally k log).next k entry := by
  rw [stepTally, List.foldl_append]
  rfl

/-- A request that does nothing to the claims of the execution does not count. -/
theorem StepTally.next_of_other {k : Key} (tally : StepTally) {request : WorkflowRequest δ}
    {response : WorkflowResponse δ} (h : claimEvent k (request, response) = .other) :
    tally.next k (request, response) = tally := by
  cases request with
  | claimSteps request =>
    cases response with
    | claimed executions =>
      cases hclaimed : claimedOf k executions with
      | none => rw [next, hclaimed]; rfl
      | some execution =>
        rw [claimEvent, hclaimed] at h
        cases h
    | _ => rfl
  | completeStep request =>
    by_cases hk : request.workflowExecutionId = k
    · have hevent : claimEvent k (.completeStep request, response) = .finalize request.claimToken :=
        if_pos hk
      rw [hevent] at h
      cases h
    · exact if_neg hk
  | failStep request =>
    by_cases hk : request.workflowExecutionId = k
    · have hevent : claimEvent k (.failStep request, response) = .finalize request.claimToken :=
        if_pos hk
      rw [hevent] at h
      cases h
    · exact if_neg hk
  | _ => rfl

/-! ## The conditions -/

/-- Every `fail_step` for the execution passes the same maximum. -/
def SameMaximum (k : Key) (m : UInt32) : WorkflowRequest δ → Prop
  | .failStep request => request.workflowExecutionId = k → request.maxAttempts = m
  | _ => True

/-- No claim of the execution has expired when it is claimed again. -/
def NoClaimExpired (k : Key) (d : Docs δ) : WorkflowRequest δ → Prop
  | .claimSteps request =>
    ∀ execution, executionAt d k = some execution → Requested request execution →
      Visible execution request.now → execution.claimedBy = none
  | _ => True

/-- An attempt counter that has reached the maximum has reached it without the claims of earlier
    steps. -/
def AttemptsLeft (k : Key) (m : UInt32) (log : WorkflowLog δ) (d : Docs δ) :
    WorkflowRequest δ → Prop
  | .failStep request =>
    request.workflowExecutionId = k → ∀ execution, executionAt d k = some execution →
      execution.attempt.toNat < m.toNat ∨
      (stepTally k log).earlier + m.toNat ≤ execution.attempt.toNat
  | _ => True

/-- What the runs of the budget are about, and when it holds in them. -/
def Budgeted (k : Key) (m : UInt32) (log : WorkflowLog δ) (d : Docs δ)
    (request : WorkflowRequest δ) : Prop :=
  SameMaximum k m request ∧ NoClaimExpired k d request ∧ AttemptsLeft k m log d request

/-- The status of the execution. -/
def statusAt (d : Docs δ) (k : Key) : Option Bytes :=
  (executionAt d k).map WorkflowExecutionRecord.status

/-- If the request has made the execution fail, it is a `fail_step` of a step that has been claimed
    and failed as often as the maximum says. -/
def FailsByBudget (k : Key) (m : UInt32) (log : WorkflowLog δ) (request : WorkflowRequest δ)
    (response : WorkflowResponse δ) (before after : Option Bytes) : Prop :=
  before ≠ some failed → after = some failed →
    (∃ r, request = .failStep r ∧ r.workflowExecutionId = k) ∧
    m.toNat ≤ (stepTally k (log ++ [(request, response)])).claims ∧
    m.toNat ≤ (stepTally k (log ++ [(request, response)])).fails

/-! ## The invariant -/

/-- The tally, and the record of the execution. -/
structure Budget (tally : StepTally) (execution : WorkflowExecutionRecord δ) : Prop where
  attempt : execution.attempt.toNat ≤ tally.earlier + tally.claims
  claimed : execution.claimedBy ≠ none → tally.claims = tally.fails + 1
  free : execution.claimedBy = none → execution.status = running → tally.claims = tally.fails

/-- The invariant of an execution, if it has been started. -/
def Budget.Holds (tally : StepTally) (execution : Option (WorkflowExecutionRecord δ)) : Prop :=
  (execution = none → tally = {}) ∧ ∀ e, execution = some e → Budget tally e

theorem Budget.Holds.of_some {tally : StepTally} {e : WorkflowExecutionRecord δ}
    (h : Budget tally e) : Budget.Holds tally (some e) := by
  refine ⟨nofun, ?_⟩
  rintro _ ⟨rfl⟩
  exact h

/-- Each change keeps the invariant. -/
theorem Budget.Holds.change {k : Key} {tally : StepTally} {request : WorkflowRequest δ}
    {response : WorkflowResponse δ} {d : Docs δ} {after : Option (WorkflowExecutionRecord δ)}
    (h : Budget.Holds tally (executionAt d k)) (hexpired : NoClaimExpired k d request)
    (hchange : Change k request response (executionAt d k) after) :
    Budget.Holds (tally.next k (request, response)) after := by
  generalize hbefore : executionAt d k = before at h hchange
  cases hchange with
  | other execution hevent hkeep =>
    rw [tally.next_of_other hevent]
    exact h
  | start request response hk =>
    have htally : tally = {} := h.1 rfl
    subst htally
    exact .of_some ⟨Nat.zero_le _, fun hclaimed => absurd rfl hclaimed, fun _ _ => rfl⟩
  | claim request executions execution hrequested hvisible hclaimed =>
    have hfree : execution.claimedBy = none := hexpired _ hbefore hrequested hvisible
    have hbudget := h.2 _ rfl
    have hequal : tally.claims = tally.fails := hbudget.free hfree hrequested.2.2.2
    have hnext : tally.next k (.claimSteps request, .claimed executions) =
        { tally with claims := tally.claims + 1 } := by
      rw [StepTally.next, hclaimed]
      rfl
    have hattempt := hbudget.attempt
    rw [hnext]
    refine .of_some ⟨?_, fun _ => ?_, nofun⟩
    · show (execution.attempt + 1).toNat ≤ tally.earlier + (tally.claims + 1)
      have hcount := Nat.mod_le (execution.attempt.toNat + 1) (2 ^ 64)
      rw [UInt64.toNat_add]
      show (execution.attempt.toNat + 1) % 2 ^ 64 ≤ _
      omega
    · show tally.claims + 1 = tally.fails + 1
      omega
  | keepAlive request response execution hk hholds => exact h
  | complete request response execution hk hholds =>
    have hnext : tally.next k (.completeStep request, response) =
        { earlier := tally.earlier + tally.claims } := if_pos hk
    have hattempt := (h.2 _ rfl).attempt
    rw [hnext]
    refine .of_some ⟨?_, fun hclaimed => ?_, fun _ _ => rfl⟩
    · show (complete request execution).attempt.toNat ≤ tally.earlier + tally.claims + 0
      rw [complete_attempt]
      omega
    · exact absurd (complete_claim request execution).1 hclaimed
  | fail request response execution hk hholds =>
    have hbudget := h.2 _ rfl
    have hclaimed : execution.claimedBy ≠ none := by
      rw [hholds.1]
      exact Option.some_ne_none _
    have hclaims := hbudget.claimed hclaimed
    have hnext : tally.next k (.failStep request, response) =
        { tally with fails := tally.fails + 1 } := if_pos hk
    rw [hnext]
    refine .of_some ⟨hbudget.attempt, fun hclaimed => absurd rfl hclaimed, fun _ _ => hclaims⟩
  | cancel request response execution hk =>
    have hstatus : (canceled : Bytes) ≠ running := by decide
    exact .of_some ⟨(h.2 _ rfl).attempt, fun hclaimed => absurd rfl hclaimed,
      fun _ hrunning => absurd hrunning hstatus⟩

/-- Only a `fail_step` makes an execution fail, and only when the budget is used up. -/
theorem Budget.Holds.failsByBudget {k : Key} {m : UInt32} {log : WorkflowLog δ} {d : Docs δ}
    {request : WorkflowRequest δ} {response : WorkflowResponse δ}
    {after : Option (WorkflowExecutionRecord δ)}
    (h : Budget.Holds (stepTally k log) (executionAt d k)) (hbudgeted : Budgeted k m log d request)
    (hchange : Change k request response (executionAt d k) after) :
    FailsByBudget k m log request response (statusAt d k)
      (after.map WorkflowExecutionRecord.status) := by
  intro hbefore hafter
  rw [statusAt] at hbefore
  rw [stepTally_snoc]
  generalize hexecution : executionAt d k = before at h hchange hbefore
  have hrunning : (running : Bytes) ≠ failed := by decide
  have hcompleted : (completed : Bytes) ≠ failed := by decide
  have hcanceled : (canceled : Bytes) ≠ failed := by decide
  cases hchange with
  | other execution hevent hkeep => exact absurd hafter hbefore
  | start request response hk => exact absurd (Option.some_inj.mp hafter) hrunning
  | claim request executions execution hrequested hvisible hclaimed =>
    have hstatus : execution.status = failed := Option.some_inj.mp hafter
    exact absurd (hrequested.2.2.2.symm.trans hstatus) hrunning
  | keepAlive request response execution hk hholds => exact absurd hafter hbefore
  | complete request response execution hk hholds =>
    have hstatus : (complete request execution).status = failed := Option.some_inj.mp hafter
    rw [complete] at hstatus
    cases hnext : request.nextStep with
    | some step =>
      rw [hnext] at hstatus
      exact absurd hstatus hrunning
    | none =>
      rw [hnext] at hstatus
      exact absurd hstatus hcompleted
  | fail request response execution hk hholds =>
    obtain ⟨hmaximum, -, hleft⟩ := hbudgeted
    have hm : request.maxAttempts = m := hmaximum hk
    have hbudget := h.2 _ rfl
    have hclaimed : execution.claimedBy ≠ none := by
      rw [hholds.1]
      exact Option.some_ne_none _
    have hclaims := hbudget.claimed hclaimed
    have hattempt := hbudget.attempt
    have hstatus : (fail request execution).status = failed := Option.some_inj.mp hafter
    -- the branch of the source that fails the execution
    have hreached : request.maxAttempts.toNat ≤ execution.attempt.toNat := by
      by_contra hlt
      have hstill : (fail request execution).status = running := if_neg hlt
      exact hrunning (hstill.symm.trans hstatus)
    rw [hm] at hreached
    have hnext : (stepTally k log).next k (.failStep request, response) =
        { stepTally k log with fails := (stepTally k log).fails + 1 } := if_pos hk
    rw [hnext]
    have henough := hleft hk _ hexecution
    refine ⟨⟨request, rfl, hk⟩, ?_, ?_⟩
    · show m.toNat ≤ (stepTally k log).claims
      omega
    · show m.toNat ≤ (stepTally k log).fails + 1
      omega
  | cancel request response execution hk => exact absurd (Option.some_inj.mp hafter) hcanceled

theorem budget_history {k : Key} {m : UInt32} {d₀ d : Docs δ} {log : WorkflowLog δ}
    (h : History workflowProgram (Budgeted k m) d₀ log d) (hempty : ∀ k, executionAt d₀ k = none) :
    WellFormed d ∧ Budget.Holds (stepTally k log) (executionAt d k) := by
  have hwf : WellFormed d₀ := by
    intro k execution he
    rw [hempty k] at he
    cases he
  refine history_invariant
    (Q := fun log execution => Budget.Holds (stepTally k log) execution) k h hwf ?_ ?_
  · rw [hempty k]
    exact ⟨fun _ => rfl, nofun⟩
  · intro log d request response after hbudgeted _ hbudget hchange
    rw [stepTally_snoc]
    exact hbudget.change hbudgeted.2.1 hchange

/-- One more request of a history. -/
theorem failsByBudget_of_history {k : Key} {m : UInt32} {d₀ d d' : Docs δ} {log : WorkflowLog δ}
    {request : WorkflowRequest δ} {response : WorkflowResponse δ}
    (h : History workflowProgram (Budgeted k m) d₀ log d) (hempty : ∀ k, executionAt d₀ k = none)
    (hbudgeted : Budgeted k m log d request) (hruns : (workflowProgram request).Runs d response d') :
    FailsByBudget k m log request response (statusAt d k) (statusAt d' k) := by
  obtain ⟨hwf, hbudget⟩ := budget_history h hempty
  exact hbudget.failsByBudget hbudgeted (change_of_runs hwf.keyed hruns k)

/-! ## Runs -/

variable [Decimal δ]

/-- **The retry budget is per step**: whenever an event of the run makes the execution fail, the event
    is the commit of a `fail_step`, of a step that has been claimed and has failed as often as the
    maximum says since the execution entered it. -/
def RetryBudget (k : Key) (m : UInt32) (es : List (SessionEvent (WorkflowRequest δ) Unit)) : Prop :=
  ∀ before e after, es = before ++ e :: after →
    statusAt (workflowDocs before) k ≠ some failed →
    statusAt (workflowDocs (before ++ [e])) k = some failed →
    ∃ request response,
      workflowLog (before ++ [e]) = workflowLog before ++ [(.failStep request, response)] ∧
      request.workflowExecutionId = k ∧
      m.toNat ≤ (stepTally k (workflowLog (before ++ [e]))).claims ∧
      m.toNat ≤ (stepTally k (workflowLog (before ++ [e]))).fails

/-- **The retry budget is per step** in every history and every run in which each `fail_step` of the
    execution passes the same maximum, no claim expires, and an attempt counter that has reached the
    maximum has done so without the claims of earlier steps. -/
theorem retry_budget_per_step (k : Key) (m : UInt32) :
    (∀ (d₀ d d' : Docs δ) (log : WorkflowLog δ) (request : WorkflowRequest δ)
      (response : WorkflowResponse δ), (∀ k, executionAt d₀ k = none) →
      History workflowProgram (Budgeted k m) d₀ log d → Budgeted k m log d request →
      (workflowProgram request).Runs d response d' →
      FailsByBudget k m log request response (statusAt d k) (statusAt d' k)) ∧
    ∀ es : List (SessionEvent (WorkflowRequest δ) Unit),
      RunMeets workflowStore (Committing (Budgeted k m)) (World.init InMemoryState.empty) es →
      RetryBudget k m es := by
  refine ⟨?_, ?_⟩
  · intro d₀ d d' log request response hempty h hbudgeted hruns
    exact failsByBudget_of_history h hempty hbudgeted hruns
  · rintro _ hes before e after rfl hbefore hafter
    rw [List.append_cons] at hes
    have hlast := ((runMeets_append _).mp hes).1
    have hhistory := history_workflowStore ((runMeets_append _).mp hlast).1
    rcases committed_last later_ensureWorkflowCollections docs_ensureWorkflowCollections hlast with
      ⟨-, hsame⟩ | ⟨request, response, hlog, hbudgeted, hruns⟩
    · rw [workflowDocs, hsame] at hafter
      exact absurd hafter hbefore
    · obtain ⟨⟨r, rfl, hk⟩, hclaims, hfails⟩ :=
        failsByBudget_of_history hhistory executionAt_empty hbudgeted hruns hbefore hafter
      refine ⟨r, response, hlog, hk, ?_, ?_⟩
      · rw [workflowLog, hlog]
        exact hclaims
      · rw [workflowLog, hlog]
        exact hfails

/-- Worker `w` claims the execution `e` at time 0 and fails its step, which may be tried twice. -/
def failingRun : List (SessionEvent (WorkflowRequest Empty) Unit) :=
  soloSession 0 (WorkflowRequest.start
    { workflowExecutionId := ascii "e", workflowName := ascii "n", startStep := ascii "s",
      state := .null }) 2 ++
  soloSession 1 (WorkflowRequest.claimSteps
    { workflowExecutionId := [], workflowName := ascii "n", worker := ascii "w", now := 0,
      leaseDuration := 10 }) 3 ++
  soloSession 2 (WorkflowRequest.failStep
    { workflowExecutionId := ascii "e", worker := ascii "w", failedStep := ascii "s", reason := [],
      now := 0, maxAttempts := 2, claimToken := ascii "e:w:1" }) 3

/-- The first failure of the step does not make the execution fail. -/
theorem retry_budget_per_step_failing :
    RetryBudget (ascii "e") 2 failingRun ∧
      statusAt (workflowDocs failingRun) (ascii "e") = some running := by
  refine ⟨(retry_budget_per_step (ascii "e") 2).2 _ ?_, rfl⟩
  simp only [failingRun, runMeets_append]
  refine ⟨⟨?_, ?_⟩, ?_⟩ <;>
    refine runMeets_soloSession (by simp [length_slots_run, World.init]) ?_ _
  · exact ⟨trivial, trivial, trivial⟩
  · refine ⟨trivial, ?_, trivial⟩
    intro execution he _ _
    cases he
    rfl
  · refine ⟨fun _ => rfl, trivial, ?_⟩
    intro _ execution he
    cases he
    exact Or.inl (by decide)

/-- Worker `w` claims `e`, completes its first step, claims it again and fails the second one. -/
def consumedRun : List (SessionEvent (WorkflowRequest Empty) Unit) :=
  soloSession 0 (WorkflowRequest.start
    { workflowExecutionId := ascii "e", workflowName := ascii "n", startStep := ascii "s",
      state := .null }) 2 ++
  soloSession 1 (WorkflowRequest.claimSteps
    { workflowExecutionId := [], workflowName := ascii "n", worker := ascii "w", now := 0,
      leaseDuration := 10 }) 3 ++
  soloSession 2 (WorkflowRequest.completeStep
    { workflowExecutionId := ascii "e", worker := ascii "w", completedStep := ascii "s",
      nextStep := some (ascii "t"), state := .null, claimToken := ascii "e:w:1" }) 3 ++
  soloSession 3 (WorkflowRequest.claimSteps
    { workflowExecutionId := [], workflowName := ascii "n", worker := ascii "w", now := 0,
      leaseDuration := 10 }) 3

/-- The failure, with two attempts for each step. -/
def consumingFailure : WorkflowRequest Empty :=
  .failStep
    { workflowExecutionId := ascii "e", worker := ascii "w", failedStep := ascii "t", reason := [],
      now := 0, maxAttempts := 2, claimToken := ascii "e:w:2" }

/-- **The completed step has consumed the budget**: the second step fails for the first time, and the
    execution with it, though each step may be tried twice and no claim has expired. -/
theorem budget_consumed :
    RunMeets workflowStore
      (Committing fun _ d request =>
        SameMaximum (ascii "e") 2 request ∧ NoClaimExpired (ascii "e") d request)
      (World.init InMemoryState.empty) (consumedRun ++ soloSession 4 consumingFailure 3) ∧
    ¬ RetryBudget (ascii "e") 2 (consumedRun ++ soloSession 4 consumingFailure 3) := by
  refine ⟨?_, ?_⟩
  · simp only [consumedRun, runMeets_append]
    refine ⟨⟨⟨⟨?_, ?_⟩, ?_⟩, ?_⟩, ?_⟩ <;>
    refine runMeets_soloSession (by simp [length_slots_run, World.init]) ?_ _
    · exact ⟨trivial, trivial⟩
    · refine ⟨trivial, ?_⟩
      intro execution he _ _
      cases he
      rfl
    · exact ⟨trivial, trivial⟩
    · refine ⟨trivial, ?_⟩
      intro execution he _ _
      cases he
      rfl
    · exact ⟨fun _ => rfl, trivial⟩
  · intro hbudget
    obtain ⟨_, _, -, -, hclaims, -⟩ := hbudget
      (consumedRun ++ .begin consumingFailure :: List.replicate 3 (.op 4 ())) (.commit 4 ()) []
      rfl (by decide) (by decide)
    revert hclaims
    decide

end StateSpec.Runtime
