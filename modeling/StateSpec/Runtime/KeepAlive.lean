/-
  KEEPING A CLAIM ALIVE — for how long a kept-alive claim keeps other workers away.

  `keep_alive_step` writes the heartbeat of the claim and leaves the execution alone, while
  `claim_steps` looks at the execution and never at a heartbeat.  So a keep-alive that goes beyond the
  expiry the claim was given does not hold (`kept_alive_claim_lost`); one that does not, does:
  `kept_alive_exclusive`, for every history of committed requests and so for every run on the C++
  backend.

  The invariant is `Covered`: as long as a kept-alive claim has not been finished, either it is the
  claim in the record, whose expiry covers the promise, or it has expired and was taken over at a
  time that covers the promise.
-/
import StateSpec.Runtime.Executions

namespace StateSpec.Runtime

open Interleaving Memory

variable {δ : Type}

/-- The end of the lease a keep-alive asks for. -/
def KeepAliveWorkflowStepRequest.until (request : KeepAliveWorkflowStepRequest) : Timestamp :=
  request.now.plus request.leaseDuration

/-- The claim that `keep` has kept alive was completed, failed or canceled by one of the requests. -/
def Finished (keep : KeepAliveWorkflowStepRequest) (log : WorkflowLog δ) : Prop :=
  ∃ entry ∈ log, claimEvent keep.workflowExecutionId entry = .finalize keep.claimToken ∨
    claimEvent keep.workflowExecutionId entry = .cancel

/-- **Kept-alive claims are exclusive**: after a keep-alive, and until its claim is finished, no claim
    before the end of the lease returns the execution. -/
def KeptAliveExclusive (log : WorkflowLog δ) : Prop :=
  ∀ before keep response middle request executions rest,
    log = before ++ (.keepAliveStep keep, response) ::
      (middle ++ (.claimSteps request, .claimed executions) :: rest) →
    ¬ Finished keep middle → request.now < keep.until →
    ∀ execution ∈ executions, execution.workflowExecutionId ≠ keep.workflowExecutionId

/-- What a keep-alive and a claim find in the state before them: the keep-alive does not reach beyond
    the expiry in the execution, and no execution that could be claimed now has been claimed at a
    later time. -/
def WithinLease (log : WorkflowLog δ) (d : Docs δ) : WorkflowRequest δ → Prop
  | .keepAliveStep keep =>
    ∀ execution, executionAt d keep.workflowExecutionId = some execution →
      ∀ expiry, execution.claimExpiresAt = some expiry → keep.until ≤ expiry
  | .claimSteps request =>
    ∀ k execution, executionAt d k = some execution → Requested request execution →
      Visible execution request.now → ∀ earlier executions,
        (.claimSteps earlier, .claimed executions) ∈ log → (claimedOf k executions).isSome →
        earlier.now ≤ request.now
  | _ => True

/-! ## The invariant -/

/-- The kept-alive claim of the execution is the one in its record, for long enough. -/
def InRecord (keep : KeepAliveWorkflowStepRequest) (execution : Option (WorkflowExecutionRecord δ)) :
    Prop :=
  ∃ e expiry, execution = some e ∧ e.claimToken = some keep.claimToken ∧
    e.claimExpiresAt = some expiry ∧ keep.until ≤ expiry

/-- The kept-alive claim has been taken over by one of the requests, late enough. -/
def TakenOver (keep : KeepAliveWorkflowStepRequest) (log : WorkflowLog δ) : Prop :=
  ∃ request executions, (.claimSteps request, .claimed executions) ∈ log ∧
    (claimedOf keep.workflowExecutionId executions).isSome ∧ keep.until ≤ request.now

/-- A kept-alive claim that has not been finished is still there, or has run out. -/
def Covered (k : Key) (log : WorkflowLog δ) (execution : Option (WorkflowExecutionRecord δ)) : Prop :=
  ∀ before keep response after, log = before ++ (.keepAliveStep keep, response) :: after →
    keep.workflowExecutionId = k → ¬ Finished keep after →
    InRecord keep execution ∨ TakenOver keep after

variable {k : Key} {keep : KeepAliveWorkflowStepRequest}

/-- A claim that is still there can only be taken over after the lease. -/
theorem InRecord.until_le {e : WorkflowExecutionRecord δ} (h : InRecord keep (some e))
    (hsound : e.Sound) {now : Timestamp} (hvisible : Visible e now) : keep.until ≤ now := by
  obtain ⟨_, expiry, ⟨rfl⟩, htoken, hexpires, hle⟩ := h
  rcases hvisible with hfree | ⟨expiry', hexpires', hnow⟩
  · rw [hsound.token.mpr hfree] at htoken
    cases htoken
  · obtain rfl := Option.some_inj.mp (hexpires.symm.trans hexpires')
    exact Int.le_trans hle hnow

theorem finished_append {l l' : WorkflowLog δ} :
    Finished keep (l ++ l') ↔ Finished keep l ∨ Finished keep l' := by
  simp only [Finished, List.mem_append, or_and_right, exists_or]

/-- What a change does to a claim that is still there. -/
theorem InRecord.change {request : WorkflowRequest δ} {response : WorkflowResponse δ}
    {before after : Option (WorkflowExecutionRecord δ)} (h : InRecord keep before)
    (hk : keep.workflowExecutionId = k) (hsound : ∀ e, before = some e → e.Sound)
    (hchange : Change k request response before after) :
    InRecord keep after ∨ TakenOver keep [(request, response)] ∨
      Finished keep [(request, response)] := by
  subst hk
  cases hchange with
  | other execution hevent hkeep => exact Or.inl h
  | start request response hid =>
    obtain ⟨_, _, hnone, _⟩ := h
    cases hnone
  | claim request executions execution hrequested hvisible hclaimed =>
    refine Or.inr (Or.inl ⟨request, executions, List.mem_singleton_self _, ?_, ?_⟩)
    · rw [hclaimed]
      rfl
    · exact h.until_le (hsound execution rfl) hvisible
  | keepAlive request response execution hid hholds => exact Or.inl h
  | complete request response execution hid hholds =>
    obtain ⟨_, _, ⟨rfl⟩, htoken, _⟩ := h
    have htokens := Option.some_inj.mp (hholds.2.2.symm.trans htoken)
    exact Or.inr (Or.inr ⟨_, List.mem_singleton_self _, Or.inl (htokens ▸ if_pos hid)⟩)
  | fail request response execution hid hholds =>
    obtain ⟨_, _, ⟨rfl⟩, htoken, _⟩ := h
    have htokens := Option.some_inj.mp (hholds.2.2.symm.trans htoken)
    exact Or.inr (Or.inr ⟨_, List.mem_singleton_self _, Or.inl (htokens ▸ if_pos hid)⟩)
  | cancel request response execution hid =>
    exact Or.inr (Or.inr ⟨_, List.mem_singleton_self _, Or.inr (if_pos hid)⟩)

/-- A keep-alive within the lease leaves the claim in the record for long enough. -/
theorem inRecord_of_keepAlive {log : WorkflowLog δ} {d : Docs δ} {response : WorkflowResponse δ}
    {after : Option (WorkflowExecutionRecord δ)} (hwf : WellFormed d)
    (hlease : WithinLease log d (.keepAliveStep keep)) (hk : keep.workflowExecutionId = k)
    (hchange : Change k (.keepAliveStep keep) response (executionAt d k) after) :
    InRecord keep after := by
  subst hk
  generalize hbefore : executionAt d keep.workflowExecutionId = before at hchange
  cases hchange with
  | other execution hevent hkeep => exact absurd rfl hkeep
  | keepAlive request response execution hid hholds =>
    obtain ⟨-, hsound⟩ := hwf _ _ hbefore
    cases hexpires : execution.claimExpiresAt with
    | none =>
      have hfree := hsound.expires.mp hexpires
      rw [hholds.1] at hfree
      cases hfree
    | some expiry =>
      exact ⟨execution, expiry, rfl, hholds.2.2, hexpires, hlease _ hbefore _ hexpires⟩

/-- Each committed request keeps the invariant. -/
theorem Covered.snoc {log : WorkflowLog δ} {d : Docs δ} {request : WorkflowRequest δ}
    {response : WorkflowResponse δ} {after : Option (WorkflowExecutionRecord δ)}
    (h : Covered k log (executionAt d k)) (hwf : WellFormed d) (hlease : WithinLease log d request)
    (hchange : Change k request response (executionAt d k) after) :
    Covered k (log ++ [(request, response)]) after := by
  intro before keep response' later hlog hk hfinished
  rcases snoc_eq_append_cons hlog with ⟨rfl, rfl, heq⟩ | ⟨rest, rfl, hlog'⟩
  · cases heq
    exact Or.inl (inRecord_of_keepAlive hwf hlease hk hchange)
  · rw [finished_append, not_or] at hfinished
    rcases h before keep response' rest hlog' hk hfinished.1 with hrecord | ⟨r, l, hmem, htaken⟩
    · rcases hrecord.change hk (fun e he => (hwf _ _ he).2) hchange with
        hrecord' | ⟨r, l, hmem, htaken⟩ | hfinished'
      · exact Or.inl hrecord'
      · exact Or.inr ⟨r, l, List.mem_append_right _ hmem, htaken⟩
      · exact absurd hfinished' hfinished.2
    · exact Or.inr ⟨r, l, List.mem_append_left _ hmem, htaken⟩

/-- A claim before the end of the lease does not return the execution. -/
theorem Covered.not_claimed {log : WorkflowLog δ} {d : Docs δ} {request : ClaimWorkflowStepRequest}
    {executions : List (WorkflowExecutionRecord δ)} {after : Option (WorkflowExecutionRecord δ)}
    (hwf : WellFormed d) (hlease : WithinLease log d (.claimSteps request))
    (hcovered : InRecord keep (executionAt d keep.workflowExecutionId) ∨ TakenOver keep log)
    (hnow : request.now < keep.until)
    (hchange : Change keep.workflowExecutionId (.claimSteps request) (.claimed executions)
      (executionAt d keep.workflowExecutionId) after) :
    claimedOf keep.workflowExecutionId executions = none := by
  generalize hbefore : executionAt d keep.workflowExecutionId = before at hchange hcovered
  cases hchange with
  | other execution hevent hkeep =>
    rw [claimEvent] at hevent
    cases hclaimed : claimedOf keep.workflowExecutionId executions with
    | none => rfl
    | some execution =>
      rw [hclaimed] at hevent
      cases hevent
  | claim request executions execution hrequested hvisible hclaimed =>
    exfalso
    rcases hcovered with hrecord | ⟨earlier, l, hmem, hisSome, hle⟩
    · exact Int.not_lt.mpr (hrecord.until_le (hwf _ _ hbefore).2 hvisible) hnow
    · have hlater := hlease _ _ hbefore hrequested hvisible earlier l hmem hisSome
      exact Int.not_lt.mpr (Int.le_trans hle hlater) hnow

theorem not_mem_of_claimedOf {executions : List (WorkflowExecutionRecord δ)}
    (h : claimedOf k executions = none) :
    ∀ execution ∈ executions, execution.workflowExecutionId ≠ k := by
  intro execution hmem hid
  rw [claimedOf, List.find?_eq_none] at h
  exact h execution hmem (beq_iff_eq.mpr hid)

/-- Exclusivity, from the invariant of each execution. -/
theorem keptAliveExclusive_snoc {log : WorkflowLog δ} {d d' : Docs δ} {request : WorkflowRequest δ}
    {response : WorkflowResponse δ} (h : KeptAliveExclusive log) (hwf : WellFormed d)
    (hcovered : ∀ k, Covered k log (executionAt d k)) (hlease : WithinLease log d request)
    (hchange : ∀ k, Change k request response (executionAt d k) (executionAt d' k)) :
    KeptAliveExclusive (log ++ [(request, response)]) := by
  intro before keep response' middle claim executions rest hlog hfinished hnow
  rcases snoc_eq_append_pair hlog with ⟨rfl, rfl, heq⟩ | ⟨rest, rfl, hlog'⟩
  · cases heq
    refine not_mem_of_claimedOf (Covered.not_claimed hwf hlease ?_ hnow (hchange _))
    refine (hcovered _ before keep response' middle rfl rfl hfinished).imp id ?_
    rintro ⟨r, l, hmem, htaken⟩
    exact ⟨r, l, List.mem_append_right _ (List.mem_cons_of_mem _ hmem), htaken⟩
  · exact h before keep response' middle claim executions rest hlog' hfinished hnow

theorem keptAlive_history {d₀ d : Docs δ} {log : WorkflowLog δ}
    (h : History workflowProgram WithinLease d₀ log d) (hempty : ∀ k, executionAt d₀ k = none) :
    WellFormed d ∧ (∀ k, Covered k log (executionAt d k)) ∧ KeptAliveExclusive log := by
  induction h with
  | nil =>
    refine ⟨fun k e he => ?_, fun k before keep response after hlog => ?_,
      fun before keep response middle request executions rest hlog => ?_⟩
    · rw [hempty k] at he
      cases he
    · simp at hlog
    · simp at hlog
  | snoc _ hlease hruns ih =>
    obtain ⟨hwf, hcovered, hexclusive⟩ := ih
    have hchange := change_of_runs hwf.keyed hruns
    exact ⟨fun k => (hchange k).wellFormed (hwf k),
      fun k => (hcovered k).snoc hwf hlease (hchange k),
      keptAliveExclusive_snoc hexclusive hwf hcovered hlease hchange⟩

/-! ## Runs -/

variable [Decimal δ]

/-- Worker `w` claims the execution `e` at time 0 for ten seconds; then `keep`, then another claim. -/
def keepAliveRun (keep : Seconds) (claimAt : Timestamp) :
    List (SessionEvent (WorkflowRequest Empty) Unit) :=
  soloSession 0 (WorkflowRequest.start
    { workflowExecutionId := ascii "e", workflowName := ascii "n", startStep := ascii "s",
      state := .null }) 2 ++
  soloSession 1 (WorkflowRequest.claimSteps
    { workflowExecutionId := [], workflowName := ascii "n", worker := ascii "w", now := 0,
      leaseDuration := 10 }) 3 ++
  soloSession 2 (WorkflowRequest.keepAliveStep
    { workflowExecutionId := ascii "e", worker := ascii "w", currentStep := ascii "s",
      claimToken := ascii "e:w:1", now := 0, leaseDuration := keep }) 2 ++
  soloSession 3 (WorkflowRequest.claimSteps
    { workflowExecutionId := [], workflowName := ascii "n", worker := ascii "v", now := claimAt,
      leaseDuration := 10 }) 3

end StateSpec.Runtime
