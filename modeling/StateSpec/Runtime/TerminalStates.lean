/-
  TERMINAL STATES — what can still happen to an execution that is completed, failed or canceled.

  Claiming asks for a running execution, and the operations on a claim ask for a claim, which only a
  running execution has (`WorkflowExecutionRecord.Sound`).  Canceling asks for nothing.  So the current
  step of a terminal execution never changes, and its status only by `cancel`, to "Canceled"
  (`terminal_final`).
-/
import StateSpec.Runtime.Executions

namespace StateSpec.Runtime

open Interleaving Memory

variable {δ : Type}

/-- The status of an execution that is over. -/
def Terminal (status : Bytes) : Prop := status = completed ∨ status = failed ∨ status = canceled

theorem Terminal.ne_running {status : Bytes} (h : Terminal status) : status ≠ running := by
  rcases h with rfl | rfl | rfl <;> decide

/-- One of the requests cancels the execution. -/
def CanceledBy (k : Key) (log : List (WorkflowRequest δ × WorkflowResponse δ)) : Prop :=
  ∃ request response, (.cancel request, response) ∈ log ∧ request.workflowExecutionId = k

/-- The execution is as it was, or has been canceled. -/
def FinalSince (k : Key) (execution : WorkflowExecutionRecord δ)
    (log : List (WorkflowRequest δ × WorkflowResponse δ))
    (now : Option (WorkflowExecutionRecord δ)) : Prop :=
  ∃ e, now = some e ∧ e.currentStep = execution.currentStep ∧
    (e.status = execution.status ∨ e.status = canceled ∧ CanceledBy k log)

/-- A terminal execution has no claim. -/
theorem not_holdsClaim {execution : WorkflowExecutionRecord δ} (hsound : execution.Sound)
    (hterminal : Terminal execution.status) {worker step claimToken : Bytes} :
    ¬ HoldsClaim execution worker step claimToken := by
  rintro ⟨hby, -, -⟩
  refine hterminal.ne_running (hsound.running ?_)
  rw [hby]
  nofun

/-- Each change leaves a terminal execution as it is, or cancels it. -/
theorem FinalSince.change {k : Key} {execution : WorkflowExecutionRecord δ}
    {log : List (WorkflowRequest δ × WorkflowResponse δ)} {request : WorkflowRequest δ}
    {response : WorkflowResponse δ} {before after : Option (WorkflowExecutionRecord δ)}
    (h : FinalSince k execution log before) (hterminal : Terminal execution.status)
    (hsound : ∀ e, before = some e → e.Sound) (hchange : Change k request response before after) :
    FinalSince k execution (log ++ [(request, response)]) after := by
  have hkept : FinalSince k execution (log ++ [(request, response)]) before := by
    obtain ⟨e, he, hstep, hstatus⟩ := h
    refine ⟨e, he, hstep, hstatus.imp id (And.imp id ?_)⟩
    rintro ⟨r, a, hmem, hid⟩
    exact ⟨r, a, List.mem_append_left _ hmem, hid⟩
  obtain ⟨e, he, hstep, hstatus⟩ := h
  have hterminal' : Terminal e.status := by
    rcases hstatus with hsame | ⟨hcanceled, -⟩
    · exact hsame ▸ hterminal
    · exact Or.inr (Or.inr hcanceled)
  cases hchange with
  | other x hevent hkeep => exact hkept
  | start r response hid => cases he
  | claim r executions x hrequested hvisible hclaimed =>
    obtain rfl := Option.some_inj.mp he
    exact absurd hrequested.2.2.2 hterminal'.ne_running
  | keepAlive r response x hid hholds => exact hkept
  | complete r response x hid hholds =>
    obtain rfl := Option.some_inj.mp he
    exact absurd hholds (not_holdsClaim (hsound x rfl) hterminal')
  | fail r response x hid hholds =>
    obtain rfl := Option.some_inj.mp he
    exact absurd hholds (not_holdsClaim (hsound x rfl) hterminal')
  | cancel r response x hid =>
    obtain rfl := Option.some_inj.mp he
    exact ⟨_, rfl, hstep, Or.inr ⟨rfl, r, response, List.mem_append_right _ (List.mem_singleton_self _),
      hid⟩⟩

theorem finalSince_history
    {P : List (WorkflowRequest δ × WorkflowResponse δ) → Docs δ → WorkflowRequest δ → Prop}
    {d₀ d : Docs δ} {log : List (WorkflowRequest δ × WorkflowResponse δ)} {k : Key}
    {execution : WorkflowExecutionRecord δ} (h : History workflowProgram P d₀ log d)
    (hwf : WellFormed d₀) (hexecution : executionAt d₀ k = some execution)
    (hterminal : Terminal execution.status) : FinalSince k execution log (executionAt d k) := by
  refine (history_invariant (Q := FinalSince k execution) k h hwf ?_ ?_).2
  · exact ⟨execution, hexecution, rfl, Or.inl rfl⟩
  · intro log d request response after _ hwf hfinal hchange
    exact hfinal.change hterminal (fun e he => (hwf k e he).2) hchange

/-! ## Runs -/

variable [Decimal δ]

/-- **A terminal execution keeps its step, and its status but for a cancellation**, in every run from
    every reachable state. -/
theorem terminal_final (es es' : List (SessionEvent (WorkflowRequest δ) Unit)) (k : Key)
    (execution : WorkflowExecutionRecord δ)
    (hexecution : executionAt
      (docs (run workflowStore (World.init InMemoryState.empty) es).shared) k = some execution)
    (hterminal : Terminal execution.status) :
    FinalSince k execution
      (answers (commits workflowStore (run workflowStore (World.init InMemoryState.empty) es) es'))
      (executionAt (docs (run workflowStore (World.init InMemoryState.empty) (es ++ es')).shared)
        k) :=
  finalSince_history
    (history_from later_ensureWorkflowCollections docs_ensureWorkflowCollections _ es es')
    (wellFormed_run es) hexecution hterminal

/-- Worker `w` claims the execution `e` and completes its only step. -/
def completingRun : List (SessionEvent (WorkflowRequest Empty) Unit) :=
  soloSession 0 (WorkflowRequest.start
    { workflowExecutionId := ascii "e", workflowName := ascii "n", startStep := ascii "s",
      state := .null }) 2 ++
  soloSession 1 (WorkflowRequest.claimSteps
    { workflowExecutionId := [], workflowName := ascii "n", worker := ascii "w", now := 0,
      leaseDuration := 10 }) 3 ++
  soloSession 2 (WorkflowRequest.completeStep
    { workflowExecutionId := ascii "e", worker := ascii "w", completedStep := ascii "s",
      state := .null, claimToken := ascii "e:w:1" }) 3

/-- Then the execution is canceled. -/
def cancelingRun : List (SessionEvent (WorkflowRequest Empty) Unit) :=
  soloSession 3 (WorkflowRequest.cancel { workflowExecutionId := ascii "e", reason := [] }) 2

theorem terminal_final_completed :
    ∃ execution, executionAt (docs (run workflowStore (World.init InMemoryState.empty)
        completingRun).shared) (ascii "e") = some execution ∧
      FinalSince (ascii "e") execution
        (answers (commits workflowStore (run workflowStore (World.init InMemoryState.empty)
          completingRun) cancelingRun))
        (executionAt (docs (run workflowStore (World.init InMemoryState.empty)
          (completingRun ++ cancelingRun)).shared) (ascii "e")) :=
  ⟨_, rfl, terminal_final completingRun cancelingRun (ascii "e") _ rfl (Or.inl rfl)⟩

/-- **A completed execution becomes canceled.** -/
theorem canceled_after_completion :
    ∃ execution execution',
      executionAt (docs (run workflowStore (World.init InMemoryState.empty)
        completingRun).shared) (ascii "e") = some execution ∧
      execution.status = completed ∧
      executionAt (docs (run workflowStore (World.init InMemoryState.empty)
        (completingRun ++ cancelingRun)).shared) (ascii "e") = some execution' ∧
      execution'.status = canceled ∧ execution'.status ≠ execution.status :=
  ⟨_, _, rfl, rfl, rfl, rfl, by decide⟩

end StateSpec.Runtime
