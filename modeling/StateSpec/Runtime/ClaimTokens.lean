/-
  CLAIM TOKENS — a step of a workflow is finalized at most once for each claim.

  The token of a claim is the id of the execution, the worker and the attempt counter, glued with
  ':'.  Ids and workers may contain ':' themselves, but a numeral does not, so the counter can be read
  off the end of a token; and the counter goes up with each claim of the execution.

  `Ledger` relates the events of an execution (`StateSpec.Lib.Claims`) to its record: the token in
  the record is the one that is open, and each finalization is under it.  It holds of every history
  (`ledger_history`), and what a legal ledger guarantees follows.
-/
import Mathlib.Algebra.Group.Nat.Defs
import StateSpec.Runtime.Executions

namespace StateSpec.Runtime

open Interleaving Memory ClaimEvent

variable {δ : Type}

/-- What the requests of a history have done to the claims of the execution `k`. -/
def claimEvents (k : Key) (log : List (WorkflowRequest δ × WorkflowResponse δ)) :
    List (ClaimEvent Bytes) :=
  log.map (claimEvent k)

theorem claimEvents_snoc (k : Key) (log : List (WorkflowRequest δ × WorkflowResponse δ))
    (entry : WorkflowRequest δ × WorkflowResponse δ) :
    claimEvents k (log ++ [entry]) = claimEvents k log ++ [claimEvent k entry] := by
  rw [claimEvents, List.map_append]
  rfl

/-- A token of the execution `k` with that number at its end. -/
def Numbered (k : Key) (number : Nat) (token : Bytes) : Prop :=
  ∃ worker, token = (k ++ colon :: worker) ++ colon :: Bytes.decimal number

/-- The number can be read off the end. -/
theorem Numbered.number_eq {k : Key} {m n : Nat} {token : Bytes} (hm : Numbered k m token)
    (hn : Numbered k n token) : m = n := by
  obtain ⟨worker, rfl⟩ := hm
  obtain ⟨worker', h⟩ := hn
  exact Bytes.decimal_injective (Bytes.glue_inj_right (Bytes.colon_not_mem_decimal m)
    (Bytes.colon_not_mem_decimal n) h).2

/-- The events of an execution, and its record. -/
structure Ledger (k : Key) (events : List (ClaimEvent Bytes))
    (execution : Option (WorkflowExecutionRecord δ)) : Prop where
  legal : Legal events
  holder : holder events = execution.bind WorkflowExecutionRecord.claimToken
  fresh : execution = none → issued events = []
  /-- The counter counts the claims. -/
  attempt : ∀ e, execution = some e → e.attempt.toNat = (issued events).length % 2 ^ 64
  /-- The `i`-th token ends in `i + 1`. -/
  numbered : ∀ i token, (issued events)[i]? = some token → Numbered k ((i + 1) % 2 ^ 64) token

variable {k : Key} {events : List (ClaimEvent Bytes)}

theorem ledger_nil : Ledger (δ := δ) k [] none where
  legal := .nil
  holder := rfl
  fresh _ := rfl
  attempt := nofun
  numbered := nofun

/-- An event that is no claim leaves the tokens as they are. -/
theorem Ledger.snoc {before after : Option (WorkflowExecutionRecord δ)} (h : Ledger k events before)
    {event : ClaimEvent Bytes} (hissue : ∀ token, event ≠ .issue token)
    (hlegal : ∀ token, event = .finalize token →
      before.bind WorkflowExecutionRecord.claimToken = some token)
    (hholder : next (before.bind WorkflowExecutionRecord.claimToken) event =
      after.bind WorkflowExecutionRecord.claimToken)
    (hfresh : after = none → before = none)
    (hattempt : ∀ e, after = some e →
      e.attempt.toNat = 0 ∧ before = none ∨ ∃ e', before = some e' ∧ e.attempt = e'.attempt) :
    Ledger k (events ++ [event]) after where
  legal := .snoc h.legal fun token ht => h.holder.trans (hlegal token ht)
  holder := by rw [holder_snoc, h.holder, hholder]
  fresh hnone := by rw [issued_snoc_of_ne hissue, h.fresh (hfresh hnone)]
  attempt e he := by
    rw [issued_snoc_of_ne hissue]
    rcases hattempt e he with ⟨hzero, hnone⟩ | ⟨e', he', hsame⟩
    · rw [hzero, h.fresh hnone]
      rfl
    · rw [hsame, h.attempt e' he']
  numbered := by
    rw [issued_snoc_of_ne hissue]
    exact h.numbered

/-- A claim issues the next token. -/
theorem Ledger.claim {execution : WorkflowExecutionRecord δ} (h : Ledger k events (some execution))
    (hid : execution.workflowExecutionId = k) (request : ClaimWorkflowStepRequest) {token : Bytes}
    (htoken : (claim request execution).claimToken = some token) :
    Ledger k (events ++ [.issue token]) (some (claim request execution).stored) := by
  have hcount : (execution.attempt + 1).toNat = ((issued events).length + 1) % 2 ^ 64 := by
    rw [UInt64.toNat_add, h.attempt execution rfl]
    simp
  refine ⟨.snoc h.legal nofun, ?_, nofun, ?_, ?_⟩
  · rw [holder_snoc]
    exact htoken.symm
  · rintro _ ⟨rfl⟩
    rw [issued_snoc_issue, List.length_append, List.length_singleton]
    exact hcount
  · intro i t hi
    rw [issued_snoc_issue] at hi
    rcases Nat.lt_or_ge i (issued events).length with hlt | hge
    · rw [List.getElem?_append_left hlt] at hi
      exact h.numbered i t hi
    · rw [List.getElem?_append_right hge, List.getElem?_singleton] at hi
      split_ifs at hi with hzero
      cases hi
      cases htoken
      obtain rfl : i = (issued events).length := by omega
      rw [← hcount, ← hid]
      exact ⟨request.worker, rfl⟩

/-- Each change keeps the ledger. -/
theorem Ledger.change {request : WorkflowRequest δ} {response : WorkflowResponse δ}
    {before after : Option (WorkflowExecutionRecord δ)} (h : Ledger k events before)
    (hkeyed : ∀ execution, before = some execution → execution.workflowExecutionId = k)
    (hchange : Change k request response before after) :
    Ledger k (events ++ [claimEvent k (request, response)]) after := by
  cases hchange with
  | other execution hevent hkeep =>
    rw [hevent]
    exact h.snoc (fun _ h => by cases h) (fun _ h => by cases h) rfl id fun e he => Or.inr ⟨e, he, rfl⟩
  | start request response hk =>
    exact h.snoc (fun _ h => by cases h) (fun _ h => by cases h) rfl (fun h => by cases h) fun e he => Or.inl ⟨by cases he; rfl, rfl⟩
  | claim request executions execution hrequested hvisible hclaimed =>
    have hevent : claimEvent k (.claimSteps request, .claimed executions) =
        .issue (claimTokenFor (Runtime.claim request execution) request.worker) := by
      rw [claimEvent, hclaimed]
      rfl
    rw [hevent]
    exact h.claim (hkeyed execution rfl) request rfl
  | keepAlive request response execution hk hholds =>
    exact h.snoc (fun _ h => by cases h) (fun _ h => by cases h) rfl id fun e he => Or.inr ⟨e, he, rfl⟩
  | complete request response execution hk hholds =>
    have hevent : claimEvent k (.completeStep request, response) = .finalize request.claimToken :=
      if_pos hk
    rw [hevent]
    refine h.snoc (fun _ h => by cases h) ?_ ?_ (fun h => by cases h) ?_
    · rintro _ ⟨rfl⟩
      exact hholds.2.2
    · exact (complete_claim request execution).2.1.symm
    · rintro _ ⟨rfl⟩
      exact Or.inr ⟨execution, rfl, complete_attempt request execution⟩
  | fail request response execution hk hholds =>
    have hevent : claimEvent k (.failStep request, response) = .finalize request.claimToken :=
      if_pos hk
    rw [hevent]
    refine h.snoc (fun _ h => by cases h) ?_ rfl (fun h => by cases h) ?_
    · rintro _ ⟨rfl⟩
      exact hholds.2.2
    · rintro _ ⟨rfl⟩
      exact Or.inr ⟨execution, rfl, rfl⟩
  | cancel request response execution hk =>
    have hevent : claimEvent k (.cancel request, response) = .cancel := if_pos hk
    rw [hevent]
    exact h.snoc (fun _ h => by cases h) (fun _ h => by cases h) rfl (fun h => by cases h) fun e he => Or.inr ⟨execution, rfl, by cases he; rfl⟩

/-- **Every history keeps the ledger of each execution.** -/
theorem ledger_history
    {P : List (WorkflowRequest δ × WorkflowResponse δ) → Docs δ → WorkflowRequest δ → Prop}
    {d₀ d : Docs δ} {log : List (WorkflowRequest δ × WorkflowResponse δ)}
    (h : History workflowProgram P d₀ log d) (hempty : ∀ k, executionAt d₀ k = none) (k : Key) :
    Ledger k (claimEvents k log) (executionAt d k) := by
  have hwf : WellFormed d₀ := fun k execution he => by
    rw [hempty k] at he
    cases he
  refine (history_invariant (Q := fun log execution => Ledger k (claimEvents k log) execution) k h
    hwf ?_ ?_).2
  · rw [hempty k]
    exact ledger_nil
  · intro log d request response after _ hwf hledger hchange
    rw [claimEvents_snoc]
    exact hledger.change (hwf.keyed k) hchange

/-- As long as the counter does not wrap around, no token is issued twice. -/
theorem Ledger.nodup_issued {execution : Option (WorkflowExecutionRecord δ)}
    (h : Ledger k events execution) (hcount : (issued events).length < 2 ^ 64) :
    (issued events).Nodup := by
  rw [List.nodup_iff_getElem?_ne_getElem?]
  intro i j hij hj heq
  have hj' := List.getElem?_eq_getElem hj
  have hnumber := (h.numbered i _ (heq.trans hj')).number_eq (h.numbered j _ hj')
  rw [Nat.mod_eq_of_lt (by omega), Nat.mod_eq_of_lt (by omega)] at hnumber
  omega

/-! ## Runs -/

variable [Decimal δ]

/-- What the committed requests of a run have done to the claims of the execution `k`. -/
def runClaimEvents (es : List (SessionEvent (WorkflowRequest δ) Unit)) (k : Key) :
    List (ClaimEvent Bytes) :=
  claimEvents k (answers (run workflowStore (World.init InMemoryState.empty) es).log)

/-- **A step is finalized at most once for each claim**, in every interleaving of the sessions of any
    number of workers.  The tokens issued for an execution differ; at most one `complete_step` or
    `fail_step` commits for each; and none commits for a token after a later claim, completion,
    failure or cancellation of the execution has. -/
theorem finalized_once_per_claim (es : List (SessionEvent (WorkflowRequest δ) Unit)) (k : Key)
    (hcount : (issued (runClaimEvents es k)).length < 2 ^ 64) :
    (issued (runClaimEvents es k)).Nodup ∧ (finalized (runClaimEvents es k)).Nodup ∧
      ∀ before token middle event rest,
        runClaimEvents es k = before ++ .issue token :: (middle ++ event :: rest) →
        event ≠ .other → .finalize token ∉ rest := by
  have hledger : Ledger k (runClaimEvents es k) _ :=
    ledger_history (history_workflowStore (P := fun _ _ _ => True)
      (runMeets_of_forall _ (fun _ _ _ _ _ _ => trivial) _ es)) executionAt_empty k
  have hnodup := hledger.nodup_issued hcount
  refine ⟨hnodup, hledger.legal.finalized_once hnodup, ?_⟩
  intro before token middle event rest hevents hevent
  have hlegal := hledger.legal
  rw [hevents] at hlegal hnodup
  exact hlegal.fenced hnodup rfl hevent

/-- Worker `w` claims the execution `e`, completes its only step, and is late with a failure. -/
def completedRun : List (SessionEvent (WorkflowRequest Empty) Unit) :=
  soloSession 0 (WorkflowRequest.start
    { workflowExecutionId := ascii "e", workflowName := ascii "n", startStep := ascii "s",
      state := .null }) 2 ++
  soloSession 1 (WorkflowRequest.claimSteps
    { workflowExecutionId := [], workflowName := ascii "n", worker := ascii "w", now := 0,
      leaseDuration := 10 }) 3 ++
  soloSession 2 (WorkflowRequest.completeStep
    { workflowExecutionId := ascii "e", worker := ascii "w", completedStep := ascii "s",
      state := .null, claimToken := ascii "e:w:1" }) 3 ++
  soloSession 3 (WorkflowRequest.failStep
    { workflowExecutionId := ascii "e", worker := ascii "w", failedStep := ascii "s", reason := [],
      now := 0, claimToken := ascii "e:w:1" }) 3

theorem finalized_once_per_claim_completed :
    runClaimEvents completedRun (ascii "e") =
      [.other, .issue (ascii "e:w:1"), .finalize (ascii "e:w:1")] ∧
    (issued (runClaimEvents completedRun (ascii "e"))).Nodup ∧
    (finalized (runClaimEvents completedRun (ascii "e"))).Nodup :=
  have h := finalized_once_per_claim completedRun (ascii "e") (by decide)
  ⟨by decide, h.1, h.2.1⟩

end StateSpec.Runtime
