/-
  STEPS THAT COMMIT — keeping a claim alive does not get in the way of its own step.

  While the transaction of a step is open, the keep-alives of its claim write the heartbeat, and the
  end of the step reads it; both read the execution.  The keep-alives write nowhere else
  (`overlays_of_keepsAlive`) and have stopped when the heartbeat is read, so they disturb the step no
  more than a transaction that writes something else: the step ends, commits, and leaves no heartbeat
  (`finalized_of_settled`).  From then on the execution is not claimed, and no keep-alive of the claim
  commits any more.

  There is one way to be refused although nobody has written anything: the transaction observes the
  version 0 of a record that has been erased before (`ReadsSettled` says that it does not).
-/
import StateSpec.Cpp.Undisturbed
import StateSpec.Runtime.CrashingHandlers

set_option linter.unusedSectionVars false

namespace StateSpec.Runtime

open Cpp Memory Memory.InMemoryTransaction Interleaving

variable {δ : Type} [Decimal δ]

/-! ## Keeping a claim alive -/

namespace ClaimedStep

variable {runner : WorkflowRunner} {s : State δ}

/-- The counter of the claimed execution. -/
def executionKey (step : ClaimedStep runner s) : Bytes :=
  recordVersionKey step.execution.1 step.execution.2

/-- The counter of the heartbeat of the claim. -/
def heartbeatKey (step : ClaimedStep runner s) : Bytes :=
  recordVersionKey step.heartbeat.1 step.heartbeat.2

/-- Transaction `n` is kept alive: what other transactions commit keeps the claim alive or leaves the
    execution alone, and nobody writes another record that `n` has observed. -/
def KeptAlive (step : ClaimedStep runner s) (n : Nat) (w : StoreWorld δ) (e : StoreEvent δ) : Prop :=
  ∀ slot r, OtherCommits n w e slot r →
    (step.KeepsAlive slot ∨ ¬ slot.tx.Overlays step.executionKey) ∧
    ∀ vk, HasObserved n w vk → vk ≠ step.executionKey → ¬ slot.tx.Overlays vk

/-- The keep-alives have stopped: nobody writes the execution, or what `n` has observed. -/
def Stopped (step : ClaimedStep runner s) (n : Nat) (w : StoreWorld δ) (e : StoreEvent δ) : Prop :=
  ∀ slot r, OtherCommits n w e slot r →
    ¬ step.KeepsAlive slot ∧ ¬ slot.tx.Overlays step.executionKey ∧
    ∀ vk, HasObserved n w vk → ¬ slot.tx.Overlays vk

/-- After the step: what is committed keeps the claim alive, or leaves the execution and the heartbeat
    alone. -/
def Afterwards (step : ClaimedStep runner s) (w : StoreWorld δ) (e : StoreEvent δ) : Prop :=
  ∀ m slot r, e = .commit m () → w.slots[m]? = some slot → Cpp.commit w.shared slot.tx = .ok r →
    step.KeepsAlive slot ∨
    ¬ slot.tx.Overlays step.executionKey ∧ ¬ slot.tx.Overlays step.heartbeatKey

theorem heartbeatKey_ne_executionKey (step : ClaimedStep runner s) :
    step.heartbeatKey ≠ step.executionKey := by
  intro h
  obtain ⟨hc, hk⟩ := recordVersionKey_inj (colon_heartbeatPlace _ _) (colon_executionPlace _) h
  exact step.heartbeat_ne_execution (Prod.ext hc hk).symm

/-- **A keep-alive writes the heartbeat of the claim**, and nothing else. -/
theorem overlays_of_keepsAlive (step : ClaimedStep runner s) {s' : State δ}
    {slot : TxSlot δ (Query δ)} (hreplay : storeDiscipline.Replay s' () slot.script slot.tx)
    (h : step.KeepsAlive slot) :
    ∃ id token, ∀ vk, slot.tx.Overlays vk →
      vk = recordVersionKey (heartbeatPlace id token).1 (heartbeatPlace id token).2 := by
  obtain ⟨now, kept, hperforms⟩ := h
  obtain ⟨record, execution, -, -, hcalls⟩ := performs_keepAliveStepTx hperforms
  refine ⟨execution.workflowExecutionId, execution.claimToken.getD [], fun vk hover => ?_⟩
  obtain ⟨call, hcall, c, k, hwrites, hkey⟩ := (overlays_of_replay hreplay).mp hover
  rw [hcalls] at hcall
  simp only [List.mem_cons, List.not_mem_nil, or_false] at hcall
  rcases hcall with rfl | rfl
  · exact hwrites.elim
  · obtain ⟨rfl, rfl⟩ := hwrites
    exact hkey.symm

theorem not_overlays_of_keepsAlive (step : ClaimedStep runner s) {s' : State δ}
    {slot : TxSlot δ (Query δ)} (hreplay : storeDiscipline.Replay s' () slot.script slot.tx)
    (h : step.KeepsAlive slot) : ¬ slot.tx.Overlays step.executionKey := by
  intro hover
  obtain ⟨id, token, hkey⟩ := step.overlays_of_keepsAlive hreplay h
  obtain ⟨hc, hk⟩ := recordVersionKey_inj (colon_executionPlace _) (colon_heartbeatPlace _ _)
    (hkey _ hover)
  exact executionPlace_ne_heartbeatPlace _ _ _ (Prod.ext hc hk)

variable {n : Nat} {w : StoreWorld δ} {e : StoreEvent δ} {s₀ : State δ}

/-- What commits could have run at the instant of its commit. -/
theorem replay_of_commits (hinv : storeDiscipline.Inv s₀ w) {m : Nat} {slot : TxSlot δ (Query δ)}
    {r : State δ × Tx δ} (hm : w.slots[m]? = some slot) (hc : Cpp.commit w.shared slot.tx = .ok r) :
    storeDiscipline.Replay w.shared () slot.script slot.tx :=
  (hinv.slots slot (List.mem_of_getElem? hm) (commit_ok (commit_ok_iff.mp hc)).1).2 _
    (Later.refl _) (valid_of_commit (commit_ok_iff.mp hc))

/-- **Nobody writes the execution** while the step is kept alive. -/
theorem KeptAlive.not_overlays {step : ClaimedStep runner s} (hinv : storeDiscipline.Inv s₀ w)
    (h : step.KeptAlive n w e) {slot : TxSlot δ (Query δ)} {r : State δ × Tx δ}
    (hother : OtherCommits n w e slot r) : ¬ slot.tx.Overlays step.executionKey := by
  rcases (h slot r hother).1 with hkeeps | hover
  · obtain ⟨m, -, -, hm, hc⟩ := hother
    exact step.not_overlays_of_keepsAlive (replay_of_commits hinv hm hc) hkeeps
  · exact hover

/-- **A keep-alive does not disturb the step.** -/
theorem KeptAlive.undisturbed {step : ClaimedStep runner s} (hinv : storeDiscipline.Inv s₀ w)
    (h : step.KeptAlive n w e) : Cpp.Undisturbed n w e := by
  intro slot r hother vk hobserved
  by_cases hkey : vk = step.executionKey
  · exact hkey ▸ h.not_overlays hinv hother
  · exact (h slot r hother).2 vk hobserved hkey

end ClaimedStep

/-! ## The end of a step -/

section

theorem fromJson_of_executionIn {record : VersionedRecord δ} {found : WorkflowExecutionRecord δ}
    (h : executionIn record = some found) :
    WorkflowExecutionRecord.fromJson record.document = .ok found := by
  rw [executionIn] at h
  cases hjson : WorkflowExecutionRecord.fromJson record.document with
  | error e =>
    rw [hjson] at h
    cases h
  | ok execution =>
    rw [hjson] at h
    exact congrArg _ (Option.some_inj.mp h)

/-- Reading an execution that is there. -/
theorem scriptOf_requireExecution {α : Type} (id : Bytes)
    (rest : WorkflowExecutionRecord δ → TxProgram δ α) :
    ∃ next, scriptOf (requireExecution id >>= rest) =
        .get (executionPlace id).1 (executionPlace id).2 next ∧
      ∀ record found, executionIn record = some found →
        next (some record) = scriptOf (rest found) := by
  refine ⟨_, rfl, fun record found hin => ?_⟩
  simp only [Option.map_some, Program.bind, fromJson_of_executionIn hin]
  rfl

theorem scriptOf_finish (id : Bytes) (execution finished : WorkflowExecutionRecord δ) {token : Bytes}
    (h : execution.claimToken = some token) :
    scriptOf (finish id execution finished) = .put (executionPlace finished.workflowExecutionId).1
      (executionPlace finished.workflowExecutionId).2 finished.toJson
      (.erase (heartbeatPlace id token).1 (heartbeatPlace id token).2 (.ret finished)) := by
  rw [finish, h]
  rfl

/-- **The end of a step, operation by operation**: under its claim the execution is put back without
    the claim, and the heartbeat of the claim is erased. -/
theorem scriptOf_endTx (runner : WorkflowRunner) (current : WorkflowExecutionRecord δ)
    (result : WorkflowStepResult) (now : Timestamp) :
    ∃ next, scriptOf (runner.endTx current result now) =
        .get (executionPlace current.workflowExecutionId).1
          (executionPlace current.workflowExecutionId).2 next ∧
      ∀ record found, executionIn record = some found →
        HoldsClaim found runner.workerName current.currentStep (current.claimToken.getD []) →
        ∃ ended : WorkflowExecutionRecord δ,
          ended.workflowExecutionId = found.workflowExecutionId ∧ ended.claimedBy = none ∧
          next (some record) = .put (executionPlace ended.workflowExecutionId).1
            (executionPlace ended.workflowExecutionId).2 ended.toJson
            (.erase (heartbeatPlace current.workflowExecutionId (current.claimToken.getD [])).1
              (heartbeatPlace current.workflowExecutionId (current.claimToken.getD [])).2
              (.ret ended)) := by
  have hclaim : ∀ {found finished : WorkflowExecutionRecord δ},
      HoldsClaim found runner.workerName current.currentStep (current.claimToken.getD []) →
      scriptOf (do
        requireClaim found runner.workerName current.currentStep (current.claimToken.getD [])
        finish current.workflowExecutionId found finished) =
      .put (executionPlace finished.workflowExecutionId).1
        (executionPlace finished.workflowExecutionId).2 finished.toJson
        (.erase (heartbeatPlace current.workflowExecutionId (current.claimToken.getD [])).1
          (heartbeatPlace current.workflowExecutionId (current.claimToken.getD [])).2
          (.ret finished)) := by
    intro found finished hholds
    rw [requireClaim, if_pos hholds]
    exact scriptOf_finish _ _ _ hholds.2.2
  rw [WorkflowRunner.endTx]
  cases hkind : result.kind with
  | fail =>
    obtain ⟨next, hscript, hnext⟩ := scriptOf_requireExecution (δ := δ) current.workflowExecutionId
      fun execution => do
        requireClaim execution runner.workerName current.currentStep (current.claimToken.getD [])
        finish current.workflowExecutionId execution
          (fail (runner.failRequest current result now) execution)
    exact ⟨next, hscript, fun record found hin hholds =>
      ⟨fail (runner.failRequest current result now) found, rfl, rfl,
        (hnext record found hin).trans (hclaim hholds)⟩⟩
  | cancel =>
    obtain ⟨next, hscript, hnext⟩ := scriptOf_requireExecution (δ := δ) current.workflowExecutionId
      fun execution => finish current.workflowExecutionId execution execution.canceled
    exact ⟨next, hscript, fun record found hin hholds =>
      ⟨found.canceled, rfl, rfl,
        (hnext record found hin).trans (scriptOf_finish _ _ _ hholds.2.2)⟩⟩
  | complete =>
    obtain ⟨next, hscript, hnext⟩ := scriptOf_requireExecution (δ := δ) current.workflowExecutionId
      fun execution => do
        requireClaim execution runner.workerName current.currentStep (current.claimToken.getD [])
        finish current.workflowExecutionId execution
          (complete (runner.completeRequest current result) execution)
    refine ⟨next, hscript, fun record found hin hholds =>
      ⟨complete (runner.completeRequest current result) found, ?_, ?_,
        (hnext record found hin).trans (hclaim hholds)⟩⟩
    · rw [complete]
      split <;> rfl
    · rw [complete]
      split <;> rfl

end

/-! ## The run of a step -/

/-- **A run of the runner, up to the commit of its step**: the step has been claimed, its transaction
    has been opened after that, and is kept alive until its handler has returned. -/
structure OpenStep (runner : WorkflowRunner) (s : State δ) extends ClaimedStep runner s where
  start : StoreWorld δ
  reached : ∃ s₀ es, start = Interleaving.run store (World.init s₀) es
  claimCommitted : start.shared = claimedState
  n : Nat
  unopened : start.slots[n]? = none
  untilStop : List (StoreEvent δ)
  kept : RunMeets store (toClaimedStep.KeptAlive n) start untilStop
  untilCommit : List (StoreEvent δ)
  stopped : RunMeets store (toClaimedStep.Stopped n) (Interleaving.run store start untilStop) untilCommit
  slot : TxSlot δ (Query δ)
  found : (Interleaving.run store start (untilStop ++ untilCommit)).slots[n]? = some slot
  isOpen : slot.tx.isOpen = true
  step : StepTx δ
  ofClaim : step.claimed = record
  calls : StepCalls δ
  current : WorkflowExecutionRecord δ
  outcome : Except Error WorkflowStepResult
  final : Except Error (WorkflowExecutionRecord δ)
  revalidated : Performs (runner.revalidateClaimedStep step.claimed step.revalidatedAt)
    calls.revalidation current
  invoked : Invoked step.invokers current calls.handler outcome
  ends : (scriptOf (runner.endTx current (resultOf outcome) step.endedAt)).Performs calls.ending final
  script : slot.script = calls.transcript
  returned : ∃ mine, (Interleaving.run store start untilStop).slots[n]? = some mine ∧
    mine.script = calls.revalidation ++ calls.handler

namespace OpenStep

variable {runner : WorkflowRunner} {s : State δ}

/-- The world in which the step commits. -/
def world (step : OpenStep runner s) : StoreWorld δ :=
  Interleaving.run store step.start (step.untilStop ++ step.untilCommit)

/-- No unique index is violated by what the transaction of the step would leave. -/
def RespectsUnique (step : OpenStep runner s) : Prop :=
  ∀ collection index, stageIndexes [] step.world.shared step.slot.tx ≠
    .error (.uniqueIndexConflict collection index)

/-- What is filed in an index is a scalar. -/
def FilesScalars (step : OpenStep runner s) : Prop :=
  stageIndexes [] step.world.shared step.slot.tx ≠ .error .nonScalar

/-- Everything the transaction of the step observes is settled. -/
def Settled (step : OpenStep runner s) : Prop :=
  RunMeets store (ReadsSettled step.n) step.start (step.untilStop ++ step.untilCommit)

/-- The handler leaves the execution under its claim, if it writes it at all. -/
def LeavesClaim (step : OpenStep runner s) : Prop :=
  ∀ written, lastWritten step.executionKey step.calls.handler = some written →
    ∃ record found, written = some record ∧ executionIn record = some found ∧
      found.workflowExecutionId = step.record.workflowExecutionId ∧
      HoldsClaim found runner.workerName step.record.currentStep (step.record.claimToken.getD [])

/-- **The step has ended well**: it commits, and leaves no heartbeat of its claim; nor is there one
    later, whatever keep-alives of the claim are still on their way. -/
def Finalized (step : OpenStep runner s) : Prop :=
  ∃ ended committed, step.final = .ok ended ∧
    Cpp.commit step.world.shared step.slot.tx = .ok committed ∧
    ∀ later : List (StoreEvent δ),
      RunMeets store step.Afterwards (Interleaving.step store step.world (.commit step.n ())) later →
      (Interleaving.run store (Interleaving.step store step.world (.commit step.n ())) later).shared.recordAt
        step.heartbeat.1 step.heartbeat.2 = none

/-! ### Nobody disturbs the step -/

theorem inv_start (step : OpenStep runner s) : ∃ s₀, storeDiscipline.Inv s₀ step.start := by
  obtain ⟨s₀, es, hstart⟩ := step.reached
  exact ⟨s₀, hstart ▸ storeDiscipline.run_inv (allowed_all _ es)⟩

theorem inv_run {s₀ : State δ} {w : StoreWorld δ} (es : List (StoreEvent δ))
    (h : storeDiscipline.Inv s₀ w) : storeDiscipline.Inv s₀ (Interleaving.run store w es) :=
  run_invariant store (fun w e => storeDiscipline.inv_step w e) (allowed_all w es) h

theorem unspent_world (step : OpenStep runner s) : storeDiscipline.Unspent step.n step.world := by
  intro mine hmine
  obtain rfl := Option.some_inj.mp (hmine.symm.trans step.found)
  exact step.isOpen

/-- **Nobody disturbs the step**, before the keep-alives have stopped or after that. -/
theorem undisturbed (step : OpenStep runner s) :
    RunMeets store (fun w e => Cpp.Undisturbed step.n w e ∧
      ∀ slot r, OtherCommits step.n w e slot r → ¬ slot.tx.Overlays step.executionKey)
      step.start (step.untilStop ++ step.untilCommit) := by
  obtain ⟨s₀, hinv⟩ := step.inv_start
  have hstep : ∀ (w : StoreWorld δ) (e : StoreEvent δ), storeDiscipline.Inv s₀ w →
      storeDiscipline.Inv s₀ (Interleaving.step store w e) :=
    fun w e => storeDiscipline.inv_step w e (allowed_all w [e]).1
  refine (runMeets_append store).mpr ⟨?_, ?_⟩
  · refine RunMeets.of_invariant store hstep (fun w e hinv h => ?_) step.kept hinv
    exact ⟨h.undisturbed hinv, fun slot r hother => h.not_overlays hinv hother⟩
  · refine RunMeets.mono store (fun w e h => ?_) step.stopped
    exact ⟨fun slot r hother => (h slot r hother).2.2, fun slot r hother => (h slot r hother).2.1⟩

/-- The execution stays as it was claimed. -/
theorem execution_world (step : OpenStep runner s) :
    step.world.shared.recordAt step.execution.1 step.execution.2 =
      step.claimedState.recordAt step.execution.1 step.execution.2 := by
  refine Discipline.Unspent.run_invariant (D := storeDiscipline) (n := step.n)
    (P := fun w => w.shared.recordAt step.execution.1 step.execution.2 =
      step.claimedState.recordAt step.execution.1 step.execution.2) ?_ step.undisturbed
    step.unspent_world (by rw [step.claimCommitted])
  rintro w e ⟨-, hkey⟩ hopen h
  rcases shared_step hopen with hsame | ⟨slot, r, hother, hshared⟩
  · rw [hsame.records]
    exact h
  · have hover := hkey slot r hother
    obtain ⟨m, -, -, -, hc⟩ := hother
    rw [hshared, recordAt_commit_of_not_overlays hc hover]
    exact h

/-- **A settled step passes validation.** -/
theorem valid_of_settled (step : OpenStep runner s) (h : step.Settled) :
    Valid step.world.shared step.slot.tx := by
  have hundisturbed := RunMeets.mono store (fun w e h => h.1) step.undisturbed
  refine passes_run h hundisturbed step.unspent_world (fun mine hmine => ?_) step.slot step.found
  exact nomatch step.unopened.symm.trans hmine

theorem replay (step : OpenStep runner s) (h : Valid step.world.shared step.slot.tx) :
    storeDiscipline.Replay step.world.shared () step.calls.transcript step.slot.tx := by
  obtain ⟨s₀, hinv⟩ := step.inv_start
  have hslot := (inv_run (step.untilStop ++ step.untilCommit) hinv).slots step.slot
    (List.mem_of_getElem? step.found) step.isOpen
  rw [← step.script]
  exact hslot.2 _ (Later.refl _) h

/-- The step has read the execution as it was claimed. -/
theorem revalidation_of_valid (step : OpenStep runner s)
    (h : Valid step.world.shared step.slot.tx) :
    ∃ record, executionIn record = some step.record.stored ∧ step.current = step.record.stored ∧
      step.world.shared.recordAt step.execution.1 step.execution.2 = some record ∧
      step.calls.revalidation = [executionRead step.record.workflowExecutionId (some record)] ∧
      HoldsClaim step.record.stored runner.workerName step.record.currentStep
        (step.record.claimToken.getD []) := by
  have hreplay := step.replay h
  obtain ⟨record, hrevalidation, hin, hholds⟩ := performs_revalidateClaimedStep step.revalidated
  have htranscript : step.calls.transcript = step.calls.revalidation ++
      (step.calls.handler ++ step.calls.ending) := List.append_assoc _ _ _
  rw [htranscript, hrevalidation, step.ofClaim] at hreplay
  have hat := @read_at_commit δ _ _ _ [] _ _ _ _ hreplay fun _ hmem => absurd hmem List.not_mem_nil
  obtain ⟨⟨claimed, hclaimed, hdecoded⟩, -⟩ := step.claimed
  rw [← step.execution_world] at hclaimed
  obtain rfl := Option.some_inj.mp (hclaimed.symm.trans hat)
  have hcurrent : step.current = step.record.stored := Option.some_inj.mp (hin.symm.trans hdecoded)
  rw [step.ofClaim, hcurrent] at hholds
  exact ⟨claimed, hdecoded, hcurrent, hclaimed, step.ofClaim ▸ hrevalidation, hholds⟩

/-- **What a settled step has done**: it ends under its claim. -/
theorem ending_of_settled (step : OpenStep runner s) (hsettled : step.Settled)
    (hclaim : step.LeavesClaim) :
    ∃ ended record, ended.workflowExecutionId = step.record.workflowExecutionId ∧
      ended.claimedBy = none ∧ step.final = .ok ended ∧
      step.calls.ending = executionRead step.record.workflowExecutionId (some record) ::
        executionPut ended :: heartbeatErase step.record.workflowExecutionId
          (some (step.record.claimToken.getD [])) := by
  have hvalid := step.valid_of_settled hsettled
  have hreplay := step.replay hvalid
  obtain ⟨record, hin, hcurrent, hat, hrevalidation, hholds⟩ := step.revalidation_of_valid hvalid
  have hends := step.ends
  obtain ⟨next, hscript, hnext⟩ := scriptOf_endTx runner step.current (resultOf step.outcome)
    step.step.endedAt
  rw [hcurrent] at hscript hnext hends
  rw [hscript] at hends
  have htranscript : step.calls.transcript =
      (executionRead step.record.workflowExecutionId (some record) :: step.calls.handler) ++
        step.calls.ending := by
    rw [StepCalls.transcript, hrevalidation]
    rfl
  rw [htranscript] at hreplay
  generalize step.calls.ending = ending at hends hreplay ⊢
  generalize step.final = final at hends ⊢
  cases hends with
  | failed hoperation =>
    obtain rfl := Option.some_inj.mp hoperation
    cases get_of_replay hreplay
  | @get _ _ _ seen rest _ hrest =>
    -- what is found at the end has the claim
    obtain ⟨record', found, rfl, hin', hid, hholds'⟩ : ∃ record' found, seen = some record' ∧
        executionIn record' = some found ∧
        found.workflowExecutionId = step.record.workflowExecutionId ∧
        HoldsClaim found runner.workerName step.record.currentStep
          (step.record.claimToken.getD []) := by
      have hseen : seen = (lastWritten step.executionKey step.calls.handler).getD (some record) := by
        have hfirst : lastWritten step.executionKey
            (executionRead step.record.workflowExecutionId (some record) :: step.calls.handler) =
            lastWritten step.executionKey step.calls.handler := Option.or_none
        have hanswer : (.ok (.record seen) : Except Error (Answer δ)) =
            .ok (.record ((lastWritten step.executionKey
              (executionRead step.record.workflowExecutionId (some record) ::
                step.calls.handler)).getD
              (step.world.shared.recordAt step.execution.1 step.execution.2))) :=
          get_of_replay hreplay
        rw [hfirst, hat] at hanswer
        cases hanswer
        rfl
      cases hlast : lastWritten step.executionKey step.calls.handler with
      | none =>
        rw [hlast] at hseen
        exact ⟨record, step.record.stored, hseen, hin, rfl, hholds⟩
      | some written =>
        rw [hlast] at hseen
        obtain ⟨record', found, hwritten, hclaimed⟩ := hclaim written hlast
        exact ⟨record', found, hseen.trans hwritten, hclaimed⟩
    obtain ⟨ended, hid', hreleased, hput⟩ := hnext record' found hin' hholds'
    rw [hput] at hrest
    refine ⟨ended, record', hid'.trans hid, hreleased, ?_⟩
    rw [List.append_cons] at hreplay
    cases hrest with
    | failed hoperation =>
      obtain rfl := Option.some_inj.mp hoperation
      cases write_of_replay (show Writes _ _ (.put _ _ _) from ⟨rfl, rfl⟩) hreplay
    | @put _ _ _ _ rest _ hrest =>
      rw [List.append_cons] at hreplay
      cases hrest with
      | failed hoperation =>
        obtain rfl := Option.some_inj.mp hoperation
        cases write_of_replay (show Writes _ _ (.erase _ _) from ⟨rfl, rfl⟩) hreplay
      | erase hrest =>
        cases hrest with
        | ret => exact ⟨rfl, rfl⟩
        | failed hoperation => cases hoperation

/-! ### After the commit -/

/-- The execution is not claimed, and there is no heartbeat of the claim. -/
def Released (step : OpenStep runner s) (s' : State δ) : Prop :=
  (∃ record found, s'.recordAt step.execution.1 step.execution.2 = some record ∧
    executionIn record = some found ∧ found.claimedBy = none) ∧
  s'.recordAt step.heartbeat.1 step.heartbeat.2 = none

/-- **What the commit of a settled step leaves.** -/
theorem released_of_commit (step : OpenStep runner s) (hsettled : step.Settled)
    (hclaim : step.LeavesClaim) {committed : State δ × Tx δ}
    (hcommit : Cpp.commit step.world.shared step.slot.tx = .ok committed) :
    step.Released committed.1 := by
  have hreplay := step.replay (step.valid_of_settled hsettled)
  obtain ⟨ended, record, hid, hreleased, -, hending⟩ := step.ending_of_settled hsettled hclaim
  have hlast : ∀ vk, stagedAt step.slot.tx vk =
      (lastWritten vk step.calls.ending).or
        (lastWritten vk (step.calls.revalidation ++ step.calls.handler)) := by
    intro vk
    rw [stagedAt_of_replay hreplay, StepCalls.transcript, lastWritten_append]
  have herased : ∀ vk, lastWritten (δ := δ) vk (heartbeatErase step.record.workflowExecutionId
      (some (step.record.claimToken.getD []))) =
        written vk (.erase step.heartbeat.1 step.heartbeat.2) := fun vk => Option.none_or
  constructor
  · -- the heartbeat is erased elsewhere
    have hput : stagedAt step.slot.tx step.executionKey =
        some (some (stagedRecord step.execution.1 step.execution.2 ended.toJson)) := by
      have hplace : written step.executionKey (executionPut ended).1 =
          some (some (stagedRecord step.execution.1 step.execution.2 ended.toJson)) := by
        rw [executionPut, hid]
        exact written_put _ _ _
      rw [hlast, hending, lastWritten, lastWritten, hplace, herased,
        written_erase_of_ne step.heartbeatKey_ne_executionKey]
      rfl
    have hdocument := recordAt_commit_of_staged hcommit (colon_executionPlace _) hput
      fun found heq => Option.some_inj.mp heq ▸ ⟨rfl, rfl⟩
    obtain ⟨found, hfound, hjson⟩ := Option.map_eq_some_iff.mp hdocument
    exact ⟨found, ended.stored, hfound, executionIn_of_document hjson, hreleased⟩
  · have herase : stagedAt step.slot.tx step.heartbeatKey = some none := by
      rw [hlast, hending, lastWritten, lastWritten, herased, ClaimedStep.heartbeatKey, written_erase]
      rfl
    have hgone := recordAt_commit_of_staged hcommit (colon_heartbeatPlace _ _) herase
      fun found hsome => absurd hsome.symm (Option.some_ne_none found)
    exact Option.map_eq_none_iff.mp hgone

/-- **Afterwards no keep-alive of the claim commits**, and there is no heartbeat. -/
theorem released_run (step : OpenStep runner s) {s₀ : State δ} {w : StoreWorld δ}
    (hinv : storeDiscipline.Inv s₀ w) (h : step.Released w.shared) {later : List (StoreEvent δ)}
    (hlater : RunMeets store step.Afterwards w later) :
    step.Released (Interleaving.run store w later).shared := by
  refine (run_invariant store (P := fun w => storeDiscipline.Inv s₀ w ∧ step.Released w.shared)
    ?_ hlater ⟨hinv, h⟩).2
  rintro w e he ⟨hinv, hreleased⟩
  refine ⟨storeDiscipline.inv_step w e (allowed_all w [e]).1 hinv, ?_⟩
  have hsame : ∀ {s' : State δ}, SameRecords w.shared s' → step.Released s' := by
    intro s' hsame
    rw [Released, hsame.records, hsame.records]
    exact hreleased
  rcases step_cases store w e with hw | ⟨i, rfl, hw⟩ | ⟨m, o, slot, rfl, hm, hw⟩ |
    ⟨m, g, slot, r, rfl, hm, hc, hw⟩ | ⟨m, slot, rfl, hm, hw⟩ | ⟨descriptors, rfl, hw⟩ <;> rw [hw]
  · exact hreleased
  · exact hreleased
  · exact hreleased
  · rcases he m slot r rfl hm hc with ⟨now, kept, hperforms⟩ | ⟨hexecution, hheartbeat⟩
    · -- a keep-alive would have to find the claim
      obtain ⟨record, execution, hat, hin, hholds, -⟩ :=
        keepAlive_at_commit (ClaimedStep.replay_of_commits hinv hm hc) hperforms
      obtain ⟨⟨record', found, hat', hin', hnone⟩, -⟩ := hreleased
      obtain rfl := Option.some_inj.mp (hat'.symm.trans hat)
      obtain rfl := Option.some_inj.mp (hin'.symm.trans hin)
      exact nomatch hnone.symm.trans hholds.1
    · obtain ⟨⟨record, found, hat, hin, hnone⟩, hgone⟩ := hreleased
      exact ⟨⟨record, found, (recordAt_commit_of_not_overlays hc hexecution).trans hat, hin, hnone⟩,
        (recordAt_commit_of_not_overlays hc hheartbeat).trans hgone⟩
  · exact hreleased
  · exact hsame (sameRecords_register w.shared descriptors)

/-- **Keeping the claim alive does not get in the way of the step.**  A settled step whose handler
    leaves the execution under its claim, and files scalars only, commits, leaves no heartbeat, and no
    keep-alive that is on its way brings one back.  A step that commits was settled. -/
theorem keep_alive_harmless (step : OpenStep runner s) (hunique : step.RespectsUnique) :
    (step.LeavesClaim ∧ step.Settled ∧ step.FilesScalars → step.Finalized) ∧
    (step.Finalized → step.Settled ∧ step.FilesScalars) := by
  obtain ⟨s₀, hinv⟩ := step.inv_start
  have hworld : storeDiscipline.Inv s₀ step.world := inv_run _ hinv
  constructor
  · rintro ⟨hclaim, hsettled, hscalars⟩
    have hvalid := step.valid_of_settled hsettled
    obtain ⟨indexes, hindexes⟩ : ∃ indexes,
        stageIndexes [] step.world.shared step.slot.tx = .ok indexes := by
      cases hstage : stageIndexes [] step.world.shared step.slot.tx with
      | ok indexes => exact ⟨indexes, rfl⟩
      | error fault =>
        rcases stageIndexes_error hstage with rfl | ⟨collection, index, rfl⟩
        · exact absurd hstage hscalars
        · exact absurd hstage (hunique collection index)
    have hcommit := commit_ok_iff.mpr (commit_of_staged step.isOpen (current_iff.mpr hvalid) hindexes)
    obtain ⟨ended, -, -, -, hfinal, -⟩ := step.ending_of_settled hsettled hclaim
    refine ⟨ended, _, hfinal, hcommit, fun later hlater => ?_⟩
    have hreleased := step.released_of_commit hsettled hclaim hcommit
    refine (step.released_run (storeDiscipline.inv_step _ _ (allowed_all _ [_]).1 hworld) ?_ hlater).2
    have hfound : step.world.slots[step.n]? = some step.slot := step.found
    have hstep : (Interleaving.step store step.world (.commit step.n ())).shared =
        (step.slot.tx.committed step.world.shared hindexes) := by
      have hstore : store.commit () step.world.shared step.slot.tx =
          .ok (step.slot.tx.committed step.world.shared hindexes, step.slot.tx.abort) := hcommit
      simp only [Interleaving.step, hfound, hstore, World.committed]
    rw [hstep]
    exact hreleased
  · rintro ⟨ended, committed, -, hcommit, -⟩
    have hvalid := valid_of_commit (commit_ok_iff.mp hcommit)
    obtain ⟨-, -, indexes, hindexes, -⟩ := commit_ok (commit_ok_iff.mp hcommit)
    refine ⟨readsSettled_of_valid hinv step.found step.isOpen hvalid, fun hscalar => ?_⟩
    cases hscalar.symm.trans hindexes

end OpenStep

/-! ## A handler that looks for a user -/

/-- The handler looks for a user, and completes the step. -/
def lookingHandler : StepHandler Int := fun _ =>
  .get (ascii "users") (ascii "u") fun _ => .ret { kind := .complete }

def lookingStep : StepTx Int where
  claimed := orderRecord
  invokers _ := some lookingHandler
  revalidatedAt := 1
  endedAt := 2

def orderCompleted : WorkflowExecutionRecord Int :=
  complete (orderRunner.completeRequest orderRecord.stored { kind := .complete }) orderRecord.stored

def lookingCalls : StepCalls Int where
  revalidation := [executionRead orderId (some orderStored)]
  handler := [(.get (ascii "users") (ascii "u"), .ok (.record none))]
  ending := executionRead orderId (some orderStored) :: executionPut orderCompleted ::
    heartbeatErase orderId (some (ascii "w:a:1"))

/-- The claim is kept alive once while the transaction of the step is open. -/
def keepAliveCalls : Transcript Int :=
  let request := orderRunner.keepAliveRequest orderRecord 1
  [executionRead orderId (some orderStored),
    heartbeatPut orderRecord.stored request.worker (request.now.plus request.leaseDuration)]

def lookingUntilStop : List (StoreEvent Int) :=
  .begin () :: lookingCalls.revalidation.map (fun call => .op 0 call.1) ++
  .begin () :: keepAliveCalls.map (fun call => .op 1 call.1) ++
  .commit 1 () :: lookingCalls.handler.map fun call => .op 0 call.1

def lookingUntilCommit : List (StoreEvent Int) := lookingCalls.ending.map fun call => .op 0 call.1

/-- The step, claimed in a state. -/
def lookingRun (s : State Int) : StoreWorld Int :=
  Interleaving.run store (World.init s) (lookingUntilStop ++ lookingUntilCommit)

/-- The user has been stored and erased. -/
def userForgotten : State Int :=
  match (Script.put (ascii "users") (ascii "u") .null (.ret ()) : Script Int Unit).transact orderStarted with
  | .error _ => orderStarted
  | .ok (_, s) =>
    match (Script.erase (ascii "users") (ascii "u") (.ret ()) : Script Int Unit).transact s with
    | .error _ => s
    | .ok (_, s) => s

def claimedIn (s : State Int) : State Int :=
  match (scriptOf (claimStepsTx orderRequest)).transact s with
  | .ok (_, s) => s
  | .error _ => s

def claimOf (s : State Int) (claim : (scriptOf (claimStepsTx orderRequest)).transact s =
    .ok ([orderRecord], claimedIn s)) : ClaimedStep orderRunner s where
  workflowExecutionId := orderId
  workflowName := ascii "Order"
  workflowVersion := 0
  now := 0
  record := orderRecord
  others := []
  claimedState := claimedIn s
  claim

/-- A first `get` observes the record it asks for. -/
theorem observed_of_get {s : State δ} {c : CollectionName} {k : Key} {vk : Bytes} {v : Version}
    (h : (Cpp.exec Cpp.query (.get c k) s begin).2.observation vk = some v) :
    vk = recordVersionKey c k := by
  have hbegin : (begin : Tx δ).isOpen = true := rfl
  have hnone : ¬ (begin : Tx δ).Overlays (recordVersionKey c k) := by simp [Overlays, begin]
  simp only [Cpp.exec, Memory.exec, get_of_not_overlays .first s hbegin hnone] at h
  rcases observation_recordRead h with ⟨hkey, -⟩ | hold
  · exact hkey
  · simp [observation, begin] at hold

/-- Keeping alive is all that is committed until the handler has returned. -/
theorem kept_looking {s : State Int} (step : ClaimedStep orderRunner s)
    (hrecord : step.record = orderRecord)
    (hslot : ∀ slot, (Interleaving.run store (World.init step.claimedState)
      (.begin () :: lookingCalls.revalidation.map (fun call => .op 0 call.1) ++
        .begin () :: keepAliveCalls.map fun call => .op 1 call.1)).slots[1]? = some slot →
      slot.script = keepAliveCalls) :
    RunMeets store (step.KeptAlive 0) (World.init step.claimedState) lookingUntilStop := by
  have hquiet : ∀ (w : StoreWorld Int) (e : StoreEvent Int), (∀ m, e ≠ .commit m ()) →
      step.KeptAlive 0 w e := by
    rintro w e hne slot r ⟨m, -, rfl, -⟩
    exact absurd rfl (hne m)
  refine ⟨hquiet _ _ nofun, hquiet _ _ nofun, hquiet _ _ nofun, hquiet _ _ nofun, hquiet _ _ nofun,
    ?_, hquiet _ _ nofun, trivial⟩
  rintro slot r ⟨m, -, heq, hm, -⟩
  obtain rfl := (Event.commit.inj heq).1
  have hkeeps : step.KeepsAlive slot := by
    rw [ClaimedStep.KeepsAlive, hslot slot hm, hrecord]
    exact ⟨1, _, .get (.put (.ret _))⟩
  refine ⟨Or.inl hkeeps, ?_⟩
  -- the step has only read the execution so far
  rintro vk ⟨mine, v, hmine, hv⟩ hne
  have htx : mine.tx = (Cpp.exec Cpp.query (executionRead orderId (some orderStored)).1
      step.claimedState begin).2 := congrArg Slot.tx (Option.some_inj.mp hmine).symm
  rw [htx] at hv
  have hkey := observed_of_get hv
  refine absurd hkey fun heq => hne ?_
  rw [heq, ClaimedStep.executionKey, ClaimedStep.execution, hrecord]
  rfl

/-- The step, open in the state of its claim. -/
def lookingOpen {s : State Int} (step : ClaimedStep orderRunner s) (hrecord : step.record = orderRecord)
    (slot : TxSlot Int (Query Int)) (found : (lookingRun step.claimedState).slots[0]? = some slot)
    (isOpen : slot.tx.isOpen = true) (script : slot.script = lookingCalls.transcript)
    (hkept : RunMeets store (step.KeptAlive 0) (World.init step.claimedState) lookingUntilStop)
    (returned : ∃ mine, (Interleaving.run store (World.init step.claimedState)
      lookingUntilStop).slots[0]? = some mine ∧
        mine.script = lookingCalls.revalidation ++ lookingCalls.handler) :
    OpenStep orderRunner s where
  toClaimedStep := step
  start := World.init step.claimedState
  reached := ⟨step.claimedState, [], rfl⟩
  claimCommitted := rfl
  n := 0
  unopened := rfl
  untilStop := lookingUntilStop
  kept := hkept
  untilCommit := lookingUntilCommit
  stopped := by
    have hquiet : ∀ (w : StoreWorld Int) (e : StoreEvent Int), (∀ m, e ≠ .commit m ()) →
        step.Stopped 0 w e := by
      rintro w e hne slot r ⟨m, -, rfl, -⟩
      exact absurd rfl (hne m)
    exact ⟨hquiet _ _ nofun, hquiet _ _ nofun, hquiet _ _ nofun, trivial⟩
  slot
  found
  isOpen
  step := lookingStep
  ofClaim := hrecord.symm
  calls := lookingCalls
  current := orderRecord.stored
  outcome := .ok { kind := .complete }
  final := .ok orderCompleted
  revalidated := .get (.ret _)
  invoked := .get (.ret _)
  ends := .get (.put (.erase (.ret _)))
  script
  returned

def forgottenClaim : ClaimedStep orderRunner userForgotten := claimOf userForgotten rfl

def orderClaimed : ClaimedStep orderRunner orderStarted := claimOf orderStarted rfl

def slotOf (s : State Int) : TxSlot Int (Query Int) :=
  (lookingRun s).slots.getD 0 ⟨(), begin, []⟩

/-- The user was there once. -/
def forgottenStep : OpenStep orderRunner userForgotten :=
  lookingOpen forgottenClaim rfl (slotOf forgottenClaim.claimedState) rfl rfl rfl
    (kept_looking forgottenClaim rfl fun _ h => Option.some_inj.mp h ▸ rfl) ⟨_, rfl, rfl⟩

/-- There has never been such a user. -/
def orderStep : OpenStep orderRunner orderStarted :=
  lookingOpen orderClaimed rfl (slotOf orderClaimed.claimedState) rfl rfl rfl
    (kept_looking orderClaimed rfl fun _ h => Option.some_inj.mp h ▸ rfl) ⟨_, rfl, rfl⟩

/-- Nothing is filed in an index. -/
theorem stageIndexes_forgotten :
    ∃ indexes, stageIndexes [] forgottenStep.world.shared forgottenStep.slot.tx = .ok indexes :=
  ⟨_, rfl⟩

theorem stageIndexes_order :
    ∃ indexes, stageIndexes [] orderStep.world.shared orderStep.slot.tx = .ok indexes :=
  ⟨_, rfl⟩

/-- **A step is refused that nobody has disturbed**: its handler has looked for a user that was erased
    before. -/
theorem looking_for_forgotten_refused :
    ∃ step : OpenStep orderRunner userForgotten, step.RespectsUnique ∧ step.FilesScalars ∧
      step.LeavesClaim ∧ ¬ step.Finalized := by
  obtain ⟨indexes, hindexes⟩ := stageIndexes_forgotten
  refine ⟨forgottenStep, fun _ _ h => ?_, fun h => ?_, fun _ h => ?_, ?_⟩
  · cases h.symm.trans hindexes
  · cases h.symm.trans hindexes
  · cases h
  · rintro ⟨ended, committed, -, hcommit, -⟩
    have hrefused : (Cpp.commit forgottenStep.world.shared forgottenStep.slot.tx).toBool = false := rfl
    rw [hcommit] at hrefused
    cases hrefused

/-- Looking for a user that has never been there does no harm. -/
theorem keep_alive_harmless_order : orderStep.Finalized := by
  obtain ⟨indexes, hindexes⟩ := stageIndexes_order
  have hcommit : ∃ committed, Cpp.commit orderStep.world.shared orderStep.slot.tx = .ok committed :=
    ⟨_, rfl⟩
  obtain ⟨committed, hcommitted⟩ := hcommit
  obtain ⟨s₀, hinv⟩ := orderStep.inv_start
  refine (OpenStep.keep_alive_harmless orderStep fun _ _ h => ?_).1 ⟨fun _ h => ?_, ?_, fun h => ?_⟩
  · cases h.symm.trans hindexes
  · cases h
  · exact readsSettled_of_valid hinv orderStep.found orderStep.isOpen
      (valid_of_commit (commit_ok_iff.mp hcommitted))
  · cases h.symm.trans hindexes

end StateSpec.Runtime
