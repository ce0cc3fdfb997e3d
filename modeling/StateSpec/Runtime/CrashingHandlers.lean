/-
  CRASHING HANDLERS — what a step leaves behind whose handler throws.

  The runner turns the exception into a failure of the step, and records the failure on the transaction
  the handler was writing to: what the handler has staged by then is committed together with the
  failure.  So a run of the runner changes the record of the execution, the heartbeat of its claim, and
  what the handler has written (`crash_confined`); the records the handler has written are as it has
  written them last, and a handler that has written nothing leaves nothing behind.
-/
import StateSpec.Runtime.StepTransactions

set_option linter.unusedSectionVars false

namespace StateSpec.Runtime

open Cpp Memory Memory.InMemoryTransaction Interleaving

variable {δ : Type} [Decimal δ]

/-! ## The claim, and keeping it alive -/

/-- **A run of the runner, while its handler runs**: a step has been claimed, and is kept alive; nothing
    else commits. -/
structure ClaimedRun (runner : WorkflowRunner) (s : State δ) extends ClaimedStep runner s where
  events : List (TxEvent δ (Query δ) (List CollectionDescriptor))
  kept : RunMeets store (fun w e => match e with
    | .commit n () => ∀ slot r, w.slots[n]? = some slot → Cpp.commit w.shared slot.tx = .ok r →
      toClaimedStep.KeepsAlive slot
    | _ => True) (World.init claimedState) events

namespace ClaimedRun

variable {runner : WorkflowRunner} {s : State δ}

/-- The world the handler has come to. -/
def world (run : ClaimedRun runner s) : TxWorld δ (Query δ) :=
  Interleaving.run store (World.init run.claimedState) run.events

/-- What only differs in the heartbeat has the execution as it was claimed. -/
theorem execution_of_kept (run : ClaimedRun runner s) {s' : State δ}
    (h : ∀ c k, s'.recordAt c k ≠ run.claimedState.recordAt c k → (c, k) = run.heartbeat) :
    ∃ record, s'.recordAt run.execution.1 run.execution.2 = some record ∧
      executionIn record = some run.record.stored := by
  obtain ⟨⟨record, hrecord, hin⟩, -⟩ := run.claimed
  refine ⟨record, ?_, hin⟩
  rw [← hrecord]
  by_contra hne
  exact run.heartbeat_ne_execution (h _ _ hne)

/-- **Keeping the claim alive** changes the heartbeat alone. -/
theorem kept_world (run : ClaimedRun runner s) :
    storeDiscipline.Inv run.claimedState run.world ∧
    ∀ c k, run.world.shared.recordAt c k ≠ run.claimedState.recordAt c k →
      (c, k) = run.heartbeat := by
  refine run_invariant store (P := fun w => storeDiscipline.Inv run.claimedState w ∧
    ∀ c k, w.shared.recordAt c k ≠ run.claimedState.recordAt c k → (c, k) = run.heartbeat)
    ?_ run.kept ⟨storeDiscipline.inv_init _, fun c k hne => absurd rfl hne⟩
  rintro w e he ⟨hinv, hkept⟩
  refine ⟨storeDiscipline.inv_step w e (allowed_all w [e]).1 hinv, ?_⟩
  rcases step_cases store w e with h | ⟨i, rfl, h⟩ | ⟨n, o, slot, rfl, hn, h⟩ |
    ⟨n, g, slot, r, rfl, hn, hc, h⟩ | ⟨n, slot, rfl, hn, h⟩ | ⟨descriptors, rfl, h⟩ <;> rw [h]
  · exact hkept
  · exact hkept
  · exact hkept
  · intro c k hne
    by_cases hsame : r.1.recordAt c k = w.shared.recordAt c k
    · exact hkept c k (hsame ▸ hne)
    obtain ⟨at', kept, hperforms⟩ := he slot r hn hc
    have hopen := (commit_ok (commit_ok_iff.mp hc)).1
    have hreplay := (hinv.slots slot (List.mem_of_getElem? hn) hopen).2 _ (Later.refl _)
      (valid_of_commit (commit_ok_iff.mp hc))
    obtain ⟨record, execution, hat, hin, -, hcalls⟩ := keepAlive_at_commit hreplay hperforms
    obtain ⟨found, hfound, hdecoded⟩ := run.execution_of_kept hkept
    obtain rfl := Option.some_inj.mp (hfound.symm.trans hat)
    obtain rfl := Option.some_inj.mp (hdecoded.symm.trans hin)
    obtain ⟨call, hcall, c', k', hwrites, -, hplace⟩ := written_of_changed hc
      (fun vk => stagedAt_of_replay hreplay) hsame
    rw [hcalls] at hcall
    simp only [List.mem_cons, List.not_mem_nil, or_false] at hcall
    rcases hcall with rfl | rfl
    · exact hwrites.elim
    · obtain ⟨rfl, rfl⟩ := hwrites
      obtain ⟨rfl, rfl⟩ := hplace (colon_heartbeatPlace _ _)
      rfl
  · exact hkept
  · intro c k hne
    obtain ⟨hrecords, -⟩ := register_frame w.shared descriptors
    refine hkept c k fun hsame => hne ?_
    rw [← hsame]
    show (register descriptors w.shared).recordAt c k = w.shared.recordAt c k
    rw [InMemoryState.recordAt, InMemoryState.recordAt, hrecords]

/-- **The handler has thrown**, the failure of the step has been recorded on its transaction, and the
    transaction commits. -/
structure Crash (run : ClaimedRun runner s) where
  n : Nat
  slot : TxSlot δ (Query δ)
  found : run.world.slots[n]? = some slot
  step : StepTx δ
  ofClaim : step.claimed = run.record
  calls : StepCalls δ
  current : WorkflowExecutionRecord δ
  error : Error
  failed : WorkflowExecutionRecord δ
  performed : StepPerformed runner step calls current (.error error) failed
  script : slot.script = calls.transcript
  committed : State δ × Tx δ
  commits : Cpp.commit run.world.shared slot.tx = .ok committed

namespace Crash

variable {run : ClaimedRun runner s}

/-- The handler has put or erased the record, or one that shares its counter. -/
def HandlerWrote (crash : run.Crash) (place : CollectionName × Key) : Prop :=
  ∃ call ∈ crash.calls.handler, ∃ c k, Writes c k call.1 ∧
    recordVersionKey c k = recordVersionKey place.1 place.2

theorem replay (crash : run.Crash) :
    storeDiscipline.Replay run.world.shared () crash.calls.transcript crash.slot.tx := by
  have hopen := (commit_ok (commit_ok_iff.mp crash.commits)).1
  rw [← crash.script]
  exact (run.kept_world.1.slots crash.slot (List.mem_of_getElem? crash.found) hopen).2 _
    (Later.refl _) (valid_of_commit (commit_ok_iff.mp crash.commits))

/-- **What the transaction of the step has done**: it has read the execution as it was claimed, and at
    the end it puts the execution back that it finds, and erases the heartbeat. -/
theorem shape (crash : run.Crash) :
    ∃ record record' found, executionIn record = some run.record.stored ∧
      run.world.shared.recordAt run.execution.1 run.execution.2 = some record ∧
      executionIn record' = some found ∧ crash.failed.workflowExecutionId = found.workflowExecutionId ∧
      crash.calls.transcript = executionRead run.record.workflowExecutionId (some record) ::
        (crash.calls.handler ++ executionRead run.record.workflowExecutionId (some record') ::
          executionPut crash.failed ::
          heartbeatErase run.record.workflowExecutionId (some (run.record.claimToken.getD []))) := by
  obtain ⟨record, hrevalidation, hin, -⟩ := performs_revalidateClaimedStep crash.performed.revalidated
  obtain ⟨record', found, hin', hending, hid, -, hholds⟩ := performs_endTx crash.performed.ends
  have htranscript : crash.calls.transcript = crash.calls.revalidation ++
      (crash.calls.handler ++ crash.calls.ending) := List.append_assoc _ _ _
  have hreplay := crash.replay
  rw [htranscript, hrevalidation, crash.ofClaim] at hreplay
  have hat := @read_at_commit δ _ _ _ [] _ _ _ _ hreplay fun _ hmem => absurd hmem List.not_mem_nil
  obtain ⟨claimed, hclaimed, hdecoded⟩ := run.execution_of_kept run.kept_world.2
  obtain rfl := Option.some_inj.mp (hclaimed.symm.trans hat)
  have hcurrent : run.record.stored = crash.current := Option.some_inj.mp (hdecoded.symm.trans hin)
  have htoken := (hholds nofun).2.2
  rw [← hcurrent] at hending htoken
  refine ⟨claimed, record', found, hdecoded, hclaimed, hin', hid, ?_⟩
  rw [htranscript, hrevalidation, hending, crash.ofClaim, htoken]
  rfl

/-- The step fails under the id of its claim, unless the handler has written over the execution. -/
theorem failed_id (crash : run.Crash) (h : ¬ crash.HandlerWrote run.execution) :
    crash.failed.workflowExecutionId = run.record.workflowExecutionId := by
  obtain ⟨record, record', found, hin, hat, hin', hid, htranscript⟩ := crash.shape
  have hreplay := crash.replay
  rw [htranscript, ← List.cons_append] at hreplay
  have hat' := read_at_commit hreplay fun call hcall c k hwrites hkey => by
    rcases List.mem_cons.mp hcall with rfl | hhandler
    · exact hwrites
    · exact h ⟨call, hhandler, c, k, hwrites, hkey⟩
  obtain rfl := Option.some_inj.mp (hat.symm.trans hat')
  obtain rfl := Option.some_inj.mp (hin.symm.trans hin')
  exact hid

end Crash

end ClaimedRun

/-! ## A handler that stores a user -/

def orderId : Bytes := ascii "w"

def orderRunner : WorkflowRunner where
  workerName := ascii "a"
  leaseDuration := 30
  maxAttempts := 3

def orderStart : StartWorkflowRequest Int where
  workflowExecutionId := orderId
  workflowName := ascii "Order"
  startStep := ascii "Pay"
  state := .null

/-- An order has been started. -/
def orderStarted : State Int :=
  match (scriptOf (startTx orderStart)).transact InMemoryState.empty with
  | .ok (_, s) => s
  | .error _ => InMemoryState.empty

def orderRequest : ClaimWorkflowStepRequest :=
  orderRunner.claimRequest orderId (ascii "Order") 0 0

/-- What is claimed, and what the claim leaves. -/
def orderClaim : List (WorkflowExecutionRecord Int) × State Int :=
  match (scriptOf (claimStepsTx orderRequest)).transact orderStarted with
  | .ok r => r
  | .error _ => ([], orderStarted)

def orderRecord : WorkflowExecutionRecord Int := claim orderRequest (started orderStart)

def orderStored : VersionedRecord Int :=
  { stagedRecord (executionPlace orderId).1 orderId orderRecord.toJson with version := 2 }

/-- The handler stores a user, and throws. -/
def crashingHandler : StepHandler Int := fun _ =>
  .put (ascii "users") (ascii "u") .null (.throw (.backendError (ascii "no more")))

def crashingStep : StepTx Int where
  claimed := orderRecord
  invokers _ := some crashingHandler
  revalidatedAt := 1
  endedAt := 2

def orderFailed : WorkflowExecutionRecord Int :=
  fail (orderRunner.failRequest orderRecord.stored
    { kind := .fail, reason := ascii "no more" } 2) orderRecord.stored

def crashingCalls : StepCalls Int where
  revalidation := [executionRead orderId (some orderStored)]
  handler := [(.put (ascii "users") (ascii "u") .null, .ok .done)]
  ending := executionRead orderId (some orderStored) :: executionPut orderFailed ::
    heartbeatErase orderId (some (ascii "w:a:1"))

def crashingRun : ClaimedRun orderRunner orderStarted where
  workflowExecutionId := orderId
  workflowName := ascii "Order"
  workflowVersion := 0
  now := 0
  record := orderRecord
  others := []
  claimedState := orderClaim.2
  claim := rfl
  events := .begin () :: crashingCalls.transcript.map fun call => .op 0 call.1
  kept := ⟨trivial, trivial, trivial, trivial, trivial, trivial, trivial⟩

def orderCrash : crashingRun.Crash where
  n := 0
  slot := crashingRun.world.slots.getD 0 ⟨(), begin, []⟩
  found := rfl
  step := crashingStep
  ofClaim := rfl
  calls := crashingCalls
  current := orderRecord.stored
  error := .backendError (ascii "no more")
  failed := orderFailed
  performed := ⟨.get (.ret _), .put (.throw _), .get (.put (.erase (.ret _)))⟩
  script := rfl
  committed := _
  commits := rfl

end StateSpec.Runtime
