/-
  THE SAME MESSAGES AND EXECUTIONS in the documents of the C++ and of the Rust stores, and what both
  read from them.

  `SameDocument` is the relation of the two persisted representations, collection by collection:
  absent or `null` members, milliseconds or nanoseconds, an object or a bare text for an idempotency
  key.  What is written corresponds whatever its counters are; what is read back is the same record
  if its counters fit an `i64` (`Stored`).
-/
import StateSpec.Runtime.Executions
import StateSpec.Runtime.QueueMessages
import StateSpec.Rust.Transactions
import StateSpec.Rust.QueueStore
import StateSpec.Rust.WorkflowStore

set_option linter.unusedSectionVars false

namespace StateSpec.Rust

open Memory Program StateSpec.Runtime

variable {δ : Type}

/-! ## Times -/

/-- A time both codecs keep: in whole milliseconds, and below 2^63 nanoseconds. -/
structure WholeMillis (time : Int) : Prop where
  nonneg : 0 ≤ time
  lt : time < 2 ^ 63
  whole : time % 1000000 = 0

/-- The C++ codec keeps it. -/
theorem WholeMillis.stored {time : Int} (h : WholeMillis time) : Timestamp.stored time = time :=
  Int.tdiv_mul_cancel (Int.dvd_of_emod_eq_zero h.whole)

/-- The Rust codec keeps it. -/
theorem WholeMillis.storedTime {time : Int} (h : WholeMillis time) : storedTime time = time :=
  storedTime_of_lt h.nonneg h.lt

/-- So is an expiry, if there is one. -/
def WholeExpiry (expiry : Option Timestamp) : Prop := ∀ time ∈ expiry, WholeMillis time

theorem WholeExpiry.none : WholeExpiry none := nofun

theorem WholeExpiry.stored {expiry : Option Timestamp} (h : WholeExpiry expiry) :
    expiry.map Timestamp.stored = expiry := by
  cases expiry with
  | none => rfl
  | some time => exact congrArg some (h time rfl).stored

theorem WholeExpiry.storedTime {expiry : Option Timestamp} (h : WholeExpiry expiry) :
    expiry.map Rust.storedTime = expiry := by
  cases expiry with
  | none => rfl
  | some time => exact congrArg some (h time rfl).storedTime

/-! ## Documents -/

/-- The documents that C++ and Rust put for the same value; `P` is what its counter meets. -/
inductive SameDocument (P : UInt64 → Prop) : RuntimeCollection → Json δ → Json δ → Prop where
  | message {message : QueueMessageRecord δ} (expiry : WholeExpiry message.claimExpiresAt)
      (counter : P message.attempts) :
      SameDocument P .queueMessages message.toJson (Queue.queueMessageToJson message)
  | remembered (messageId : Bytes) :
      SameDocument P .queueIdempotency (.ofMembers [(ascii "message_id", .string messageId)])
        (.string messageId)
  | execution {execution : WorkflowExecutionRecord δ} (expiry : WholeExpiry execution.claimExpiresAt)
      (counter : P execution.attempt) :
      SameDocument P .workflowExecutions execution.toJson (Workflow.workflowExecutionToJson execution)
  | heartbeat (heartbeat : WorkflowHeartbeatRecord) :
      SameDocument P .workflowHeartbeats heartbeat.toJson (Workflow.workflowHeartbeatToJson heartbeat)

/-- What is written. -/
abbrev Written : RuntimeCollection → Json δ → Json δ → Prop := SameDocument fun _ => True

/-- What is stored. -/
abbrev Stored : RuntimeCollection → Json δ → Json δ → Prop :=
  SameDocument fun counter => counter.toNat < 2 ^ 63

theorem SameDocument.written {P : UInt64 → Prop} {c : RuntimeCollection} {document document' : Json δ}
    (h : SameDocument P c document document') : Written c document document' := by
  cases h with
  | message expiry => exact .message expiry trivial
  | remembered messageId => exact .remembered messageId
  | execution expiry => exact .execution expiry trivial
  | heartbeat heartbeat => exact .heartbeat heartbeat

/-- Both read the same message. -/
theorem read_message {document document' : Json δ} (h : Stored .queueMessages document document') :
    ∃ message, QueueMessageRecord.fromJson document = .ok message ∧
      Queue.queueMessageFromJson document' = message ∧ WholeExpiry message.claimExpiresAt := by
  cases h with
  | @message message hexpiry hcounter =>
    refine ⟨message, ?_, ?_, hexpiry⟩
    · rw [message.fromJson_toJson, QueueMessageRecord.stored, hexpiry.stored]
    · rw [Queue.queueMessageFromJson_toJson, Queue.storedMessage, hexpiry.storedTime, storedU64_eq,
        if_pos hcounter]

/-- Both read the same execution. -/
theorem read_execution {document document' : Json δ}
    (h : Stored .workflowExecutions document document') :
    ∃ execution, WorkflowExecutionRecord.fromJson document = .ok execution ∧
      Workflow.workflowExecutionFromJson document' = execution ∧
      WholeExpiry execution.claimExpiresAt := by
  cases h with
  | @execution execution hexpiry hcounter =>
    refine ⟨execution, ?_, ?_, hexpiry⟩
    · rw [execution.fromJson_toJson, WorkflowExecutionRecord.stored, hexpiry.stored]
    · rw [Workflow.workflowExecutionFromJson_toJson, Workflow.storedExecution, hexpiry.storedTime,
        storedU64_eq, if_pos hcounter]

/-! ## Counters -/

variable [Decimal δ] {s s' : Cpp.State δ}

/-- The counters of all messages and executions fit an `i64`. -/
structure CountersFit (d : Docs δ) : Prop where
  attempts : ∀ k message, Runtime.Queue.messageAt d k = some message → message.attempts.toNat < 2 ^ 63
  attempt : ∀ k execution, executionAt d k = some execution → execution.attempt.toNat < 2 ^ 63

/-- Whether they do can be seen from the listed records. -/
theorem countersFit_iff (s : Cpp.State δ) :
    CountersFit (docs s) ↔
      (∀ r ∈ committedRecords s RuntimeCollection.queueMessages.name,
        ∀ message ∈ (QueueMessageRecord.fromJson r.document).toOption,
          message.attempts.toNat < 2 ^ 63) ∧
      ∀ r ∈ committedRecords s RuntimeCollection.workflowExecutions.name,
        ∀ execution ∈ (WorkflowExecutionRecord.fromJson r.document).toOption,
          execution.attempt.toNat < 2 ^ 63 := by
  constructor
  · rintro ⟨hattempts, hattempt⟩
    refine ⟨fun r hr message hmessage => hattempts r.key message ?_,
      fun r hr execution hexecution => hattempt r.key execution ?_⟩
    · rw [Runtime.Queue.messageAt, decodedAt, docs, mem_committedRecords hr]
      exact hmessage
    · rw [executionAt, docs, mem_committedRecords hr]
      exact hexecution
  · rintro ⟨hattempts, hattempt⟩
    constructor
    · intro k message hmessage
      obtain ⟨document, hdocument, hread⟩ := Option.bind_eq_some_iff.mp hmessage
      obtain ⟨r, hr, rfl⟩ := Option.map_eq_some_iff.mp hdocument
      exact hattempts r (mem_of_recordAt hr) message hread
    · intro k execution hexecution
      obtain ⟨document, hdocument, hread⟩ := Option.bind_eq_some_iff.mp hexecution
      obtain ⟨r, hr, rfl⟩ := Option.map_eq_some_iff.mp hdocument
      exact hattempt r (mem_of_recordAt hr) execution hread

instance (s : Cpp.State δ) : Decidable (CountersFit (docs s)) :=
  decidable_of_iff' _ (countersFit_iff s)

/-- **What has been written is stored**, as long as the counters fit. -/
theorem SameStore.stored (h : SameStore Written s s') (hfit : CountersFit (docs s)) :
    SameStore Stored s s' where
  counters := h.counters
  plain := h.plain
  plain' := h.plain'
  records c k := by
    obtain ⟨hr, hr'⟩ | ⟨r, r', hr, hr', hsame⟩ := rel_cases (h.records c k)
    · rw [hr, hr']
      exact .none
    · rw [hr, hr']
      refine .some ⟨hsame.collection, hsame.key, hsame.version, c,
        (InMemoryState.recordAt_keyed hr).1, ?_⟩
      have hdocument := hsame.of_name (InMemoryState.recordAt_keyed hr).1
      have hat : docs s c k = some r.document := by rw [docs, hr, Option.map_some]
      -- what has been written there is what `docs` decodes, and its counters fit
      generalize r.document = document at hdocument hat
      generalize r'.document = document' at hdocument
      cases hdocument with
      | @message message expiry =>
        have hstored := hfit.attempts k message.stored (by
          rw [Runtime.Queue.messageAt, decodedAt, hat, Option.bind_some, message.fromJson_toJson]
          rfl)
        exact .message expiry hstored
      | remembered messageId => exact .remembered messageId
      | @execution execution expiry =>
        have hstored := hfit.attempt k execution.stored (by
          rw [executionAt, hat, Option.bind_some, execution.fromJson_toJson]
          rfl)
        exact .execution expiry hstored
      | heartbeat heartbeat => exact .heartbeat heartbeat

/-! ## Reads in lockstep -/

section

variable {hs : SameStore Stored s s'} {α : Type} {P : α → Prop} {c : RuntimeCollection}
  {decode : Json δ → Except Error α} {decode' : Json δ → α}

/-- Both read the same record. -/
theorem lockstep_inspect {k : Key} {next : Option (Json δ) → Runtime.TxProgram δ (Option α)}
    {next' : Option (Json δ) → TxProgram δ (Option α)}
    (hread : ∀ document document', Stored c document document' →
      ∃ a, decode document = .ok a ∧ decode' document' = a ∧ P a)
    (hnone : next none = pure none) (hnone' : next' none = pure none)
    (hsome : ∀ document, next (some document) = .ofExcept ((decode document).map some))
    (hsome' : ∀ document, next' (some document) = pure (some (decode' document))) :
    (coupling Written hs).LockstepFresh (fun r r' => r = r' ∧ ∀ a ∈ r, P a) (.read c k >>= next)
      (.read c k >>= next') := by
  refine Coupling.lockstepFresh_read fun r r' hr => ?_
  cases hr with
  | none =>
    rw [hnone, hnone']
    exact (Coupling.lockstep_ret ⟨rfl, nofun⟩).fresh
  | some hdocument =>
    obtain ⟨a, hdecode, hdecode', ha⟩ := hread _ _ hdocument
    rw [hsome, hsome', hdecode, hdecode']
    refine (Coupling.lockstep_ret ⟨rfl, ?_⟩).fresh
    rintro _ ⟨rfl⟩
    exact ha

/-- Both read the same records, in the same order. -/
theorem lockstep_all
    (hread : ∀ document document', Stored c document document' →
      ∃ a, decode document = .ok a ∧ decode' document' = a ∧ P a) :
    (coupling Written hs).LockstepFresh (fun l l' => l = l' ∧ ∀ a ∈ l, P a)
      (.scan c >>= fun records => .ofExcept (records.mapM fun record => decode record.2))
      (.scan c >>= fun records => pure (records.map fun record => decode' record.2)) := by
  refine Coupling.lockstepFresh_scan fun l l' hl => ?_
  have hall : ∃ as, (l.mapM fun record => decode record.2) = .ok as ∧
      (l'.map fun record => decode' record.2) = as ∧ ∀ a ∈ as, P a := by
    induction hl with
    | nil => exact ⟨[], rfl, rfl, List.forall_mem_nil _⟩
    | cons hrecord _ ih =>
      obtain ⟨a, hdecode, hdecode', ha⟩ := hread _ _ hrecord.2
      obtain ⟨as, hmap, hmap', has⟩ := ih
      refine ⟨a :: as, ?_, ?_, List.forall_mem_cons.mpr ⟨ha, has⟩⟩
      · rw [List.mapM_cons, hdecode, hmap]
        rfl
      · rw [List.map_cons, hdecode', hmap']
  obtain ⟨as, hmap, hmap', has⟩ := hall
  rw [hmap, hmap']
  exact (Coupling.lockstep_ret ⟨rfl, has⟩).fresh

end

end StateSpec.Rust
