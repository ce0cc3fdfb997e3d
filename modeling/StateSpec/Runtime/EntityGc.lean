/-
  ENTITY GARBAGE COLLECTION — `runtime/entity_gc_registration.hpp` and `runtime/entity_gc_workers.hpp`:
  the records in a terminal state are erased.

  A terminal state is declared with the time a record stays in it before it may be erased, and a run of
  the worker is told what time it is; the worker reads neither.  So a record that has just entered the
  state is erased with the next batch (`erased_at_once`).  What the worker does look at is the status,
  and what it has listed is validated by the commit: if the records of a batch have been in their states
  for long enough when they are listed, each record is erased in time (`retention_kept`).

  The invariant is `Listed`: what a worker will erase is what it has listed, and as long as a listed
  record has not changed, its retention has passed (`Ripe`).
-/
import Mathlib.Data.List.Induction
import StateSpec.Cpp.Clients
import StateSpec.Lib.Program

set_option linter.unusedSectionVars false

namespace StateSpec.Runtime.Gc

open Cpp Memory Memory.InMemoryTransaction Interleaving

variable {δ : Type} [Decimal δ]

/-! ## `entity_gc_types.hpp` and the requests -/

structure EntityGcTerminalStateDescriptor where
  state : Bytes
  after : Bytes
  mode : Bytes

structure EntityGcDescriptor where
  entity : Bytes
  collection : CollectionName
  statusField : Bytes
  terminalStates : List EntityGcTerminalStateDescriptor

structure EntityGcEligibilityRequest where
  descriptor : EntityGcDescriptor
  now : Bytes
  limit : Nat := 100

structure EntityGcFinalizeRequest where
  descriptor : EntityGcDescriptor
  key : Key
  now : Bytes

structure EntityGcWorkerConfig where
  batchLimit : Nat := 100

structure EntityGcRunResult where
  scanned : Nat := 0
  finalized : Nat := 0

/-! ## The repository -/

/-- `is_terminal_gc_state`. -/
def isTerminalGcState (descriptor : EntityGcDescriptor) (status : Bytes) : Bool :=
  descriptor.terminalStates.any fun terminal => terminal.state == status

/-- The loop of `list_gc_eligibleTx`, with what it has found so far. -/
def collectEligible (request : EntityGcEligibilityRequest) :
    List (VersionedRecord δ) → List (VersionedRecord δ) → List (VersionedRecord δ)
  | eligible, [] => eligible
  | eligible, record :: records =>
    if request.limit ≤ eligible.length then eligible
    else
      match record.document.find request.descriptor.statusField with
      | some (.string status) =>
        if isTerminalGcState request.descriptor status then
          collectEligible request (eligible ++ [record]) records
        else collectEligible request eligible records
      | _ => collectEligible request eligible records

/-- `list_gc_eligibleTx`. -/
def listGcEligibleTx (request : EntityGcEligibilityRequest) :
    Script δ (List (VersionedRecord δ)) :=
  .query request.descriptor.collection .all fun records => .ret (collectEligible request [] records)

/-- `finalize_gcTx`. -/
def finalizeGcTx (request : EntityGcFinalizeRequest) : Script δ Unit :=
  .erase request.descriptor.collection request.key (.ret ())

/-! ## The worker -/

/-- The loop of `run_onceTx`. -/
def finalizeAll (descriptor : EntityGcDescriptor) (now : Bytes) :
    EntityGcRunResult → List (VersionedRecord δ) → Script δ EntityGcRunResult
  | result, [] => pure result
  | result, record :: records => do
    finalizeGcTx { descriptor := descriptor, key := record.key, now := now }
    finalizeAll descriptor now { result with finalized := result.finalized + 1 } records

/-- `run_onceTx`. -/
def runOnceTx (config : EntityGcWorkerConfig) (descriptor : EntityGcDescriptor) (now : Bytes) :
    Script δ EntityGcRunResult := do
  let records ← listGcEligibleTx
    { descriptor := descriptor, now := now, limit := config.batchLimit }
  finalizeAll descriptor now { scanned := records.length } records

/-- What a transaction of the system does: whatever the application does, or one run of a worker. -/
inductive GcRequest (δ : Type) where
  | application (script : Script δ (Option EntityGcRunResult))
  | runOnce (config : EntityGcWorkerConfig) (descriptor : EntityGcDescriptor) (now : Bytes)

def gcProgram : GcRequest δ → Script δ (Option EntityGcRunResult)
  | .application script => script
  | .runOnce config descriptor now => do
    let result ← runOnceTx config descriptor now
    pure (some result)

abbrev GcEvent (δ : Type) := ClientEvent (GcRequest δ) Int (List CollectionDescriptor)
abbrev GcWorld (δ : Type) [Decimal δ] :=
  ClientWorld δ (GcRequest δ) (Option EntityGcRunResult) Int

/-- The backend with its clients.  A commit is labelled with the time of it. -/
abbrev gcStore : Store (GcRequest δ) (State δ) (Client δ (Option EntityGcRunResult)) Unit Unit Int
    (Option Error) (List CollectionDescriptor) :=
  clients Int gcProgram Cpp.register

abbrev gcDiscipline : Discipline (gcStore (δ := δ)) :=
  clientDiscipline Int gcProgram Cpp.register later_register

/-! ## The states of a record -/

/-- The status a worker finds in a document. -/
def statusOf (descriptor : EntityGcDescriptor) (document : Json δ) : Option Bytes :=
  match document.find descriptor.statusField with
  | some (.string status) => some status
  | _ => none

/-- The status of the record `k` of the collection. -/
def statusAt (descriptor : EntityGcDescriptor) (k : Key) (s : State δ) : Option Bytes :=
  (s.recordAt descriptor.collection k).bind fun record => statusOf descriptor record.document

/-- The record is in a terminal state. -/
def isTerminal (descriptor : EntityGcDescriptor) (record : VersionedRecord δ) : Bool :=
  match statusOf descriptor record.document with
  | some status => isTerminalGcState descriptor status
  | none => false

theorem collectEligible_cons (request : EntityGcEligibilityRequest)
    (eligible : List (VersionedRecord δ)) (record : VersionedRecord δ)
    (records : List (VersionedRecord δ)) :
    collectEligible request eligible (record :: records) =
      if request.limit ≤ eligible.length then eligible
      else if isTerminal request.descriptor record then
        collectEligible request (eligible ++ [record]) records
      else collectEligible request eligible records := by
  rw [collectEligible, isTerminal, statusOf]
  split
  · rfl
  · cases record.document.find request.descriptor.statusField with
    | none => rfl
    | some status => cases status <;> rfl

/-- The loop takes the records in terminal states, up to the limit. -/
theorem collectEligible_eq (request : EntityGcEligibilityRequest)
    (eligible records : List (VersionedRecord δ)) :
    collectEligible request eligible records = eligible ++
      (records.filter (isTerminal request.descriptor)).take (request.limit - eligible.length) := by
  induction records generalizing eligible with
  | nil => simp [collectEligible]
  | cons record records ih =>
    rw [collectEligible_cons]
    by_cases hfull : request.limit ≤ eligible.length
    · rw [if_pos hfull, Nat.sub_eq_zero_of_le hfull, List.take_zero, List.append_nil]
    · rw [if_neg hfull]
      cases hterminal : isTerminal request.descriptor record with
      | true =>
        have hroom : request.limit - eligible.length =
            request.limit - (eligible ++ [record]).length + 1 := by
          rw [List.length_append, List.length_singleton]
          omega
        rw [if_pos rfl, ih, List.filter_cons_of_pos hterminal, hroom, List.take_succ_cons,
          List.append_assoc]
        rfl
      | false => rw [if_neg Bool.false_ne_true, ih, List.filter_cons_of_neg (by simp [hterminal])]

/-! ## The retention -/

/-- What the texts of a descriptor and of a run mean, in one unit. -/
structure GcClock where
  time : Bytes → Int
  duration : Bytes → Int

/-- The state at some instants, in the order of the run. -/
abbrev Timeline := List (Int × Option Bytes)

/-- The record has been in the state from an instant on. -/
def HeldSince (state : Bytes) (since : Int) (timeline : Timeline) : Prop :=
  ∃ earlier later, timeline = earlier ++ (since, some state) :: later ∧
    ∀ instant ∈ later, instant.2 = some state

/-- **The retention has passed**: the status is a terminal state, and has been for its duration. -/
def RetentionPassed (clock : GcClock) (descriptor : EntityGcDescriptor) (now : Bytes)
    (timeline : Timeline) (status : Option Bytes) : Prop :=
  ∃ terminal ∈ descriptor.terminalStates, status = some terminal.state ∧
    ∃ since, HeldSince terminal.state since timeline ∧
      since + clock.duration terminal.after ≤ clock.time now

/-- At later instants at which the status is the same, it still has. -/
theorem RetentionPassed.later {clock : GcClock} {descriptor : EntityGcDescriptor} {now : Bytes}
    {timeline later : Timeline} {status : Option Bytes}
    (h : RetentionPassed clock descriptor now timeline status)
    (hlater : ∀ instant ∈ later, instant.2 = status) :
    RetentionPassed clock descriptor now (timeline ++ later) status := by
  obtain ⟨terminal, hmem, rfl, since, ⟨earlier, held, rfl, hheld⟩, hpast⟩ := h
  refine ⟨terminal, hmem, rfl, since, ⟨earlier, held ++ later, by simp, ?_⟩, hpast⟩
  intro instant hinstant
  rcases List.mem_append.mp hinstant with hold | hnew
  · exact hheld instant hold
  · exact hlater instant hnew

/-- What an event adds to the timeline of a record: its status after a commit. -/
def instants (descriptor : EntityGcDescriptor) (k : Key) (w : GcWorld δ) (e : GcEvent δ) :
    Timeline :=
  match e with
  | .commit _ time => [(time, statusAt descriptor k (step gcStore w e).shared)]
  | _ => []

/-- The timeline of a record over a run. -/
def timeline (descriptor : EntityGcDescriptor) (k : Key) : GcWorld δ → List (GcEvent δ) → Timeline
  | _, [] => []
  | w, e :: es => instants descriptor k w e ++ timeline descriptor k (step gcStore w e) es

theorem timeline_append (descriptor : EntityGcDescriptor) (k : Key) (w : GcWorld δ)
    (es es' : List (GcEvent δ)) :
    timeline descriptor k w (es ++ es') =
      timeline descriptor k w es ++ timeline descriptor k (run gcStore w es) es' := by
  induction es generalizing w with
  | nil => rfl
  | cons e es ih =>
    rw [List.cons_append, timeline, timeline, ih, List.append_assoc]
    rfl

/-- The world after some events. -/
def gcRun (es : List (GcEvent δ)) : GcWorld δ := run gcStore (World.init InMemoryState.empty) es

/-- The timeline of a record since the empty backend. -/
def history (descriptor : EntityGcDescriptor) (k : Key) (es : List (GcEvent δ)) : Timeline :=
  timeline descriptor k (World.init InMemoryState.empty) es

/-- The retention of the record `k` has passed at the end of the run. -/
def Retained (clock : GcClock) (descriptor : EntityGcDescriptor) (now : Bytes)
    (es : List (GcEvent δ)) (k : Key) : Prop :=
  RetentionPassed clock descriptor now (history descriptor k es)
    (statusAt descriptor k (gcRun es).shared)

/-- **Retention is kept**: what a run of a worker erases is of its collection, and the retention has
    passed. -/
def RetentionKept (clock : GcClock) (es : List (GcEvent δ)) : Prop :=
  ∀ before n time after slot config descriptor now r, es = before ++ .commit n time :: after →
    (gcRun before).slots[n]? = some slot → slot.init = .runOnce config descriptor now →
    gcStore.commit time (gcRun before).shared slot.tx = .ok r →
    ∀ c k, (gcRun before).shared.recordAt c k ≠ none → r.1.recordAt c k = none →
      c = descriptor.collection ∧ Retained clock descriptor now before k

/-! ## The condition -/

/-- The records of the collection that are in a terminal state, in key order. -/
def terminalRecords (descriptor : EntityGcDescriptor) (s : State δ) : List (VersionedRecord δ) :=
  (recordsOf s descriptor.collection).filter (isTerminal descriptor)

/-- **Every batch is ripe**: when a worker lists a collection, whose name has no ':' in it, the retention
    of the first so many records in terminal states has passed. -/
def BatchesRipe (clock : GcClock) (es : List (GcEvent δ)) : Prop :=
  ∀ before n after slot config descriptor now, es = before ++ .op n () :: after →
    (gcRun before).slots[n]? = some slot → slot.init = .runOnce config descriptor now →
    slot.script = [] →
    colon ∉ descriptor.collection ∧
    ∀ record ∈ (terminalRecords descriptor (gcRun before).shared).take config.batchLimit,
      Retained clock descriptor now before record.key

/-! ## The invariant -/

/-- As long as the record has not changed since the transaction has observed it, its retention has
    passed. -/
def Ripe (clock : GcClock) (descriptor : EntityGcDescriptor) (now : Bytes) (es : List (GcEvent δ))
    (t : Tx δ) (record : VersionedRecord δ) : Prop :=
  record.collection = descriptor.collection ∧ ∃ version,
    t.observation (versionKeyOf record) = some version ∧
    ((gcRun es).shared.counter (versionKeyOf record) = version →
      Retained clock descriptor now es record.key)

/-- **A worker that has listed**: it erases what it has listed, and all of it is ripe. -/
structure Listed (clock : GcClock) (descriptor : EntityGcDescriptor) (now : Bytes)
    (es : List (GcEvent δ)) (client : Client δ (Option EntityGcRunResult)) : Prop where
  name : colon ∉ descriptor.collection
  puts : ∀ vk : Bytes, client.tx.puts[vk]? = none
  erases : ∀ vk ∈ client.tx.erases, ∃ record, versionKeyOf record = vk ∧
    Ripe clock descriptor now es client.tx record
  script : (∃ result records, client.script = (do
      let result ← finalizeAll descriptor now result records
      pure (some result)) ∧
      ∀ record ∈ records, Ripe clock descriptor now es client.tx record) ∨
    ∃ e, client.script = .throw e

/-- A worker has not begun yet, or has listed. -/
def WorkerOk (clock : GcClock) (es : List (GcEvent δ))
    (slot : Slot (GcRequest δ) (Client δ (Option EntityGcRunResult)) Unit Unit) : Prop :=
  slot.tx.tx.isOpen = true → ∀ config descriptor now, slot.init = .runOnce config descriptor now →
    (slot.script = [] ∧ slot.tx = ⟨begin, gcProgram slot.init⟩) ∨
    (slot.script ≠ [] ∧ Listed clock descriptor now es slot.tx)

theorem gcRun_snoc (es : List (GcEvent δ)) (e : GcEvent δ) :
    gcRun (es ++ [e]) = step gcStore (gcRun es) e := by
  rw [gcRun, run_append]
  rfl

theorem history_snoc (descriptor : EntityGcDescriptor) (k : Key) (es : List (GcEvent δ))
    (e : GcEvent δ) :
    history descriptor k (es ++ [e]) =
      history descriptor k es ++ instants descriptor k (gcRun es) e := by
  rw [history, timeline_append, timeline, timeline, List.append_nil]
  rfl

/-- An event that leaves the record alone leaves its retention passed. -/
theorem Retained.snoc {clock : GcClock} {descriptor : EntityGcDescriptor} {now : Bytes}
    {es : List (GcEvent δ)} {k : Key} (h : Retained clock descriptor now es k) (e : GcEvent δ)
    (hsame : (gcRun (es ++ [e])).shared.recordAt descriptor.collection k =
      (gcRun es).shared.recordAt descriptor.collection k) :
    Retained clock descriptor now (es ++ [e]) k := by
  have hstatus : statusAt descriptor k (gcRun (es ++ [e])).shared =
      statusAt descriptor k (gcRun es).shared := by
    rw [statusAt, hsame]
    rfl
  rw [Retained, history_snoc, hstatus]
  refine RetentionPassed.later h fun instant hinstant => ?_
  cases e with
  | commit n time =>
    obtain rfl := List.mem_singleton.mp hinstant
    rw [← hstatus, gcRun_snoc]
  | _ => cases hinstant

/-- What is ripe stays so: either the record does not change, or its counter goes on. -/
theorem Ripe.snoc {clock : GcClock} {descriptor : EntityGcDescriptor} {now : Bytes}
    {es : List (GcEvent δ)} {t : Tx δ} {record : VersionedRecord δ}
    (h : Ripe clock descriptor now es t record) (hgood : Good (gcRun es).shared t)
    (e : GcEvent δ) : Ripe clock descriptor now (es ++ [e]) t record := by
  obtain ⟨hcollection, version, hobservation, hretained⟩ := h
  refine ⟨hcollection, version, hobservation, fun hnow => ?_⟩
  have hlater : Later (gcRun es).shared (gcRun (es ++ [e])).shared := by
    rw [gcRun_snoc]
    exact gcDiscipline.step_later _ e
  have hbefore : (gcRun es).shared.counter (versionKeyOf record) = version :=
    Nat.le_antisymm (hnow ▸ hlater.counter (versionKeyOf record)) (hgood _ _ hobservation)
  refine (hretained hbefore).snoc e (hlater.record _ _ ?_)
  rw [← hcollection]
  exact hbefore.trans hnow.symm

/-- What is ripe for a transaction is ripe for one that has lost no observation. -/
theorem Ripe.kept {clock : GcClock} {descriptor : EntityGcDescriptor} {now : Bytes}
    {es : List (GcEvent δ)} {t t' : Tx δ} {record : VersionedRecord δ}
    (h : Ripe clock descriptor now es t record)
    (hkept : ∀ vk v, t.observation vk = some v → t'.observation vk = some v) :
    Ripe clock descriptor now es t' record := by
  obtain ⟨hcollection, version, hobservation, hretained⟩ := h
  exact ⟨hcollection, version, hkept _ _ hobservation, hretained⟩

theorem Listed.snoc {clock : GcClock} {descriptor : EntityGcDescriptor} {now : Bytes}
    {es : List (GcEvent δ)} {client : Client δ (Option EntityGcRunResult)}
    (h : Listed clock descriptor now es client) (hgood : Good (gcRun es).shared client.tx)
    (e : GcEvent δ) : Listed clock descriptor now (es ++ [e]) client where
  name := h.name
  puts := h.puts
  erases vk hvk := by
    obtain ⟨record, hrecord, hripe⟩ := h.erases vk hvk
    exact ⟨record, hrecord, hripe.snoc hgood e⟩
  script := by
    rcases h.script with ⟨result, records, hscript, hripe⟩ | hthrow
    · exact Or.inl ⟨result, records, hscript, fun record hmem => (hripe record hmem).snoc hgood e⟩
    · exact Or.inr hthrow

/-! ## The steps of a worker -/

theorem call_runOnce (s : State δ) (config : EntityGcWorkerConfig) (descriptor : EntityGcDescriptor) (now : Bytes) :
    Client.call s ⟨begin, gcProgram (.runOnce config descriptor now)⟩ =
      ⟨(Cpp.query s begin descriptor.collection .all).2,
        match (Cpp.query s begin descriptor.collection .all).1 with
        | .ok records => do
          let result ← finalizeAll descriptor now
            { scanned := (collectEligible ⟨descriptor, now, config.batchLimit⟩ [] records).length }
            (collectEligible ⟨descriptor, now, config.batchLimit⟩ [] records)
          pure (some result)
        | .error e => .throw e⟩ := rfl

/-- **Listing**: a ripe batch makes a worker that is in order. -/
theorem listed_of_query {clock : GcClock} {config : EntityGcWorkerConfig}
    {descriptor : EntityGcDescriptor} {now : Bytes} {es : List (GcEvent δ)}
    (hname : colon ∉ descriptor.collection)
    (hripe : ∀ record ∈
      (terminalRecords descriptor (gcRun es).shared).take config.batchLimit,
      Retained clock descriptor now es record.key) :
    Listed clock descriptor now es
      (Client.call (gcRun es).shared ⟨begin, gcProgram (.runOnce config descriptor now)⟩) := by
  generalize hs : (gcRun es).shared = s at hripe
  have hquery := query_all_begin s descriptor.collection
  rw [call_runOnce, hquery]
  simp only [collectEligible_eq, List.nil_append, List.length_nil, Nat.sub_zero]
  obtain ⟨-, hputs, herases⟩ := (begin : Tx δ).recordReads_frame .first
    (recordsOf s descriptor.collection)
  refine ⟨hname, fun vk => ?_, fun vk hvk => ?_, Or.inl ⟨_, _, rfl, fun record hmem => ?_⟩⟩
  · rw [hputs]
    simp [begin]
  · rw [herases] at hvk
    simp [begin] at hvk
  · have hlisted : record ∈ recordsOf s descriptor.collection :=
      List.mem_of_mem_filter (List.mem_of_mem_take hmem)
    have hat := mem_recordsOf.mp hlisted
    have hkeyed := InMemoryState.recordAt_keyed hat
    obtain ⟨version, hversion⟩ := mem_readVersions.mp
      (mem_recordReads .first (begin : Tx δ) hlisted)
    exact ⟨hkeyed.1, version, hversion, fun _ => hripe record hmem⟩

theorem call_finalizeAll (s : State δ) (tx : Tx δ) (descriptor : EntityGcDescriptor) (now : Bytes)
    (result : EntityGcRunResult) (record : VersionedRecord δ) (records : List (VersionedRecord δ)) :
    Client.call s ⟨tx, do
        let result ← finalizeAll descriptor now result (record :: records)
        pure (some result)⟩ =
      ⟨(erase .first s tx descriptor.collection record.key).2,
        match (erase .first s tx descriptor.collection record.key).1 with
        | .ok _ => do
          let result ← finalizeAll descriptor now { result with finalized := result.finalized + 1 } records
          pure (some result)
        | .error fault => .throw (thrown fault)⟩ := rfl

/-- **Erasing**: a worker that is in order stays so. -/
theorem Listed.call {clock : GcClock} {descriptor : EntityGcDescriptor} {now : Bytes}
    {es : List (GcEvent δ)} {client : Client δ (Option EntityGcRunResult)}
    (h : Listed clock descriptor now es client) (s : State δ) :
    Listed clock descriptor now es (client.call s) := by
  obtain ⟨tx, script⟩ := client
  obtain ⟨hname, hputs, herases, hscript⟩ := h
  rcases hscript with ⟨result, records, rfl, hripe⟩ | ⟨e, rfl⟩
  swap
  · exact ⟨hname, hputs, herases, Or.inr ⟨e, rfl⟩⟩
  cases records with
  | nil => exact ⟨hname, hputs, herases, Or.inl ⟨result, [], rfl, fun _ hmem => by cases hmem⟩⟩
  | cons record records =>
    obtain ⟨hrecord, hrest⟩ := List.forall_mem_cons.mp hripe
    rw [call_finalizeAll]
    rcases erase_cases .first s tx descriptor.collection record.key with
      ⟨-, heq⟩ | ⟨-, hread, heq⟩ <;> rw [heq]
    · exact ⟨hname, hputs, herases, Or.inr ⟨_, rfl⟩⟩
    obtain ⟨-, hsame, hsame'⟩ := get_frame .first s tx descriptor.collection record.key
    have hkept : ∀ vk v, tx.observation vk = some v →
        (get .first s tx descriptor.collection record.key).2.observation vk = some v :=
      fun vk v hv => observation_first_get hv _ _
    refine ⟨hname, fun vk => ?_, fun vk hvk => ?_,
      Or.inl ⟨_, records, rfl, fun r hr => (hrest r hr).kept hkept⟩⟩
    · show ((get .first s tx descriptor.collection record.key).2.puts.erase _)[vk]? = none
      rw [OrderedMap.find_erase, hsame, hputs vk, ite_self]
    · rcases Std.ExtTreeSet.mem_insert.mp hvk with hnew | hold
      · exact ⟨record, by
          rw [versionKeyOf, hrecord.1]
          exact Std.compare_eq_iff_eq.mp hnew, hrecord.kept hkept⟩
      · rw [hsame'] at hold
        obtain ⟨r, hr, hripe'⟩ := herases vk hold
        exact ⟨r, hr, hripe'.kept hkept⟩

/-! ## Runs -/

theorem WorkerOk.snoc {clock : GcClock} {es : List (GcEvent δ)}
    {slot : Slot (GcRequest δ) (Client δ (Option EntityGcRunResult)) Unit Unit}
    (h : WorkerOk clock es slot)
    (hgood : slot.tx.tx.isOpen = true → Good (gcRun es).shared slot.tx.tx) (e : GcEvent δ) :
    WorkerOk clock (es ++ [e]) slot := by
  intro hopen config descriptor now hinit
  rcases h hopen config descriptor now hinit with hstart | ⟨hbegun, hlisted⟩
  · exact Or.inl hstart
  · exact Or.inr ⟨hbegun, hlisted.snoc (hgood hopen) e⟩

theorem WorkerOk.spent {clock : GcClock} {es : List (GcEvent δ)}
    {slot : Slot (GcRequest δ) (Client δ (Option EntityGcRunResult)) Unit Unit}
    (h : ¬ slot.tx.tx.isOpen = true) : WorkerOk clock es slot :=
  fun hopen => absurd hopen h

theorem batchesRipe_of_append {clock : GcClock} {es es' : List (GcEvent δ)}
    (h : BatchesRipe clock (es ++ es')) : BatchesRipe clock es := by
  intro before n after slot config descriptor now hes
  exact h before n (after ++ es') slot config descriptor now (by simp [hes])

theorem gcRun_inv (es : List (GcEvent δ)) :
    gcDiscipline.Inv InMemoryState.empty (gcRun es) :=
  gcDiscipline.run_inv (allowed_clients later_register _ es)

/-- **In a run with ripe batches, every worker is in order**: by induction on the run, one event at a
    time. -/
theorem workers_ok {clock : GcClock} {es : List (GcEvent δ)} (hes : BatchesRipe clock es) :
    ∀ slot ∈ (gcRun es).slots, WorkerOk clock es slot := by
  induction es using List.reverseRecOn with
  | nil =>
    intro slot hmem
    cases hmem
  | append_singleton es e ih =>
    have hslots := ih (batchesRipe_of_append hes)
    have hold : ∀ slot ∈ (gcRun es).slots, WorkerOk clock (es ++ [e]) slot := fun slot hmem =>
      (hslots slot hmem).snoc (fun hopen => ((gcRun_inv es).slots slot hmem hopen).1) e
    -- all slots but one are as they were
    have hset : ∀ {n : Nat} {new}, WorkerOk clock (es ++ [e]) new →
        ∀ slot ∈ (gcRun es).slots.set n new, WorkerOk clock (es ++ [e]) slot := by
      intro n new hnew slot hmem
      rcases List.mem_or_eq_of_mem_set hmem with hmem | rfl
      · exact hold slot hmem
      · exact hnew
    rw [gcRun_snoc]
    rcases step_cases gcStore (gcRun es) e with hw | ⟨i, rfl, hw⟩ | ⟨n, o, slot, rfl, hn, hw⟩ |
      ⟨n, time, slot, r, rfl, hn, hc, hw⟩ | ⟨n, slot, rfl, hn, hw⟩ | ⟨a, rfl, hw⟩ <;> rw [hw]
    · exact hold
    · intro slot hmem
      rcases List.mem_append.mp hmem with hmem | hnew
      · exact hold slot hmem
      · obtain rfl := List.mem_singleton.mp hnew
        exact fun _ _ _ _ _ => Or.inl ⟨rfl, rfl⟩
    · refine hset fun hopen config descriptor now hinit => Or.inr ⟨by simp, ?_⟩
      have hopen' : slot.tx.tx.isOpen = true := gcDiscipline.exec_live (o := o) hopen
      have hmem := List.mem_of_getElem? hn
      have hgood : Good (gcRun es).shared (slot.tx.call (gcRun es).shared).tx :=
        gcDiscipline.exec_good (o := o) trivial hopen' ((gcRun_inv es).slots slot hmem hopen').1
      suffices hlisted : Listed clock descriptor now es (slot.tx.call (gcRun es).shared) from
        hlisted.snoc hgood (.op n o)
      rcases hslots slot hmem hopen' config descriptor now hinit with ⟨hscript, htx⟩ | ⟨-, hlisted⟩
      · obtain ⟨hname, hripe⟩ :=
          hes es n [] slot config descriptor now rfl hn hinit hscript
        rw [htx, hinit]
        exact listed_of_query hname hripe
      · exact hlisted.call _
    · exact hset (WorkerOk.spent (gcDiscipline.commit_spent hc))
    · exact hset (WorkerOk.spent (gcDiscipline.abort_spent _))
    · exact hold

/-- **Retention is kept** in every run in which every batch is ripe. -/
theorem retention_kept (clock : GcClock) (es : List (GcEvent δ)) (hes : BatchesRipe clock es) :
    RetentionKept clock es := by
  rintro before n time after slot config descriptor now r rfl hn hinit hc c k hbefore hafter
  have hcommit := (commit_clients gcProgram Cpp.register hc).2
  have hopen : slot.tx.tx.isOpen = true := gcDiscipline.commit_live hc
  have hvalid : Valid (gcRun before).shared slot.tx.tx := gcDiscipline.commit_valid hc
  have hok := workers_ok (batchesRipe_of_append hes) slot (List.mem_of_getElem? hn)
  rcases hok hopen config descriptor now hinit with ⟨-, htx⟩ | ⟨-, hlisted⟩
  · -- a worker that has not listed yet cannot commit
    rw [htx, hinit] at hc
    cases hc
  obtain ⟨-, -, indexes, hst, heq⟩ := commit_ok (commit_ok_iff.mp hcommit)
  rw [(Prod.mk.inj heq).1] at hafter
  rcases recordAt_committed slot.tx.tx (gcRun before).shared hst c k with
    ⟨staged, hput, -⟩ | ⟨herases, -⟩ | ⟨-, -, hsame⟩
  · rw [Puts, hlisted.puts] at hput
    cases hput.1
  · obtain ⟨record, hkey, hcollection, version, hobservation, hretained⟩ :=
      hlisted.erases _ herases.1
    have hname : colon ∉ record.collection := hcollection ▸ hlisted.name
    obtain ⟨hc', hk⟩ := recordVersionKey_inj hname (parse_sound herases.2).2 hkey
    refine ⟨hc'.symm.trans hcollection, ?_⟩
    rw [← hk]
    exact hretained (hvalid _ _ hobservation)
  · exact absurd (hsame.symm.trans hafter) hbefore

/-! ## A user is deleted -/

/-- Deleted users are erased after thirty days. -/
def users : EntityGcDescriptor where
  entity := ascii "User"
  collection := ascii "users"
  statusField := ascii "status"
  terminalStates := [{ state := ascii "Deleted", after := ascii "P30D", mode := ascii "delete" }]

/-- Seconds since the beginning of 2026. -/
def calendar : GcClock where
  time text := if text = ascii "2026-02-01T00:00:00Z" then 2678400 else 0
  duration text := if text = ascii "P30D" then 2592000 else 0

/-- A user is stored as deleted. -/
def deletedUser : Script Empty (Option EntityGcRunResult) :=
  .put (ascii "users") (ascii "u") (.object [(ascii "status", .string (ascii "Deleted"))]) (.ret none)

/-- The user is deleted at the beginning of 2026, and a worker has begun to run. -/
def deletedBefore (now : Bytes) : List (GcEvent Empty) :=
  [.begin (.application deletedUser), .op 0 (), .commit 0 0, .begin (.runOnce {} users now)]

/-- The worker lists the users, erases the deleted one and commits. -/
def collectedRun (now : Bytes) : List (GcEvent Empty) :=
  deletedBefore now ++ [.op 1 ()] ++ [.op 1 ()] ++ [.commit 1 2678400]

theorem batchesRipe_snoc {clock : GcClock} {es : List (GcEvent δ)} {e : GcEvent δ}
    (h : BatchesRipe clock es)
    (he : ∀ n slot config descriptor now, e = .op n () → (gcRun es).slots[n]? = some slot →
      slot.init = .runOnce config descriptor now → slot.script = [] →
      colon ∉ descriptor.collection ∧
      ∀ record ∈ (terminalRecords descriptor (gcRun es).shared).take config.batchLimit,
        Retained clock descriptor now es record.key) :
    BatchesRipe clock (es ++ [e]) := by
  intro before n after slot config descriptor now hes hn hinit hscript
  rcases snoc_eq_append_cons hes with ⟨-, rfl, rfl⟩ | ⟨rest, -, rfl⟩
  · exact he n slot config descriptor now rfl hn hinit hscript
  · exact h before n rest slot config descriptor now rfl hn hinit hscript

/-- What the worker lists: the user, who has been deleted since the beginning of 2026. -/
theorem terminalRecords_deleted (now : Bytes) :
    (terminalRecords users (gcRun (deletedBefore now)).shared).map VersionedRecord.key =
      [ascii "u"] := rfl

theorem history_deleted (now : Bytes) :
    history users (ascii "u") (deletedBefore now) = [(0, some (ascii "Deleted"))] := rfl

theorem statusAt_deleted (now : Bytes) :
    statusAt users (ascii "u") (gcRun (deletedBefore now)).shared = some (ascii "Deleted") := rfl

/-- A month later the worker may erase the user. -/
theorem retention_kept_collected :
    RetentionKept calendar (collectedRun (ascii "2026-02-01T00:00:00Z")) := by
  refine retention_kept calendar _ (batchesRipe_snoc (batchesRipe_snoc (batchesRipe_snoc ?_ ?_) ?_) ?_)
  · -- before that, only the application has done something
    show BatchesRipe calendar ([] ++ [_] ++ [_] ++ [_] ++ [_])
    refine batchesRipe_snoc (batchesRipe_snoc (batchesRipe_snoc (batchesRipe_snoc ?_ ?_) ?_) ?_) ?_
    · intro before n after slot config descriptor now hes
      simp at hes
    · nofun
    · intro n slot config descriptor now heq hn hinit
      cases heq
      cases hn
      cases hinit
    · nofun
    · nofun
  · intro n slot config descriptor now heq hn hinit _
    cases heq
    cases hn
    cases hinit
    refine ⟨by decide, fun record hmem => ?_⟩
    have hkey := List.mem_map_of_mem (f := VersionedRecord.key) (List.mem_of_mem_take hmem)
    rw [terminalRecords_deleted, List.mem_singleton] at hkey
    rw [hkey, Retained, history_deleted, statusAt_deleted]
    exact ⟨_, List.mem_singleton.mpr rfl, rfl, 0, ⟨[], [], rfl, fun _ h => by cases h⟩, by decide⟩
  · intro n slot config descriptor now heq hn _ hscript
    cases heq
    cases hn
    cases hscript
  · nofun

/-- **The user who has just been deleted is erased at once.** -/
theorem erased_at_once :
    ¬ RetentionKept calendar (collectedRun (ascii "2026-01-01T00:00:00Z")) := by
  intro h
  have herased := h _ 1 2678400 [] _ {} users _ _ rfl rfl rfl rfl (ascii "users") (ascii "u") nofun rfl
  obtain ⟨-, terminal, hterminal, -, since, ⟨earlier, later, hhistory, -⟩, hpast⟩ := herased
  have hmem : (since, some terminal.state) ∈ [((0 : Int), some (ascii "Deleted"))] := by
    have hthere : (since, some terminal.state) ∈ earlier ++ (since, some terminal.state) :: later :=
      List.mem_append_right _ List.mem_cons_self
    rw [← hhistory] at hthere
    exact hthere
  obtain rfl : since = 0 := (Prod.mk.inj (List.mem_singleton.mp hmem)).1
  obtain rfl := List.mem_singleton.mp hterminal
  revert hpast
  decide

end StateSpec.Runtime.Gc
