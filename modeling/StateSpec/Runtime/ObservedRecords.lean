/-
  OBSERVED RECORDS — whether the events and samples of committed transactions are still there.

  A sink stores a record under the name of the record and a number, which a counter of the sink makes.
  Each sink has a counter of its own that starts from zero, so two sinks on one backend (two processes, or
  one that has been restarted) make the same keys, and a later record replaces an earlier one
  (`event_overwritten`).  A sink counts every call, also one whose transaction is aborted, so that is the
  only way to lose a record (but for a counter that wraps around): nothing is lost exactly when the
  committed records of one name have different numbers, `none_lost_iff`.

  The invariant is `Tracks`: at each key is the last committed record that was stored there.  A call on the
  transaction is one event of the run, so one transaction may emit any number of records, through any
  sinks, and do whatever else it does outside of the collections of the records.
-/
import Mathlib.Data.List.Dedup
import StateSpec.Cpp.SingleWrites
import StateSpec.Runtime.Observability

set_option linter.unusedSectionVars false

namespace StateSpec.Runtime

open Cpp Memory Memory.InMemoryTransaction Interleaving

variable {δ α : Type}

/-! ## Calls -/

/-- The operation stores nothing in the collection and erases nothing from it. -/
def Spares (c : RuntimeCollection) : Operation δ (Query δ) → Prop
  | .put c' k' _ => ∀ k, recordVersionKey c.name k ≠ recordVersionKey c' k'
  | .erase c' k' => ∀ k, recordVersionKey c.name k ≠ recordVersionKey c' k'
  | _ => True

/-- An operation outside of the collections of the records. -/
structure OtherOperation (δ : Type) where
  operation : Operation δ (Query δ)
  sparesEvents : Spares .logEvents operation
  sparesSamples : Spares .metricSamples operation

/-- A call on a transaction: `emit_logTx` or `record_metricTx` of some sink, or anything else. -/
inductive RecordCall (δ : Type) where
  | emitLogTx (sink : Nat) (event : LogEvent δ)
  | recordMetricTx (sink : Nat) (sample : MetricSample δ)
  | other (o : OtherOperation δ)

/-- A call with the number its sink has drawn for it. -/
inductive NumberedCall (δ : Type) where
  | emitLog (number : UInt64) (event : LogEvent δ)
  | recordMetric (number : UInt64) (sample : MetricSample δ)
  | other (o : OtherOperation δ)

/-- The counters of the sinks, by the number of the sink. -/
structure SinkCounters where
  nextEventId : Nat → UInt64 := fun _ => 0
  nextSampleId : Nat → UInt64 := fun _ => 0

/-- The sink draws the next number. -/
def RecordCall.numbered (counters : SinkCounters) : RecordCall δ → NumberedCall δ × SinkCounters
  | .emitLogTx sink event =>
    let number := (RuntimeLogSink.nextEventKey (counters.nextEventId sink) event.name).2
    (.emitLog number event,
      { counters with nextEventId := Function.update counters.nextEventId sink number })
  | .recordMetricTx sink sample =>
    let number := (RuntimeMetricSink.nextSampleKey (counters.nextSampleId sink) sample.name).2
    (.recordMetric number sample,
      { counters with nextSampleId := Function.update counters.nextSampleId sink number })
  | .other o => (.other o, counters)

/-- The key of a record with that number. -/
def recordKey (name : Bytes) (number : UInt64) : Key := name ++ colon :: Bytes.decimal number.toNat

/-- What the call does to the transaction. -/
def NumberedCall.operation : NumberedCall δ → Operation δ (Query δ)
  | .emitLog number event =>
    .put RuntimeCollection.logEvents.name (recordKey event.name number) event.toJson
  | .recordMetric number sample =>
    .put RuntimeCollection.metricSamples.name (recordKey sample.name number) sample.toJson
  | .other o => o.operation

/-- Different names and numbers have different keys. -/
theorem recordKey_inj {name name' : Bytes} {number number' : UInt64}
    (h : recordKey name number = recordKey name' number') : name = name' ∧ number = number' := by
  obtain ⟨hname, hnumber⟩ := Bytes.glue_inj_right (Bytes.colon_not_mem_decimal _)
    (Bytes.colon_not_mem_decimal _) h
  exact ⟨hname, UInt64.toNat_inj.mp (Bytes.decimal_injective hnumber)⟩

/-! ## The two kinds of records -/

/-- A kind of records: where they are kept, and which record a call emits. -/
structure RecordKind (δ α : Type) where
  collection : RuntimeCollection
  name : α → Bytes
  toJson : α → Json δ
  fromJson : Json δ → Except Error α
  fromJson_toJson : ∀ record, fromJson (toJson record) = .ok record
  emitted : NumberedCall δ → Option (UInt64 × α)
  operation_of_emitted : ∀ {call : NumberedCall δ} {r}, emitted call = some r →
    call.operation = .put collection.name (recordKey (name r.2) r.1) (toJson r.2)
  spares_of_not_emitted : ∀ {call : NumberedCall δ}, emitted call = none →
    Spares collection call.operation

/-- A put into one collection of the runtime spares the others. -/
theorem spares_put {c c' : RuntimeCollection} (h : c ≠ c') (key : Key) (document : Json δ) :
    Spares c (.put c'.name key document) :=
  fun _ heq => h (RuntimeCollection.recordVersionKey_name.mp heq).1

/-- The events of the log sinks. -/
def RuntimeLogSink.events : RecordKind δ (LogEvent δ) where
  collection := .logEvents
  name := LogEvent.name
  toJson := LogEvent.toJson
  fromJson := LogEvent.fromJson
  fromJson_toJson := LogEvent.fromJson_toJson
  emitted
    | .emitLog number event => some (number, event)
    | _ => none
  operation_of_emitted {call _} h := by
    cases call with
    | emitLog number event =>
      cases h
      rfl
    | _ => cases h
  spares_of_not_emitted {call} h := by
    cases call with
    | emitLog number event => cases h
    | recordMetric number sample => exact spares_put (by decide) _ _
    | other o => exact o.sparesEvents

/-- The samples of the metric sinks. -/
def RuntimeMetricSink.samples [Widening δ] : RecordKind δ (MetricSample δ) where
  collection := .metricSamples
  name := MetricSample.name
  toJson := MetricSample.toJson
  fromJson := MetricSample.fromJson
  fromJson_toJson := MetricSample.fromJson_toJson
  emitted
    | .recordMetric number sample => some (number, sample)
    | _ => none
  operation_of_emitted {call _} h := by
    cases call with
    | recordMetric number sample =>
      cases h
      rfl
    | _ => cases h
  spares_of_not_emitted {call} h := by
    cases call with
    | emitLog number event => exact spares_put (by decide) _ _
    | recordMetric number sample => cases h
    | other o => exact o.sparesSamples

/-! ## Runs -/

section

variable [Decimal δ]

/-- The backend, with numbered calls. -/
abbrev recordStore : Store Unit (State δ) (Tx δ) (NumberedCall δ) (Except Error (Answer δ)) Unit Error
    (List CollectionDescriptor) where
  begin := store.begin
  exec call := store.exec call.operation
  commit := store.commit
  abort := store.abort
  admin := store.admin

abbrev RecordEvent (δ : Type) := Event Unit (RecordCall δ) Unit (List CollectionDescriptor)
abbrev RecordWorld (δ : Type) [Decimal δ] :=
  World Unit (State δ) (Tx δ) (NumberedCall δ) (Except Error (Answer δ)) Unit

/-- The events of a run, each call with the number its sink draws. -/
def numberedEvents : SinkCounters → List (RecordEvent δ) →
    List (Event Unit (NumberedCall δ) Unit (List CollectionDescriptor))
  | _, [] => []
  | counters, .op n call :: es =>
    .op n (call.numbered counters).1 :: numberedEvents (call.numbered counters).2 es
  | counters, .begin init :: es => .begin init :: numberedEvents counters es
  | counters, .commit n g :: es => .commit n g :: numberedEvents counters es
  | counters, .abort n :: es => .abort n :: numberedEvents counters es
  | counters, .admin a :: es => .admin a :: numberedEvents counters es

/-- A run from the empty backend, with sinks that have not been used. -/
def recordRun (es : List (RecordEvent δ)) : RecordWorld δ :=
  run recordStore (World.init InMemoryState.empty) (numberedEvents {} es)

end

namespace RecordKind

variable [Decimal δ] (kind : RecordKind δ α)

/-- The records that the calls of a transaction have emitted. -/
def emittedBy (script : List (NumberedCall δ × Except Error (Answer δ))) : List (UInt64 × α) :=
  script.filterMap fun entry =>
    match entry.2 with
    | .ok _ => kind.emitted entry.1
    | .error _ => none

/-- The records of committed transactions. -/
def committed (w : RecordWorld δ) : List (UInt64 × α) :=
  w.log.flatMap fun entry => kind.emittedBy entry.script

/-- `inspect_events` and `inspect_samples`, with nobody else around. -/
def inspect (s : State δ) : Except Error (List α) :=
  match (Script.query kind.collection.name .all .ret).transact s with
  | .error e => .error e
  | .ok (records, _) => records.mapM fun record => kind.fromJson record.document

/-- **Nothing is lost**: an inspection returns every committed record, as often as it was emitted. -/
def NoneLost (w : RecordWorld δ) : Prop :=
  ∃ found, kind.inspect w.shared = .ok found ∧ ((kind.committed w).map Prod.snd).Subperm found

/-- No two committed records have both the same name and the same number. -/
def NumberedApart (w : RecordWorld δ) : Prop :=
  ((kind.committed w).map fun r => (kind.name r.2, r.1)).Nodup

/-! ## The last record of a key -/

/-- The key of a record. -/
def key (r : UInt64 × α) : Key := recordKey (kind.name r.2) r.1

/-- The last record under a key. -/
def latestAt (records : List (UInt64 × α)) (k : Key) : Option α :=
  records.reverse.findSome? fun r => if kind.key r = k then some r.2 else none

omit [Decimal δ] in
theorem latestAt_append (records records' : List (UInt64 × α)) (k : Key) :
    kind.latestAt (records ++ records') k =
      (kind.latestAt records' k).or (kind.latestAt records k) := by
  rw [latestAt, List.reverse_append, List.findSome?_append]
  rfl

omit [Decimal δ] in
theorem latestAt_singleton (r : UInt64 × α) (k : Key) :
    kind.latestAt [r] k = if kind.key r = k then some r.2 else none := by
  rw [latestAt, List.reverse_singleton, List.findSome?_singleton]

omit [Decimal δ] in
theorem mem_of_latestAt {records : List (UInt64 × α)} {k : Key} {record : α}
    (h : kind.latestAt records k = some record) : ∃ r ∈ records, kind.key r = k ∧ r.2 = record := by
  obtain ⟨r, hr, hif⟩ := List.exists_of_findSome?_eq_some h
  by_cases hk : kind.key r = k
  · rw [if_pos hk] at hif
    exact ⟨r, List.mem_reverse.mp hr, hk, Option.some_inj.mp hif⟩
  · rw [if_neg hk] at hif
    cases hif

omit [Decimal δ] in
theorem latestAt_isSome {records : List (UInt64 × α)} {k : Key} :
    (kind.latestAt records k).isSome ↔ k ∈ records.map kind.key := by
  constructor
  · intro h
    obtain ⟨record, hrecord⟩ := Option.isSome_iff_exists.mp h
    obtain ⟨r, hr, hk, -⟩ := kind.mem_of_latestAt hrecord
    exact List.mem_map.mpr ⟨r, hr, hk⟩
  · intro h
    obtain ⟨r, hr, hk⟩ := List.mem_map.mp h
    rw [latestAt, List.findSome?_isSome_iff]
    exact ⟨r, List.mem_reverse.mpr hr, by rw [if_pos hk]; rfl⟩

omit [Decimal δ] in
/-- Under different keys each record is the last one. -/
theorem latestAt_of_nodup {records : List (UInt64 × α)} (hnodup : (records.map kind.key).Nodup)
    {r : UInt64 × α} (hr : r ∈ records) : kind.latestAt records (kind.key r) = some r.2 := by
  have hsome := kind.latestAt_isSome.mpr (List.mem_map.mpr ⟨r, hr, rfl⟩)
  obtain ⟨record, hrecord⟩ := Option.isSome_iff_exists.mp hsome
  obtain ⟨r', hr', hkey, rfl⟩ := kind.mem_of_latestAt hrecord
  rw [hrecord, List.inj_on_of_nodup_map hnodup hr' hr hkey]

/-! ## The invariant -/

/-- What a transaction has staged under a key is the last record it has emitted there. -/
def Stages (script : List (NumberedCall δ × Except Error (Answer δ))) (t : Tx δ) : Prop :=
  ∀ k, recordVersionKey kind.collection.name k ∉ t.erases ∧
    t.puts[recordVersionKey kind.collection.name k]? =
      (kind.latestAt (kind.emittedBy script) k).map fun record =>
        stagedRecord kind.collection.name k (kind.toJson record)

/-- What is stored under a key is the last committed record that was emitted there, and its version is
    the counter of the key. -/
def Tracks (records : List (UInt64 × α)) (s : State δ) : Prop :=
  ∀ k, s.recordAt kind.collection.name k =
    (kind.latestAt records k).map fun record =>
      { stagedRecord kind.collection.name k (kind.toJson record) with
        version := s.counter (recordVersionKey kind.collection.name k) }

theorem emittedBy_append (script : List (NumberedCall δ × Except Error (Answer δ)))
    (entry : NumberedCall δ × Except Error (Answer δ)) :
    kind.emittedBy (script ++ [entry]) = kind.emittedBy script ++ kind.emittedBy [entry] :=
  List.filterMap_append

variable {kind}

/-- An operation that spares the collection stages nothing there. -/
theorem Stages.spares {script : List (NumberedCall δ × Except Error (Answer δ))} {s : State δ}
    {t : Tx δ} {o : Operation δ (Query δ)} (h : kind.Stages script t)
    (ho : Spares kind.collection o) : kind.Stages script (exec query o s t).2 := by
  have hframe : ∀ {t' : Tx δ}, t'.puts = t.puts → t'.erases = t.erases → kind.Stages script t' := by
    intro t' hputs herases k
    rw [hputs, herases]
    exact h k
  cases o with
  | get c k =>
    obtain ⟨-, hputs, herases⟩ := get_frame .first s t c k
    exact hframe hputs herases
  | query c q =>
    have hexec : (exec query (.query c q) s t).2 = (query s t c q).2 := rfl
    rw [hexec]
    rcases query_cases s t c q with ⟨_, heq⟩ | ⟨_, records, _, heq⟩ <;> rw [heq]
    · exact h
    · obtain ⟨-, hputs, herases⟩ := t.recordReads_frame .first records
      exact hframe hputs herases
  | put c k document =>
    have hexec : (exec query (.put c k document) s t).2 = (put .first s t c k document).2 := rfl
    rw [hexec]
    rcases put_cases .first s t c k document with ⟨_, heq⟩ | ⟨_, hread, heq⟩ <;> rw [heq]
    · exact h
    · obtain ⟨-, hputs, herases⟩ := get_frame .first s t c k
      intro k'
      obtain ⟨hlive, hput⟩ := h k'
      have hne := ho k'
      simp only [stage, OrderedMap.find_insert, if_neg hne, hputs, herases,
        Std.ExtTreeSet.mem_erase]
      exact ⟨fun hmem => hlive hmem.2, hput⟩
  | erase c k =>
    have hexec : (exec query (.erase c k) s t).2 = (erase .first s t c k).2 := rfl
    rw [hexec]
    rcases erase_cases .first s t c k with ⟨_, heq⟩ | ⟨_, hread, heq⟩ <;> rw [heq]
    · exact h
    · obtain ⟨-, hputs, herases⟩ := get_frame .first s t c k
      intro k'
      obtain ⟨hlive, hput⟩ := h k'
      have hne := ho k'
      simp only [unstage, OrderedMap.find_erase, if_neg hne, hputs, herases,
        Std.ExtTreeSet.mem_insert, Std.compare_eq_iff_eq]
      exact ⟨fun hmem => hmem.elim (fun heq => hne heq.symm) hlive, hput⟩

/-- A call of an open transaction stages the record it emits, and nothing else in the collection. -/
theorem Stages.call {script : List (NumberedCall δ × Except Error (Answer δ))} {s : State δ}
    {t : Tx δ} (h : kind.Stages script t) (hopen : t.isOpen = true) (call : NumberedCall δ) :
    kind.Stages (script ++ [(call, (recordStore.exec call s t).1)]) (recordStore.exec call s t).2 := by
  intro k
  rw [kind.emittedBy_append, kind.latestAt_append]
  cases hemitted : kind.emitted call with
  | none =>
    have hnothing : kind.emittedBy [(call, (recordStore.exec call s t).1)] = [] := by
      cases (recordStore.exec call s t).1 <;> simp [emittedBy, hemitted]
    rw [hnothing]
    exact h.spares (kind.spares_of_not_emitted hemitted) k
  | some r =>
    have hexec : recordStore.exec call s t = exec query call.operation s t := rfl
    rw [hexec, kind.operation_of_emitted hemitted]
    rcases put_cases .first s t kind.collection.name (recordKey (kind.name r.2) r.1)
      (kind.toJson r.2) with ⟨hclosed, _⟩ | ⟨-, hread, heq⟩
    · rw [hopen] at hclosed
      cases hclosed
    have hput : exec query (.put kind.collection.name (recordKey (kind.name r.2) r.1)
        (kind.toJson r.2)) s t = (.ok .done, (get .first s t kind.collection.name
          (recordKey (kind.name r.2) r.1)).2.stage kind.collection.name
          (recordKey (kind.name r.2) r.1) (kind.toJson r.2) hread) := by
      simp only [Cpp.exec, Memory.exec, heq]
      rfl
    have hone : kind.emittedBy [(call, .ok .done)] = [r] := by
      simp [emittedBy, hemitted]
    obtain ⟨-, hputs, herases⟩ := get_frame .first s t kind.collection.name
      (recordKey (kind.name r.2) r.1)
    obtain ⟨hlive, hstaged⟩ := h k
    rw [hput, hone, kind.latestAt_singleton, key]
    simp only [stage, OrderedMap.find_insert, hputs, herases, Std.ExtTreeSet.mem_erase]
    refine ⟨fun hmem => hlive hmem.2, ?_⟩
    by_cases hk : recordKey (kind.name r.2) r.1 = k
    · rw [if_pos (by rw [hk]), if_pos hk, hk]
      rfl
    · rw [if_neg fun heq => hk (recordVersionKey_inj_right heq).symm, if_neg hk, Option.none_or]
      exact hstaged

/-- **A commit publishes what the transaction has emitted.** -/
theorem Tracks.commit {records : List (UInt64 × α)}
    {script : List (NumberedCall δ × Except Error (Answer δ))} {s : State δ} {t : Tx δ}
    {r : State δ × Tx δ} (h : kind.Tracks records s) (hstages : kind.Stages script t)
    (hcommit : Cpp.commit s t = .ok r) : kind.Tracks (records ++ kind.emittedBy script) r.1 := by
  obtain ⟨-, -, _, hst, rfl⟩ := commit_ok (commit_ok_iff.mp hcommit)
  intro k
  obtain ⟨hlive, hput⟩ := hstages k
  rw [kind.latestAt_append]
  cases hlatest : kind.latestAt (kind.emittedBy script) k with
  | some record =>
    rw [hlatest] at hput
    rcases recordAt_committed t s hst kind.collection.name k with
      ⟨staged, hputs, hrecord⟩ | ⟨herase, -⟩ | ⟨hno, -, -⟩
    · have heq := Option.some_inj.mp (hputs.1.symm.trans hput)
      rw [hrecord, heq]
      rfl
    · exact absurd herase.1 hlive
    · exact absurd ⟨hput, rfl, rfl⟩ (hno _)
  | none =>
    rw [hlatest] at hput
    have hover : ¬ t.Overlays (recordVersionKey kind.collection.name k) := by
      rintro (herase | hmem)
      · exact hlive herase
      · rw [Std.ExtTreeMap.mem_iff_isSome_getElem?, hput] at hmem
        cases hmem
    rw [counter_committed t s hst, if_neg hover, Nat.add_zero, Option.none_or, ← h k]
    rcases recordAt_committed t s hst kind.collection.name k with
      ⟨staged, hputs, -⟩ | ⟨herase, -⟩ | ⟨-, -, hsame⟩
    · have heq := hputs.1.symm.trans hput
      cases heq
    · exact absurd herase.1 hlive
    · exact hsame

/-- What holds along a run: of each transaction that can still commit, and of the backend. -/
structure Inv (kind : RecordKind δ α) (w : RecordWorld δ) : Prop where
  stages : ∀ slot ∈ w.slots, slot.tx.isOpen = true → kind.Stages slot.script slot.tx
  tracks : kind.Tracks (kind.committed w) w.shared

theorem inv_step (w : RecordWorld δ)
    (e : Event Unit (NumberedCall δ) Unit (List CollectionDescriptor)) (h : kind.Inv w) :
    kind.Inv (step recordStore w e) := by
  have hset : ∀ {n : Nat} {new : Slot Unit (Tx δ) (NumberedCall δ) (Except Error (Answer δ))},
      (new.tx.isOpen = true → kind.Stages new.script new.tx) →
      ∀ slot ∈ w.slots.set n new, slot.tx.isOpen = true → kind.Stages slot.script slot.tx := by
    intro n new hnew slot hmem
    rcases List.mem_or_eq_of_mem_set hmem with hold | rfl
    · exact h.stages slot hold
    · exact hnew
  rcases step_cases recordStore w e with hw | ⟨i, rfl, hw⟩ | ⟨n, o, slot, rfl, hn, hw⟩ |
    ⟨n, g, slot, r, rfl, hn, hc, hw⟩ | ⟨n, slot, rfl, hn, hw⟩ | ⟨a, rfl, hw⟩ <;> rw [hw]
  · exact h
  · refine ⟨fun slot hmem hopen => ?_, h.tracks⟩
    rcases List.mem_append.mp hmem with hold | hnew
    · exact h.stages slot hold hopen
    · obtain rfl := List.mem_singleton.mp hnew
      intro k
      simp [begin, emittedBy, latestAt, storeWith]
  · refine ⟨hset fun hopen => ?_, h.tracks⟩
    have hopen' : slot.tx.isOpen = true :=
      (isOpen_exec lawful_query o.operation w.shared slot.tx).symm.trans hopen
    exact (h.stages slot (List.mem_of_getElem? hn) hopen').call hopen' o
  · have hcommit : Cpp.commit w.shared slot.tx = .ok r := hc
    obtain ⟨hopen, -, _, hst, hr⟩ := commit_ok (commit_ok_iff.mp hcommit)
    refine ⟨hset fun hopen' => ?_, ?_⟩
    · rw [(Prod.mk.inj hr).2] at hopen'
      cases hopen'
    · have hstages := h.stages slot (List.mem_of_getElem? hn) hopen
      have hcommitted : kind.committed (w.committed n slot g r) =
          kind.committed w ++ kind.emittedBy slot.script := by
        simp [committed, World.committed]
      rw [hcommitted]
      exact h.tracks.commit hstages hcommit
  · refine ⟨hset fun hopen => ?_, h.tracks⟩
    cases hopen
  · refine ⟨h.stages, fun k => ?_⟩
    -- a registration changes no record and no counter
    obtain ⟨hrecords, hversions⟩ := register_frame w.shared a
    have htracks := h.tracks k
    rw [InMemoryState.recordAt, InMemoryState.counter, ← hrecords, ← hversions] at htracks
    exact htracks

theorem inv_run (kind : RecordKind δ α) (es : List (RecordEvent δ)) : kind.Inv (recordRun es) := by
  refine run_invariant recordStore (C := fun _ _ => True) (fun w e _ => inv_step w e)
    (runMeets_of_forall _ (fun _ _ => trivial) _ _) ⟨?_, fun k => ?_⟩
  · intro slot hmem
    cases hmem
  · simp [World.init, committed, latestAt, InMemoryState.recordAt, InMemoryState.empty,
      OrderedMap.find₂]

/-! ## Inspections -/

variable (kind) in
/-- What is listed, decoded one by one. -/
theorem mapM_fromJson {records : List (VersionedRecord δ)} {P : Key → α → Prop}
    (h : ∀ r ∈ records, ∃ a, kind.fromJson r.document = .ok a ∧ P r.key a) :
    ∃ found : List (Key × α), records.mapM (fun r => kind.fromJson r.document) =
        .ok (found.map Prod.snd) ∧
      found.map Prod.fst = records.map VersionedRecord.key ∧ ∀ p ∈ found, P p.1 p.2 := by
  induction records with
  | nil => exact ⟨[], rfl, rfl, nofun⟩
  | cons r records ih =>
    obtain ⟨found, hfound, hkeys, hP⟩ := ih fun r hr => h r (List.mem_cons_of_mem _ hr)
    obtain ⟨a, ha, hPa⟩ := h r List.mem_cons_self
    refine ⟨(r.key, a) :: found, ?_, ?_, ?_⟩
    · rw [List.mapM_cons, ha, hfound]
      rfl
    · rw [List.map_cons, List.map_cons, hkeys]
    · intro p hp
      rcases List.mem_cons.mp hp with rfl | hp
      · exact hPa
      · exact hP p hp

/-- The transaction of an inspection commits. -/
theorem transact_query {records : List (UInt64 × α)} {s : State δ} (h : kind.Tracks records s) :
    ∃ s', (Script.query kind.collection.name .all .ret).transact s =
      .ok (recordsOf s kind.collection.name, s') := by
  have heval : (Script.query kind.collection.name .all .ret).eval s begin =
      (.ok (recordsOf s kind.collection.name),
        begin.recordReads .first (recordsOf s kind.collection.name)) := by
    rw [Script.eval, query_all_begin]
    rfl
  obtain ⟨hopen, hputs, herases⟩ :=
    (begin : Tx δ).recordReads_frame .first (recordsOf s kind.collection.name)
  have hcurrent : ((begin : Tx δ).recordReads .first
      (recordsOf s kind.collection.name)).current s = true := by
    rw [current_iff]
    intro vk v hv
    rcases observation_recordReads hv with ⟨r, hr, rfl, rfl⟩ | hnone
    · -- the version of a record that is listed is the counter of its key
      have hat := mem_recordsOf.mp hr
      rw [versionKeyOf, (InMemoryState.recordAt_keyed hat).1]
      rw [h] at hat
      obtain ⟨record, -, heq⟩ := Option.map_eq_some_iff.mp hat
      exact congrArg VersionedRecord.version heq
    · simp [observation, begin] at hnone
  have hst : stageIndexes [] s ((begin : Tx δ).recordReads .first
      (recordsOf s kind.collection.name)) = .ok s.indexes := by
    rw [stageIndexes, stagedRecords, hputs, herases]
    simp [begin, visit]
    rfl
  have hcommit := commit_ok_iff.mpr (commit_of_staged hopen hcurrent hst)
  rw [Script.transact, heval]
  simp only [hcommit]
  exact ⟨_, rfl⟩

/-- **What an inspection returns**: for each key the last record that was emitted there. -/
theorem inspect_eq {records : List (UInt64 × α)} {s : State δ} (h : kind.Tracks records s) :
    ∃ found : List (Key × α), kind.inspect s = .ok (found.map Prod.snd) ∧
      (found.map Prod.fst).Nodup ∧
      ∀ k a, (k, a) ∈ found ↔ kind.latestAt records k = some a := by
  obtain ⟨s', htransact⟩ := transact_query h
  have hdecode : ∀ r ∈ recordsOf s kind.collection.name, ∃ a,
      kind.fromJson r.document = .ok a ∧ kind.latestAt records r.key = some a := by
    intro r hr
    have hat := mem_recordsOf.mp hr
    rw [h] at hat
    obtain ⟨a, ha, heq⟩ := Option.map_eq_some_iff.mp hat
    refine ⟨a, ?_, ha⟩
    rw [← heq]
    exact kind.fromJson_toJson a
  obtain ⟨found, hfound, hkeys, hlatest⟩ :=
    mapM_fromJson kind (P := fun k a => kind.latestAt records k = some a) hdecode
  refine ⟨found, ?_, ?_, fun k a => ⟨fun hmem => hlatest _ hmem, fun ha => ?_⟩⟩
  · rw [inspect, htransact]
    exact hfound
  · rw [hkeys]
    exact nodup_committed (committedRecords_all_begin s _)
  · have hat := h k
    rw [ha, Option.map_some] at hat
    have hlisted : { stagedRecord kind.collection.name k (kind.toJson a) with
        version := s.counter (recordVersionKey kind.collection.name k) } ∈
        recordsOf s kind.collection.name := mem_recordsOf.mpr hat
    have hmem : k ∈ (recordsOf s kind.collection.name).map VersionedRecord.key :=
      List.mem_map.mpr ⟨_, hlisted, rfl⟩
    rw [← hkeys] at hmem
    obtain ⟨⟨k', a'⟩, hp, hk⟩ := List.mem_map.mp hmem
    obtain rfl : k' = k := hk
    have ha' := hlatest _ hp
    rw [ha] at ha'
    obtain rfl := Option.some_inj.mp ha'
    exact hp

variable (kind) in
omit [Decimal δ] in
/-- Names and numbers tell records apart as their keys do. -/
theorem nodup_keys_iff (records : List (UInt64 × α)) :
    (records.map kind.key).Nodup ↔ (records.map fun r => (kind.name r.2, r.1)).Nodup := by
  have hkeys : records.map kind.key =
      (records.map fun r => (kind.name r.2, r.1)).map fun p => recordKey p.1 p.2 := by
    rw [List.map_map]
    rfl
  rw [hkeys]
  refine List.nodup_map_iff fun p p' h => ?_
  obtain ⟨hname, hnumber⟩ := recordKey_inj h
  exact Prod.ext hname hnumber

/-- **Nothing of a kind is lost exactly when its records have different names or numbers.** -/
theorem Inv.noneLost_iff {w : RecordWorld δ} (h : kind.Inv w) :
    kind.NoneLost w ↔ kind.NumberedApart w := by
  obtain ⟨found, hinspect, hnodup, hfound⟩ := inspect_eq h.tracks
  rw [NumberedApart, ← kind.nodup_keys_iff]
  constructor
  · rintro ⟨found', hinspect', hsubperm⟩
    obtain rfl := Except.ok.inj (hinspect.symm.trans hinspect')
    -- an inspection has no more records than there are keys
    have hkeys : (found.map Prod.fst).Perm ((kind.committed w).map kind.key).dedup := by
      rw [List.perm_ext_iff_of_nodup hnodup (List.nodup_dedup _)]
      intro k
      rw [List.mem_dedup, ← kind.latestAt_isSome, Option.isSome_iff_exists, List.mem_map]
      constructor
      · rintro ⟨⟨k, a⟩, hp, rfl⟩
        exact ⟨a, (hfound k a).mp hp⟩
      · rintro ⟨a, ha⟩
        exact ⟨(k, a), (hfound k a).mpr ha, rfl⟩
    have hlength := hsubperm.length_le
    have hdedup := hkeys.length_eq
    simp only [List.length_map] at hlength hdedup
    have hall := (List.dedup_sublist ((kind.committed w).map kind.key)).eq_of_length_le
      (by rw [List.length_map]; omega)
    rw [← hall]
    exact List.nodup_dedup _
  · intro hapart
    refine ⟨_, hinspect, ?_⟩
    have hrecords : ((kind.committed w).map fun r => (kind.key r, r.2)).Perm found := by
      have hfirst : (kind.committed w).map kind.key =
          ((kind.committed w).map fun r => (kind.key r, r.2)).map Prod.fst := by
        rw [List.map_map]
        rfl
      rw [List.perm_ext_iff_of_nodup (hfirst ▸ hapart).of_map hnodup.of_map]
      rintro ⟨k, a⟩
      rw [hfound, List.mem_map]
      constructor
      · rintro ⟨r, hr, heq⟩
        cases heq
        exact kind.latestAt_of_nodup hapart hr
      · intro ha
        obtain ⟨r, hr, rfl, rfl⟩ := kind.mem_of_latestAt ha
        exact ⟨r, hr, rfl⟩
    have hsnd : (kind.committed w).map Prod.snd =
        ((kind.committed w).map fun r => (kind.key r, r.2)).map Prod.snd := by
      rw [List.map_map]
      rfl
    rw [hsnd]
    exact (hrecords.map Prod.snd).subperm

end RecordKind

/-! ## The property -/

variable [Decimal δ] [Widening δ]

/-- **No observability record is lost**, in every state of every run, exactly when no two committed
    records of a kind have both the same name and the same number. -/
theorem none_lost_iff (es : List (RecordEvent δ)) :
    (RuntimeLogSink.events.NoneLost (recordRun es) ↔
      RuntimeLogSink.events.NumberedApart (recordRun es)) ∧
    (RuntimeMetricSink.samples.NoneLost (recordRun es) ↔
      RuntimeMetricSink.samples.NumberedApart (recordRun es)) :=
  ⟨(RecordKind.inv_run _ es).noneLost_iff, (RecordKind.inv_run _ es).noneLost_iff⟩

/-- An event of the log `l`. -/
def eventOf (eventName : Bytes) : LogEvent Int where
  name := ascii "l"
  eventName := eventName

/-- Two sinks emit an event each, in transactions one after the other. -/
def emittingTwice : List (RecordEvent Int) :=
  [.begin (), .op 0 (.emitLogTx 0 (eventOf (ascii "e"))), .commit 0 (),
    .begin (), .op 1 (.emitLogTx 1 (eventOf (ascii "f"))), .commit 1 ()]

/-- **The second sink overwrites the event of the first.** -/
theorem event_overwritten : ¬ RuntimeLogSink.events.NoneLost (recordRun emittingTwice) := by
  rw [(RecordKind.inv_run _ emittingTwice).noneLost_iff]
  have hnumbers : (RuntimeLogSink.events.committed (recordRun emittingTwice)).map
      (fun r => (r.2.name, r.1)) = [(ascii "l", 1), (ascii "l", 1)] := rfl
  intro hapart
  have hnodup : [(ascii "l", (1 : UInt64)), (ascii "l", 1)].Nodup := hnumbers ▸ hapart
  revert hnodup
  decide

end StateSpec.Runtime
