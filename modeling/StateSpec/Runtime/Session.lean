/-
  SESSIONS — programs of the runtime stores, each in a transaction of its own of the C++ in-memory
  backend.

  A session is a transaction with what is left of its program; one step of it is one call on the
  transaction, so that the calls of any number of sessions interleave.  A session commits when its
  program has returned; a session whose program has thrown cannot.

  The runtime stores use the collections of `runtime_collections` only, whose names have no ':'.  So
  what a session sees is `view`: the documents it has staged over the committed ones, and a commit
  publishes exactly its view (`docs_committed`).

  `runs_of_commit`: at the instant of its commit, the program of a committed session runs on the
  committed documents from beginning to end, and leaves what the commit publishes.  So the committed
  sessions of any interleaving are a history (`history_run`), and what a store guarantees is proved
  of histories.
-/
import Mathlib.Data.List.Nodup
import StateSpec.Lib.Program
import StateSpec.Cpp.Phantoms

set_option linter.unusedSectionVars false

namespace StateSpec.Runtime

open Memory Memory.InMemoryTransaction Interleaving

variable {δ : Type} [Decimal δ]

/-! ## The collections of the runtime -/

/-- `runtime_collections`. -/
inductive RuntimeCollection where
  | featureFlagDefinitions | featureFlagValues | queueDefinitions | queueMessages
  | queueIdempotency | leaseDefinitions | leases | workflowDefinitions | workflowExecutions
  | workflowHeartbeats | logDefinitions | logEvents | metricDefinitions | metricSamples
deriving DecidableEq

namespace RuntimeCollection

def name : RuntimeCollection → CollectionName
  | featureFlagDefinitions => ascii "statespec_feature_flag_definitions"
  | featureFlagValues => ascii "statespec_feature_flag_values"
  | queueDefinitions => ascii "statespec_queue_definitions"
  | queueMessages => ascii "statespec_queue_messages"
  | queueIdempotency => ascii "statespec_queue_idempotency"
  | leaseDefinitions => ascii "statespec_lease_definitions"
  | leases => ascii "statespec_leases"
  | workflowDefinitions => ascii "statespec_workflow_definitions"
  | workflowExecutions => ascii "statespec_workflow_executions"
  | workflowHeartbeats => ascii "statespec_workflow_heartbeats"
  | logDefinitions => ascii "statespec_log_definitions"
  | logEvents => ascii "statespec_log_events"
  | metricDefinitions => ascii "statespec_metric_definitions"
  | metricSamples => ascii "statespec_metric_samples"

theorem colon_not_mem_name (c : RuntimeCollection) : colon ∉ c.name := by
  cases c <;> decide

/-- All of them. -/
def all : List RuntimeCollection :=
  [featureFlagDefinitions, featureFlagValues, queueDefinitions, queueMessages, queueIdempotency,
    leaseDefinitions, leases, workflowDefinitions, workflowExecutions, workflowHeartbeats,
    logDefinitions, logEvents, metricDefinitions, metricSamples]

theorem mem_all (c : RuntimeCollection) : c ∈ all := by
  cases c <;> decide

theorem nodup_names : (all.map name).Nodup := by decide +kernel

theorem name_injective {c c' : RuntimeCollection} (h : c.name = c'.name) : c = c' :=
  List.inj_on_of_nodup_map nodup_names c.mem_all c'.mem_all h

/-- Different places have different version keys. -/
theorem recordVersionKey_name {c c' : RuntimeCollection} {k k' : Key} :
    recordVersionKey c.name k = recordVersionKey c'.name k' ↔ c = c' ∧ k = k' := by
  constructor
  · intro h
    obtain ⟨hc, hk⟩ := recordVersionKey_inj c.colon_not_mem_name c'.colon_not_mem_name h
    exact ⟨name_injective hc, hk⟩
  · rintro ⟨rfl, rfl⟩
    rfl

end RuntimeCollection

/-- A program of a runtime store. -/
abbrev TxProgram (δ ρ : Type) := Program RuntimeCollection Key (Json δ) Error ρ

/-- The documents of the runtime. -/
abbrev Docs (δ : Type) := Documents RuntimeCollection Key (Json δ)

/-! ## What a session sees -/

/-- The committed documents. -/
def docs (s : Cpp.State δ) : Documents RuntimeCollection Key (Json δ) :=
  fun c k => (s.recordAt c.name k).map VersionedRecord.document

/-- Registering collections changes no document. -/
theorem docs_register (s : Cpp.State δ) (descriptors : List CollectionDescriptor) :
    docs (Cpp.register descriptors s) = docs s := by
  funext c k
  obtain ⟨hrecords, -⟩ := Cpp.register_frame s descriptors
  rw [docs, docs, InMemoryState.recordAt, InMemoryState.recordAt, hrecords]

/-- The committed documents under those a transaction has staged. -/
def view (s : Cpp.State δ) (t : Cpp.Tx δ) : Documents RuntimeCollection Key (Json δ) :=
  fun c k =>
    if recordVersionKey c.name k ∈ t.erases then none
    else
      match t.puts[recordVersionKey c.name k]? with
      | some record => some record.document
      | none => docs s c k

theorem view_begin (s : Cpp.State δ) : view s begin = docs s := by
  funext c k
  simp [view, begin]

/-- What a transaction has read does not matter. -/
theorem view_congr (s : Cpp.State δ) {t t' : Cpp.Tx δ} (hputs : t'.puts = t.puts)
    (herases : t'.erases = t.erases) : view s t' = view s t := by
  funext c k
  simp only [view, hputs, herases]

/-- From the overlay or from the committed documents. -/
theorem view_of_overlays {t : Cpp.Tx δ} {c : RuntimeCollection} {k : Key} (s : Cpp.State δ)
    (h : t.Overlays (recordVersionKey c.name k)) :
    view s t c k = (t.overlay (recordVersionKey c.name k)).map VersionedRecord.document := by
  rw [view, overlay]
  by_cases herase : recordVersionKey c.name k ∈ t.erases
  · rw [if_pos herase, if_pos herase]
    rfl
  · rw [if_neg herase, if_neg herase]
    cases hput : t.puts[recordVersionKey c.name k]? with
    | some record => rfl
    | none =>
      have hmem := h.resolve_left herase
      rw [Std.ExtTreeMap.mem_iff_isSome_getElem?, hput] at hmem
      cases hmem

theorem view_of_not_overlays {t : Cpp.Tx δ} {c : RuntimeCollection} {k : Key} (s : Cpp.State δ)
    (h : ¬ t.Overlays (recordVersionKey c.name k)) : view s t c k = docs s c k := by
  have hput : t.puts[recordVersionKey c.name k]? = none := by
    exact Std.ExtTreeMap.getElem?_eq_none fun hmem => h (Or.inr hmem)
  rw [view, if_neg fun hmem => h (Or.inl hmem), hput]

theorem view_stage (s : Cpp.State δ) (t : Cpp.Tx δ) (c : RuntimeCollection) (k : Key)
    (document : Json δ) (hread : recordVersionKey c.name k ∈ t.readVersions) :
    view s (t.stage c.name k document hread) = (view s t).set c k (some document) := by
  funext c' k'
  by_cases h : c' = c ∧ k' = k
  · obtain ⟨rfl, rfl⟩ := h
    simp [view, Documents.set, stage, stagedRecord]
  · have hne : ¬ recordVersionKey c.name k = recordVersionKey c'.name k' := fun heq => by
      obtain ⟨hc, hk⟩ := RuntimeCollection.recordVersionKey_name.mp heq
      exact h ⟨hc.symm, hk.symm⟩
    simp only [view, Documents.set, if_neg h, stage, OrderedMap.find_insert, if_neg (Ne.symm hne),
      Std.ExtTreeSet.mem_erase, Std.compare_eq_iff_eq, ne_eq, hne, not_false_eq_true, true_and]

theorem view_unstage (s : Cpp.State δ) (t : Cpp.Tx δ) (c : RuntimeCollection) (k : Key)
    (hread : recordVersionKey c.name k ∈ t.readVersions) :
    view s (t.unstage (recordVersionKey c.name k) hread) = (view s t).set c k none := by
  funext c' k'
  by_cases h : c' = c ∧ k' = k
  · obtain ⟨rfl, rfl⟩ := h
    simp [view, Documents.set, unstage]
  · have hne : ¬ recordVersionKey c.name k = recordVersionKey c'.name k' := fun heq => by
      obtain ⟨hc, hk⟩ := RuntimeCollection.recordVersionKey_name.mp heq
      exact h ⟨hc.symm, hk.symm⟩
    simp only [view, Documents.set, if_neg h, unstage, OrderedMap.find_erase, if_neg (Ne.symm hne),
      Std.ExtTreeSet.mem_insert, Std.compare_eq_iff_eq, hne, false_or]

/-- The transaction has staged records of runtime collections only. -/
def StagesRuntime (t : Cpp.Tx δ) : Prop :=
  ∀ (vk : Bytes) r, t.puts[vk]? = some r → ∃ c : RuntimeCollection, r.collection = c.name

/-- **What a commit leaves at a place of the runtime.** -/
theorem recordAt_committed_name {s : Cpp.State δ} {t : Cpp.Tx δ} {order : List Nat}
    {indexes : Indexes InMemoryIndexKey} (hstages : StagesRuntime t)
    (hst : stageIndexes order s t = .ok indexes) (c : RuntimeCollection) (k : Key) :
    (t.committed s hst).recordAt c.name k =
      if recordVersionKey c.name k ∈ t.erases then none
      else
        match t.puts[recordVersionKey c.name k]? with
        | some r =>
          some { r with version := (t.committed s hst).counter (recordVersionKey c.name k) }
        | none => s.recordAt c.name k := by
  have hparse := parse_recordVersionKey c.colon_not_mem_name k
  rcases recordAt_committed t s hst c.name k with ⟨r, hput, hr⟩ | ⟨herase, hr⟩ | ⟨hno, hne, hr⟩ <;>
    rw [hr]
  · have hlive : recordVersionKey c.name k ∉ t.erases := fun hmem =>
      not_erases_of_puts hput ⟨hmem, hparse⟩
    rw [if_neg hlive, hput.1]
  · rw [if_pos herase.1]
  · have hlive : recordVersionKey c.name k ∉ t.erases := fun hmem => hne ⟨hmem, hparse⟩
    rw [if_neg hlive]
    cases hput : t.puts[recordVersionKey c.name k]? with
    | none => rfl
    | some r =>
      have hvk := (t.staged _ r hput).1
      obtain ⟨c', hc'⟩ := hstages _ r hput
      rw [hc'] at hvk
      obtain ⟨rfl, hk⟩ := RuntimeCollection.recordVersionKey_name.mp hvk
      exact absurd ⟨hput, hc', hk⟩ (hno r)

/-- **A commit publishes the view of its transaction.** -/
theorem docs_committed {s : Cpp.State δ} {t : Cpp.Tx δ} {r : Cpp.State δ × Cpp.Tx δ}
    (hstages : StagesRuntime t) (h : Cpp.commit s t = .ok r) : docs r.1 = view s t := by
  obtain ⟨-, -, indexes, hst, rfl⟩ := commit_ok (Cpp.commit_ok_iff.mp h)
  funext c k
  rw [docs, recordAt_committed_name hstages hst, view]
  split
  · rfl
  · cases t.puts[recordVersionKey c.name k]? <;> rfl

/-! ## Scans -/

/-- The records of a collection have different keys. -/
theorem nodup_committed {s : Cpp.State δ} {t : Cpp.Tx δ} {c : CollectionName}
    {records : List (VersionedRecord δ)}
    (h : Cpp.committedRecords s t c (Cpp.selector .all) = .ok records) :
    (records.map VersionedRecord.key).Nodup := by
  have hscan : ¬ (Cpp.selector (δ := δ) .all).isIndex = true := Bool.false_ne_true
  rw [Cpp.committedRecords, if_neg hscan] at h
  cases hinner : s.records[c]? with
  | none =>
    simp only [hinner, Except.ok.injEq] at h
    subst h
    exact List.nodup_nil
  | some inner =>
    simp only [hinner, Except.ok.injEq] at h
    subst h
    have hkeys : (inner.toList.map Prod.snd).map VersionedRecord.key = inner.toList.map Prod.fst := by
      rw [List.map_map]
      refine List.map_congr_left fun p hp => (s.keyed c p.1 p.2 ?_).2
      rw [OrderedMap.find₂, hinner, Option.bind_some]
      exact Std.ExtTreeMap.mem_toList_iff_getElem?_eq_some.mp hp
    refine (List.filter_sublist.map VersionedRecord.key).nodup ?_
    rw [hkeys, List.nodup_iff_pairwise_ne, List.pairwise_map]
    exact (Std.ExtTreeMap.distinct_keys_toList (t := inner)).imp fun hne heq =>
      hne (Std.compare_eq_iff_eq.mpr heq)

/-- A scan answers each key once. -/
theorem nodup_scan {s : Cpp.State δ} {t : Cpp.Tx δ} {c : CollectionName}
    {records : List (VersionedRecord δ)}
    (h : Cpp.queryRecords s t c (Cpp.selector .all) = .ok records) :
    (records.map VersionedRecord.key).Nodup := by
  obtain ⟨committed, hcommitted⟩ := Cpp.committedRecords_total s t c (Cpp.selector .all)
  cases hstaged : Cpp.stagedPart s t c (Cpp.selector .all) with
  | error e => simp [Cpp.queryRecords, hcommitted, hstaged] at h
  | ok staged =>
    simp only [Cpp.queryRecords, hcommitted, hstaged, Except.ok.injEq] at h
    subst h
    have hcm := Cpp.mem_committedRecords hcommitted
    have hst : ∀ r ∈ staged, r ∈ t.stagedRecords ∧ r.collection = c := by
      intro r hr
      obtain ⟨hmem, hfinds⟩ := (mem_filterE (mapError_eq_ok.mp hstaged) r).mp hr
      refine ⟨hmem, ?_⟩
      by_contra hc
      rw [Cpp.findsStaged, if_neg hc] at hfinds
      cases hfinds
    have hsub : (((committed ++ staged).filter fun record => !Cpp.superseded t record).filter
        (Cpp.selector (δ := δ) .all).matchesRecord).Sublist (committed ++ staged) :=
      (List.filter_sublist ..).trans (List.filter_sublist ..)
    refine (hsub.map VersionedRecord.key).nodup ?_
    rw [List.map_append, List.nodup_append]
    refine ⟨?_, ?_, ?_⟩
    · exact nodup_committed hcommitted
    · -- staged records of one collection have different version keys, hence different keys
      have hvks : (staged.map versionKeyOf).Nodup :=
        ((filterE_sublist (mapError_eq_ok.mp hstaged)).map versionKeyOf).nodup t.nodup_stagedRecords
      have heq : staged.map versionKeyOf =
          (staged.map VersionedRecord.key).map (recordVersionKey c) := by
        rw [List.map_map]
        exact List.map_congr_left fun r hr => by rw [versionKeyOf, (hst r hr).2]; rfl
      rw [heq] at hvks
      exact hvks.of_map _
    · -- a committed record that is staged has been left out
      rintro k hk k' hk' rfl
      obtain ⟨r, hr, rfl⟩ := List.mem_map.mp hk
      obtain ⟨r', hr', hkey⟩ := List.mem_map.mp hk'
      obtain ⟨hat, -, hnot⟩ := (hcm r).mp hr
      refine hnot rfl (Std.ExtTreeMap.mem_iff_isSome_getElem?.mpr ?_)
      rw [versionKeyOf, (InMemoryState.recordAt_keyed hat).1, ← hkey, ← (hst r' hr').2,
        ← versionKeyOf, mem_stagedRecords.mp (hst r' hr').1]
      rfl

/-! ## Sessions -/

/-- A transaction, and what is left of its program. -/
structure Session (δ ρ : Type) where
  tx : Cpp.Tx δ
  program : TxProgram δ ρ

/-- One call of a program on its transaction. -/
def Session.call {ρ : Type} (s : Cpp.State δ) (session : Session δ ρ) : Session δ ρ :=
  match session.program with
  | .ret a => ⟨session.tx, .ret a⟩
  | .throw e => ⟨session.tx, .throw e⟩
  | .get c k next =>
    let r := get .first s session.tx c.name k
    ⟨r.2, match r.1 with
      | .ok record => next (record.map VersionedRecord.document)
      | .error fault => .throw (Cpp.thrown fault)⟩
  | .all c next =>
    let r := Cpp.query s session.tx c.name .all
    ⟨r.2, match r.1 with
      | .ok records => next (records.map fun record => (record.key, record.document))
      | .error e => .throw e⟩
  | .put c k document next =>
    let r := put .first s session.tx c.name k document
    ⟨r.2, match r.1 with
      | .ok _ => next
      | .error fault => .throw (Cpp.thrown fault)⟩
  | .erase c k next =>
    let r := erase .first s session.tx c.name k
    ⟨r.2, match r.1 with
      | .ok _ => next
      | .error fault => .throw (Cpp.thrown fault)⟩

/-- A call leaves the transaction alone or is one of its operations. -/
theorem call_tx {ρ : Type} (s : Cpp.State δ) (session : Session δ ρ) :
    (session.call s).tx = session.tx ∨
    ∃ o : Operation δ (Query δ), (session.call s).tx = (Cpp.exec Cpp.query o s session.tx).2 := by
  rw [Session.call]
  cases session.program with
  | ret a => exact Or.inl rfl
  | throw e => exact Or.inl rfl
  | get c k next => exact Or.inr ⟨.get c.name k, rfl⟩
  | all c next => exact Or.inr ⟨.query c.name .all, rfl⟩
  | put c k document next => exact Or.inr ⟨.put c.name k document, rfl⟩
  | erase c k next => exact Or.inr ⟨.erase c.name k, rfl⟩

section

variable {ι ρ α : Type} (program : ι → TxProgram δ ρ) (admin : α → Cpp.State δ → Cpp.State δ)

/-- The sessions of a store: each request opens one, a commit waits for its program to return. -/
def sessions : Store ι (Cpp.State δ) (Session δ ρ) Unit Unit Unit (Option Error) α where
  begin request := ⟨begin, program request⟩
  exec _ s session := ((), session.call s)
  commit _ s session :=
    match session.program with
    | .ret _ =>
      match Cpp.commit s session.tx with
      | .error e => .error (some e)
      | .ok r => .ok (r.1, { session with tx := r.2 })
    | _ => .error none
  abort session := { session with tx := abort session.tx }
  admin := admin

theorem commit_sessions {g : Unit} {s : Cpp.State δ} {session : Session δ ρ}
    {r : Cpp.State δ × Session δ ρ} (h : (sessions program admin).commit g s session = .ok r) :
    (∃ a, session.program = .ret a) ∧
      Cpp.commit s session.tx = .ok (r.1, r.2.tx) := by
  simp only [sessions] at h
  cases hprogram : session.program with
  | ret a =>
    simp only [hprogram] at h
    cases hcommit : Cpp.commit s session.tx with
    | error e =>
      simp only [hcommit] at h
      cases h
    | ok r' =>
      simp only [hcommit, Except.ok.injEq] at h
      subst h
      exact ⟨⟨a, rfl⟩, rfl⟩
  | _ =>
    simp only [hprogram] at h
    cases h

/-- **Sessions obey optimistic concurrency control**, as the calls of their transactions do. -/
def sessionDiscipline (hadmin : ∀ s a, Later s (admin a s)) :
    Discipline (sessions program admin) where
  live session := session.tx.isOpen = true
  later := Later
  good s session := Good s session.tx
  valid s session := Valid s session.tx
  allowed _ _ _ := True
  later_refl := Cpp.State.later_refl
  later_trans := Cpp.State.later_trans
  begin_good s _ := Cpp.State.good_begin s
  good_later := good_later
  exec_live {_ s session} h := by
    rcases call_tx s session with heq | ⟨o, heq⟩
    · exact heq ▸ h
    · exact (Cpp.isOpen_exec Cpp.lawful_query o s session.tx).symm.trans (heq ▸ h)
  exec_good {_ s session} _ _ hgood := by
    show Good s (session.call s).tx
    rcases call_tx s session with heq | ⟨o, heq⟩ <;> rw [heq]
    · exact hgood
    · exact Cpp.good_exec Cpp.lawful_query o s session.tx hgood
  exec_valid {_ s s' session} _ _ _ _ hvalid := by
    have hvalid' : Valid s' (session.call s).tx := hvalid
    rcases call_tx s session with heq | ⟨o, heq⟩ <;> rw [heq] at hvalid'
    · exact hvalid'
    · exact fun vk v hv => hvalid' vk v (Cpp.observation_exec Cpp.lawful_query o s session.tx hv)
  commit_live h := (commit_ok (Cpp.commit_ok_iff.mp (commit_sessions program admin h).2)).1
  commit_valid h := valid_of_commit (Cpp.commit_ok_iff.mp (commit_sessions program admin h).2)
  commit_spent h := by
    obtain ⟨-, -, _, _, hr⟩ := commit_ok (Cpp.commit_ok_iff.mp (commit_sessions program admin h).2)
    rw [(Prod.mk.inj hr).2]
    simp [abort]
  commit_later h := later_commit (Cpp.commit_ok_iff.mp (commit_sessions program admin h).2)
  abort_spent session := by simp [sessions, abort]
  admin_later := hadmin

end

/-! ## A committed session at the instant of its commit -/

section

variable {ρ : Type} {s s' : Cpp.State δ} {session : Session δ ρ} {a : ρ}
  {d : Documents RuntimeCollection Key (Json δ)}

/-- What a scan answered is still what its transaction sees. -/
theorem view_of_scan {t : Cpp.Tx δ} {c : RuntimeCollection} {records : List (VersionedRecord δ)}
    (hs : Later s s') (hgood : Good s t)
    (h : Cpp.queryRecords s t c.name (Cpp.selector .all) = .ok records)
    (hvalid : Valid s' (t.recordReads .first records)) {r : VersionedRecord δ} (hr : r ∈ records) :
    view s' t c r.key = some r.document := by
  rcases (Cpp.mem_query h r).mp hr with hanswer | ⟨⟨hmem, hc, -⟩, -⟩
  · obtain ⟨hat, -, hover, -⟩ := Cpp.query_kept hs hgood h hvalid hr hanswer
    rw [versionKeyOf, (InMemoryState.recordAt_keyed hat).1] at hover
    rw [view_of_not_overlays s' hover, docs, hat]
    rfl
  · have hput := mem_stagedRecords.mp hmem
    rw [versionKeyOf, hc] at hput
    have hlive : recordVersionKey c.name r.key ∉ t.erases := fun herase => by
      rw [t.disjoint _ herase] at hput
      cases hput
    rw [view, if_neg hlive, hput]

/-- **One call back**: if what is left after a call runs on what the session sees at a later instant,
    at which what it has observed is still valid, then so does what was left before. -/
theorem runs_call (hs : Later s s') (hopen : session.tx.isOpen = true) (hgood : Good s session.tx)
    (hvalid : Valid s' (session.call s).tx)
    (h : (session.call s).program.Runs (view s' (session.call s).tx) a d) :
    session.program.Runs (view s' session.tx) a d := by
  rw [Session.call] at h hvalid
  cases hprogram : session.program with
  | ret b =>
    simp only [hprogram] at h
    exact h
  | throw e =>
    simp only [hprogram] at h
    exact h
  | get c k next =>
    simp only [hprogram] at h hvalid
    have hsame := get_redo hs hopen hgood hvalid
    obtain ⟨-, hputs, herases⟩ := get_frame .first s session.tx c.name k
    rw [view_congr s' hputs herases] at h
    refine Program.runs_get.mpr ?_
    by_cases hover : session.tx.Overlays (recordVersionKey c.name k)
    · rw [get_of_overlays .first s hopen hover] at h
      rw [view_of_overlays s' hover]
      exact h
    · rw [get_of_not_overlays .first s hopen hover] at h
      rw [view_of_not_overlays s' hover, docs, hsame]
      exact h
  | all c next =>
    simp only [hprogram] at h hvalid
    rcases Cpp.query_cases s session.tx c.name .all with ⟨e, heq⟩ | ⟨-, records, hrecords, heq⟩ <;>
      rw [heq] at h hvalid
    · exact absurd h Program.runs_throw
    · obtain ⟨-, hputs, herases⟩ := session.tx.recordReads_frame .first records
      rw [view_congr s' hputs herases] at h
      refine Program.runs_all.mpr ⟨_, ?_, ?_, h⟩
      · intro p hp
        obtain ⟨r, hr, rfl⟩ := List.mem_map.mp hp
        exact view_of_scan hs hgood hrecords hvalid hr
      · rw [List.map_map]
        exact nodup_scan hrecords
  | put c k document next =>
    simp only [hprogram] at h hvalid
    rcases put_cases .first s session.tx c.name k document with ⟨hclosed, _⟩ | ⟨-, hread, heq⟩
    · rw [hopen] at hclosed
      cases hclosed
    · rw [heq] at h
      obtain ⟨-, hputs, herases⟩ := get_frame .first s session.tx c.name k
      rw [view_stage, view_congr s' hputs herases] at h
      exact Program.runs_put.mpr h
  | erase c k next =>
    simp only [hprogram] at h hvalid
    rcases erase_cases .first s session.tx c.name k with ⟨hclosed, _⟩ | ⟨-, hread, heq⟩
    · rw [hopen] at hclosed
      cases hclosed
    · rw [heq] at h
      obtain ⟨-, hputs, herases⟩ := get_frame .first s session.tx c.name k
      rw [view_unstage, view_congr s' hputs herases] at h
      exact Program.runs_erase.mpr h

/-- A call stages records of runtime collections only. -/
theorem stagesRuntime_call (h : StagesRuntime session.tx) : StagesRuntime (session.call s).tx := by
  have hsame : ∀ {t : Cpp.Tx δ}, t.puts = session.tx.puts → StagesRuntime t := by
    intro t hputs vk r hr
    rw [hputs] at hr
    exact h vk r hr
  rw [Session.call]
  cases session.program with
  | ret b => exact h
  | throw e => exact h
  | get c k next => exact hsame (get_frame .first s session.tx c.name k).2.1
  | all c next =>
    rcases Cpp.query_cases s session.tx c.name .all with ⟨_, heq⟩ | ⟨_, records, _, heq⟩ <;>
      simp only [heq]
    · exact h
    · exact hsame (session.tx.recordReads_frame .first records).2.1
  | put c k document next =>
    rcases put_cases .first s session.tx c.name k document with ⟨_, heq⟩ | ⟨_, hread, heq⟩ <;>
      simp only [heq]
    · exact h
    · intro vk r hr
      simp only [stage, OrderedMap.find_insert] at hr
      by_cases hvk : vk = recordVersionKey c.name k
      · rw [if_pos hvk, Option.some_inj] at hr
        exact ⟨c, hr ▸ rfl⟩
      · rw [if_neg hvk, (get_frame .first s session.tx c.name k).2.1] at hr
        exact h vk r hr
  | erase c k next =>
    rcases erase_cases .first s session.tx c.name k with ⟨_, heq⟩ | ⟨_, hread, heq⟩ <;>
      simp only [heq]
    · exact h
    · intro vk r hr
      simp only [unstage, OrderedMap.find_erase] at hr
      by_cases hvk : vk = recordVersionKey c.name k
      · rw [if_pos hvk] at hr
        cases hr
      · rw [if_neg hvk, (get_frame .first s session.tx c.name k).2.1] at hr
        exact h vk r hr

end

section

variable {ι ρ α : Type} {program : ι → TxProgram δ ρ} {admin : α → Cpp.State δ → Cpp.State δ}
  {hadmin : ∀ s a, Later s (admin a s)}

theorem runs_of_replay {s : Cpp.State δ} {request : ι} {script : List (Unit × Unit)}
    {session : Session δ ρ}
    (h : (sessionDiscipline program admin hadmin).Replay s request script session) :
    StagesRuntime session.tx ∧ ∀ a d, session.program.Runs (view s session.tx) a d →
      (program request).Runs (docs s) a d := by
  induction h with
  | nil =>
    refine ⟨fun vk r hr => ?_, fun a d h => ?_⟩
    · simp [sessions, begin] at hr
    · rw [← view_begin s]
      exact h
  | snoc _ hredo ih =>
    obtain ⟨s₀, hs, hopen, hgood, -, hvalid, rfl⟩ := hredo
    exact ⟨stagesRuntime_call ih.1, fun a d h => ih.2 a d (runs_call hs hopen hgood hvalid h)⟩

/-- **The program of a committed session runs at the instant of the commit**, on the committed
    documents, and leaves those the commit publishes. -/
theorem runs_of_commit {g : Unit} {s : Cpp.State δ} {request : ι} {script : List (Unit × Unit)}
    {session : Session δ ρ} {r : Cpp.State δ × Session δ ρ}
    (h : (sessionDiscipline program admin hadmin).Replay s request script session)
    (hcommit : (sessions program admin).commit g s session = .ok r) :
    ∃ a, session.program = .ret a ∧ (program request).Runs (docs s) a (docs r.1) := by
  obtain ⟨⟨a, ha⟩, hok⟩ := commit_sessions program admin hcommit
  obtain ⟨hstages, hruns⟩ := runs_of_replay h
  refine ⟨a, ha, hruns a _ ?_⟩
  rw [ha, docs_committed hstages hok]
  exact .ret

/-! ## Runs of a store -/

/-- The events and worlds of a store of sessions. -/
abbrev SessionEvent (ι α : Type) := Event ι Unit Unit α
abbrev SessionWorld (δ : Type) [Decimal δ] (ι ρ : Type) :=
  World ι (Cpp.State δ) (Session δ ρ) Unit Unit Unit

/-- Session `n`, from beginning to end and without interruption: the request, as many calls as its
    program makes, and the commit. -/
def soloSession (n : Nat) (request : ι) (calls : Nat) : List (SessionEvent ι α) :=
  .begin request :: List.replicate calls (.op n ()) ++ [.commit n ()]

@[simp] theorem opened_soloSession (n : Nat) (request : ι) (calls : Nat) :
    ((soloSession (α := α) n request calls).map Event.opened).sum = 1 := by
  simp [soloSession, Event.opened]

/-- The requests of committed sessions, with the responses of their programs. -/
def answers (log : List (Entry ι (Session δ ρ) Unit Unit Unit)) : List (ι × ρ) :=
  log.filterMap fun entry =>
    match entry.tx.program with
    | .ret a => some (entry.init, a)
    | _ => none

/-- The condition `P` on each request that is committed, in the state before the commit. -/
def Committing (P : List (ι × ρ) → Documents RuntimeCollection Key (Json δ) → ι → Prop)
    (w : SessionWorld δ ι ρ) (e : SessionEvent ι α) : Prop :=
  ∀ n slot, e = .commit n () → w.slots[n]? = some slot →
    P (answers w.log) (docs w.shared) slot.init

theorem runMeets_allowed (hadmin : ∀ s a, Later s (admin a s)) (w : SessionWorld δ ι ρ)
    (es : List (SessionEvent ι α)) :
    RunMeets (sessions program admin) (sessionDiscipline program admin hadmin).Allowed w es := by
  refine runMeets_of_forall _ (fun w e => ?_) w es
  cases e with
  | op n o => exact fun _ _ _ => trivial
  | _ => trivial

theorem answers_append (log log' : List (Entry ι (Session δ ρ) Unit Unit Unit)) :
    answers (log ++ log') = answers log ++ answers log' :=
  List.filterMap_append

/-- **The C++ backend is correct**: the committed sessions of any interleaving are a history. -/
theorem history_run {P : List (ι × ρ) → Documents RuntimeCollection Key (Json δ) → ι → Prop}
    (hadmin : ∀ s a, Later s (admin a s)) (hdocs : ∀ s a, docs (admin a s) = docs s)
    {s₀ : Cpp.State δ} {w : SessionWorld δ ι ρ} {es : List (SessionEvent ι α)}
    (hinv : (sessionDiscipline program admin hadmin).Inv s₀ w)
    (hes : RunMeets (sessions program admin) (Committing P) w es) :
    History program (fun log d request => P (answers w.log ++ log) d request) (docs w.shared)
      (answers (commits (sessions program admin) w es))
      (docs (run (sessions program admin) w es).shared) := by
  have hlog : ∃ log, answers (run (sessions program admin) w es).log = answers w.log ++ log ∧
      History program (fun log d request => P (answers w.log ++ log) d request) (docs w.shared) log
        (docs (run (sessions program admin) w es).shared) := by
    refine (sessionDiscipline program admin hadmin).run_commits (C := Committing P)
      (P := fun l s => ∃ log, answers l = answers w.log ++ log ∧
        History program (fun log d request => P (answers w.log ++ log) d request) (docs w.shared)
          log (docs s)) ?_ ?_ ?_ hinv ⟨[], by simp, .nil⟩
    · rintro v n g slot r hP hn hreplay hc ⟨log, hlog, hhistory⟩
      obtain ⟨a, ha, hruns⟩ := runs_of_commit hreplay hc
      refine ⟨log ++ [(slot.init, a)], ?_, .snoc hhistory ?_ hruns⟩
      · rw [answers_append, hlog, List.append_assoc]
        simp [answers, ha]
      · rw [← hlog]
        exact hP n slot rfl hn
    · rintro l s a ⟨log, hlog, hhistory⟩
      exact ⟨log, hlog, (hdocs s a).symm ▸ hhistory⟩
    · exact runMeets_and _ (runMeets_allowed hadmin w es) hes
  obtain ⟨log, hlog, hhistory⟩ := hlog
  rw [log_run, answers_append, List.append_cancel_left_eq] at hlog
  exact hlog ▸ hhistory

/-- From any state that can be reached, and with no condition on the requests. -/
theorem history_from (hadmin : ∀ s a, Later s (admin a s)) (hdocs : ∀ s a, docs (admin a s) = docs s)
    (s₀ : Cpp.State δ) (es es' : List (SessionEvent ι α)) :
    History program (fun _ _ _ => True) (docs (run (sessions program admin) (.init s₀) es).shared)
      (answers (commits (sessions program admin) (run (sessions program admin) (.init s₀) es) es'))
      (docs (run (sessions program admin) (.init s₀) (es ++ es')).shared) := by
  rw [run_append]
  exact history_run (P := fun _ _ _ => True) hadmin hdocs
    (Discipline.run_inv _ (runMeets_allowed hadmin _ es))
    (runMeets_of_forall _ (fun _ _ _ _ _ _ => trivial) _ _)

/-- What is committed after any state that can be reached, with a condition on these requests. -/
theorem history_since {P : List (ι × ρ) → Documents RuntimeCollection Key (Json δ) → ι → Prop}
    (hadmin : ∀ s a, Later s (admin a s)) (hdocs : ∀ s a, docs (admin a s) = docs s)
    (s₀ : Cpp.State δ) (es es' : List (SessionEvent ι α))
    (hes : RunMeets (sessions program admin)
      (Committing fun log =>
        P (log.drop (answers (run (sessions program admin) (.init s₀) es).log).length))
      (run (sessions program admin) (.init s₀) es) es') :
    History program P (docs (run (sessions program admin) (.init s₀) es).shared)
      (answers (commits (sessions program admin) (run (sessions program admin) (.init s₀) es) es'))
      (docs (run (sessions program admin) (.init s₀) (es ++ es')).shared) := by
  have h := history_run hadmin hdocs (Discipline.run_inv _ (runMeets_allowed hadmin _ es)) hes
  rw [run_append]
  simp only [List.drop_left] at h
  exact h

/-- **One more event** commits nothing, or carries out one more request. -/
theorem committed_last {P : List (ι × ρ) → Documents RuntimeCollection Key (Json δ) → ι → Prop}
    (hadmin : ∀ s a, Later s (admin a s)) (hdocs : ∀ s a, docs (admin a s) = docs s)
    {s₀ : Cpp.State δ} {es : List (SessionEvent ι α)} {e : SessionEvent ι α}
    (hes : RunMeets (sessions program admin) (Committing P) (.init s₀) (es ++ [e])) :
    (answers (run (sessions program admin) (.init s₀) (es ++ [e])).log =
        answers (run (sessions program admin) (.init s₀) es).log ∧
      docs (run (sessions program admin) (.init s₀) (es ++ [e])).shared =
        docs (run (sessions program admin) (.init s₀) es).shared) ∨
    ∃ request response,
      answers (run (sessions program admin) (.init s₀) (es ++ [e])).log =
        answers (run (sessions program admin) (.init s₀) es).log ++ [(request, response)] ∧
      P (answers (run (sessions program admin) (.init s₀) es).log)
        (docs (run (sessions program admin) (.init s₀) es).shared) request ∧
      (program request).Runs (docs (run (sessions program admin) (.init s₀) es).shared) response
        (docs (run (sessions program admin) (.init s₀) (es ++ [e])).shared) := by
  have hinv := Discipline.run_inv (sessionDiscipline program admin hadmin)
    (runMeets_allowed hadmin (.init s₀) es)
  have hhistory := history_run hadmin hdocs hinv ((runMeets_append _).mp hes).2
  have hlength : (answers (commits (sessions program admin)
      (run (sessions program admin) (.init s₀) es) [e])).length ≤ 1 :=
    Nat.le_trans (List.length_filterMap_le ..) (length_commits_le _ _ _)
  rw [run_append, log_run, answers_append]
  generalize answers (commits (sessions program admin) _ [e]) = committed at hhistory hlength
  generalize docs (run (sessions program admin) _ [e]).shared = d' at hhistory
  cases hhistory with
  | nil => exact Or.inl ⟨List.append_nil _, rfl⟩
  | @snoc log _ _ request response hbefore hP hruns =>
    rw [List.length_append, List.length_singleton] at hlength
    obtain rfl : log = [] := List.eq_nil_of_length_eq_zero (by omega)
    generalize hempty : ([] : List (ι × ρ)) = empty at hbefore hP
    cases hbefore with
    | nil => exact Or.inr ⟨request, response, rfl, by simpa using hP, hruns⟩
    | snoc => simp at hempty

/-- The calls of a session change neither the log nor the committed documents. -/
theorem runMeets_calls {P : List (ι × ρ) → Documents RuntimeCollection Key (Json δ) → ι → Prop}
    {w : SessionWorld δ ι ρ} {n : Nat} {slot : Slot ι (Session δ ρ) Unit Unit}
    (hslot : w.slots[n]? = some slot) (h : P (answers w.log) (docs w.shared) slot.init)
    (calls : Nat) :
    RunMeets (sessions program admin) (Committing P) w
      (List.replicate calls (.op n ()) ++ [.commit n ()]) := by
  induction calls generalizing w slot with
  | zero =>
    refine ⟨?_, trivial⟩
    rintro m slot' ⟨rfl⟩ hslot'
    obtain rfl := Option.some_inj.mp (hslot.symm.trans hslot')
    exact h
  | succ calls ih =>
    refine ⟨fun _ _ => nofun, ?_⟩
    obtain ⟨slot', hslot', hinit⟩ := slot_run (sessions program admin) hslot [.op n ()]
    have hstep : step (sessions program admin) w (.op n ()) = w.executed n slot ()
        ((sessions program admin).exec () w.shared slot.tx) := by
      simp only [step, hslot]
    refine ih hslot' ?_
    rw [hinit, hstep]
    exact h

/-- A session that is not interrupted meets the condition when its request does in the state before. -/
theorem runMeets_soloSession
    {P : List (ι × ρ) → Documents RuntimeCollection Key (Json δ) → ι → Prop}
    {w : SessionWorld δ ι ρ} {n : Nat} {request : ι} (hn : w.slots.length = n)
    (h : P (answers w.log) (docs w.shared) request) (calls : Nat) :
    RunMeets (sessions program admin) (Committing P) w (soloSession n request calls) := by
  subst hn
  refine ⟨fun _ _ => nofun, ?_⟩
  have hslot : (step (sessions program admin) w (.begin request)).slots[w.slots.length]? =
      some ⟨request, (sessions program admin).begin request, []⟩ := List.getElem?_concat_length
  exact runMeets_calls hslot h calls

end

end StateSpec.Runtime
