/-
  THE SAME TRANSACTION IN C++ AND IN RUST — corresponding programs, each alone on the in-memory
  backend of its language.

  `Runtime.transact` is what a C++ store does for one request: begin, the program, commit; it is what
  a session comes to that nobody interferes with (`drive_call`).  `Rust.transact` is the same on the
  Rust backend.

  The two backends differ in what they keep of a read (C++ the first version, Rust the latest) and in
  how they answer a query.  Neither shows here: alone on its state, a transaction reads the same
  version again (`SameTx.read`), and a scan of either backend answers the committed records in the
  order of their keys (`query_fresh`).  So the calls of the two backends make a `Coupling`, for
  any relation of documents, and a commit of both or of neither follows (`sameOutcome_commit`).
-/
import StateSpec.Lib.Lockstep
import StateSpec.Runtime.Session
import StateSpec.Rust.Codec

set_option linter.unusedSectionVars false

namespace StateSpec

open Memory Memory.InMemoryTransaction Program StateSpec.Runtime

variable {δ : Type} [Decimal δ]

/-! ## The calls of the two backends -/

/-- What a call has answered, and the transaction after it. -/
def answered {ε α : Type} (raise : Fault → ε) (r : Except Fault α × InMemoryTransaction δ) :
    Except ε (α × InMemoryTransaction δ) :=
  (r.1.mapError raise).map fun a => (a, r.2)

/-- What a scan has answered: keys and documents. -/
def scanned {ε : Type} (r : Except ε (List (VersionedRecord δ)) × InMemoryTransaction δ) :
    Except ε (List (Key × Json δ) × InMemoryTransaction δ) :=
  r.1.map fun records => (records.map fun record => (record.key, record.document), r.2)

namespace Runtime

/-- The calls of a C++ transaction. -/
def machine (s : Cpp.State δ) : Machine RuntimeCollection Key (Json δ) Error (Cpp.Tx δ) where
  get c k t := (answered Cpp.thrown (get .first s t c.name k)).map fun r =>
    (r.1.map VersionedRecord.document, r.2)
  all c t := scanned (Cpp.query s t c.name .all)
  put c k document t := answered Cpp.thrown (put .first s t c.name k document)
  erase c k t := answered Cpp.thrown (erase .first s t c.name k)

/-- One transaction of a C++ store. -/
def transact {ρ : Type} (s : Cpp.State δ) (p : TxProgram δ ρ) : Except Error (ρ × Cpp.State δ) :=
  (machine s).transact begin (fun t => (Cpp.commit s t).map Prod.fst) p

end Runtime

namespace Rust

/-- What the stores return for a fault. -/
def raised (fault : Fault) : StoreError := .backendError (raise fault)

/-- The calls of a Rust transaction. -/
def machine (s : Cpp.State δ) : Machine RuntimeCollection Key (Json δ) StoreError (Cpp.Tx δ) where
  get c k t := (answered raised (get .latest s t c.name k)).map fun r =>
    (r.1.map VersionedRecord.document, r.2)
  all c t := (scanned (Rust.binding.query s t c.name .all)).mapError .backendError
  put c k document t := answered raised (put .latest s t c.name k document)
  erase c k t := answered raised (erase .latest s t c.name k)

/-- One transaction of a Rust store. -/
def transact {ρ : Type} (s : Cpp.State δ) (p : TxProgram δ ρ) :
    Except StoreError (ρ × Cpp.State δ) :=
  (machine s).transact begin
    (fun t => ((Rust.binding.commit () s t).mapError StoreError.backendError).map Prod.fst) p

/-! ## Corresponding states -/

section

variable (same : RuntimeCollection → Json δ → Json δ → Prop)

/-- The same record of a runtime collection, with documents that correspond. -/
structure SameRecord (r r' : VersionedRecord δ) : Prop where
  collection : r'.collection = r.collection
  key : r'.key = r.key
  version : r'.version = r.version
  document : ∃ c : RuntimeCollection, r.collection = c.name ∧ same c r.document r'.document

/-- The committed states of the two backends correspond. -/
structure SameStore (s s' : Cpp.State δ) : Prop where
  counters : ∀ vk, s'.counter vk = s.counter vk
  records : ∀ (c : RuntimeCollection) k,
    Option.Rel (SameRecord same) (s.recordAt c.name k) (s'.recordAt c.name k)
  plain : Plain s.indexes
  plain' : Plain s'.indexes

/-- Two transactions correspond: the C++ transaction on the state `s`, and the Rust transaction on a
    state that corresponds to `s`. -/
structure SameTx (s : Cpp.State δ) (t t' : Cpp.Tx δ) : Prop where
  isOpen : t.isOpen = true
  isOpen' : t'.isOpen = true
  observed : ∀ vk, t'.observation vk = t.observation vk
  /-- What has been observed of a record is the version it has. -/
  read : ∀ (c : RuntimeCollection) k v, t.observation (recordVersionKey c.name k) = some v →
    v = s.recordVersion c.name k
  puts : ∀ vk : Bytes, Option.Rel (SameRecord same) t.puts[vk]? t'.puts[vk]?
  erases : ∀ vk, vk ∈ t'.erases ↔ vk ∈ t.erases

end

variable {same stored : RuntimeCollection → Json δ → Json δ → Prop} {s s' : Cpp.State δ}
  {t t' : Cpp.Tx δ}

theorem SameRecord.of_name {r r' : VersionedRecord δ} {c : RuntimeCollection}
    (h : SameRecord same r r') (hc : r.collection = c.name) : same c r.document r'.document := by
  obtain ⟨c', hc', hsame⟩ := h.document
  rwa [RuntimeCollection.name_injective (hc.symm.trans hc')]

theorem SameStore.empty : SameStore same (InMemoryState.empty : Cpp.State δ) InMemoryState.empty where
  counters _ := rfl
  records c k := by
    have hnone : (InMemoryState.empty : Cpp.State δ).recordAt c.name k = none := rfl
    rw [hnone]
    exact .none
  plain _ _ := rfl
  plain' _ _ := rfl

theorem SameStore.recordVersion (h : SameStore same s s') (c : RuntimeCollection) (k : Key) :
    s'.recordVersion c.name k = s.recordVersion c.name k := by
  rw [InMemoryState.recordVersion, InMemoryState.recordVersion]
  obtain ⟨hr, hr'⟩ | ⟨r, r', hr, hr', hsame⟩ := rel_cases (h.records c k)
  · rw [hr, hr']
  · rw [hr, hr']
    exact hsame.version

namespace SameTx

theorem begin : SameTx same s begin begin where
  isOpen := rfl
  isOpen' := rfl
  observed _ := rfl
  read _ _ _ h := by simp [observation, InMemoryTransaction.begin] at h
  puts vk := by
    have hnone : (InMemoryTransaction.begin : Cpp.Tx δ).puts[vk]? = none :=
      Std.ExtTreeMap.getElem?_empty
    rw [hnone]
    exact .none
  erases _ := Iff.rfl

theorem mem_puts (h : SameTx same s t t') (vk : Bytes) : vk ∈ t'.puts ↔ vk ∈ t.puts := by
  rw [Std.ExtTreeMap.mem_iff_isSome_getElem?, Std.ExtTreeMap.mem_iff_isSome_getElem?]
  obtain ⟨hr, hr'⟩ | ⟨r, r', hr, hr', -⟩ := rel_cases (h.puts vk)
  · rw [hr, hr']
  · rw [hr, hr']
    exact Iff.rfl

theorem overlays (h : SameTx same s t t') (vk : Bytes) : t'.Overlays vk ↔ t.Overlays vk :=
  or_congr (h.erases vk) (h.mem_puts vk)

/-- **A read**: on an unchanged state it does not matter whether the first or the latest counts. -/
theorem recordRead (h : SameTx same s t t') (c : RuntimeCollection) (k : Key) :
    SameTx same s
      (t.recordRead .first (recordVersionKey c.name k) (s.recordVersion c.name k))
      (t'.recordRead .latest (recordVersionKey c.name k) (s.recordVersion c.name k)) where
  isOpen := h.isOpen
  isOpen' := h.isOpen'
  observed vk := by
    rw [observation_recordRead_first, observation_recordRead_latest]
    by_cases hvk : vk = recordVersionKey c.name k
    · subst hvk
      rw [if_pos rfl, if_pos rfl]
      cases hv : t.observation (recordVersionKey c.name k) with
      | none => rfl
      | some v => rw [h.read c k v hv, Option.some_or]
    · rw [if_neg hvk, if_neg hvk, h.observed, Option.or_none]
  read c' k' v hv := by
    rw [observation_recordRead_first] at hv
    cases hold : t.observation (recordVersionKey c'.name k') with
    | some v' =>
      rw [hold, Option.some_or] at hv
      exact h.read c' k' v (hold.trans hv)
    | none =>
      rw [hold, Option.none_or] at hv
      split at hv
      · rename_i heq
        obtain ⟨rfl, rfl⟩ := RuntimeCollection.recordVersionKey_name.mp heq
        exact (Option.some_inj.mp hv).symm
      · cases hv
  puts := h.puts
  erases := h.erases

/-- The read that every call begins with. -/
theorem get (h : SameTx same s t t') (hs : SameStore stored s s') (c : RuntimeCollection) (k : Key) :
    SameTx same s (get .first s t c.name k).2 (get .latest s' t' c.name k).2 := by
  by_cases hover : t.Overlays (recordVersionKey c.name k)
  · rw [get_of_overlays .first s h.isOpen hover,
      get_of_overlays .latest s' h.isOpen' ((h.overlays _).mpr hover)]
    exact h
  · rw [get_of_not_overlays .first s h.isOpen hover,
      get_of_not_overlays .latest s' h.isOpen' (mt (h.overlays _).mp hover), hs.recordVersion]
    exact h.recordRead c k

/-- Both stage a document at the same place. -/
theorem stage (h : SameTx same s t t') {c : RuntimeCollection} {k : Key} {document document' : Json δ}
    (hsame : same c document document') (hread : recordVersionKey c.name k ∈ t.readVersions)
    (hread' : recordVersionKey c.name k ∈ t'.readVersions) :
    SameTx same s (t.stage c.name k document hread) (t'.stage c.name k document' hread') where
  isOpen := h.isOpen
  isOpen' := h.isOpen'
  observed := h.observed
  read := h.read
  puts vk := by
    simp only [InMemoryTransaction.stage, OrderedMap.find_insert]
    by_cases hvk : vk = recordVersionKey c.name k
    · rw [if_pos hvk, if_pos hvk]
      exact .some ⟨rfl, rfl, rfl, c, rfl, hsame⟩
    · rw [if_neg hvk, if_neg hvk]
      exact h.puts vk
  erases vk := by
    simp only [InMemoryTransaction.stage, Std.ExtTreeSet.mem_erase, h.erases]

/-- Both erase the same place. -/
theorem unstage (h : SameTx same s t t') {vk : Bytes} (hread : vk ∈ t.readVersions)
    (hread' : vk ∈ t'.readVersions) : SameTx same s (t.unstage vk hread) (t'.unstage vk hread') where
  isOpen := h.isOpen
  isOpen' := h.isOpen'
  observed := h.observed
  read := h.read
  puts vk' := by
    simp only [InMemoryTransaction.unstage, OrderedMap.find_erase]
    by_cases hvk : vk' = vk
    · rw [if_pos hvk, if_pos hvk]
      exact .none
    · rw [if_neg hvk, if_neg hvk]
      exact h.puts vk'
  erases vk' := by
    simp only [InMemoryTransaction.unstage, Std.ExtTreeSet.mem_insert, h.erases]

end SameTx

/-! ## Scans -/

/-- The committed records of a collection, in the order of their keys. -/
def committedRecords (s : Cpp.State δ) (c : CollectionName) : List (VersionedRecord δ) :=
  (s.records[c]?.getD ∅).toList.map Prod.snd

theorem recordAt_eq (s : Cpp.State δ) (c : CollectionName) (k : Key) :
    s.recordAt c k = (s.records[c]?.getD ∅)[k]? := by
  rw [InMemoryState.recordAt, OrderedMap.find₂]
  cases s.records[c]? with
  | none => exact Std.ExtTreeMap.getElem?_empty.symm
  | some records => rfl

theorem mem_committedRecords {c : CollectionName} {r : VersionedRecord δ}
    (h : r ∈ committedRecords s c) : s.recordAt c r.key = some r := by
  obtain ⟨p, hp, rfl⟩ := List.mem_map.mp h
  have hat := Std.ExtTreeMap.mem_toList_iff_getElem?_eq_some.mp (show (p.1, p.2) ∈ _ from hp)
  rw [← recordAt_eq] at hat
  rw [(InMemoryState.recordAt_keyed hat).2, hat]

theorem mem_of_recordAt {c : CollectionName} {k : Key} {r : VersionedRecord δ}
    (h : s.recordAt c k = some r) : r ∈ committedRecords s c := by
  rw [recordAt_eq] at h
  exact List.mem_map.mpr ⟨(k, r), Std.ExtTreeMap.mem_toList_iff_getElem?_eq_some.mpr h, rfl⟩

/-- **Corresponding states list corresponding records**, in the same order. -/
theorem SameStore.forall₂_committedRecords (h : SameStore same s s') (c : RuntimeCollection) :
    List.Forall₂ (SameRecord same) (committedRecords s c.name) (committedRecords s' c.name) := by
  rw [committedRecords, committedRecords, List.forall₂_map_left_iff, List.forall₂_map_right_iff]
  refine (OrderedMap.forall₂_toList fun k => ?_).imp fun _ _ hp => hp.2
  rw [← recordAt_eq, ← recordAt_eq]
  exact h.records c k

/-- Nothing has been written. -/
def Unwritten (t : Cpp.Tx δ) : Prop := ∀ vk, ¬ t.Overlays vk

theorem Unwritten.stagedRecords (h : Unwritten t) : t.stagedRecords = [] := by
  refine List.eq_nil_iff_forall_not_mem.mpr fun r hr => h (versionKeyOf r) (Or.inr ?_)
  rw [Std.ExtTreeMap.mem_iff_isSome_getElem?, mem_stagedRecords.mp hr]
  rfl

theorem Unwritten.erases (h : Unwritten t) : t.erases.toList = [] :=
  List.eq_nil_iff_forall_not_mem.mpr fun vk hvk => h vk (Or.inl (Std.ExtTreeSet.mem_toList.mp hvk))

/-- A scan of the C++ backend. -/
theorem query_fresh (s : Cpp.State δ) (hopen : t.isOpen = true) (h : Unwritten t)
    (c : CollectionName) :
    Cpp.query s t c .all =
      (.ok (committedRecords s c), t.recordReads .first (committedRecords s c)) := by
  have hcommitted : Cpp.committedRecords s t c (Cpp.selector .all) = .ok (committedRecords s c) := by
    have hscan : ¬ (Cpp.selector (δ := δ) .all).isIndex = true := Bool.false_ne_true
    rw [Cpp.committedRecords, if_neg hscan, committedRecords]
    cases s.records[c]? with
    | none => rfl
    | some records =>
      refine congrArg Except.ok (List.filter_eq_self.mpr fun r _ => ?_)
      exact decide_eq_true fun hmem => h _ (Or.inr hmem)
  have hstaged : Cpp.stagedPart s t c (Cpp.selector .all) = .ok [] := by
    rw [Cpp.stagedPart, h.stagedRecords]
    rfl
  have hkept : ((committedRecords s c ++ []).filter fun r => !Cpp.superseded t r) =
      committedRecords s c := by
    rw [List.append_nil]
    refine List.filter_eq_self.mpr fun r _ => ?_
    have hput : versionKeyOf r ∉ t.puts := fun hmem => h _ (Or.inr hmem)
    have herase : versionKeyOf r ∉ t.erases := fun hmem => h _ (Or.inl hmem)
    simp [Cpp.superseded, hput, herase]
  have hrecords : Cpp.queryRecords s t c (Cpp.selector .all) = .ok (committedRecords s c) := by
    simp only [Cpp.queryRecords, hcommitted, hstaged, hkept]
    exact congrArg Except.ok (List.filter_eq_self.mpr fun _ _ => rfl)
  rw [Cpp.query, if_neg (by simp [hopen]), hrecords]

/-- A scan of the Rust backend, which collects the records in a map first. -/
theorem query_fresh_rust (s : Cpp.State δ) (hopen : t.isOpen = true) (h : Unwritten t)
    (c : CollectionName) :
    Rust.binding.query s t c .all =
      (.ok (committedRecords s c), t.recordReads .latest (committedRecords s c)) := by
  have hcommitted : Rust.binding.committedRecords s t c (Rust.binding.selector .all) =
      committedRecords s c := by
    have hscan : ¬ (Rust.binding.selector (.all : SealedQuery δ)).isIndex = true :=
      Bool.false_ne_true
    rw [Binding.committedRecords, if_neg hscan, committedRecords]
    cases s.records[c]? with
    | none => rfl
    | some records => exact List.filter_eq_self.mpr fun _ _ => rfl
  have hstaged : Binding.stagedPart s t c (Rust.binding.selector .all) = .ok [] := by
    rw [Binding.stagedPart, h.stagedRecords]
    rfl
  have hmap : OrderedMap.insertAll VersionedRecord.key (committedRecords s c) =
      s.records[c]?.getD ∅ := by
    refine OrderedMap.insertAll_values fun k r hr => ?_
    rw [← recordAt_eq] at hr
    exact (InMemoryState.recordAt_keyed hr).2
  have hrecords : Rust.binding.queryRecords s t c (Rust.binding.selector .all) =
      .ok (committedRecords s c) := by
    simp only [Binding.queryRecords, hstaged, hcommitted, List.append_nil, hmap, h.erases,
      List.filterMap_nil, OrderedMap.eraseAll, List.foldl_nil]
    exact congrArg Except.ok (List.filter_eq_self.mpr fun _ _ => rfl)
  rw [Binding.query, if_neg (by simp [hopen]), hrecords]

/-- The reads of a scan. -/
theorem SameTx.recordReads (h : SameTx same s t t') {c : RuntimeCollection}
    {records records' : List (VersionedRecord δ)}
    (hsame : List.Forall₂ (SameRecord stored) records records')
    (hat : ∀ r ∈ records, s.recordAt c.name r.key = some r) :
    SameTx same s (t.recordReads .first records) (t'.recordReads .latest records') := by
  induction hsame generalizing t t' with
  | nil => exact h
  | @cons r r' records records' hr _ ih =>
    refine ih ?_ fun r hr => hat r (List.mem_cons_of_mem _ hr)
    have hrecord := hat r List.mem_cons_self
    have hkey : versionKeyOf r = recordVersionKey c.name r.key := by
      rw [versionKeyOf, (InMemoryState.recordAt_keyed hrecord).1]
    have hkey' : versionKeyOf r' = recordVersionKey c.name r.key := by
      rw [← hkey, versionKeyOf, versionKeyOf, hr.collection, hr.key]
    show SameTx same s (t.recordRead .first (versionKeyOf r) r.version)
      (t'.recordRead .latest (versionKeyOf r') r'.version)
    rw [hkey, hkey', hr.version, ← InMemoryState.recordVersion_of_some hrecord]
    exact h.recordRead c r.key

/-! ## The coupling -/

theorem rel_document {c : RuntimeCollection} {k : Key} (h : SameStore stored s s') :
    Option.Rel (stored c) ((s.recordAt c.name k).map VersionedRecord.document)
      ((s'.recordAt c.name k).map VersionedRecord.document) := by
  obtain ⟨hr, hr'⟩ | ⟨r, r', hr, hr', hsame⟩ := rel_cases (h.records c k)
  · rw [hr, hr']
    exact .none
  · rw [hr, hr']
    exact .some (hsame.of_name (InMemoryState.recordAt_keyed hr).1)

/-- **Corresponding calls answer alike.** -/
def coupling (same : RuntimeCollection → Json δ → Json δ → Prop) (hs : SameStore stored s s') :
    Coupling (Runtime.machine s) (machine s') where
  sameError error error' := error.conflictKind = error'.conflictKind
  same := same
  stored := stored
  fresh t t' := SameTx same s t t' ∧ Unwritten t
  going t t' := SameTx same s t t'
  going_of_fresh h := h.1
  get c k t t' h := by
    have hread := get_of_not_overlays .first s h.1.isOpen (h.2 (recordVersionKey c.name k))
    have hread' := get_of_not_overlays .latest s' h.1.isOpen'
      (mt (h.1.overlays _).mp (h.2 (recordVersionKey c.name k)))
    simp only [Runtime.machine, machine, hread, hread', hs.recordVersion]
    exact ⟨rel_document hs, h.1.recordRead c k, h.2⟩
  all c t t' h := by
    have hunwritten : Unwritten t' := fun vk => mt (h.1.overlays vk).mp (h.2 vk)
    have hrecords := hs.forall₂_committedRecords c
    simp only [Runtime.machine, machine, query_fresh s h.1.isOpen h.2,
      query_fresh_rust s' h.1.isOpen' hunwritten]
    refine ⟨?_, h.1.recordReads hrecords fun r hr => mem_committedRecords hr, ?_⟩
    · rw [List.forall₂_map_left_iff, List.forall₂_map_right_iff]
      refine (List.forall₂_and_left _ _ |>.mpr ⟨fun r hr => mem_committedRecords hr, hrecords⟩).imp ?_
      rintro r r' ⟨hr, hsame⟩
      exact ⟨hsame.key.symm, hsame.of_name (InMemoryState.recordAt_keyed hr).1⟩
    · obtain ⟨-, hputs, herases⟩ := recordReads_frame .first t (committedRecords s c.name)
      intro vk
      rw [Overlays, hputs, herases]
      exact h.2 vk
  put c k document document' t t' hsame h := by
    obtain ⟨hopen, -⟩ | ⟨-, hread, hput⟩ := put_cases .first s t c.name k document
    · exact absurd (h.isOpen.symm.trans hopen) (by decide)
    obtain ⟨hopen, -⟩ | ⟨-, hread', hput'⟩ := put_cases .latest s' t' c.name k document'
    · exact absurd (h.isOpen'.symm.trans hopen) (by decide)
    simp only [Runtime.machine, machine, hput, hput']
    exact ⟨trivial, (h.get hs c k).stage hsame hread hread'⟩
  erase c k t t' h := by
    obtain ⟨hopen, -⟩ | ⟨-, hread, herase⟩ := erase_cases .first s t c.name k
    · exact absurd (h.isOpen.symm.trans hopen) (by decide)
    obtain ⟨hopen, -⟩ | ⟨-, hread', herase'⟩ := erase_cases .latest s' t' c.name k
    · exact absurd (h.isOpen'.symm.trans hopen) (by decide)
    simp only [Runtime.machine, machine, herase, herase']
    exact ⟨trivial, (h.get hs c k).unstage hread hread'⟩

/-! ## Commits -/

theorem SameTx.stagesRuntime (h : SameTx same s t t') : StagesRuntime t ∧ StagesRuntime t' := by
  refine ⟨fun vk r hr => ?_, fun vk r' hr' => ?_⟩
  · obtain ⟨hnone, -⟩ | ⟨_, r', hsome, -, hsame⟩ := rel_cases (h.puts vk)
    · cases hr.symm.trans hnone
    · cases hr.symm.trans hsome
      obtain ⟨c, hc, -⟩ := hsame.document
      exact ⟨c, hc⟩
  · obtain ⟨-, hnone⟩ | ⟨r, _, -, hsome, hsame⟩ := rel_cases (h.puts vk)
    · cases hr'.symm.trans hnone
    · cases hr'.symm.trans hsome
      obtain ⟨c, hc, -⟩ := hsame.document
      exact ⟨c, hsame.collection.trans hc⟩

theorem SameTx.current (h : SameTx same s t t') (hs : SameStore stored s s') :
    t'.current s' = t.current s := by
  rw [Bool.eq_iff_iff, current_iff, current_iff]
  simp only [h.observed, hs.counters]

/-- Both commits publish corresponding states. -/
theorem SameTx.committed (h : SameTx same s t t') (hs : SameStore stored s s')
    (hsame : ∀ c document document', stored c document document' → same c document document')
    {order order' : List Nat} {indexes indexes' : Indexes InMemoryIndexKey}
    (hst : stageIndexes order s t = .ok indexes) (hst' : stageIndexes order' s' t' = .ok indexes') :
    SameStore same (t.committed s hst) (t'.committed s' hst') := by
  have hcounters (vk : Bytes) : (t'.committed s' hst').counter vk = (t.committed s hst).counter vk := by
    simp only [counter_committed, hs.counters, h.overlays]
  obtain ⟨hstages, hstages'⟩ := h.stagesRuntime
  refine ⟨hcounters, fun c k => ?_, fun c name => ?_, fun c name => ?_⟩
  · rw [recordAt_committed_name hstages hst, recordAt_committed_name hstages' hst', hcounters]
    by_cases herase : recordVersionKey c.name k ∈ t.erases
    · rw [if_pos herase, if_pos ((h.erases _).mpr herase)]
      exact .none
    · rw [if_neg herase, if_neg (mt (h.erases _).mp herase)]
      obtain ⟨hput, hput'⟩ | ⟨put, put', hput, hput', hwritten⟩ :=
        rel_cases (h.puts (recordVersionKey c.name k))
      · -- nothing has been put there: the records that were stored stay
        rw [hput, hput']
        obtain ⟨hr, hr'⟩ | ⟨r, r', hr, hr', hrecord⟩ := rel_cases (hs.records c k)
        · rw [hr, hr']
          exact .none
        · rw [hr, hr']
          obtain ⟨c', hc', hdocument⟩ := hrecord.document
          exact .some ⟨hrecord.collection, hrecord.key, hrecord.version, c', hc',
            hsame _ _ _ hdocument⟩
      · rw [hput, hput']
        exact .some ⟨hwritten.collection, hwritten.key, rfl, hwritten.document⟩
  · exact ((staging hst).descriptors c name).trans (hs.plain c name)
  · exact ((staging hst').descriptors c name).trans (hs.plain' c name)

/-- **Both commit, or both are refused.** -/
theorem sameOutcome_commit (h : SameTx same s t t') (hs : SameStore stored s s')
    (hsame : ∀ c document document', stored c document document' → same c document document') :
    SameOutcome (fun (error : Error) (error' : StoreError) => error.conflictKind = error'.conflictKind)
      (fun _ _ => True) (SameStore same)
      (((Cpp.commit s t).map Prod.fst).map fun u => ((), u))
      ((((binding.commit () s' t').mapError StoreError.backendError).map Prod.fst).map
        fun u => ((), u)) := by
  by_cases hcurrent : t.current s = true
  · obtain ⟨indexes, hst⟩ := stageIndexes_total hs.plain [] t
    obtain ⟨indexes', hst'⟩ := stageIndexes_total hs.plain' [] t'
    have hcommit : Cpp.commit s t = .ok _ :=
      Cpp.commit_ok_iff.mpr (commit_of_staged h.isOpen hcurrent hst)
    have hcommit' : binding.commit () s' t' = .ok _ :=
      binding.commit_ok_iff.mpr (commit_of_staged h.isOpen' ((h.current hs).trans hcurrent) hst')
    rw [hcommit, hcommit']
    exact ⟨trivial, h.committed hs hsame hst hst'⟩
  · have hstale : t.current s = false := Bool.not_eq_true _ ▸ hcurrent
    have hrefused : InMemoryTransaction.commit [] s t = .error .versionConflict :=
      (commit_conflict_iff h.isOpen).mpr hstale
    have hrefused' : InMemoryTransaction.commit [] s' t' = .error .versionConflict :=
      (commit_conflict_iff h.isOpen').mpr ((h.current hs).trans hstale)
    have hcommit : Cpp.commit s t = .error (Cpp.thrown .versionConflict) := by
      rw [Cpp.commit, hrefused]
      rfl
    have hcommit' : binding.commit () s' t' = .error (raise .versionConflict) := by
      show (InMemoryTransaction.commit [] s' t').mapError raise = _
      rw [hrefused']
      rfl
    rw [hcommit, hcommit']
    rfl

/-- **One transaction**: programs in lockstep come to the same on corresponding states. -/
theorem sameOutcome_transact {ρ ρ' : Type} {R : ρ → ρ' → Prop} {p : Runtime.TxProgram δ ρ}
    {q : TxProgram δ ρ'} (hs : SameStore stored s s')
    (hsame : ∀ c document document', stored c document document' → same c document document')
    (h : (coupling same hs).LockstepFresh R p q) :
    SameOutcome (fun (error : Error) (error' : StoreError) => error.conflictKind = error'.conflictKind)
      R (SameStore same) (Runtime.transact s p) (transact s' q) :=
  Coupling.sameOutcome_transact (L := coupling same hs)
    ⟨SameTx.begin, fun vk hover => by simp [Overlays, InMemoryTransaction.begin] at hover⟩
    (fun _ _ ht => sameOutcome_commit ht hs hsame) h

end Rust

end StateSpec
