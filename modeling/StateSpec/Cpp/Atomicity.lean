/-
  FAILURES ARE ATOMIC — `commit`, `ensure_collection` and `ensure_collections` of the C++ in-memory backend,
  statement by statement.

  The calls assign to the shared state and to the transaction, and an exception undoes no assignment.  Here
  the two are a memory of which nothing is promised (`CallMemory`), also of its records, indexes and versions.
  * `failures_atomic`     — a call that throws leaves the memory as it was, and a transaction that was open
                            is open;
  * `exec_commitCall`     — on a state and a transaction the statements of `commit` do what `commit` says;
  * `exec_ensureCollectionsCall` — so do those of `ensure_collections`.
-/
import StateSpec.Lib.Statements
import StateSpec.Cpp.Indexes

set_option linter.unusedSectionVars false

namespace StateSpec.Cpp

open StateSpec.Memory StateSpec.Memory.InMemoryTransaction

variable {δ : Type} [Decimal δ]

/-- The members of `InMemoryState`. -/
structure StateMemory (δ : Type) where
  collections : OrderedMap CollectionName CollectionDescriptor
  records : Records δ
  indexes : Indexes InMemoryIndexKey
  versions : Versions

/-- The members of `InMemoryTransaction`. -/
structure TxMemory (δ : Type) where
  isOpen : Bool
  readVersions : Versions
  puts : OrderedMap Bytes (VersionedRecord δ)
  erases : OrderedSet Bytes

/-- What a call assigns to. -/
structure CallMemory (δ : Type) where
  state : StateMemory δ
  tx : TxMemory δ

/-- The statements of a call. -/
abbrev Call (δ α : Type) := Statements Error (CallMemory δ) α

/-! ## `commit` -/

def requireOpen : Call δ PUnit := do
  let m ← get
  if m.tx.isOpen = false then throw (thrown .closed)

/-- The loop over the versions that have been read. -/
def checkReadVersions : Call δ PUnit := do
  let m ← get
  Statements.ofExcept (m.tx.readVersions.toList.forM fun (versionKey, expectedVersion) =>
    if versionOrZero m.state.versions versionKey = expectedVersion then .ok ⟨⟩
    else .error (thrown .versionConflict))

/-- `staged_indexes` behind the loops over the erased and the staged records: a copy of the indexes. -/
def stagedIndexesCall : Call δ (Indexes InMemoryIndexKey) := do
  let m ← get
  Statements.ofExcept do
    let indexes ← m.tx.erases.toList.foldlM
      (fun indexes versionKey => (stageErase m.state.records indexes versionKey).mapError thrown) m.state.indexes
    m.tx.puts.toList.foldlM
      (fun indexes (_, record) => (stagePut m.state.records indexes record).mapError thrown) indexes

/-- `erase_record(*state_, version_key)`. -/
def CallMemory.eraseRecord (versionKey : Bytes) (m : CallMemory δ) : CallMemory δ :=
  { m with state := { m.state with records := Memory.eraseRecord m.state.records versionKey } }

/-- `++state_->versions[version_key]`. -/
def CallMemory.bump (versionKey : Bytes) (m : CallMemory δ) : CallMemory δ :=
  { m with state := { m.state with versions := Memory.bump m.state.versions versionKey } }

/-- `record.version = state_->versions[version_key]`, of the staged record itself. -/
def CallMemory.number (versionKey : Bytes) (record : VersionedRecord δ) (m : CallMemory δ) : CallMemory δ :=
  { m with tx := { m.tx with
      puts := m.tx.puts.insert versionKey
        { record with version := versionOrZero m.state.versions versionKey } } }

/-- `state_->records[record.collection][record.key] = record`, of the record as it is now. -/
def CallMemory.store (versionKey : Bytes) (m : CallMemory δ) : CallMemory δ :=
  m.tx.puts[versionKey]?.elim m fun record =>
    { m with state := { m.state with
        records := OrderedMap.store₂ m.state.records record.collection record.key record } }

/-- `state_->indexes = std::move(staged_indexes)`. -/
def CallMemory.setIndexes (indexes : Indexes InMemoryIndexKey) (m : CallMemory δ) : CallMemory δ :=
  { m with state := { m.state with indexes := indexes } }

/-- `abort()`. -/
def CallMemory.abort (m : CallMemory δ) : CallMemory δ := { m with tx := ⟨false, ∅, ∅, ∅⟩ }

/-- The loop that erases. -/
def eraseRecords : Call δ PUnit := do
  let m ← get
  m.tx.erases.toList.forM fun versionKey => do
    modify (CallMemory.eraseRecord versionKey)
    modify (CallMemory.bump versionKey)

/-- The loop that stores. -/
def storeRecords : Call δ PUnit := do
  let m ← get
  m.tx.puts.toList.forM fun (versionKey, record) => do
    modify (CallMemory.bump versionKey)
    modify (CallMemory.number versionKey record)
    modify (CallMemory.store versionKey)

/-- `InMemoryTransaction::commit`. -/
def commitCall : Call δ PUnit := do
  requireOpen
  checkReadVersions
  let stagedIndexes ← stagedIndexesCall
  eraseRecords
  storeRecords
  modify (CallMemory.setIndexes stagedIndexes)
  modify CallMemory.abort

/-! ## `ensure_collection` and `ensure_collections` -/

/-- `state_->collections.insert_or_assign(descriptor.name, descriptor)`. -/
def CallMemory.setCollection (descriptor : CollectionDescriptor) (m : CallMemory δ) : CallMemory δ :=
  { m with state := { m.state with collections := m.state.collections.insert descriptor.name descriptor } }

def CallMemory.setCollections (collections : OrderedMap CollectionName CollectionDescriptor)
    (m : CallMemory δ) : CallMemory δ :=
  { m with state := { m.state with collections := collections } }

/-- `InMemoryBackend::ensure_collection`. -/
def ensureCollectionCall (descriptor : CollectionDescriptor) : Call δ PUnit := do
  let m ← get
  match m.state.collections[descriptor.name]? with
  | some existing =>
    Statements.ofExcept (validateCollectionDescriptorUpgrade existing descriptor)
    modify (CallMemory.setCollection descriptor)
  | none =>
    modify (CallMemory.setCollection descriptor)
    modify fun m => m.setIndexes (m.state.indexes.insert descriptor.name (emptyIndexStates descriptor))

/-- `staged`, a copy of the collections behind the first loop. -/
def stagedCollectionsCall (descriptors : List CollectionDescriptor) :
    Call δ (OrderedMap CollectionName CollectionDescriptor) := do
  let m ← get
  Statements.ofExcept (descriptors.foldlM stageDescriptor m.state.collections)

/-- `staged_indexes`, a copy of the indexes behind the second loop. -/
def newIndexesCall (descriptors : List CollectionDescriptor) : Call δ (Indexes InMemoryIndexKey) := do
  let m ← get
  pure (descriptors.foldl (fun indexes descriptor =>
    if descriptor.name ∈ m.state.collections then indexes
    else indexes.insert descriptor.name (emptyIndexStates descriptor)) m.state.indexes)

/-- `InMemoryBackend::ensure_collections`. -/
def ensureCollectionsCall (descriptors : List CollectionDescriptor) : Call δ PUnit := do
  let staged ← stagedCollectionsCall descriptors
  let stagedIndexes ← newIndexesCall descriptors
  modify (CallMemory.setCollections staged)
  modify (CallMemory.setIndexes stagedIndexes)

/-! ## Failures -/

/-- The calls that change the shared state. -/
inductive StateCall where
  | commit
  | ensureCollection (descriptor : CollectionDescriptor)
  | ensureCollections (descriptors : List CollectionDescriptor)

def StateCall.statements : StateCall → Call δ PUnit
  | .commit => commitCall
  | .ensureCollection descriptor => ensureCollectionCall descriptor
  | .ensureCollections descriptors => ensureCollectionsCall descriptors

section Failures

open Statements

theorem readsOnly_requireOpen : (requireOpen : Call δ PUnit).ReadsOnly := by
  refine readsOnly_get.bind fun m => ?_
  split
  · exact readsOnly_throw _
  · exact readsOnly_pure _

theorem readsOnly_checkReadVersions : (checkReadVersions : Call δ PUnit).ReadsOnly :=
  readsOnly_get.bind fun _ => readsOnly_ofExcept _

theorem readsOnly_stagedIndexes : (stagedIndexesCall : Call δ _).ReadsOnly :=
  readsOnly_get.bind fun _ => readsOnly_ofExcept _

theorem total_eraseRecords : (eraseRecords : Call δ PUnit).Total :=
  total_get.bind fun _ => total_forM fun _ => (total_modify _).bind fun _ => total_modify _

theorem total_storeRecords : (storeRecords : Call δ PUnit).Total :=
  total_get.bind fun _ => total_forM fun _ =>
    (total_modify _).bind fun _ => (total_modify _).bind fun _ => total_modify _

/-- All that can throw in `commit` comes before the first assignment. -/
theorem atomic_commit : (commitCall : Call δ PUnit).Atomic := by
  refine readsOnly_requireOpen.atomic_bind fun _ => ?_
  refine readsOnly_checkReadVersions.atomic_bind fun _ => ?_
  refine readsOnly_stagedIndexes.atomic_bind fun _ => ?_
  refine Total.atomic (total_eraseRecords.bind fun _ => total_storeRecords.bind fun _ => ?_)
  exact (total_modify _).bind fun _ => total_modify _

theorem atomic_ensureCollection (descriptor : CollectionDescriptor) :
    (ensureCollectionCall descriptor : Call δ PUnit).Atomic := by
  refine readsOnly_get.atomic_bind fun m => ?_
  split
  · exact (readsOnly_ofExcept _).atomic_bind fun _ => (total_modify _).atomic
  · exact Total.atomic ((total_modify _).bind fun _ => total_modify _)

theorem atomic_ensureCollections (descriptors : List CollectionDescriptor) :
    (ensureCollectionsCall descriptors : Call δ PUnit).Atomic := by
  refine ReadsOnly.atomic_bind (readsOnly_get.bind fun _ => readsOnly_ofExcept _) fun _ => ?_
  refine ReadsOnly.atomic_bind (readsOnly_get.bind fun _ => readsOnly_pure _) fun _ => ?_
  exact Total.atomic ((total_modify _).bind fun _ => total_modify _)

theorem StateCall.atomic (call : StateCall) : (call.statements : Call δ PUnit).Atomic := by
  cases call with
  | commit => exact atomic_commit
  | ensureCollection descriptor => exact atomic_ensureCollection descriptor
  | ensureCollections descriptors => exact atomic_ensureCollections descriptors

/-- **A call that throws has changed nothing**, and an open transaction is open. -/
theorem failures_atomic (call : StateCall) (before : CallMemory δ) {e : Error} {after : CallMemory δ}
    (h : (call.statements : Call δ PUnit).exec before = (.error e, after)) :
    after.state = before.state ∧ after.tx.readVersions = before.tx.readVersions ∧
      after.tx.puts = before.tx.puts ∧ after.tx.erases = before.tx.erases ∧
      (before.tx.isOpen = true → after.tx.isOpen = true) := by
  obtain rfl := call.atomic before e after h
  exact ⟨rfl, rfl, rfl, rfl, id⟩

/-- An open transaction that has read a version, puts a user and then one whose city is a list, over a state
    whose users are filed by their cities. -/
def halfIndexed : CallMemory Empty where
  state := ⟨indexedState.collections, indexedState.records, indexedState.indexes, indexedState.versions⟩
  tx := {
    isOpen := true
    readVersions := ∅
    puts := ((∅ : OrderedMap Bytes (VersionedRecord Empty)).insert (ascii "users:u1")
        ⟨ascii "users", ascii "u1", 0, roman⟩).insert (ascii "users:u2")
        ⟨ascii "users", ascii "u2", 0, .object [(ascii "city", .array [])]⟩
    erases := ∅ }

/-- The second user has no index key; a batch fails at its second descriptor, which steps back. -/
theorem failures_atomic_halfIndexed :
    (∃ after, (StateCall.commit.statements : Call Empty PUnit).exec halfIndexed =
      (.error (thrown .nonScalar), after) ∧ after.state = halfIndexed.state ∧ after.tx.puts = halfIndexed.tx.puts ∧
        after.tx.isOpen = true) ∧
    ∃ e after, ((StateCall.ensureCollections [{ name := ascii "teams" }, plainUsers]).statements :
      Call Empty PUnit).exec halfIndexed = (.error e, after) ∧ after.state = halfIndexed.state := by
  have hcommit : ((StateCall.commit.statements : Call Empty PUnit).exec halfIndexed).1 =
      .error (thrown .nonScalar) := by decide
  have hbatch : (((StateCall.ensureCollections [{ name := ascii "teams" }, plainUsers]).statements :
      Call Empty PUnit).exec halfIndexed).1.isOk = false := by decide
  constructor
  · obtain ⟨hstate, -, hputs, -, hopen⟩ := failures_atomic .commit halfIndexed (Prod.ext hcommit rfl)
    exact ⟨_, Prod.ext hcommit rfl, hstate, hputs, hopen rfl⟩
  · rcases hrun : ((StateCall.ensureCollections [{ name := ascii "teams" }, plainUsers]).statements :
      Call Empty PUnit).exec halfIndexed with ⟨e | u, after⟩
    · exact ⟨e, after, rfl, (failures_atomic _ halfIndexed hrun).1⟩
    · rw [hrun] at hbatch
      cases hbatch

end Failures

/-! ## What the statements do -/

/-- The members of a state and of a transaction. -/
def memoryOf (s : State δ) (t : Tx δ) : CallMemory δ :=
  ⟨⟨s.collections, s.records, s.indexes, s.versions⟩, ⟨t.isOpen, t.readVersions, t.puts, t.erases⟩⟩

section Exec

open Statements

variable (s : State δ) (t : Tx δ)

theorem exec_requireOpen : (requireOpen : Call δ PUnit).exec (memoryOf s t) =
    (if t.isOpen = false then .error (thrown .closed) else .ok PUnit.unit, memoryOf s t) := by
  rw [requireOpen, exec_bind, exec_get]
  show Statements.exec (if t.isOpen = false then throw (thrown .closed) else pure PUnit.unit) _ = _
  split
  · rfl
  · rfl

/-- A loop that throws the same whenever a test fails. -/
theorem forM_test {α : Type} (test : α → Bool) (e : Error) (items : List α) :
    (items.forM fun a => if test a = true then Except.ok PUnit.unit else .error e) =
      if items.all test = true then Except.ok PUnit.unit else .error e := by
  induction items with
  | nil => rfl
  | cons a rest ih =>
    have hcons : (a :: rest).forM (fun a => if test a = true then Except.ok PUnit.unit else .error e) =
        (if test a = true then Except.ok PUnit.unit else .error e) >>= fun _ =>
          rest.forM fun a => if test a = true then Except.ok PUnit.unit else .error e := rfl
    rw [hcons, ih, List.all_cons]
    by_cases ha : test a = true
    · rw [if_pos ha, ha, Bool.true_and]
      rfl
    · rw [if_neg ha, Bool.eq_false_iff.mpr ha, Bool.false_and]
      rfl

theorem exec_checkReadVersions : (checkReadVersions : Call δ PUnit).exec (memoryOf s t) =
    (if t.current s = false then .error (thrown .versionConflict) else .ok PUnit.unit, memoryOf s t) := by
  have hloop := forM_test (fun p : Bytes × Version => s.counter p.1 == p.2) (thrown .versionConflict)
    t.readVersions.toList
  rw [checkReadVersions, exec_bind, exec_get]
  show Statements.exec (Statements.ofExcept _) _ = _
  rw [exec_ofExcept]
  refine Prod.ext ?_ rfl
  simp only [beq_iff_eq] at hloop
  refine Eq.trans hloop ?_
  show (if t.current s = true then _ else _) = _
  cases t.current s with
  | true => rfl
  | false => rfl

theorem foldlM_mapError {α β ε ε' : Type} (g : ε → ε') (f : β → α → Except ε β) (items : List α) (b : β) :
    items.foldlM (fun b a => (f b a).mapError g) b = (items.foldlM f b).mapError g := by
  induction items generalizing b with
  | nil => rfl
  | cons a rest ih =>
    rw [List.foldlM_cons, List.foldlM_cons]
    cases f b a with
    | error e => rfl
    | ok b' => exact ih b'

theorem exec_stagedIndexes : (stagedIndexesCall : Call δ _).exec (memoryOf s t) =
    ((stageIndexes [] s t).mapError thrown, memoryOf s t) := by
  rw [stagedIndexesCall, exec_bind, exec_get]
  show Statements.exec (Statements.ofExcept _) _ = _
  rw [exec_ofExcept]
  refine Prod.ext ?_ rfl
  show (do
    let indexes ← t.erases.toList.foldlM
      (fun indexes versionKey => (stageErase s.records indexes versionKey).mapError thrown) s.indexes
    t.puts.toList.foldlM
      (fun indexes (p : Bytes × VersionedRecord δ) => (stagePut s.records indexes p.2).mapError thrown)
      indexes) = _
  rw [foldlM_mapError thrown (stageErase s.records), stageIndexes, visit, stagedRecords]
  cases t.erases.toList.foldlM (stageErase s.records) s.indexes with
  | error e => rfl
  | ok mid =>
    show t.puts.toList.foldlM
        (fun indexes (p : Bytes × VersionedRecord δ) => (stagePut s.records indexes p.2).mapError thrown) mid =
      ((t.puts.toList.map Prod.snd).foldlM (stagePut s.records) mid).mapError thrown
    rw [List.foldlM_map,
      foldlM_mapError thrown fun indexes (p : Bytes × VersionedRecord δ) => stagePut s.records indexes p.2]

/-- What a loop over a memory's records and versions does to the memory. -/
theorem foldl_eraseRecords (erases : List Bytes) (m : CallMemory δ) :
    erases.foldl (fun m versionKey => (m.eraseRecord versionKey).bump versionKey) m =
      { m with state := { m.state with
          records := (erases.foldl applyErase (m.state.records, m.state.versions)).1
          versions := (erases.foldl applyErase (m.state.records, m.state.versions)).2 } } := by
  induction erases generalizing m with
  | nil => rfl
  | cons versionKey rest ih => exact ih _

theorem foldl_storeRecords (puts : List (Bytes × VersionedRecord δ)) (m : CallMemory δ) :
    ∃ staged, puts.foldl (fun m p => ((m.bump p.1).number p.1 p.2).store p.1) m =
      ⟨{ m.state with
          records := (puts.foldl applyPut (m.state.records, m.state.versions)).1
          versions := (puts.foldl applyPut (m.state.records, m.state.versions)).2 },
        { m.tx with puts := staged }⟩ := by
  induction puts generalizing m with
  | nil => exact ⟨m.tx.puts, rfl⟩
  | cons p rest ih =>
    have hstep : ((m.bump p.1).number p.1 p.2).store p.1 =
        ⟨{ m.state with
            records := (applyPut (m.state.records, m.state.versions) p).1
            versions := (applyPut (m.state.records, m.state.versions) p).2 },
          ((m.bump p.1).number p.1 p.2).tx⟩ := by
      have hfind : ((m.bump p.1).number p.1 p.2).tx.puts[p.1]? =
          some { p.2 with version := versionOrZero (Memory.bump m.state.versions p.1) p.1 } := by
        show (m.tx.puts.insert p.1 _)[p.1]? = _
        rw [OrderedMap.find_insert, if_pos rfl]
        rfl
      rw [CallMemory.store, hfind]
      rfl
    obtain ⟨staged, hrest⟩ := ih (((m.bump p.1).number p.1 p.2).store p.1)
    refine ⟨staged, hrest.trans ?_⟩
    rw [hstep]
    rfl

theorem exec_eraseRecords (m : CallMemory δ) : (eraseRecords : Call δ PUnit).exec m =
    (.ok ⟨⟩, m.tx.erases.toList.foldl (fun m versionKey => (m.eraseRecord versionKey).bump versionKey) m) := by
  rw [eraseRecords, exec_bind, exec_get]
  exact exec_forM (fun _ _ => rfl) m

theorem exec_storeRecords (m : CallMemory δ) : (storeRecords : Call δ PUnit).exec m =
    (.ok ⟨⟩, m.tx.puts.toList.foldl (fun m p => ((m.bump p.1).number p.1 p.2).store p.1) m) := by
  rw [storeRecords, exec_bind, exec_get]
  exact exec_forM (fun _ _ => rfl) m

/-- **The statements of `commit`**: they end as `commit` says, and leave what it says. -/
theorem exec_commitCall : (commitCall : Call δ PUnit).exec (memoryOf s t) =
    match commit s t with
    | .error e => (.error e, memoryOf s t)
    | .ok (s', t') => (.ok ⟨⟩, memoryOf s' t') := by
  rw [commitCall, exec_bind, exec_requireOpen]
  cases hopen : t.isOpen with
  | false =>
    have hcommit : commit s t = .error (thrown .closed) := by
      rw [commit, InMemoryTransaction.commit, if_pos hopen]
      rfl
    rw [hcommit]
    rfl
  | true =>
    show Statements.exec _ (memoryOf s t) = _
    rw [exec_bind, exec_checkReadVersions]
    cases hcurrent : t.current s with
    | false =>
      have hcommit : commit s t = .error (thrown .versionConflict) := by
        rw [commit, (commit_conflict_iff hopen).mpr hcurrent]
        rfl
      rw [hcommit]
      rfl
    | true =>
      show Statements.exec _ (memoryOf s t) = _
      rw [exec_bind, exec_stagedIndexes]
      cases hstage : stageIndexes [] s t with
      | error fault =>
        have hcommit : commit s t = .error (thrown fault) := by
          rw [commit, InMemoryTransaction.commit, if_neg (by simp [hopen]), if_neg (by simp [hcurrent])]
          split
          · rename_i e he
            rw [hstage] at he
            obtain rfl := Except.error.inj he
            rfl
          · rename_i indexes he
            rw [hstage] at he
            cases he
        rw [hcommit]
        rfl
      | ok indexes =>
        have hcommit : commit s t = .ok (t.committed s hstage, t.abort) :=
          commit_ok_iff.mpr (commit_of_staged hopen hcurrent hstage)
        obtain ⟨staged, hstore⟩ := foldl_storeRecords t.puts.toList
          (t.erases.toList.foldl (fun m versionKey => (m.eraseRecord versionKey).bump versionKey) (memoryOf s t))
        rw [hcommit]
        show Statements.exec _ (memoryOf s t) = _
        rw [exec_bind, exec_eraseRecords]
        show Statements.exec _ _ = _
        rw [exec_bind, exec_storeRecords]
        show Statements.exec _ (List.foldl _ _ _) = _
        rw [foldl_eraseRecords] at hstore ⊢
        exact congrArg (Statements.exec (do
          modify (CallMemory.setIndexes indexes)
          modify CallMemory.abort)) hstore

/-- **The statements of `ensure_collections`** do what `ensureCollections` says. -/
theorem exec_ensureCollectionsCall (descriptors : List CollectionDescriptor) :
    (ensureCollectionsCall descriptors : Call δ PUnit).exec (memoryOf s t) =
      match ensureCollections s descriptors with
      | .error e => (.error e, memoryOf s t)
      | .ok s' => (.ok ⟨⟩, memoryOf s' t) := by
  have hfirst : (stagedCollectionsCall descriptors : Call δ _).exec (memoryOf s t) =
      (descriptors.foldlM stageDescriptor s.collections, memoryOf s t) := by
    rw [stagedCollectionsCall, exec_bind, exec_get]
    exact exec_ofExcept _ _
  rw [ensureCollectionsCall, exec_bind, hfirst]
  cases hstage : descriptors.foldlM stageDescriptor s.collections with
  | error e =>
    rw [ensureCollections_of_error hstage]
  | ok staged =>
    rw [ensureCollections_of_staged hstage]
    rfl

end Exec

end StateSpec.Cpp
