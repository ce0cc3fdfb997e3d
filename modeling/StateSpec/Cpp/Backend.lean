/-
  THE C++ IN-MEMORY BACKEND — `InMemoryTransaction::query` of `memory/transaction.hpp`, and
  `memory/backend.hpp`.

  What the C++ binding has of its own: `query`, which merges the committed and the staged records
  and keeps the first version it observed; the errors it throws; and the registration of
  collections.  `get`, `put`, `erase` and `commit` are those of `StateSpec.Memory` with
  `ReadPolicy.first` and key order.

  * `committedIndexQuery_eq` — `records.at(collection)` never throws: what an index files is there;
  * `mem_query`              — the records a query answers, committed and staged;
  * `ensureCollections`      — the registration of a batch, and `later_ensureCollections`;
  * `store`                  — the backend as a store of interleaved transactions.
-/
import StateSpec.Lib.Interleaving
import StateSpec.SchemaCompatibility
import StateSpec.Memory.Validation

set_option linter.unusedSectionVars false

namespace StateSpec.Cpp

open StateSpec.Memory StateSpec.Memory.InMemoryTransaction

variable {δ : Type} [Decimal δ]

/-- The state of the C++ backend: index entries are keyed by the parts of the index key. -/
abbrev State (δ : Type) [Decimal δ] := InMemoryState δ InMemoryIndexKey

/-- A transaction of the C++ backend. -/
abbrev Tx (δ : Type) := InMemoryTransaction δ

/-- What the C++ binding throws. -/
def thrown : Fault → Error
  | .closed => .backendError (ascii "in-memory backend requires an open InMemoryTransaction")
  | .versionConflict => .conflictError .versionConflict versionConflictMessage
  | .nonScalar => .backendError nonScalarMessage
  | .uniqueIndexConflict collection index =>
    .conflictError .uniqueIndexConflict (uniqueIndexMessage collection index)

/-- The conflict kind survives the throw. -/
theorem conflictKind_thrown (fault : Fault) : (thrown fault).conflictKind = fault.conflictKind := by
  cases fault <;> rfl

/-! ## Queries -/

/-- `is_index_query`. -/
def isIndexQuery (query : Query δ) : Bool :=
  query.kind == .indexEquals || query.kind == .indexPrefix || query.kind == .indexRange

/-- `matches_index_key`. -/
def matchesIndexKey (indexKey : InMemoryIndexKey) (query : Query δ) : Bool :=
  match query.kind with
  | .indexEquals => indexKeyStartsWith indexKey (extractQueryIndexKey query.indexValues)
  | .indexPrefix => indexKeyStartsWith indexKey (extractQueryIndexKey query.indexValues)
  | .indexRange => indexKeyInRange indexKey query.lowerBound query.upperBound
  | _ => false

/-- `json_path_equals`: the segments between the '.'s, looked up one inside the other. -/
def jsonPathEquals (document : Json δ) (path : Bytes) (expected : Json δ) : Bool :=
  match findSegments document (path.splitOn 46) with
  | none => false
  | some current => current.same expected

/-- `matches`. -/
def matchesQuery (record : VersionedRecord δ) (query : Query δ) : Bool :=
  match query.kind with
  | .all => true
  | .keyPrefix =>
    match query.keyPrefix with
    | none => false
    | some keyPrefix => startsWith record.key keyPrefix
  | .jsonEquals =>
    match query.jsonPath, query.jsonValue with
    | some path, some value => jsonPathEquals record.document path value
    | _, _ => false
  | .indexEquals | .indexPrefix | .indexRange => true

/-- How the C++ binding reads a query. -/
def selector (query : Query δ) : Selector δ InMemoryIndexKey where
  isIndex := isIndexQuery query
  indexName := query.indexName
  matchesKey indexKey := matchesIndexKey indexKey query
  matchesRecord record := matchesQuery record query

/-- `committed_index_query_locked`, where `records.at(collection)` may throw. -/
def committedIndexQuery (s : State δ) (collection : CollectionName)
    (q : Selector δ InMemoryIndexKey) : Except Error (List (VersionedRecord δ)) :=
  match q.indexName with
  | none => .ok []
  | some name =>
    match OrderedMap.find₂ s.indexes collection name with
    | none => .ok []
    | some index =>
      let keys := (index.entries.toList.filter fun entry => q.matchesKey entry.1).flatMap
        fun entry => entry.2.toList
      match s.records[collection]? with
      | none => if keys.isEmpty then .ok [] else .error .outOfRange
      | some records => .ok (keys.filterMap fun key => records[key]?)

/-- `records.at(collection)` never throws: what an index files is a live record. -/
theorem committedIndexQuery_eq (s : State δ) (c : CollectionName)
    (q : Selector δ InMemoryIndexKey) :
    committedIndexQuery s c q = .ok (committedIndexRecords s c q) := by
  rw [committedIndexQuery, committedIndexRecords]
  cases hname : q.indexName with
  | none => rfl
  | some name =>
    simp only
    cases hindex : OrderedMap.find₂ s.indexes c name with
    | none => rfl
    | some index =>
      simp only [← List.filterMap_flatMap]
      cases hrecords : s.records[c]? with
      | some records =>
        simp only [InMemoryState.recordAt, OrderedMap.find₂, hrecords, Option.bind_some]
      | none =>
        -- no collection, so no record, so nothing is filed
        have hkeys : (index.entries.toList.filter fun entry => q.matchesKey entry.1).flatMap
            (fun entry => entry.2.toList) = [] := by
          rw [List.eq_nil_iff_forall_not_mem]
          intro k hk
          obtain ⟨⟨ikey, keys⟩, hmem, hk⟩ := List.mem_flatMap.mp hk
          have hfiles : Files s.indexes c name ikey k :=
            ⟨index, hindex, holds_iff_mem_toList.mpr ⟨keys, (List.mem_filter.mp hmem).1, hk⟩⟩
          obtain ⟨r, d, hr, -⟩ := s.sound c name ikey k hfiles
          rw [OrderedMap.find₂, hrecords] at hr
          cases hr
        simp only [hkeys]
        rfl

/-- The committed records a query starts from. -/
def committedRecords (s : State δ) (t : Tx δ) (collection : CollectionName)
    (q : Selector δ InMemoryIndexKey) : Except Error (List (VersionedRecord δ)) :=
  if q.isIndex then committedIndexQuery s collection q
  else
    match s.records[collection]? with
    | none => .ok []
    | some records =>
      .ok ((records.toList.map Prod.snd).filter fun r => decide (versionKeyOf r ∉ t.puts))

/-- The first part of a query cannot fail. -/
theorem committedRecords_total (s : State δ) (t : Tx δ) (c : CollectionName)
    (q : Selector δ InMemoryIndexKey) : ∃ records, committedRecords s t c q = .ok records := by
  rw [committedRecords]
  by_cases hindex : q.isIndex = true
  · exact ⟨_, by rw [if_pos hindex, committedIndexQuery_eq]⟩
  · rw [if_neg hindex]
    cases s.records[c]? <;> exact ⟨_, rfl⟩

/-- Whether a query adds a staged record: one of its collection, and found. -/
def findsStaged (s : State δ) (collection : CollectionName) (q : Selector δ InMemoryIndexKey)
    (record : VersionedRecord δ) : Except Fault Bool :=
  if record.collection = collection then
    if q.isIndex then stagedMatches s q record else .ok true
  else .ok false

/-- The staged records a query adds. -/
def stagedPart (s : State δ) (t : Tx δ) (collection : CollectionName)
    (q : Selector δ InMemoryIndexKey) : Except Error (List (VersionedRecord δ)) :=
  (filterE (findsStaged s collection q) t.stagedRecords).mapError thrown

theorem stagedPart_error {s : State δ} {t : Tx δ} {c : CollectionName}
    {q : Selector δ InMemoryIndexKey} {e : Error} (h : stagedPart s t c q = .error e) :
    e = thrown .nonScalar := by
  rw [stagedPart] at h
  cases hfilter : filterE (findsStaged s c q) t.stagedRecords with
  | ok staged => simp [hfilter, Except.mapError] at h
  | error fault =>
    simp only [hfilter, Except.mapError, Except.error.injEq] at h
    obtain ⟨r, -, hr⟩ := filterE_error hfilter
    rw [findsStaged] at hr
    split at hr
    · split at hr
      · rw [← h, stagedMatches_error hr]
      · cases hr
    · cases hr

/-- The test of `remove_if`: the transaction has staged or erased the record itself. -/
def superseded (t : Tx δ) (record : VersionedRecord δ) : Bool :=
  decide (record.version ≠ 0 ∧ versionKeyOf record ∈ t.puts) ||
    decide (versionKeyOf record ∈ t.erases)

/-- The records a query answers. -/
def queryRecords (s : State δ) (t : Tx δ) (collection : CollectionName)
    (q : Selector δ InMemoryIndexKey) : Except Error (List (VersionedRecord δ)) :=
  match committedRecords s t collection q with
  | .error e => .error e
  | .ok committed =>
    match stagedPart s t collection q with
    | .error e => .error e
    | .ok staged =>
      let records := (committed ++ staged).filter fun record => !superseded t record
      .ok (records.filter q.matchesRecord)

/-- `query`. -/
def query (s : State δ) (t : Tx δ) (collection : CollectionName) (q : Query δ) :
    Except Error (List (VersionedRecord δ)) × Tx δ :=
  if t.isOpen = false then (.error (thrown .closed), t)
  else
    match queryRecords s t collection (selector q) with
    | .error e => (.error e, t)
    | .ok matched => (.ok matched, t.recordReads .first matched)

/-- A committed record a query answers: found, not staged or erased, and accepted. -/
def CommittedAnswer (s : State δ) (t : Tx δ) (c : CollectionName)
    (q : Selector δ InMemoryIndexKey) (r : VersionedRecord δ) : Prop :=
  s.recordAt c r.key = some r ∧ (q.isIndex = true → FindsByIndex s c q r.key) ∧
    ¬ t.Overlays (versionKeyOf r) ∧ q.matchesRecord r = true

/-- What the first part of a query collects. -/
theorem mem_committedRecords {s : State δ} {t : Tx δ} {c : CollectionName}
    {q : Selector δ InMemoryIndexKey} {records : List (VersionedRecord δ)}
    (h : committedRecords s t c q = .ok records) (r : VersionedRecord δ) :
    r ∈ records ↔ s.recordAt c r.key = some r ∧ (q.isIndex = true → FindsByIndex s c q r.key) ∧
      (q.isIndex = false → versionKeyOf r ∉ t.puts) := by
  rw [committedRecords] at h
  cases hindex : q.isIndex with
  | true =>
    rw [if_pos hindex, committedIndexQuery_eq] at h
    obtain rfl := Except.ok.inj h
    rw [mem_committedIndex]
    constructor
    · rintro ⟨k, hfinds, hr⟩
      rw [← (InMemoryState.recordAt_keyed hr).2] at hfinds hr
      exact ⟨hr, fun _ => hfinds, fun h => by cases h⟩
    · rintro ⟨hr, hfinds, -⟩
      exact ⟨r.key, hfinds rfl, hr⟩
  | false =>
    rw [if_neg (by simp [hindex])] at h
    cases hrecords : s.records[c]? with
    | none =>
      simp only [hrecords, Except.ok.injEq] at h
      subst h
      simp [InMemoryState.recordAt, OrderedMap.find₂, hrecords]
    | some inner =>
      simp only [hrecords, Except.ok.injEq] at h
      subst h
      rw [List.mem_filter, InMemoryState.mem_collection hrecords]
      simp

/-- **The records a query answers**: the committed ones the transaction has not touched, and the
    staged ones. -/
theorem mem_query {s : State δ} {t : Tx δ} {c : CollectionName}
    {q : Selector δ InMemoryIndexKey} {records : List (VersionedRecord δ)}
    (h : queryRecords s t c q = .ok records) (r : VersionedRecord δ) :
    r ∈ records ↔ CommittedAnswer s t c q r ∨ StagedAnswer s t c q r := by
  rw [queryRecords] at h
  cases hcommitted : committedRecords s t c q with
  | error e => simp [hcommitted] at h
  | ok committed =>
    cases hstaged : stagedPart s t c q with
    | error e => simp [hcommitted, hstaged] at h
    | ok staged =>
      simp only [hcommitted, hstaged, Except.ok.injEq] at h
      subst h
      have hst : r ∈ staged ↔ r ∈ t.stagedRecords ∧ r.collection = c ∧
          (q.isIndex = true → stagedMatches s q r = .ok true) := by
        rw [mem_filterE (mapError_eq_ok.mp hstaged), findsStaged]
        refine and_congr_right fun _ => ?_
        by_cases hc : r.collection = c
        · by_cases hindex : q.isIndex = true <;> simp [hc, hindex]
        · simp [hc]
      have hcm := mem_committedRecords hcommitted r
      simp only [List.mem_filter, List.mem_append, superseded, Bool.not_eq_true',
        Bool.or_eq_false_iff, decide_eq_false_iff_not, CommittedAnswer, StagedAnswer,
        StagedHere, Overlays,
        not_and, not_or]
      constructor
      · rintro ⟨⟨hr | hr, hput, herase⟩, hmatch⟩
        · obtain ⟨hat, hfinds, -⟩ := hcm.mp hr
          have hversion : r.version ≠ 0 := Nat.pos_iff_ne_zero.mp (s.counted c r.key r hat).1
          exact Or.inl ⟨hat, hfinds, ⟨herase, hput hversion⟩, hmatch⟩
        · obtain ⟨hmem, hc, hmatches⟩ := hst.mp hr
          exact Or.inr ⟨⟨hmem, hc, hmatches⟩, hmatch⟩
      · rintro (⟨hat, hfinds, ⟨herase, hput⟩, hmatch⟩ | ⟨⟨hmem, hc, hmatches⟩, hmatch⟩)
        · have hr := hcm.mpr ⟨hat, hfinds, fun _ => hput⟩
          exact ⟨⟨Or.inl hr, fun _ => hput, herase⟩, hmatch⟩
        · have hput := mem_stagedRecords.mp hmem
          refine ⟨⟨Or.inr (hst.mpr ⟨hmem, hc, hmatches⟩), fun hne => ?_, fun herase => ?_⟩, hmatch⟩
          · exact absurd (t.staged _ _ hput).2 hne
          · rw [t.disjoint _ herase] at hput
            cases hput

/-! ## Registration -/

/-- The indexes after the registration of `descriptors`: a collection that is new gets empty ones,
    the last of several descriptors of one name wins, and a registered collection keeps its own. -/
def registerIndexes (s : State δ) (descriptors : List CollectionDescriptor) :
    Indexes InMemoryIndexKey :=
  descriptors.foldl (fun indexes descriptor =>
    if descriptor.name ∈ s.collections then indexes
    else indexes.insert descriptor.name (emptyIndexStates descriptor)) s.indexes

/-- One descriptor of a batch: an upgrade of what is staged under its name is validated. -/
def stageDescriptor (staged : OrderedMap CollectionName CollectionDescriptor)
    (descriptor : CollectionDescriptor) :
    Except Error (OrderedMap CollectionName CollectionDescriptor) :=
  match staged[descriptor.name]? with
  | none => .ok (staged.insert descriptor.name descriptor)
  | some existing =>
    (validateCollectionDescriptorUpgrade existing descriptor).map fun _ =>
      staged.insert descriptor.name descriptor

theorem stageDescriptor_ok {staged staged' : OrderedMap CollectionName CollectionDescriptor}
    {descriptor : CollectionDescriptor} (h : stageDescriptor staged descriptor = .ok staged') :
    staged' = staged.insert descriptor.name descriptor ∧
      ∀ existing, staged[descriptor.name]? = some existing →
        validateCollectionDescriptorUpgrade existing descriptor = .ok () := by
  rw [stageDescriptor] at h
  cases hexisting : staged[descriptor.name]? with
  | none =>
    simp only [hexisting, Except.ok.injEq] at h
    exact ⟨h.symm, fun existing he => by cases he⟩
  | some existing =>
    simp only [hexisting] at h
    cases hv : validateCollectionDescriptorUpgrade existing descriptor with
    | error e =>
      rw [hv] at h
      cases h
    | ok u =>
      rw [hv] at h
      refine ⟨(Except.ok.inj h).symm, fun existing' he => ?_⟩
      rw [← Option.some_inj.mp he, hv]

/-- Staging keeps every collection and adds those of the batch. -/
theorem mem_staged {staged staged' : OrderedMap CollectionName CollectionDescriptor}
    {descriptors : List CollectionDescriptor}
    (h : descriptors.foldlM stageDescriptor staged = .ok staged') (c : CollectionName) :
    c ∈ staged' ↔ c ∈ staged ∨ ∃ d ∈ descriptors, d.name = c := by
  refine foldlM_invariant (fun done staged' => c ∈ staged' ↔ c ∈ staged ∨ ∃ d ∈ done, d.name = c)
    (by simp) ?_ h
  intro done d rest mid mid' _ hdone hstep
  obtain ⟨rfl, -⟩ := stageDescriptor_ok hstep
  rw [Std.ExtTreeMap.mem_insert, Std.compare_eq_iff_eq, hdone]
  simp only [List.mem_append, List.mem_singleton, or_and_right, exists_or, exists_eq_left]
  rw [or_comm, or_assoc]

/-- What `registerIndexes` does to one collection. -/
theorem registerIndexes_cases (s : State δ) (descriptors : List CollectionDescriptor)
    (c : CollectionName) :
    ((registerIndexes s descriptors)[c]? = s.indexes[c]? ∧
      (c ∈ s.collections ∨ ∀ d ∈ descriptors, d.name ≠ c)) ∨
    (c ∉ s.collections ∧ ∃ d ∈ descriptors, d.name = c ∧
      (registerIndexes s descriptors)[c]? = some (emptyIndexStates d)) := by
  rw [registerIndexes]
  refine foldl_invariant (fun done (indexes : Indexes InMemoryIndexKey) =>
    (indexes[c]? = s.indexes[c]? ∧ (c ∈ s.collections ∨ ∀ d ∈ done, d.name ≠ c)) ∨
    (c ∉ s.collections ∧ ∃ d ∈ done, d.name = c ∧ indexes[c]? = some (emptyIndexStates d)))
    (Or.inl ⟨rfl, Or.inr fun d hd => absurd hd List.not_mem_nil⟩) ?_
  intro done d rest indexes _ hdone
  by_cases hmem : d.name ∈ s.collections
  · rw [if_pos hmem]
    rcases hdone with ⟨heq, hc | hc⟩ | ⟨hc, d', hd', hname, heq⟩
    · exact Or.inl ⟨heq, Or.inl hc⟩
    · refine Or.inl ⟨heq, ?_⟩
      by_cases hdc : d.name = c
      · exact Or.inl (hdc ▸ hmem)
      · refine Or.inr fun d' hd' => ?_
        rcases List.mem_append.mp hd' with hd' | hd'
        · exact hc d' hd'
        · exact List.mem_singleton.mp hd' ▸ hdc
    · exact Or.inr ⟨hc, d', List.mem_append_left _ hd', hname, heq⟩
  · rw [if_neg hmem, OrderedMap.find_insert]
    by_cases hdc : c = d.name
    · rw [if_pos hdc]
      exact Or.inr ⟨hdc ▸ hmem, d, by simp, hdc.symm, rfl⟩
    · rw [if_neg hdc]
      rcases hdone with ⟨heq, hc⟩ | ⟨hc, d', hd', hname, heq⟩
      · refine Or.inl ⟨heq, hc.imp_right fun hc d' hd' => ?_⟩
        rcases List.mem_append.mp hd' with hd' | hd'
        · exact hc d' hd'
        · exact List.mem_singleton.mp hd' ▸ Ne.symm hdc
      · exact Or.inr ⟨hc, d', List.mem_append_left _ hd', hname, heq⟩

theorem files_congr {indexes indexes' : Indexes InMemoryIndexKey} {c : CollectionName}
    (h : indexes'[c]? = indexes[c]?) (name : Bytes) (ikey : InMemoryIndexKey) (k : Key) :
    Files indexes' c name ikey k ↔ Files indexes c name ikey k := by
  simp only [Files, OrderedMap.find₂, h]

theorem descriptorOf_congr {indexes indexes' : Indexes InMemoryIndexKey} {c : CollectionName}
    (h : indexes'[c]? = indexes[c]?) (name : Bytes) :
    descriptorOf indexes' c name = descriptorOf indexes c name := by
  simp only [descriptorOf, OrderedMap.find₂, h]

/-- The state a registration publishes. -/
def registered (s : State δ) (descriptors : List CollectionDescriptor)
    {staged : OrderedMap CollectionName CollectionDescriptor}
    (h : descriptors.foldlM stageDescriptor s.collections = .ok staged) : State δ where
  collections := staged
  records := s.records
  versions := s.versions
  indexes := registerIndexes s descriptors
  keyed := s.keyed
  counted := s.counted
  sound c name ikey k hfiles := by
    rcases registerIndexes_cases s descriptors c with ⟨heq, _⟩ | ⟨_, d, _, _, heq⟩
    · rw [descriptorOf_congr heq]
      exact s.sound c name ikey k ((files_congr heq name ikey k).mp hfiles)
    · exact absurd hfiles (not_files_emptyIndexStates heq name ikey k)
  indexed c hc := by
    rw [mem_staged h]
    rcases registerIndexes_cases s descriptors c with ⟨heq, _⟩ | ⟨_, d, hd, hname, _⟩
    · refine Or.inl (s.indexed c ?_)
      rw [Std.ExtTreeMap.mem_iff_isSome_getElem?] at hc ⊢
      rwa [heq] at hc
    · exact Or.inr ⟨d, hd, hname⟩

/-- `ensure_collections`. -/
def ensureCollections (s : State δ) (descriptors : List CollectionDescriptor) :
    Except Error (State δ) :=
  match h : descriptors.foldlM stageDescriptor s.collections with
  | .error e => .error e
  | .ok _ => .ok (registered s descriptors h)

theorem ensureCollections_ok {s s' : State δ} {descriptors : List CollectionDescriptor}
    (h : ensureCollections s descriptors = .ok s') :
    ∃ staged, ∃ hst : descriptors.foldlM stageDescriptor s.collections = .ok staged,
      s' = registered s descriptors hst := by
  rw [ensureCollections] at h
  split at h
  · cases h
  · rename_i staged hst
    exact ⟨staged, hst, (Except.ok.inj h).symm⟩

theorem ensureCollections_of_staged {s : State δ} {descriptors : List CollectionDescriptor}
    {staged : OrderedMap CollectionName CollectionDescriptor}
    (h : descriptors.foldlM stageDescriptor s.collections = .ok staged) :
    ensureCollections s descriptors = .ok (registered s descriptors h) := by
  rw [ensureCollections]
  split
  · rename_i e he
    rw [h] at he
    cases he
  · rename_i staged' h'
    obtain rfl := Except.ok.inj (h'.symm.trans h)
    rfl

theorem ensureCollections_of_error {s : State δ} {descriptors : List CollectionDescriptor}
    {e : Error} (h : descriptors.foldlM stageDescriptor s.collections = .error e) :
    ensureCollections s descriptors = .error e := by
  rw [ensureCollections]
  split
  · rename_i e' he
    exact congrArg Except.error (Except.error.inj (he.symm.trans h))
  · rename_i staged' h'
    rw [h] at h'
    cases h'

theorem stageDescriptor_single (s : State δ) (descriptor : CollectionDescriptor) :
    [descriptor].foldlM stageDescriptor s.collections =
      stageDescriptor s.collections descriptor := by
  rw [List.foldlM_cons]
  cases stageDescriptor s.collections descriptor <;> rfl

/-- `ensure_collection`: an upgrade publishes the descriptor, a new collection gets its indexes. -/
def ensureCollection (s : State δ) (descriptor : CollectionDescriptor) : Except Error (State δ) :=
  match h : s.collections[descriptor.name]? with
  | some existing =>
    match validateCollectionDescriptorUpgrade existing descriptor with
    | .error e => .error e
    | .ok _ => .ok
      { s with
        collections := s.collections.insert descriptor.name descriptor
        indexed := fun c hc => Std.ExtTreeMap.mem_insert.mpr (Or.inr (s.indexed c hc)) }
  | none =>
    have hstage : [descriptor].foldlM stageDescriptor s.collections =
        .ok (s.collections.insert descriptor.name descriptor) := by
      rw [stageDescriptor_single, stageDescriptor, h]
    have hnew : registerIndexes s [descriptor] =
        s.indexes.insert descriptor.name (emptyIndexStates descriptor) := by
      rw [registerIndexes, List.foldl_cons, List.foldl_nil, if_neg]
      rw [Std.ExtTreeMap.mem_iff_isSome_getElem?, h]
      simp
    .ok
      { s with
        collections := s.collections.insert descriptor.name descriptor
        indexes := s.indexes.insert descriptor.name (emptyIndexStates descriptor)
        sound := hnew ▸ (registered s [descriptor] hstage).sound
        indexed := hnew ▸ (registered s [descriptor] hstage).indexed }

/-- Registering one collection is registering a batch of one. -/
theorem ensureCollection_eq (s : State δ) (descriptor : CollectionDescriptor) :
    ensureCollection s descriptor = ensureCollections s [descriptor] := by
  rw [ensureCollection]
  split
  · rename_i existing hexisting
    cases hv : validateCollectionDescriptorUpgrade existing descriptor with
    | error e =>
      have hstage : [descriptor].foldlM stageDescriptor s.collections = .error e := by
        rw [stageDescriptor_single, stageDescriptor, hexisting]
        simp only [hv]
        rfl
      rw [ensureCollections_of_error hstage]
    | ok u =>
      have hstage : [descriptor].foldlM stageDescriptor s.collections =
          .ok (s.collections.insert descriptor.name descriptor) := by
        rw [stageDescriptor_single, stageDescriptor, hexisting]
        simp only [hv]
        rfl
      have hkept : registerIndexes s [descriptor] = s.indexes := by
        rw [registerIndexes, List.foldl_cons, List.foldl_nil, if_pos]
        rw [Std.ExtTreeMap.mem_iff_isSome_getElem?, hexisting]
        rfl
      rw [ensureCollections_of_staged hstage]
      simp only [registered, hkept]
  · rename_i hnone
    have hstage : [descriptor].foldlM stageDescriptor s.collections =
        .ok (s.collections.insert descriptor.name descriptor) := by
      rw [stageDescriptor_single, stageDescriptor, hnone]
    have hnew : registerIndexes s [descriptor] =
        s.indexes.insert descriptor.name (emptyIndexStates descriptor) := by
      rw [registerIndexes, List.foldl_cons, List.foldl_nil, if_neg]
      rw [Std.ExtTreeMap.mem_iff_isSome_getElem?, hnone]
      simp
    rw [ensureCollections_of_staged hstage]
    simp only [registered, hnew]

/-- **A registration only moves on**: records and counters stay, and so do the indexes that are
    there. -/
theorem later_ensureCollections {s s' : State δ} {descriptors : List CollectionDescriptor}
    (h : ensureCollections s descriptors = .ok s') : Later s s' := by
  obtain ⟨staged, hst, rfl⟩ := ensureCollections_ok h
  have hkept : ∀ {c name d}, descriptorOf s.indexes c name = some d →
      (registerIndexes s descriptors)[c]? = s.indexes[c]? := by
    intro c name d hd
    rcases registerIndexes_cases s descriptors c with ⟨heq, _⟩ | ⟨hc, _⟩
    · exact heq
    · refine absurd (s.indexed c ?_) hc
      rw [Std.ExtTreeMap.mem_iff_isSome_getElem?]
      cases hi : s.indexes[c]? with
      | none => simp [descriptorOf, OrderedMap.find₂, hi] at hd
      | some _ => rfl
  refine ⟨fun _ => Nat.le_refl _, fun _ _ _ => rfl, fun c name d hd => ?_,
    fun c name d k hd _ ikey => ?_⟩
  · exact (descriptorOf_congr (hkept hd) name).trans hd
  · exact files_congr (hkept hd) name ikey k

/-! ## The backend as a store -/

open Interleaving

/-- `commit`. -/
def commit (s : State δ) (t : Tx δ) : Except Error (State δ × Tx δ) :=
  (InMemoryTransaction.commit [] s t).mapError thrown

theorem commit_ok_iff {s : State δ} {t : Tx δ} {r : State δ × Tx δ} :
    commit s t = .ok r ↔ InMemoryTransaction.commit [] s t = .ok r := by
  rw [commit, mapError_eq_ok]

/-- The type of a binding's `query`. -/
abbrev QueryCall (δ : Type) [Decimal δ] (Q : Type) :=
  State δ → Tx δ → CollectionName → Q → Except Error (List (VersionedRecord δ)) × Tx δ

/-- One call on a transaction. -/
def exec {Q : Type} (query : QueryCall δ Q) (o : Operation δ Q) (s : State δ) (t : Tx δ) :
    Except Error (Answer δ) × Tx δ :=
  Memory.exec .first thrown query o s t

/-- The backend as a store: transactions that call `get`, `put`, `erase` and the given `query`, and
    the given calls on the backend itself. -/
def storeWith {Q α : Type} (query : QueryCall δ Q) (admin : α → State δ → State δ) :
    Store Unit (State δ) (Tx δ) (Operation δ Q) (Except Error (Answer δ)) Unit Error α where
  begin _ := InMemoryTransaction.begin
  exec := exec query
  commit _ := commit
  abort := InMemoryTransaction.abort
  admin := admin

/-- The events, slots and worlds of such a store. -/
abbrev TxEvent (δ Q α : Type) [Decimal δ] := Event Unit (Operation δ Q) Unit α
abbrev TxSlot (δ Q : Type) [Decimal δ] := Slot Unit (Tx δ) (Operation δ Q) (Except Error (Answer δ))
abbrev TxWorld (δ Q : Type) [Decimal δ] :=
  World Unit (State δ) (Tx δ) (Operation δ Q) (Except Error (Answer δ)) Unit

/-- A registration that is refused changes nothing. -/
def register (descriptors : List CollectionDescriptor) (s : State δ) : State δ :=
  match ensureCollections s descriptors with
  | .error _ => s
  | .ok s' => s'

theorem later_register (s : State δ) (descriptors : List CollectionDescriptor) :
    Later s (register descriptors s) := by
  rw [register]
  cases h : ensureCollections s descriptors with
  | error e => exact Later.refl s
  | ok s' => exact later_ensureCollections h

/-- A registration changes no record and no counter. -/
theorem register_frame (s : State δ) (descriptors : List CollectionDescriptor) :
    (register descriptors s).records = s.records ∧
      (register descriptors s).versions = s.versions := by
  rw [register]
  cases h : ensureCollections s descriptors with
  | error e => exact ⟨rfl, rfl⟩
  | ok s' =>
    obtain ⟨staged, hst, rfl⟩ := ensureCollections_ok h
    exact ⟨rfl, rfl⟩

/-- The whole backend: transactions and registrations. -/
abbrev store : Store Unit (State δ) (Tx δ) (Operation δ (Query δ)) (Except Error (Answer δ)) Unit
    Error (List CollectionDescriptor) :=
  storeWith query register

/-- Transactions alone, over collections that have been registered. -/
abbrev txStore : Store Unit (State δ) (Tx δ) (Operation δ (Query δ)) (Except Error (Answer δ)) Unit
    Error Empty :=
  storeWith query fun a => a.elim

/-- Transactions of `get`, `put` and `erase` alone. -/
abbrev pointStore : Store Unit (State δ) (Tx δ) (Operation δ Empty) (Except Error (Answer δ)) Unit
    Error Empty :=
  storeWith (fun _ _ _ q => q.elim) fun a => a.elim

end StateSpec.Cpp
