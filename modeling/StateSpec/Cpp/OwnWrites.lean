/-
  OWN WRITES in queries of the C++ in-memory backend.

  `effective` is what a transaction should see: the committed records with its staged ones over them
  and its erased ones gone.  `Satisfies` says what a query asks of a record, in terms of the record
  alone and the descriptor of the index.  A query answers exactly the effective records that satisfy
  it, each once (`query_reads_own_writes`), unless it goes through an index that some staged record
  of the collection has no key for; then it throws, as every use of such a key does.

  Committed and staged records come from different loops, so the proof has three parts: which records
  are answered (`committedAnswer_iff`, `stagedAnswer_iff` over `mem_query`), that no two of them have
  one key (`nodup_queryRecords`), and when the loop over the staged records throws
  (`stagedPart_throws_iff`).

  A transaction overlays VERSION KEYS.  They name one record only where collection names have no ':',
  which is what `Plainly` says; `own_writes_missed` shows both ways a query can go wrong.
-/
import Mathlib.Data.List.Nodup
import StateSpec.Cpp.Indexes

set_option linter.unusedSectionVars false

namespace StateSpec.Cpp

open StateSpec.Memory StateSpec.Memory.InMemoryTransaction

variable {δ : Type} [Decimal δ]

/-! ## What a transaction should see -/

instance (t : Tx δ) (c : CollectionName) (k : Key) : Decidable (t.Erases c k) :=
  inferInstanceAs (Decidable (_ ∧ _))

/-- The effective record at a place: the staged one, nothing where it is erased, or the committed
    one. -/
def effective (s : State δ) (t : Tx δ) (c : CollectionName) (k : Key) : Option (VersionedRecord δ) :=
  match t.stagedRecords.find? fun r => r.collection = c ∧ r.key = k with
  | some r => some r
  | none => if t.Erases c k then none else s.recordAt c k

/-- The named index has a key for the record, and the key is as asked. -/
def HasKey (s : State δ) (indexName : Option Bytes) (record : VersionedRecord δ)
    (asked : InMemoryIndexKey → Prop) : Prop :=
  ∃ name d key, indexName = some name ∧ descriptorOf s.indexes record.collection name = some d ∧
    extractIndexKey record.document d = .ok key ∧ asked key

/-- What a query asks of a record. -/
def Satisfies (s : State δ) (query : Query δ) (record : VersionedRecord δ) : Prop :=
  match query.kind with
  | .all => True
  | .keyPrefix => ∃ keyPrefix, query.keyPrefix = some keyPrefix ∧ keyPrefix <+: record.key
  | .jsonEquals => ∃ path value found, query.jsonPath = some path ∧ query.jsonValue = some value ∧
      findSegments record.document (path.splitOn 46) = some found ∧ found.same value = true
  | .indexEquals | .indexPrefix => HasKey s query.indexName record fun key =>
      extractQueryIndexKey query.indexValues <+: key
  | .indexRange => HasKey s query.indexName record fun key =>
      indexKeyInRange key query.lowerBound query.upperBound = true

/-- The query goes through an index that some staged record of the collection has no key for. -/
def IndexUnreadable (s : State δ) (t : Tx δ) (c : CollectionName) (query : Query δ) : Prop :=
  isIndexQuery query = true ∧ ∃ r ∈ t.stagedRecords, r.collection = c ∧
    ∃ name d fault, query.indexName = some name ∧ descriptorOf s.indexes c name = some d ∧
      extractIndexKey r.document d = .error fault

/-- No name of the collections concerned has a ':'. -/
def Plainly (t : Tx δ) (c : CollectionName) : Prop :=
  colon ∉ c ∧ ∀ r ∈ t.stagedRecords, colon ∉ r.collection

/-! ## What the code asks -/

theorem indexKeyStartsWith_iff {key keyPrefix : InMemoryIndexKey} :
    indexKeyStartsWith key keyPrefix = true ↔ keyPrefix <+: key := by
  rw [indexKeyStartsWith, Bool.and_eq_true, decide_eq_true_eq, beq_iff_eq]
  constructor
  · rintro ⟨-, htake⟩
    exact List.prefix_iff_eq_take.mpr htake.symm
  · intro h
    exact ⟨h.length_le, (List.prefix_iff_eq_take.mp h).symm⟩

theorem startsWith_iff {text pre : Bytes} : startsWith text pre = true ↔ pre <+: text := by
  rw [startsWith, Option.isSome_iff_exists]
  constructor
  · rintro ⟨rest, h⟩
    exact ⟨rest, (Bytes.stripPrefix_iff.mp h).symm⟩
  · rintro ⟨rest, h⟩
    exact ⟨rest, Bytes.stripPrefix_iff.mpr h.symm⟩

/-- Where entries are keyed by the parts of the index key, the two keys of a document are one. -/
theorem entryKey_eq (document : Json δ) (d : IndexDescriptor) :
    (entryKey document d : Except Fault InMemoryIndexKey) = extractIndexKey document d := by
  rw [entryKey]
  cases extractIndexKey document d <;> rfl

/-- **What the code asks of a record is what the query asks of it.** -/
theorem satisfies_iff {s : State δ} {query : Query δ} {record : VersionedRecord δ} :
    Satisfies s query record ↔ matchesQuery record query = true ∧ (isIndexQuery query = true →
      ∃ name d key, query.indexName = some name ∧
        descriptorOf s.indexes record.collection name = some d ∧
        entryKey record.document d = .ok key ∧ matchesIndexKey key query = true) := by
  simp only [entryKey_eq]
  rw [Satisfies, matchesQuery, isIndexQuery]
  cases hkind : query.kind with
  | all => simp
  | keyPrefix =>
    cases query.keyPrefix with
    | none => simp
    | some keyPrefix => simp [startsWith_iff]
  | jsonEquals =>
    cases query.jsonPath with
    | none => simp
    | some path =>
      cases query.jsonValue with
      | none => simp
      | some value =>
        simp only [jsonPathEquals]
        cases hfound : findSegments record.document (path.splitOn 46) <;> simp [hfound]
  | indexEquals => simp [HasKey, matchesIndexKey, hkind, indexKeyStartsWith_iff]
  | indexPrefix => simp [HasKey, matchesIndexKey, hkind, indexKeyStartsWith_iff]
  | indexRange => simp [HasKey, matchesIndexKey, hkind]

/-! ## Which records are answered -/

section

variable {s : State δ} {t : Tx δ} {c : CollectionName} {query : Query δ} {r : VersionedRecord δ}

theorem effective_of_staged (hr : r ∈ t.stagedRecords) :
    effective s t r.collection r.key = some r := by
  have hfind : t.stagedRecords.find? (fun r' => r'.collection = r.collection ∧ r'.key = r.key) =
      some r := by
    refine (find?_eq_some_of_unique ?_).mpr ⟨hr, by simp⟩
    intro a ha b hb hsame hsame'
    simp only [Bool.decide_and, Bool.and_eq_true, decide_eq_true_eq] at hsame hsame'
    have hput := mem_stagedRecords.mp ha
    rw [versionKeyOf, hsame.1, hsame.2, ← hsame'.1, ← hsame'.2] at hput
    exact Option.some_inj.mp (hput.symm.trans (mem_stagedRecords.mp hb))
  rw [effective, hfind]

/-- The effective record at a place is a staged one, or a committed one that is not touched. -/
theorem effective_iff {k : Key} :
    effective s t c k = some r ↔ (r ∈ t.stagedRecords ∧ r.collection = c ∧ r.key = k) ∨
      ((∀ r' ∈ t.stagedRecords, ¬ (r'.collection = c ∧ r'.key = k)) ∧ ¬ t.Erases c k ∧
        s.recordAt c k = some r) := by
  by_cases hstaged : ∃ r' ∈ t.stagedRecords, r'.collection = c ∧ r'.key = k
  · obtain ⟨r', hr', rfl, rfl⟩ := hstaged
    rw [effective_of_staged hr', Option.some_inj]
    constructor
    · rintro rfl
      exact Or.inl ⟨hr', rfl, rfl⟩
    · rintro (⟨hr, hc, hk⟩ | ⟨hno, -⟩)
      · have heq := effective_of_staged (s := s) hr
        rw [hc, hk, effective_of_staged hr', Option.some_inj] at heq
        exact heq
      · exact absurd ⟨rfl, rfl⟩ (hno r' hr')
  · have hno : ∀ r' ∈ t.stagedRecords, ¬ (r'.collection = c ∧ r'.key = k) :=
      fun r' hr' hplace => hstaged ⟨r', hr', hplace⟩
    have hfind : t.stagedRecords.find? (fun r' => r'.collection = c ∧ r'.key = k) = none :=
      List.find?_eq_none.mpr fun r' hr' hplace => hno r' hr' (by simpa using hplace)
    rw [effective, hfind]
    simp only
    by_cases herase : t.Erases c k
    · rw [if_pos herase]
      refine iff_of_false (fun h => by cases h) ?_
      rintro (⟨hr, hplace⟩ | ⟨-, hne, -⟩)
      · exact hno r hr hplace
      · exact hne herase
    · rw [if_neg herase]
      constructor
      · exact fun h => Or.inr ⟨hno, herase, h⟩
      · rintro (⟨hr, hplace⟩ | ⟨-, -, h⟩)
        · exact absurd hplace (hno r hr)
        · exact h

/-- Without ':' in the names, the transaction overlays a version key exactly when it has staged or
    erased the record itself. -/
theorem not_overlays_iff (hplain : Plainly t c) {k : Key} :
    ¬ t.Overlays (recordVersionKey c k) ↔
      (∀ r' ∈ t.stagedRecords, ¬ (r'.collection = c ∧ r'.key = k)) ∧ ¬ t.Erases c k := by
  have herases : recordVersionKey c k ∈ t.erases ↔ t.Erases c k :=
    ⟨fun h => ⟨h, parse_recordVersionKey hplain.1 k⟩, And.left⟩
  have hputs : recordVersionKey c k ∈ t.puts ↔
      ∃ r' ∈ t.stagedRecords, r'.collection = c ∧ r'.key = k := by
    constructor
    · intro h
      rw [Std.ExtTreeMap.mem_iff_isSome_getElem?, Option.isSome_iff_exists] at h
      obtain ⟨r', hr'⟩ := h
      have hkey := (t.staged _ _ hr').1
      have hmem : r' ∈ t.stagedRecords := mem_stagedRecords.mpr (by rw [versionKeyOf, hkey, hr'])
      exact ⟨r', hmem, recordVersionKey_inj (hplain.2 r' hmem) hplain.1 hkey⟩
    · rintro ⟨r', hr', rfl, rfl⟩
      rw [Std.ExtTreeMap.mem_iff_isSome_getElem?, show recordVersionKey r'.collection r'.key =
        versionKeyOf r' from rfl, mem_stagedRecords.mp hr']
      rfl
  rw [Overlays, herases, hputs, not_or, and_comm]
  simp only [not_exists, not_and]

/-- What an index of a consistent state finds is what has such a key. -/
theorem findsByIndex_iff (hs : IndexConsistent s) {q : Selector δ InMemoryIndexKey}
    (hr : s.recordAt c r.key = some r) :
    FindsByIndex s c q r.key ↔ ∃ name d key, q.indexName = some name ∧
      descriptorOf s.indexes r.collection name = some d ∧ entryKey r.document d = .ok key ∧
        q.matchesKey key = true := by
  rw [(InMemoryState.recordAt_keyed hr).1]
  constructor
  · rintro ⟨name, key, hname, hmatch, hfiles⟩
    obtain ⟨r', d, hr', hd, hkey⟩ := s.sound c name key r.key hfiles
    obtain rfl := Option.some_inj.mp (hr'.symm.trans hr)
    exact ⟨name, d, key, hname, hd, hkey, hmatch⟩
  · rintro ⟨name, d, key, hname, hd, hkey, hmatch⟩
    exact ⟨name, key, hname, hmatch, (hs.image c name d hd key r.key).mpr ⟨r, hr, hkey⟩⟩

/-- **The committed records a query answers.** -/
theorem committedAnswer_iff (hs : IndexConsistent s) (hplain : Plainly t c) :
    CommittedAnswer s t c (selector query) r ↔
      (∀ r' ∈ t.stagedRecords, ¬ (r'.collection = c ∧ r'.key = r.key)) ∧ ¬ t.Erases c r.key ∧
        s.recordAt c r.key = some r ∧ Satisfies s query r := by
  rw [CommittedAnswer, satisfies_iff]
  constructor
  · rintro ⟨hr, hfinds, hover, hmatch⟩
    rw [versionKeyOf, (InMemoryState.recordAt_keyed hr).1, not_overlays_iff hplain] at hover
    exact ⟨hover.1, hover.2, hr, hmatch, fun hindex => (findsByIndex_iff hs hr).mp (hfinds hindex)⟩
  · rintro ⟨hno, hne, hr, hmatch, hkey⟩
    refine ⟨hr, fun hindex => (findsByIndex_iff hs hr).mpr (hkey hindex), ?_, hmatch⟩
    rw [versionKeyOf, (InMemoryState.recordAt_keyed hr).1, not_overlays_iff hplain]
    exact ⟨hno, hne⟩

theorem stagedMatches_iff {q : Selector δ InMemoryIndexKey} :
    stagedMatches s q r = .ok true ↔ ∃ name d key, q.indexName = some name ∧
      descriptorOf s.indexes r.collection name = some d ∧ entryKey r.document d = .ok key ∧
        q.matchesKey key = true := by
  rw [stagedMatches]
  cases q.indexName with
  | none => simp
  | some name =>
    simp only [descriptorOf]
    cases hindex : OrderedMap.find₂ s.indexes r.collection name with
    | none => simp [hindex]
    | some index =>
      cases hkey : (entryKey r.document index.descriptor : Except Fault InMemoryIndexKey) <;>
        simp [hindex, hkey, Except.map]

/-- **The staged records a query answers.** -/
theorem stagedAnswer_iff : StagedAnswer s t c (selector query) r ↔
    r ∈ t.stagedRecords ∧ r.collection = c ∧ Satisfies s query r := by
  rw [StagedAnswer, StagedHere, satisfies_iff, stagedMatches_iff]
  constructor
  · rintro ⟨⟨hr, hc, hkey⟩, hmatch⟩
    exact ⟨hr, hc, hmatch, hkey⟩
  · rintro ⟨hr, hc, hmatch, hkey⟩
    exact ⟨⟨hr, hc, hkey⟩, hmatch⟩

end

/-! ## Each record once -/

/-- What looking up some keys finds sits under these keys. -/
theorem sublist_keys {s : State δ} {c : CollectionName} (keys : List Key) :
    ((keys.filterMap fun key => s.recordAt c key).map VersionedRecord.key).Sublist keys := by
  induction keys with
  | nil => exact List.Sublist.slnil
  | cons key keys ih =>
    rw [List.filterMap_cons]
    cases hr : s.recordAt c key with
    | none => exact List.Sublist.cons key ih
    | some r =>
      rw [List.map_cons, (InMemoryState.recordAt_keyed hr).2]
      exact List.Sublist.cons_cons key ih

theorem nodup_toList (keys : OrderedSet Key) : keys.toList.Nodup :=
  List.nodup_iff_pairwise_ne.mpr (Std.ExtTreeSet.distinct_toList.imp fun h heq =>
    h (Std.compare_eq_iff_eq.mpr heq))

/-- An index files a record under one key only. -/
theorem nodup_committedIndexRecords (s : State δ) (c : CollectionName)
    (q : Selector δ InMemoryIndexKey) :
    ((committedIndexRecords s c q).map VersionedRecord.key).Nodup := by
  rw [committedIndexRecords]
  cases q.indexName with
  | none => exact List.nodup_nil
  | some name =>
    simp only
    cases hindex : OrderedMap.find₂ s.indexes c name with
    | none => exact List.nodup_nil
    | some index =>
      simp only [List.map_flatMap]
      rw [List.nodup_flatMap]
      refine ⟨fun entry _ => (sublist_keys _).nodup (nodup_toList entry.2), ?_⟩
      refine List.Pairwise.filter _ ?_
      refine List.Pairwise.imp_of_mem ?_ (Std.ExtTreeMap.distinct_keys_toList (t := index.entries))
      intro a b ha hb hne k hk hk'
      -- a record filed under both keys would have both
      have hfiles : ∀ {e : InMemoryIndexKey × OrderedSet Key}, e ∈ index.entries.toList →
          k ∈ (e.2.toList.filterMap fun key => s.recordAt c key).map VersionedRecord.key →
          Files s.indexes c name e.1 k := fun {e} he hk =>
        ⟨index, hindex, holds_iff_mem_toList.mpr ⟨e.2, he, (sublist_keys _).subset hk⟩⟩
      obtain ⟨r, d, hr, hd, hkey⟩ := s.sound c name _ k (hfiles ha hk)
      obtain ⟨r', d', hr', hd', hkey'⟩ := s.sound c name _ k (hfiles hb hk')
      obtain rfl := Option.some_inj.mp (hr.symm.trans hr')
      obtain rfl := Option.some_inj.mp (hd.symm.trans hd')
      exact hne (Std.compare_eq_iff_eq.mpr (Except.ok.inj (hkey.symm.trans hkey')))

section

variable {s : State δ} {t : Tx δ} {c : CollectionName} {q : Selector δ InMemoryIndexKey}

/-- The committed records a query starts from have different keys. -/
theorem nodup_committedRecords {records : List (VersionedRecord δ)}
    (h : committedRecords s t c q = .ok records) : (records.map VersionedRecord.key).Nodup := by
  rw [committedRecords] at h
  by_cases hindex : q.isIndex = true
  · rw [if_pos hindex, committedIndexQuery_eq] at h
    obtain rfl := Except.ok.inj h
    exact nodup_committedIndexRecords s c q
  · rw [if_neg hindex] at h
    cases hrecords : s.records[c]? with
    | none =>
      simp only [hrecords, Except.ok.injEq] at h
      subst h
      exact List.nodup_nil
    | some inner =>
      simp only [hrecords, Except.ok.injEq] at h
      subst h
      refine (List.filter_sublist.map _).nodup ?_
      have hkeys : (inner.toList.map Prod.snd).map VersionedRecord.key = inner.toList.map Prod.fst := by
        rw [List.map_map]
        refine List.map_congr_left fun p hp => ?_
        have hat : s.recordAt c p.1 = some p.2 := by
          rw [InMemoryState.recordAt, OrderedMap.find₂, hrecords, Option.bind_some]
          exact Std.ExtTreeMap.mem_toList_iff_getElem?_eq_some.mp hp
        exact (InMemoryState.recordAt_keyed hat).2
      rw [hkeys, List.nodup_iff_pairwise_ne, List.pairwise_map]
      exact Std.ExtTreeMap.distinct_keys_toList.imp fun hne heq =>
        hne (Std.compare_eq_iff_eq.mpr heq)

/-- The staged records a query adds are of its collection. -/
theorem collection_of_stagedPart {staged : List (VersionedRecord δ)}
    (h : stagedPart s t c q = .ok staged) {r : VersionedRecord δ} (hr : r ∈ staged) :
    r ∈ t.stagedRecords ∧ r.collection = c := by
  obtain ⟨hmem, hfinds⟩ := (mem_filterE (mapError_eq_ok.mp h) r).mp hr
  refine ⟨hmem, ?_⟩
  rw [findsStaged] at hfinds
  by_contra hc
  rw [if_neg hc] at hfinds
  cases hfinds

/-- The staged records a query adds have different keys. -/
theorem nodup_stagedPart {staged : List (VersionedRecord δ)}
    (h : stagedPart s t c q = .ok staged) : (staged.map VersionedRecord.key).Nodup := by
  have hsub : staged.Sublist t.stagedRecords := filterE_sublist (mapError_eq_ok.mp h)
  have hnodup : (staged.map versionKeyOf).Nodup := (hsub.map _).nodup t.nodup_stagedRecords
  have hkeys : staged.map versionKeyOf =
      (staged.map VersionedRecord.key).map (recordVersionKey c) := by
    rw [List.map_map]
    refine List.map_congr_left fun r hr => ?_
    show recordVersionKey r.collection r.key = recordVersionKey c r.key
    rw [(collection_of_stagedPart h hr).2]
  rw [hkeys] at hnodup
  exact List.Nodup.of_map _ hnodup

/-- **No two answers of a query have one key.** -/
theorem nodup_queryRecords {records : List (VersionedRecord δ)}
    (h : queryRecords s t c q = .ok records) : (records.map VersionedRecord.key).Nodup := by
  rw [queryRecords] at h
  cases hcommitted : committedRecords s t c q with
  | error e => simp [hcommitted] at h
  | ok committed =>
    cases hstaged : stagedPart s t c q with
    | error e => simp [hcommitted, hstaged] at h
    | ok staged =>
      simp only [hcommitted, hstaged, Except.ok.injEq] at h
      subst h
      refine (List.filter_sublist.map _).nodup ?_
      rw [List.filter_append, List.map_append, List.nodup_append]
      refine ⟨(List.filter_sublist.map _).nodup (nodup_committedRecords hcommitted),
        (List.filter_sublist.map _).nodup (nodup_stagedPart hstaged), ?_⟩
      rintro k hk k' hk' rfl
      -- a committed record of a staged key is taken out again
      obtain ⟨r, hr, rfl⟩ := List.mem_map.mp hk
      obtain ⟨r', hr', hsame⟩ := List.mem_map.mp hk'
      obtain ⟨hr, hkept⟩ := List.mem_filter.mp hr
      obtain ⟨hmem, hc⟩ := collection_of_stagedPart hstaged (List.mem_filter.mp hr').1
      have hat := ((mem_committedRecords hcommitted r).mp hr).1
      have hversion : r.version ≠ 0 := Nat.pos_iff_ne_zero.mp (s.counted c r.key r hat).1
      have hvk : versionKeyOf r = versionKeyOf r' := by
        rw [versionKeyOf, versionKeyOf, (InMemoryState.recordAt_keyed hat).1, hc, hsame]
      have hput : versionKeyOf r ∈ t.puts := by
        rw [hvk, Std.ExtTreeMap.mem_iff_isSome_getElem?, mem_stagedRecords.mp hmem]
        rfl
      simp [superseded, hversion, hput] at hkept

end

/-! ## When a query throws -/

section

variable {s : State δ} {t : Tx δ} {c : CollectionName} {query : Query δ}

/-- **The loop over the staged records throws** exactly when it meets one without a key. -/
theorem stagedPart_throws_iff :
    (∃ staged, stagedPart s t c (selector query) = .ok staged) ↔ ¬ IndexUnreadable s t c query := by
  have hsearch : ∀ {r : VersionedRecord δ} {fault : Fault}, r.collection = c →
      (stagedMatches s (selector query) r = .error fault ↔ ∃ name d, query.indexName = some name ∧
        descriptorOf s.indexes c name = some d ∧ extractIndexKey r.document d = .error fault) := by
    rintro r fault rfl
    simp only [← entryKey_eq]
    rw [stagedMatches]
    cases hname : (selector query).indexName with
    | none => simp [show query.indexName = none from hname]
    | some name =>
      simp only [show query.indexName = some name from hname, descriptorOf]
      cases hindex : OrderedMap.find₂ s.indexes r.collection name with
      | none => simp [hindex]
      | some index =>
        cases hkey : (entryKey r.document index.descriptor : Except Fault InMemoryIndexKey) <;>
          simp [hindex, hkey, Except.map]
  constructor
  · rintro ⟨staged, h⟩ ⟨hindex, r, hr, hc, name, d, fault, hname, hd, hkey⟩
    have hthrows : findsStaged s c (selector query) r = .error fault := by
      rw [findsStaged, if_pos hc, if_pos (show (selector query).isIndex = true from hindex)]
      exact (hsearch hc).mpr ⟨name, d, hname, hd, hkey⟩
    exact filterE_ne_ok hr hthrows (mapError_eq_ok.mp h)
  · intro h
    cases hst : stagedPart s t c (selector query) with
    | ok staged => exact ⟨staged, rfl⟩
    | error e =>
      rw [stagedPart] at hst
      cases hfilter : filterE (findsStaged s c (selector query)) t.stagedRecords with
      | ok staged =>
        rw [hfilter] at hst
        cases hst
      | error fault =>
        obtain ⟨r, hr, hfinds⟩ := filterE_error hfilter
        rw [findsStaged] at hfinds
        by_cases hc : r.collection = c
        · rw [if_pos hc] at hfinds
          by_cases hindex : isIndexQuery query = true
          · rw [if_pos (show (selector query).isIndex = true from hindex)] at hfinds
            obtain ⟨name, d, hname, hd, hkey⟩ := (hsearch hc).mp hfinds
            exact absurd ⟨hindex, r, hr, hc, name, d, fault, hname, hd, hkey⟩ h
          · rw [if_neg (show ¬ (selector query).isIndex = true from hindex)] at hfinds
            cases hfinds
        · rw [if_neg hc] at hfinds
          cases hfinds

/-- **A query reads the transaction's own writes**: it answers the effective records of the
    collection that satisfy it, each once, and throws exactly when it goes through an index that
    some staged record of the collection has no key for. -/
theorem query_reads_own_writes (hs : IndexConsistent s) (hopen : t.isOpen = true)
    (hplain : Plainly t c) :
    (IndexUnreadable s t c query → (Cpp.query s t c query).1 = .error (thrown .nonScalar)) ∧
      (¬ IndexUnreadable s t c query → ∃ records, (Cpp.query s t c query).1 = .ok records ∧
        (records.map VersionedRecord.key).Nodup ∧
        ∀ r, r ∈ records ↔ effective s t c r.key = some r ∧ Satisfies s query r) := by
  obtain ⟨committed, hcommitted⟩ := committedRecords_total s t c (selector query)
  constructor
  · intro hunreadable
    cases hst : stagedPart s t c (selector query) with
    | ok staged => exact absurd hunreadable (stagedPart_throws_iff.mp ⟨staged, hst⟩)
    | error e =>
      have hrecords : queryRecords s t c (selector query) = .error (thrown .nonScalar) := by
        rw [queryRecords, hcommitted, hst, stagedPart_error hst]
      rw [Cpp.query, if_neg (by simp [hopen]), hrecords]
  · intro hreadable
    obtain ⟨staged, hst⟩ := stagedPart_throws_iff.mpr hreadable
    obtain ⟨records, hrecords⟩ : ∃ records, queryRecords s t c (selector query) = .ok records :=
      ⟨_, by rw [queryRecords, hcommitted, hst]⟩
    refine ⟨records, by rw [Cpp.query, if_neg (by simp [hopen]), hrecords],
      nodup_queryRecords hrecords, fun r => ?_⟩
    rw [mem_query hrecords, committedAnswer_iff hs hplain, stagedAnswer_iff, effective_iff]
    constructor
    · rintro (⟨hno, hne, hr, hsat⟩ | ⟨hr, hc, hsat⟩)
      · exact ⟨Or.inr ⟨hno, hne, hr⟩, hsat⟩
      · exact ⟨Or.inl ⟨hr, hc, rfl⟩, hsat⟩
    · rintro ⟨⟨hr, hc, -⟩ | ⟨hno, hne, hr⟩, hsat⟩
      · exact Or.inr ⟨hr, hc, hsat⟩
      · exact Or.inl ⟨hno, hne, hr, hsat⟩

end

/-! ## Queries by city, and names with a ':' -/

/-- The users of Rome, through the index. -/
def usersOfRome : Query Empty := .indexEquals (ascii "by_city") [.stringValue (ascii "Rome")]

/-- The only index key a query by city is about. -/
theorem descriptorOf_by_city {d : IndexDescriptor}
    (h : descriptorOf indexedState.indexes (ascii "users") (ascii "by_city") = some d) :
    d = { name := ascii "by_city", fields := [ascii "city"] } :=
  Option.some_inj.mp (h.symm.trans rfl)

/-- A staged user of Rome is found, before it is committed. -/
theorem query_reads_own_writes_roman :
    ∃ records, (query indexedState (putRoman indexedState) (ascii "users") usersOfRome).1 =
        .ok records ∧ (records.map VersionedRecord.key).Nodup ∧
      ∀ r, r ∈ records ↔ effective indexedState (putRoman indexedState) (ascii "users") r.key = some r ∧
        Satisfies indexedState usersOfRome r := by
  have hstaged : ∀ r ∈ (putRoman indexedState).stagedRecords,
      r = stagedRecord (ascii "users") (ascii "u1") roman := fun r hr => List.mem_singleton.mp hr
  refine (query_reads_own_writes indexConsistent_indexedState rfl ⟨by decide, ?_⟩).2 ?_
  · intro r hr
    rw [hstaged r hr]
    decide
  · rintro ⟨-, r, hr, -, name, d, fault, hname, hd, hkey⟩
    obtain rfl : ascii "by_city" = name := Option.some_inj.mp hname
    obtain rfl := descriptorOf_by_city hd
    rw [hstaged r hr] at hkey
    cases hkey

/-- A user that lives in no city, but in a list of them. -/
def putNowhere : Tx Empty :=
  (put .first indexedState InMemoryTransaction.begin (ascii "users") (ascii "u1")
    (.object [(ascii "city", .array [])])).2

/-- A record whose key has a ':'. -/
def putSplit : Tx Empty :=
  (put .first (InMemoryState.empty : State Empty) InMemoryTransaction.begin (ascii "a")
    (ascii "b:c") roman).2

/-- That record, committed. -/
def splitState : State Empty :=
  match commit InMemoryState.empty putSplit with
  | .ok r => r.1
  | .error _ => InMemoryState.empty

/-- A record of another collection, with the same version key. -/
def putAlias : Tx Empty :=
  (put .first splitState InMemoryTransaction.begin (ascii "a:b") (ascii "c") roman).2

/-- **A query can fail its own writes**: it throws where a staged record has no index key, and it
    misses a committed record whose version key a staged record of another collection has. -/
theorem own_writes_missed :
    (IndexConsistent indexedState ∧ putNowhere.isOpen = true ∧
      (query indexedState putNowhere (ascii "users") usersOfRome).1 = .error (thrown .nonScalar)) ∧
    (IndexConsistent splitState ∧ putAlias.isOpen = true ∧
      (query splitState putAlias (ascii "a") .all).1 = .ok [] ∧
      ∃ r, effective splitState putAlias (ascii "a") (ascii "b:c") = some r ∧
        Satisfies splitState .all r) := by
  refine ⟨⟨indexConsistent_indexedState, rfl, rfl⟩, ?_, rfl, rfl, ?_⟩
  · have hindexes : splitState.indexes = ∅ := rfl
    refine indexConsistent_of_no_indexes fun c name => ?_
    rw [hindexes]
    exact OrderedMap.find₂_empty c name
  · exact ⟨_, rfl, trivial⟩

end StateSpec.Cpp
