/-
  QUERIES of the in-memory backends: what all bindings share.

  A query of a binding is read through its `Selector`: whether it is an index query, which index it
  names, which index keys it accepts and which records it accepts.  From the selector all bindings
  derive the same two things:

  * `committedIndexRecords` — the committed records an index query finds (`mem_committedIndex`);
  * `stagedMatches`         — whether an index query would find a staged record.

  What they do with these differs, and is modelled binding by binding.
-/
import StateSpec.Memory.Commit

set_option linter.unusedSectionVars false

namespace StateSpec.Memory

variable {δ : Type} [Decimal δ]
variable {κ : Type} [Ord κ] [Std.TransOrd κ] [Std.LawfulEqOrd κ] [DecidableEq κ] [EntryKey κ]

/-- A call on an open transaction; `Q` is the binding's type of queries. -/
inductive Operation (δ Q : Type) where
  | get (collection : CollectionName) (key : Key)
  | query (collection : CollectionName) (query : Q)
  | put (collection : CollectionName) (key : Key) (document : Json δ)
  | erase (collection : CollectionName) (key : Key)

/-- What a call that did not fail answers. -/
inductive Answer (δ : Type) where
  | record (record : Option (VersionedRecord δ))
  | records (records : List (VersionedRecord δ))
  | done

/-- How a query of any binding reads indexes and records. -/
structure Selector (δ κ : Type) where
  /-- `is_index_query`. -/
  isIndex : Bool
  /-- The index the query names, if it does. -/
  indexName : Option Bytes
  /-- `matches_index_key`. -/
  matchesKey : κ → Bool
  /-- `matches`. -/
  matchesRecord : VersionedRecord δ → Bool

/-- `committed_index_query_locked`: the records filed under the accepted keys of the index. -/
def committedIndexRecords (s : InMemoryState δ κ) (collection : CollectionName)
    (q : Selector δ κ) : List (VersionedRecord δ) :=
  match q.indexName with
  | none => []
  | some name =>
    match OrderedMap.find₂ s.indexes collection name with
    | none => []
    | some index =>
      (index.entries.toList.filter fun entry => q.matchesKey entry.1).flatMap fun entry =>
        entry.2.toList.filterMap fun key => s.recordAt collection key

/-- The query finds the committed record `k` of collection `c` through its index. -/
def FindsByIndex (s : InMemoryState δ κ) (c : CollectionName) (q : Selector δ κ) (k : Key) : Prop :=
  ∃ name ikey, q.indexName = some name ∧ q.matchesKey ikey = true ∧ Files s.indexes c name ikey k

theorem holds_iff_mem_toList {m : Multimap κ Key} {ikey : κ} {k : Key} :
    m.Holds ikey k ↔ ∃ keys, (ikey, keys) ∈ m.toList ∧ k ∈ keys.toList := by
  rw [Multimap.Holds, Multimap.at']
  cases hm : m[ikey]? with
  | none =>
    constructor
    · intro h
      simp at h
    · rintro ⟨keys, hmem, -⟩
      rw [Std.ExtTreeMap.mem_toList_iff_getElem?_eq_some, hm] at hmem
      cases hmem
  | some keys =>
    constructor
    · exact fun h => ⟨keys, Std.ExtTreeMap.mem_toList_iff_getElem?_eq_some.mpr hm,
        Std.ExtTreeSet.mem_toList.mpr h⟩
    · rintro ⟨keys', hmem, hk⟩
      rw [Std.ExtTreeMap.mem_toList_iff_getElem?_eq_some, hm] at hmem
      obtain rfl := Option.some_inj.mp hmem
      exact Std.ExtTreeSet.mem_toList.mp hk

/-- **What an index query finds among the committed records.** -/
theorem mem_committedIndex {s : InMemoryState δ κ} {c : CollectionName} {q : Selector δ κ}
    {r : VersionedRecord δ} :
    r ∈ committedIndexRecords s c q ↔ ∃ k, FindsByIndex s c q k ∧ s.recordAt c k = some r := by
  rw [committedIndexRecords]
  cases hname : q.indexName with
  | none => simp [FindsByIndex, hname]
  | some name =>
    cases hindex : OrderedMap.find₂ s.indexes c name with
    | none =>
      simp only [hindex, List.not_mem_nil, false_iff]
      rintro ⟨k, ⟨name', ikey, hname', -, hfiles⟩, -⟩
      obtain rfl := Option.some_inj.mp (hname.symm.trans hname')
      exact not_files hindex ikey k hfiles
    | some index =>
      simp only [hindex, List.mem_flatMap, List.mem_filter, List.mem_filterMap]
      constructor
      · rintro ⟨⟨ikey, keys⟩, ⟨hmem, hkey⟩, k, hk, hr⟩
        exact ⟨k, ⟨name, ikey, hname, hkey, index, hindex,
          holds_iff_mem_toList.mpr ⟨keys, hmem, hk⟩⟩, hr⟩
      · rintro ⟨k, ⟨name', ikey, hname', hkey, hfiles⟩, hr⟩
        obtain rfl := Option.some_inj.mp (hname.symm.trans hname')
        obtain ⟨keys, hmem, hk⟩ := holds_iff_mem_toList.mp ((files_iff hindex ikey k).mp hfiles)
        exact ⟨(ikey, keys), ⟨hmem, hkey⟩, k, hk, hr⟩

/-- `staged_record_matches_index_query`. -/
def stagedMatches (s : InMemoryState δ κ) (q : Selector δ κ) (record : VersionedRecord δ) :
    Except Fault Bool :=
  match q.indexName with
  | none => .ok false
  | some name =>
    match OrderedMap.find₂ s.indexes record.collection name with
    | none => .ok false
    | some index => (entryKey record.document index.descriptor).map q.matchesKey

/-- Looking for a staged record fails in one way only. -/
theorem stagedMatches_error {s : InMemoryState δ κ} {q : Selector δ κ} {r : VersionedRecord δ}
    {fault : Fault} (h : stagedMatches s q r = .error fault) : fault = .nonScalar := by
  rw [stagedMatches] at h
  cases hname : q.indexName with
  | none => simp [hname] at h
  | some name =>
    cases hindex : OrderedMap.find₂ s.indexes r.collection name with
    | none => simp [hname, hindex] at h
    | some index =>
      simp only [hname, hindex] at h
      cases hkey : (entryKey r.document index.descriptor : Except Fault κ) with
      | ok ikey =>
        rw [hkey] at h
        cases h
      | error fault' =>
        rw [hkey] at h
        obtain rfl : fault' = fault := by simpa only [Except.map, Except.error.injEq] using h
        exact entryKey_error hkey

/-- The staged records depend on the shared state through the descriptors of the indexes. -/
theorem stagedMatches_congr {s s' : InMemoryState δ κ} (q : Selector δ κ) (r : VersionedRecord δ)
    (h : ∀ name, descriptorOf s'.indexes r.collection name =
      descriptorOf s.indexes r.collection name) :
    stagedMatches s' q r = stagedMatches s q r := by
  rw [stagedMatches, stagedMatches]
  cases q.indexName with
  | none => rfl
  | some name =>
    have hname := h name
    rw [descriptorOf, descriptorOf] at hname
    cases hindex : OrderedMap.find₂ s.indexes r.collection name <;>
      cases hindex' : OrderedMap.find₂ s'.indexes r.collection name <;>
      simp [hindex, hindex'] at hname ⊢
    rw [hname]

open InMemoryTransaction in
/-- A staged record of the collection that the query finds. -/
def StagedHere (s : InMemoryState δ κ) (t : InMemoryTransaction δ) (c : CollectionName)
    (q : Selector δ κ) (r : VersionedRecord δ) : Prop :=
  r ∈ t.stagedRecords ∧ r.collection = c ∧ (q.isIndex = true → stagedMatches s q r = .ok true)

/-- A staged record a query answers: found and accepted. -/
def StagedAnswer (s : InMemoryState δ κ) (t : InMemoryTransaction δ) (c : CollectionName)
    (q : Selector δ κ) (r : VersionedRecord δ) : Prop :=
  StagedHere s t c q r ∧ q.matchesRecord r = true

/-! ## The reads of a query -/

namespace InMemoryTransaction

/-- `record_read` of every record a query answers. -/
def recordReads (policy : ReadPolicy) (t : InMemoryTransaction δ)
    (records : List (VersionedRecord δ)) : InMemoryTransaction δ :=
  records.foldl (fun t r => t.recordRead policy (versionKeyOf r) r.version) t

/-- Reading changes the read set and nothing else. -/
theorem recordReads_frame (policy : ReadPolicy) (t : InMemoryTransaction δ)
    (records : List (VersionedRecord δ)) :
    (t.recordReads policy records).isOpen = t.isOpen ∧
      (t.recordReads policy records).puts = t.puts ∧
      (t.recordReads policy records).erases = t.erases := by
  induction records generalizing t with
  | nil => exact ⟨rfl, rfl, rfl⟩
  | cons r records ih => exact ih (t.recordRead policy (versionKeyOf r) r.version)

theorem mem_recordReads_of_mem (policy : ReadPolicy) {t : InMemoryTransaction δ} {vk : Bytes}
    (records : List (VersionedRecord δ)) (h : vk ∈ t.readVersions) :
    vk ∈ (t.recordReads policy records).readVersions := by
  induction records generalizing t with
  | nil => exact h
  | cons r records ih =>
    refine ih (t := t.recordRead policy (versionKeyOf r) r.version) ?_
    cases policy with
    | first => exact Std.ExtTreeMap.mem_insertIfNew.mpr (Or.inr h)
    | latest => exact Std.ExtTreeMap.mem_insert.mpr (Or.inr h)

/-- What a query answers is in the read set. -/
theorem mem_recordReads (policy : ReadPolicy) (t : InMemoryTransaction δ)
    {records : List (VersionedRecord δ)} {r : VersionedRecord δ} (h : r ∈ records) :
    versionKeyOf r ∈ (t.recordReads policy records).readVersions := by
  induction records generalizing t with
  | nil => cases h
  | cons r' records ih =>
    rcases List.mem_cons.mp h with rfl | h
    · exact mem_recordReads_of_mem policy records (mem_recordRead policy t _ _)
    · exact ih (t.recordRead policy (versionKeyOf r') r'.version) h

end InMemoryTransaction

/-! ## One call of a binding -/

open InMemoryTransaction in
/-- One call on a transaction, for the read policy, the errors and the `query` of a binding. -/
def exec {Q ε : Type} (policy : ReadPolicy) (raise : Fault → ε)
    (query : InMemoryState δ κ → InMemoryTransaction δ → CollectionName → Q →
      Except ε (List (VersionedRecord δ)) × InMemoryTransaction δ)
    (o : Operation δ Q) (s : InMemoryState δ κ) (t : InMemoryTransaction δ) :
    Except ε (Answer δ) × InMemoryTransaction δ :=
  match o with
  | .get c k => let r := get policy s t c k; ((r.1.map .record).mapError raise, r.2)
  | .query c q => let r := query s t c q; (r.1.map .records, r.2)
  | .put c k document =>
    let r := put policy s t c k document
    ((r.1.map fun _ => .done).mapError raise, r.2)
  | .erase c k => let r := erase policy s t c k; ((r.1.map fun _ => .done).mapError raise, r.2)

/-! ## Matching -/

/-- Looking a segment up in what the segments before it led to. -/
def findSegments (document : Json δ) (segments : List Bytes) : Option (Json δ) :=
  segments.foldlM (fun current segment => current.find segment) document

/-- `std::string::starts_with`. -/
def startsWith (text pre : Bytes) : Bool := (Bytes.stripPrefix pre text).isSome

end StateSpec.Memory
