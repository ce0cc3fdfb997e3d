/-
  INDEXES of the in-memory backends — the first part of `memory/transaction.hpp`
  (`encode_index_value` to `add_record_to_indexes`), which `transaction.rs`, `transaction.go.tmpl`
  and `InMemoryTransaction.java` repeat.

  An index state is its descriptor with, for each index key, the set of the record keys filed under
  it.  A record is filed under the key that `extractIndexKey` reads off its document; a field that
  is not a scalar makes that fail.  The bindings differ in what keys the entries: the list of the
  encoded parts itself, or (in Go) one string made from them; that is the class `EntryKey`.

  Two views of a family of index states carry all proofs about them:
  * `descriptorOf indexes c name` — which descriptor index `name` of collection `c` has;
  * `Files indexes c name ikey k` — whether it files the record key `k` under the index key `ikey`.
  `removeRecordFromIndexes` and `addRecordToIndexes` keep the first view, and change the second by
  exactly one record (`files_remove`, `files_add`).
-/
import StateSpec.Backend
import StateSpec.Lib.OrderedMap

set_option linter.unusedSectionVars false

namespace StateSpec.Memory

/-- The encoded parts of an index key. -/
abbrev InMemoryIndexKey := List Bytes

/-- What the entries of an index are keyed by: a type that index keys are turned into. -/
class EntryKey (κ : Type) where
  ofParts : InMemoryIndexKey → κ

/-- Entries are keyed by the parts themselves. -/
instance : EntryKey InMemoryIndexKey := ⟨id⟩

variable {δ : Type} [Decimal δ]
variable {κ : Type} [Ord κ] [Std.TransOrd κ] [Std.LawfulEqOrd κ] [DecidableEq κ] [EntryKey κ]

structure InMemoryIndexState (κ : Type) [Ord κ] where
  descriptor : IndexDescriptor
  entries : Multimap κ Key

/-- The `indexes` of a state: by collection, then by index name. -/
abbrev Indexes (κ : Type) [Ord κ] :=
  OrderedMap CollectionName (OrderedMap Bytes (InMemoryIndexState κ))

/-! ## Index keys -/

/-- `empty_index_states`: the first of two indexes of one name wins. -/
def emptyIndexStates (descriptor : CollectionDescriptor) :
    OrderedMap Bytes (InMemoryIndexState κ) :=
  descriptor.indexes.foldl (fun states index => states.insertIfNew index.name ⟨index, ∅⟩) ∅

/-- `encode_index_value` of a field of a document. -/
def encodeIndexValue : Option (Json δ) → Except Fault Bytes
  | none => .ok (ascii "missing:")
  | some .null => .ok (ascii "null:")
  | some (.bool value) => .ok (ascii "bool:" ++ if value then ascii "true" else ascii "false")
  | some (.int64 value) => .ok (ascii "int:" ++ (Json.int64 value : Json δ).canonicalString)
  | some (.double value) => .ok (ascii "decimal:" ++ (Json.double value).canonicalString)
  | some (.string value) => .ok (ascii "string:" ++ value)
  | some (.array _) | some (.object _) => .error .nonScalar

/-- `extract_index_key` of a document. -/
def extractIndexKey (document : Json δ) (descriptor : IndexDescriptor) :
    Except Fault InMemoryIndexKey :=
  descriptor.fields.mapM fun field => encodeIndexValue (document.find field)

/-- The key of the entries a document belongs to. -/
def entryKey (document : Json δ) (descriptor : IndexDescriptor) : Except Fault κ :=
  (extractIndexKey document descriptor).map EntryKey.ofParts

/-- `encode_index_value` of a value of a query. -/
def encodeQueryIndexValue : IndexValue δ → Bytes
  | .nullValue => ascii "null:"
  | .stringValue value | .timestampValue value => ascii "string:" ++ value
  | .integerValue value => ascii "int:" ++ (Json.int64 value : Json δ).canonicalString
  | .decimalValue value => ascii "decimal:" ++ (Json.double value).canonicalString
  | .booleanValue value => ascii "bool:" ++ if value then ascii "true" else ascii "false"

/-- `extract_index_key` of the values of a query. -/
def extractQueryIndexKey (values : List (IndexValue δ)) : InMemoryIndexKey :=
  values.map encodeQueryIndexValue

/-- `index_key_starts_with`. -/
def indexKeyStartsWith (key keyPrefix : InMemoryIndexKey) : Bool :=
  decide (key.length ≥ keyPrefix.length) && key.take keyPrefix.length == keyPrefix

/-- `index_key_in_range`, for the order `cmp` of keys. -/
def keyInRange (cmp : κ → κ → Ordering) (key : κ) (lower upper : Option (IndexBound δ)) : Bool :=
  (match lower with
    | none => true
    | some bound =>
      let lowerKey := EntryKey.ofParts (extractQueryIndexKey bound.values)
      if bound.inclusive then cmp key lowerKey != .lt else cmp key lowerKey == .gt) &&
  (match upper with
    | none => true
    | some bound =>
      let upperKey := EntryKey.ofParts (extractQueryIndexKey bound.values)
      if bound.inclusive then cmp key upperKey != .gt else cmp key upperKey == .lt)

/-- `index_key_in_range`: both ends are compared lexicographically, component by component. -/
def indexKeyInRange (key : InMemoryIndexKey) (lower upper : Option (IndexBound δ)) : Bool :=
  keyInRange compare key lower upper

/-! ## Filing records -/

/-- Change every index of one collection; an error in any of them is an error of the whole. -/
def forIndexesOf (f : InMemoryIndexState κ → Except Fault (InMemoryIndexState κ)) (indexes : Indexes κ)
    (collection : CollectionName) : Except Fault (Indexes κ) :=
  match indexes[collection]? with
  | none => .ok indexes
  | some states => (OrderedMap.mapM f states).map fun states' => indexes.insert collection states'

/-- Take a record out of one index. -/
def removeRecordFromIndex (record : VersionedRecord δ) (index : InMemoryIndexState κ) :
    Except Fault (InMemoryIndexState κ) :=
  (entryKey record.document index.descriptor).map fun key =>
    { index with entries := index.entries.remove key record.key }

/-- `remove_record_from_indexes`. -/
def removeRecordFromIndexes (indexes : Indexes κ) (record : VersionedRecord δ) :
    Except Fault (Indexes κ) :=
  forIndexesOf (removeRecordFromIndex record) indexes record.collection

/-- Put a record into one index. -/
def addRecordToIndex (record : VersionedRecord δ) (index : InMemoryIndexState κ) :
    Except Fault (InMemoryIndexState κ) :=
  match entryKey record.document index.descriptor with
  | .error e => .error e
  | .ok key =>
    if index.descriptor.unique &&
        (index.entries.at' key).toList.any (fun existingKey => existingKey != record.key) then
      .error ((.uniqueIndexConflict record.collection index.descriptor.name))
    else .ok { index with entries := index.entries.add key record.key }

/-- `add_record_to_indexes`. -/
def addRecordToIndexes (indexes : Indexes κ) (record : VersionedRecord δ) : Except Fault (Indexes κ) :=
  forIndexesOf (addRecordToIndex record) indexes record.collection

/-! ## The two views of a family of index states -/

/-- The descriptor of index `name` of collection `c`. -/
def descriptorOf (indexes : Indexes κ) (c : CollectionName) (name : Bytes) :
    Option IndexDescriptor :=
  (OrderedMap.find₂ indexes c name).map InMemoryIndexState.descriptor

/-- Index `name` of collection `c` files the record key `k` under the index key `ikey`. -/
def Files (indexes : Indexes κ) (c : CollectionName) (name : Bytes) (ikey : κ)
    (k : Key) : Prop :=
  ∃ index, OrderedMap.find₂ indexes c name = some index ∧ index.entries.Holds ikey k

/-- No index stores an empty set of record keys. -/
def AllTidy (indexes : Indexes κ) : Prop :=
  ∀ c name index, OrderedMap.find₂ indexes c name = some index → index.entries.Tidy

theorem files_iff {indexes : Indexes κ} {c : CollectionName} {name : Bytes}
    {index : InMemoryIndexState κ} (h : OrderedMap.find₂ indexes c name = some index)
    (ikey : κ) (k : Key) :
    Files indexes c name ikey k ↔ index.entries.Holds ikey k := by
  constructor
  · rintro ⟨index', h', hholds⟩
    obtain rfl := Option.some_inj.mp (h.symm.trans h')
    exact hholds
  · exact fun hholds => ⟨index, h, hholds⟩

theorem not_files {indexes : Indexes κ} {c : CollectionName} {name : Bytes}
    (h : OrderedMap.find₂ indexes c name = none) (ikey : κ) (k : Key) :
    ¬ Files indexes c name ikey k := by
  rintro ⟨index, h', -⟩
  rw [h] at h'
  cases h'

/-- An index of `emptyIndexStates` files nothing, and has the first descriptor of its name. -/
theorem find_emptyIndexStates (d : CollectionDescriptor) (name : Bytes) :
    (emptyIndexStates d : OrderedMap Bytes (InMemoryIndexState κ))[name]? =
      (d.indexes.find? fun index => decide (index.name = name)).map fun index => ⟨index, ∅⟩ := by
  rw [emptyIndexStates]
  refine foldl_invariant (fun done (states : OrderedMap Bytes (InMemoryIndexState κ)) =>
    states[name]? = (done.find? fun index => decide (index.name = name)).map fun index =>
      ⟨index, ∅⟩) (by simp) ?_
  intro done index rest states _ hdone
  simp only [Std.ExtTreeMap.getElem?_insertIfNew, Std.ExtTreeMap.mem_iff_isSome_getElem?,
    Std.compare_eq_iff_eq, List.find?_append]
  by_cases hname : index.name = name
  · subst hname
    rw [hdone]
    cases done.find? fun i => decide (i.name = index.name) <;> simp
  · rw [if_neg (fun h => hname h.1), hdone]
    cases done.find? fun i => decide (i.name = name) <;> simp [hname]

theorem not_files_emptyIndexStates {indexes : Indexes κ} {c : CollectionName}
    {d : CollectionDescriptor} (h : indexes[c]? = some (emptyIndexStates d)) (name : Bytes)
    (ikey : κ) (k : Key) : ¬ Files indexes c name ikey k := by
  rintro ⟨index, hindex, hholds⟩
  rw [OrderedMap.find₂, h, Option.bind_some, find_emptyIndexStates] at hindex
  obtain ⟨_, -, rfl⟩ := Option.map_eq_some_iff.mp hindex
  exact Multimap.holds_empty ikey k hholds

/-- What a change of the indexes of one collection does to each index. -/
theorem forIndexesOf_ok {f : InMemoryIndexState κ → Except Fault (InMemoryIndexState κ)}
    {indexes indexes' : Indexes κ} {collection : CollectionName}
    (h : forIndexesOf f indexes collection = .ok indexes') (c : CollectionName) (name : Bytes) :
    (OrderedMap.find₂ indexes c name = none ∧ OrderedMap.find₂ indexes' c name = none) ∨
    ∃ index index', OrderedMap.find₂ indexes c name = some index ∧
      OrderedMap.find₂ indexes' c name = some index' ∧
      ((c = collection ∧ f index = .ok index') ∨ (c ≠ collection ∧ index' = index)) := by
  have same : ∀ index? : Option (InMemoryIndexState κ), c ≠ collection →
      OrderedMap.find₂ indexes c name = index? → OrderedMap.find₂ indexes' c name = index? →
      (OrderedMap.find₂ indexes c name = none ∧ OrderedMap.find₂ indexes' c name = none) ∨
      ∃ index index', OrderedMap.find₂ indexes c name = some index ∧
        OrderedMap.find₂ indexes' c name = some index' ∧
        ((c = collection ∧ f index = .ok index') ∨ (c ≠ collection ∧ index' = index)) := by
    intro index? hc h₁ h₂
    cases index? with
    | none => exact Or.inl ⟨h₁, h₂⟩
    | some index => exact Or.inr ⟨index, index, h₁, h₂, Or.inr ⟨hc, rfl⟩⟩
  rw [forIndexesOf] at h
  cases hstates : indexes[collection]? with
  | none =>
    simp only [hstates, Except.ok.injEq] at h
    subst h
    by_cases hc : c = collection
    · subst hc
      have hnone : OrderedMap.find₂ indexes c name = none := by
        rw [OrderedMap.find₂, hstates, Option.bind_none]
      exact Or.inl ⟨hnone, hnone⟩
    · exact same _ hc rfl rfl
  | some states =>
    simp only [hstates] at h
    cases hm : OrderedMap.mapM f states with
    | error e =>
      rw [hm] at h
      cases h
    | ok states' =>
      rw [hm] at h
      obtain rfl : indexes.insert collection states' = indexes' := by
        simpa only [Except.map, Except.ok.injEq] using h
      by_cases hc : c = collection
      · subst hc
        have hbefore : OrderedMap.find₂ indexes c name = states[name]? := by
          rw [OrderedMap.find₂, hstates, Option.bind_some]
        have hafter : OrderedMap.find₂ (indexes.insert c states') c name = states'[name]? := by
          rw [OrderedMap.find₂, OrderedMap.find_insert, if_pos rfl, Option.bind_some]
        rw [hbefore, hafter]
        rcases OrderedMap.mapM_ok hm name with hnone | ⟨index, index', h₁, hf, h₂⟩
        · exact Or.inl hnone
        · exact Or.inr ⟨index, index', h₁, h₂, Or.inl ⟨rfl, hf⟩⟩
      · refine same _ hc rfl ?_
        rw [OrderedMap.find₂, OrderedMap.find_insert, if_neg hc, OrderedMap.find₂]

/-- A failed change of the indexes of one collection failed at one of them. -/
theorem forIndexesOf_error {f : InMemoryIndexState κ → Except Fault (InMemoryIndexState κ)}
    {indexes : Indexes κ} {collection : CollectionName} {fault : Fault}
    (h : forIndexesOf f indexes collection = .error fault) :
    ∃ name index, OrderedMap.find₂ indexes collection name = some index ∧
      f index = .error fault := by
  rw [forIndexesOf] at h
  cases hstates : indexes[collection]? with
  | none =>
    simp only [hstates] at h
    cases h
  | some states =>
    simp only [hstates] at h
    cases hm : OrderedMap.mapM f states with
    | ok states' =>
      rw [hm] at h
      cases h
    | error fault' =>
      rw [hm] at h
      obtain rfl : fault' = fault := by simpa only [Except.map, Except.error.injEq] using h
      obtain ⟨name, index, hindex, hf⟩ := OrderedMap.mapM_error hm
      exact ⟨name, index, by rw [OrderedMap.find₂, hstates, Option.bind_some, hindex], hf⟩

/-- Without indexes there is nothing that could fail. -/
theorem forIndexesOf_total {f : InMemoryIndexState κ → Except Fault (InMemoryIndexState κ)}
    {indexes : Indexes κ} {collection : CollectionName}
    (h : ∀ name, descriptorOf indexes collection name = none) :
    ∃ indexes', forIndexesOf f indexes collection = .ok indexes' := by
  cases hf : forIndexesOf f indexes collection with
  | ok indexes' => exact ⟨indexes', rfl⟩
  | error fault =>
    obtain ⟨name, index, hindex, -⟩ := forIndexesOf_error hf
    have hnone := h name
    rw [descriptorOf, hindex] at hnone
    cases hnone

/-- A change of the indexes of one collection gives no collection its first index. -/
theorem mem_forIndexesOf {f : InMemoryIndexState κ → Except Fault (InMemoryIndexState κ)}
    {indexes indexes' : Indexes κ} {collection : CollectionName}
    (h : forIndexesOf f indexes collection = .ok indexes') (c : CollectionName) :
    c ∈ indexes' ↔ c ∈ indexes := by
  rw [forIndexesOf] at h
  cases hstates : indexes[collection]? with
  | none =>
    simp only [hstates, Except.ok.injEq] at h
    rw [h]
  | some states =>
    simp only [hstates] at h
    cases hm : OrderedMap.mapM f states with
    | error e =>
      rw [hm] at h
      cases h
    | ok states' =>
      rw [hm] at h
      obtain rfl : indexes.insert collection states' = indexes' := by
        simpa only [Except.map, Except.ok.injEq] using h
      rw [Std.ExtTreeMap.mem_insert, Std.compare_eq_iff_eq]
      refine ⟨fun hmem => hmem.elim (fun heq => ?_) id, Or.inr⟩
      rw [← heq, Std.ExtTreeMap.mem_iff_isSome_getElem?, hstates]
      rfl

theorem removeRecordFromIndex_ok {record : VersionedRecord δ} {index index' : InMemoryIndexState κ}
    (h : removeRecordFromIndex record index = .ok index') :
    ∃ key : κ, entryKey record.document index.descriptor = .ok key ∧
      index' = { index with entries := index.entries.remove key record.key } := by
  rw [removeRecordFromIndex] at h
  cases hkey : (entryKey record.document index.descriptor : Except Fault κ) with
  | error e =>
    rw [hkey] at h
    cases h
  | ok key =>
    rw [hkey] at h
    exact ⟨key, rfl, (by simpa only [Except.map, Except.ok.injEq] using h.symm)⟩

theorem addRecordToIndex_ok {record : VersionedRecord δ} {index index' : InMemoryIndexState κ}
    (h : addRecordToIndex record index = .ok index') :
    ∃ key : κ, entryKey record.document index.descriptor = .ok key ∧
      index' = { index with entries := index.entries.add key record.key } ∧
      (index.descriptor.unique = true → ∀ k, index.entries.Holds key k → k = record.key) := by
  rw [addRecordToIndex] at h
  cases hkey : (entryKey record.document index.descriptor : Except Fault κ) with
  | error e =>
    rw [hkey] at h
    cases h
  | ok key =>
    simp only [hkey] at h
    split at h
    · cases h
    · rename_i hno
      refine ⟨key, rfl, (Except.ok.inj h).symm, fun hunique k hk => ?_⟩
      by_contra hne
      refine hno ?_
      rw [hunique, Bool.true_and, List.any_eq_true]
      exact ⟨k, Std.ExtTreeSet.mem_toList.mpr hk, by simpa using hne⟩

/-! ## Which faults filing can end in -/

theorem entryKey_error {document : Json δ} {descriptor : IndexDescriptor} {fault : Fault}
    (h : (entryKey document descriptor : Except Fault κ) = .error fault) : fault = .nonScalar := by
  rw [entryKey] at h
  cases hkey : extractIndexKey document descriptor with
  | ok key =>
    rw [hkey] at h
    cases h
  | error fault' =>
    rw [hkey] at h
    obtain rfl : fault' = fault := by simpa only [Except.map, Except.error.injEq] using h
    obtain ⟨field, -, hfield⟩ := listMapM_error hkey
    unfold encodeIndexValue at hfield
    split at hfield <;> cases hfield <;> rfl

theorem removeRecordFromIndexes_error {indexes : Indexes κ} {record : VersionedRecord δ}
    {fault : Fault} (h : removeRecordFromIndexes indexes record = .error fault) :
    fault.OfIndex := by
  obtain ⟨-, index, -, hindex⟩ := forIndexesOf_error h
  rw [removeRecordFromIndex] at hindex
  cases hkey : (entryKey record.document index.descriptor : Except Fault κ) with
  | ok key =>
    rw [hkey] at hindex
    cases hindex
  | error fault' =>
    rw [hkey] at hindex
    obtain rfl : fault' = fault := by simpa only [Except.map, Except.error.injEq] using hindex
    exact Or.inl (entryKey_error hkey)

theorem addRecordToIndexes_error {indexes : Indexes κ} {record : VersionedRecord δ}
    {fault : Fault} (h : addRecordToIndexes indexes record = .error fault) : fault.OfIndex := by
  obtain ⟨-, index, -, hindex⟩ := forIndexesOf_error h
  rw [addRecordToIndex] at hindex
  cases hkey : (entryKey record.document index.descriptor : Except Fault κ) with
  | ok key =>
    simp only [hkey] at hindex
    split at hindex
    · exact Or.inr ⟨_, _, (Except.error.inj hindex).symm⟩
    · cases hindex
  | error fault' =>
    simp only [hkey, Except.error.injEq] at hindex
    exact hindex ▸ Or.inl (entryKey_error hkey)

/-! ## What filing does to the two views -/

/-- The record's entry in index `name` of collection `c`: where the record belongs. -/
def Belongs (indexes : Indexes κ) (record : VersionedRecord δ) (c : CollectionName) (name : Bytes)
    (ikey : κ) (k : Key) : Prop :=
  c = record.collection ∧ k = record.key ∧
    ∃ d, descriptorOf indexes c name = some d ∧ entryKey record.document d = .ok ikey

theorem belongs_iff {indexes : Indexes κ} {record : VersionedRecord δ} {name : Bytes}
    {index : InMemoryIndexState κ} {key : κ}
    (h : OrderedMap.find₂ indexes record.collection name = some index)
    (hkey : entryKey record.document index.descriptor = .ok key) (ikey : κ)
    (k : Key) :
    Belongs indexes record record.collection name ikey k ↔ ikey = key ∧ k = record.key := by
  rw [Belongs, descriptorOf, h, Option.map_some]
  constructor
  · rintro ⟨-, hk, d, hd, hd'⟩
    obtain rfl := Option.some_inj.mp hd
    exact ⟨Except.ok.inj (hd'.symm.trans hkey), hk⟩
  · rintro ⟨rfl, hk⟩
    exact ⟨rfl, hk, _, rfl, hkey⟩

theorem descriptorOf_forIndexesOf {f : InMemoryIndexState κ → Except Fault (InMemoryIndexState κ)}
    (hf : ∀ index index', f index = .ok index' → index'.descriptor = index.descriptor)
    {indexes indexes' : Indexes κ} {collection : CollectionName}
    (h : forIndexesOf f indexes collection = .ok indexes') (c : CollectionName) (name : Bytes) :
    descriptorOf indexes' c name = descriptorOf indexes c name := by
  rw [descriptorOf, descriptorOf]
  rcases forIndexesOf_ok h c name with ⟨h₁, h₂⟩ | ⟨index, index', h₁, h₂, hcase⟩
  · rw [h₁, h₂]
  · rw [h₁, h₂]
    rcases hcase with ⟨_, hok⟩ | ⟨_, rfl⟩
    · rw [Option.map_some, Option.map_some, hf index index' hok]
    · rfl

theorem descriptorOf_remove {indexes indexes' : Indexes κ} {record : VersionedRecord δ}
    (h : removeRecordFromIndexes indexes record = .ok indexes') (c : CollectionName)
    (name : Bytes) : descriptorOf indexes' c name = descriptorOf indexes c name := by
  refine descriptorOf_forIndexesOf (fun index index' hok => ?_) h c name
  obtain ⟨key, -, rfl⟩ := removeRecordFromIndex_ok hok
  rfl

theorem descriptorOf_add {indexes indexes' : Indexes κ} {record : VersionedRecord δ}
    (h : addRecordToIndexes indexes record = .ok indexes') (c : CollectionName)
    (name : Bytes) : descriptorOf indexes' c name = descriptorOf indexes c name := by
  refine descriptorOf_forIndexesOf (fun index index' hok => ?_) h c name
  obtain ⟨key, -, rfl, -⟩ := addRecordToIndex_ok hok
  rfl

/-- **`remove_record_from_indexes` unfiles exactly the record**, from where it belongs. -/
theorem files_remove {indexes indexes' : Indexes κ} {record : VersionedRecord δ}
    (h : removeRecordFromIndexes indexes record = .ok indexes') (c : CollectionName)
    (name : Bytes) (ikey : κ) (k : Key) :
    Files indexes' c name ikey k ↔
      Files indexes c name ikey k ∧ ¬ Belongs indexes record c name ikey k := by
  rcases forIndexesOf_ok h c name with ⟨h₁, h₂⟩ | ⟨index, index', h₁, h₂, ⟨rfl, hok⟩ | ⟨hc, rfl⟩⟩
  · simp only [not_files h₁, not_files h₂, false_and]
  · obtain ⟨key, hkey, rfl⟩ := removeRecordFromIndex_ok hok
    rw [files_iff h₁, files_iff h₂, belongs_iff h₁ hkey, Multimap.holds_remove]
  · rw [files_iff h₁, files_iff h₂]
    exact ⟨fun hk => ⟨hk, fun hb => hc hb.1⟩, And.left⟩

/-- **`add_record_to_indexes` files exactly the record**, where it belongs. -/
theorem files_add {indexes indexes' : Indexes κ} {record : VersionedRecord δ}
    (h : addRecordToIndexes indexes record = .ok indexes') (c : CollectionName)
    (name : Bytes) (ikey : κ) (k : Key) :
    Files indexes' c name ikey k ↔
      Files indexes c name ikey k ∨ Belongs indexes record c name ikey k := by
  rcases forIndexesOf_ok h c name with ⟨h₁, h₂⟩ | ⟨index, index', h₁, h₂, ⟨rfl, hok⟩ | ⟨hc, rfl⟩⟩
  · simp only [not_files h₁, not_files h₂, false_or, false_iff]
    rintro ⟨-, -, d, hd, -⟩
    rw [descriptorOf, h₁] at hd
    cases hd
  · obtain ⟨key, hkey, rfl, -⟩ := addRecordToIndex_ok hok
    rw [files_iff h₁, files_iff h₂, belongs_iff h₁ hkey, Multimap.holds_add, or_comm]
  · rw [files_iff h₁, files_iff h₂]
    exact ⟨Or.inl, fun hk => hk.resolve_right fun hb => hc hb.1⟩

theorem tidy_remove {indexes indexes' : Indexes κ} {record : VersionedRecord δ}
    (h : removeRecordFromIndexes indexes record = .ok indexes') (ht : AllTidy indexes) :
    AllTidy indexes' := by
  intro c name index' hindex'
  rcases forIndexesOf_ok h c name with ⟨_, h₂⟩ | ⟨index, _, h₁, h₂, ⟨_, hok⟩ | ⟨_, rfl⟩⟩
  · rw [h₂] at hindex'
    cases hindex'
  · obtain rfl := Option.some_inj.mp (h₂.symm.trans hindex')
    obtain ⟨key, -, rfl⟩ := removeRecordFromIndex_ok hok
    exact Multimap.tidy_remove (ht c name index h₁) _ _
  · obtain rfl := Option.some_inj.mp (h₂.symm.trans hindex')
    exact ht c name _ h₁

theorem tidy_add {indexes indexes' : Indexes κ} {record : VersionedRecord δ}
    (h : addRecordToIndexes indexes record = .ok indexes') (ht : AllTidy indexes) :
    AllTidy indexes' := by
  intro c name index' hindex'
  rcases forIndexesOf_ok h c name with ⟨_, h₂⟩ | ⟨index, _, h₁, h₂, ⟨_, hok⟩ | ⟨_, rfl⟩⟩
  · rw [h₂] at hindex'
    cases hindex'
  · obtain rfl := Option.some_inj.mp (h₂.symm.trans hindex')
    obtain ⟨key, -, rfl, -⟩ := addRecordToIndex_ok hok
    exact Multimap.tidy_add (ht c name index h₁) _ _
  · obtain rfl := Option.some_inj.mp (h₂.symm.trans hindex')
    exact ht c name _ h₁

/-- A record that was added is alone under its key of every unique index of its collection. -/
theorem add_unique {indexes indexes' : Indexes κ} {record : VersionedRecord δ}
    (h : addRecordToIndexes indexes record = .ok indexes') {name : Bytes} {d : IndexDescriptor}
    (hd : descriptorOf indexes record.collection name = some d) (hunique : d.unique = true)
    {ikey : κ} (hkey : entryKey record.document d = .ok ikey) {k : Key}
    (hk : Files indexes record.collection name ikey k) : k = record.key := by
  rw [descriptorOf] at hd
  obtain ⟨index, hindex, rfl⟩ := Option.map_eq_some_iff.mp hd
  obtain ⟨_, hindex₂, hholds⟩ := hk
  obtain rfl := Option.some_inj.mp (hindex.symm.trans hindex₂)
  rcases forIndexesOf_ok h record.collection name with
    ⟨h₁, _⟩ | ⟨_, _, h₁, _, ⟨_, hok⟩ | ⟨hc, _⟩⟩
  · rw [h₁] at hindex
    cases hindex
  · obtain rfl := Option.some_inj.mp (h₁.symm.trans hindex)
    obtain ⟨key, hkey', -, halone⟩ := addRecordToIndex_ok hok
    obtain rfl := Except.ok.inj (hkey'.symm.trans hkey)
    exact halone hunique k hholds
  · exact absurd rfl hc

end StateSpec.Memory
