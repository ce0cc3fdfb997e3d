/-
  THE SHARED STATE of an in-memory backend: collections, records, indexes and versions.

  A record lives at a collection and a key; its version counter lives in ONE flat map, under the
  text `record:<collection>:<key>` (`recordVersionKey`).  Two different records share a counter when
  a collection name contains a ':', and `parseRecordVersionKey` — which cuts at the FIRST ':' — then
  names only one of them.  What survives without any assumption on names is `parse_sound`; under
  names free of ':' the two functions are inverse (`parse_recordVersionKey`).

  `InMemoryState` carries what every call keeps:
  * `keyed`   — a record knows the place it is stored at;
  * `counted` — a committed version is positive (0 means "absent" or "staged") and not ahead of its
                counter;
  * `sound`   — what an index files is a live record, under the key its document has now;
  * `indexed` — only registered collections have indexes.
-/
import StateSpec.Memory.Index

set_option linter.unusedSectionVars false

namespace StateSpec.Memory

variable {δ : Type} [Decimal δ]
variable {κ : Type} [Ord κ] [Std.TransOrd κ] [Std.LawfulEqOrd κ] [DecidableEq κ] [EntryKey κ]

/-! ## Version keys -/

/-- `"record:"`. -/
def recordPrefix : Bytes := ascii "record:"

/-- `record_version_key`. -/
def recordVersionKey (collection : CollectionName) (key : Key) : Bytes :=
  recordPrefix ++ (collection ++ colon :: key)

/-- `parse_record_version_key`. -/
def parseRecordVersionKey (versionKey : Bytes) : Option (CollectionName × Key) :=
  (Bytes.stripPrefix recordPrefix versionKey).bind (Bytes.splitOnce colon)

/-- What a version key parses to has that version key, whatever the names are. -/
theorem parse_sound {versionKey : Bytes} {c : CollectionName} {k : Key}
    (h : parseRecordVersionKey versionKey = some (c, k)) :
    recordVersionKey c k = versionKey ∧ colon ∉ c := by
  obtain ⟨rest, hrest, hsplit⟩ := Option.bind_eq_some_iff.mp h
  obtain ⟨rfl, hc⟩ := Bytes.splitOnce_sound hsplit
  exact ⟨(Bytes.stripPrefix_iff.mp hrest).symm, hc⟩

/-- A version key parses back when the collection name has no ':'. -/
theorem parse_recordVersionKey {c : CollectionName} (hc : colon ∉ c) (k : Key) :
    parseRecordVersionKey (recordVersionKey c k) = some (c, k) := by
  have hstrip : Bytes.stripPrefix recordPrefix (recordVersionKey c k) = some (c ++ colon :: k) :=
    Bytes.stripPrefix_iff.mpr rfl
  rw [parseRecordVersionKey, hstrip, Option.bind_some, Bytes.splitOnce_glue k hc]

/-- Version keys of collections without ':' in their names never clash. -/
theorem recordVersionKey_inj {c c' : CollectionName} {k k' : Key} (hc : colon ∉ c)
    (hc' : colon ∉ c') (h : recordVersionKey c k = recordVersionKey c' k') : c = c' ∧ k = k' :=
  Bytes.glue_inj hc hc' (List.append_cancel_left h)

/-- Version keys never clash within one collection. -/
theorem recordVersionKey_inj_right {c : CollectionName} {k k' : Key}
    (h : recordVersionKey c k = recordVersionKey c k') : k = k' := by
  have hkey := List.append_cancel_left (List.append_cancel_left h)
  exact (List.cons.inj hkey).2

example : parseRecordVersionKey (recordVersionKey (ascii "a:b") (ascii "c")) =
    some (ascii "a", ascii "b:c") := by decide

/-! ## Records and versions -/

/-- The `records` of a state: by collection, then by key. -/
abbrev Records (δ : Type) := OrderedMap CollectionName (OrderedMap Key (VersionedRecord δ))

/-- The `versions` of a state, by version key. -/
abbrev Versions := OrderedMap Bytes Version

/-- `version_or_zero`. -/
def versionOrZero (versions : Versions) (versionKey : Bytes) : Version :=
  versions[versionKey]?.getD 0

/-- `++versions[version_key]`. -/
def bump (versions : Versions) (versionKey : Bytes) : Versions :=
  versions.insert versionKey (versionOrZero versions versionKey + 1)

theorem versionOrZero_bump (versions : Versions) (versionKey vk : Bytes) :
    versionOrZero (bump versions versionKey) vk =
      versionOrZero versions vk + if vk = versionKey then 1 else 0 := by
  rw [versionOrZero, bump, OrderedMap.find_insert]
  by_cases h : vk = versionKey
  · rw [if_pos h, if_pos h, h, Option.getD_some]
  · rw [if_neg h, if_neg h, Nat.add_zero, versionOrZero]

/-- `erase_record`. -/
def eraseRecord (records : Records δ) (versionKey : Bytes) : Records δ :=
  match parseRecordVersionKey versionKey with
  | none => records
  | some (collection, key) => OrderedMap.erase₂ records collection key

theorem find_eraseRecord (records : Records δ) (versionKey : Bytes) (c : CollectionName) (k : Key) :
    OrderedMap.find₂ (eraseRecord records versionKey) c k =
      if parseRecordVersionKey versionKey = some (c, k) then none
      else OrderedMap.find₂ records c k := by
  rw [eraseRecord]
  cases hparse : parseRecordVersionKey versionKey with
  | none => rw [if_neg (by simp)]
  | some place =>
    obtain ⟨collection, key⟩ := place
    rw [OrderedMap.find₂_erase₂]
    by_cases h : c = collection ∧ k = key
    · rw [if_pos h, if_pos (by rw [h.1, h.2])]
    · rw [if_neg h, if_neg]
      rintro heq
      obtain ⟨rfl, rfl⟩ := Prod.mk.inj (Option.some_inj.mp heq)
      exact h ⟨rfl, rfl⟩

/-! ## The state -/

/-- Every record knows where it is stored. -/
def Keyed (records : Records δ) : Prop :=
  ∀ c k r, OrderedMap.find₂ records c k = some r → r.collection = c ∧ r.key = k

/-- Every version is positive and not ahead of its counter. -/
def Counted (records : Records δ) (versions : Versions) : Prop :=
  ∀ c k r, OrderedMap.find₂ records c k = some r →
    0 < r.version ∧ r.version ≤ versionOrZero versions (recordVersionKey c k)

/-- What an index files is a live record, under the key of its document. -/
def Sound (records : Records δ) (indexes : Indexes κ) : Prop :=
  ∀ c name ikey k, Files indexes c name ikey k →
    ∃ r d, OrderedMap.find₂ records c k = some r ∧ descriptorOf indexes c name = some d ∧
      entryKey r.document d = .ok ikey

/-- `InMemoryState`. -/
structure InMemoryState (δ κ : Type) [Decimal δ] [Ord κ] [Std.TransOrd κ] [EntryKey κ] where
  collections : OrderedMap CollectionName CollectionDescriptor
  records : Records δ
  indexes : Indexes κ
  versions : Versions
  keyed : Keyed records
  counted : Counted records versions
  sound : Sound records indexes
  indexed : ∀ c, c ∈ indexes → c ∈ collections

namespace InMemoryState

/-- A backend nobody has used. -/
def empty : InMemoryState δ κ where
  collections := ∅
  records := ∅
  indexes := ∅
  versions := ∅
  keyed c k r h := by simp [OrderedMap.find₂] at h
  counted c k r h := by simp [OrderedMap.find₂] at h
  sound c name ikey k h := by
    obtain ⟨index, hindex, -⟩ := h
    simp [OrderedMap.find₂] at hindex
  indexed c h := by simp at h

/-- The record at a collection and a key. -/
def recordAt (s : InMemoryState δ κ) (c : CollectionName) (k : Key) :
    Option (VersionedRecord δ) :=
  OrderedMap.find₂ s.records c k

/-- What `get` reports as the version of a record: 0 when there is none. -/
def recordVersion (s : InMemoryState δ κ) (c : CollectionName) (k : Key) : Version :=
  match s.recordAt c k with
  | none => 0
  | some r => r.version

/-- The version counter of a version key. -/
def counter (s : InMemoryState δ κ) (versionKey : Bytes) : Version :=
  versionOrZero s.versions versionKey

theorem recordVersion_le (s : InMemoryState δ κ) (c : CollectionName) (k : Key) :
    s.recordVersion c k ≤ s.counter (recordVersionKey c k) := by
  rw [recordVersion]
  cases h : s.recordAt c k with
  | none => exact Nat.zero_le _
  | some r => exact (s.counted c k r h).2

theorem recordAt_keyed {s : InMemoryState δ κ} {c : CollectionName} {k : Key}
    {r : VersionedRecord δ} (h : s.recordAt c k = some r) : r.collection = c ∧ r.key = k :=
  s.keyed c k r h

/-- The records of a collection are the records at its places. -/
theorem mem_collection {s : InMemoryState δ κ} {c : CollectionName}
    {records : OrderedMap Key (VersionedRecord δ)} (h : s.records[c]? = some records)
    {r : VersionedRecord δ} :
    r ∈ records.toList.map Prod.snd ↔ s.recordAt c r.key = some r := by
  have hat : ∀ k, s.recordAt c k = records[k]? := fun k => by
    rw [recordAt, OrderedMap.find₂, h, Option.bind_some]
  rw [List.mem_map]
  constructor
  · rintro ⟨⟨k, r'⟩, hmem, rfl⟩
    have hr' := Std.ExtTreeMap.mem_toList_iff_getElem?_eq_some.mp hmem
    rw [← hat] at hr'
    rw [(recordAt_keyed hr').2, hr']
  · intro hr
    rw [hat] at hr
    exact ⟨(r.key, r), Std.ExtTreeMap.mem_toList_iff_getElem?_eq_some.mpr hr, rfl⟩

theorem recordVersion_of_some {s : InMemoryState δ κ} {c : CollectionName} {k : Key}
    {r : VersionedRecord δ} (h : s.recordAt c k = some r) : s.recordVersion c k = r.version := by
  rw [recordVersion, h]

theorem recordVersion_of_none {s : InMemoryState δ κ} {c : CollectionName} {k : Key}
    (h : s.recordAt c k = none) : s.recordVersion c k = 0 := by
  rw [recordVersion, h]

end InMemoryState

end StateSpec.Memory
