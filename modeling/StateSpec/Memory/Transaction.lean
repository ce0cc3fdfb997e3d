/-
  TRANSACTIONS of the in-memory backends: what one keeps, and `get`, `put` and `erase`.

  A transaction keeps the versions it read, the records it staged and the version keys it erased.
  `get`, `put` and `erase` are the same in every binding but for ONE thing, the `ReadPolicy`:

  * `ReadPolicy.first`  — C++ `emplace`s: the version observed first stays;
  * `ReadPolicy.latest` — Rust, Go and Java insert: a later read of the same key replaces it.

  `InMemoryTransaction` carries what every operation keeps: a staged record sits under its own
  version key with version 0 (`staged`), nothing is staged and erased at once (`disjoint`), and what
  is staged or erased has been read (`observed`).

  An answer comes with the transaction after it, also when it is a fault; `get_cases`, `put_cases`
  and `erase_cases` say everything the three operations can do.
-/
import StateSpec.Memory.State

set_option linter.unusedSectionVars false

namespace StateSpec.Memory

variable {δ : Type} [Decimal δ]
variable {κ : Type} [Ord κ] [Std.TransOrd κ] [Std.LawfulEqOrd κ] [DecidableEq κ] [EntryKey κ]

/-! ## What a transaction keeps -/

/-- `InMemoryTransaction`. -/
structure InMemoryTransaction (δ : Type) where
  isOpen : Bool
  readVersions : Versions
  puts : OrderedMap Bytes (VersionedRecord δ)
  erases : OrderedSet Bytes
  staged : ∀ vk r, puts[vk]? = some r → recordVersionKey r.collection r.key = vk ∧ r.version = 0
  disjoint : ∀ vk ∈ erases, puts[vk]? = none
  observed : ∀ vk, vk ∈ erases ∨ vk ∈ puts → vk ∈ readVersions

namespace InMemoryTransaction

/-- A transaction that has just begun. -/
def begin : InMemoryTransaction δ where
  isOpen := true
  readVersions := ∅
  puts := ∅
  erases := ∅
  staged vk r h := by simp at h
  disjoint vk h := by simp at h
  observed vk h := by simp at h

/-- `abort`. -/
def abort (_ : InMemoryTransaction δ) : InMemoryTransaction δ := { begin with isOpen := false }

/-- What becomes of an observation when its key is observed again. -/
inductive ReadPolicy where
  | first
  | latest
deriving DecidableEq

/-- `record_read`. -/
def recordRead (policy : ReadPolicy) (t : InMemoryTransaction δ) (versionKey : Bytes)
    (version : Version) : InMemoryTransaction δ :=
  { t with
    readVersions :=
      match policy with
      | .first => t.readVersions.insertIfNew versionKey version
      | .latest => t.readVersions.insert versionKey version
    observed := fun vk h => by
      cases policy with
      | first => exact Std.ExtTreeMap.mem_insertIfNew.mpr (Or.inr (t.observed vk h))
      | latest => exact Std.ExtTreeMap.mem_insert.mpr (Or.inr (t.observed vk h)) }

/-- The version observed under a version key, if any. -/
def observation (t : InMemoryTransaction δ) (versionKey : Bytes) : Option Version :=
  t.readVersions[versionKey]?

theorem mem_readVersions {t : InMemoryTransaction δ} {vk : Bytes} :
    vk ∈ t.readVersions ↔ ∃ v, t.observation vk = some v := by
  rw [Std.ExtTreeMap.mem_iff_isSome_getElem?, Option.isSome_iff_exists]
  rfl

theorem observation_recordRead_first (t : InMemoryTransaction δ) (versionKey vk : Bytes)
    (version : Version) :
    (t.recordRead .first versionKey version).observation vk =
      (t.observation vk).or (if vk = versionKey then some version else none) := by
  simp only [observation, recordRead, Std.ExtTreeMap.getElem?_insertIfNew,
    Std.ExtTreeMap.mem_iff_isSome_getElem?, Std.compare_eq_iff_eq]
  by_cases h : versionKey = vk
  · subst h
    cases t.readVersions[versionKey]? <;> simp
  · simp [h, Ne.symm h]

theorem observation_recordRead_latest (t : InMemoryTransaction δ) (versionKey vk : Bytes)
    (version : Version) :
    (t.recordRead .latest versionKey version).observation vk =
      if vk = versionKey then some version else t.observation vk := by
  simp only [observation, recordRead, OrderedMap.find_insert]

/-- A key that has just been observed is in the read set. -/
theorem mem_recordRead (policy : ReadPolicy) (t : InMemoryTransaction δ) (versionKey : Bytes)
    (version : Version) : versionKey ∈ (t.recordRead policy versionKey version).readVersions := by
  cases policy with
  | first => exact Std.ExtTreeMap.mem_insertIfNew.mpr (Or.inl Std.ReflCmp.compare_self)
  | latest => exact Std.ExtTreeMap.mem_insert.mpr (Or.inl Std.ReflCmp.compare_self)

/-! ## `get` -/

/-- `get`. -/
def get (policy : ReadPolicy) (s : InMemoryState δ κ) (t : InMemoryTransaction δ)
    (collection : CollectionName) (key : Key) :
    Except Fault (Option (VersionedRecord δ)) × InMemoryTransaction δ :=
  if t.isOpen = false then (.error .closed, t)
  else
    let versionKey := recordVersionKey collection key
    if versionKey ∈ t.erases then (.ok none, t)
    else
      match t.puts[versionKey]? with
      | some record => (.ok (some record), t)
      | none =>
        match s.recordAt collection key with
        | none => (.ok none, t.recordRead policy versionKey 0)
        | some record => (.ok (some record), t.recordRead policy versionKey record.version)

/-- The transaction has staged or erased the record itself: it does not look at the state. -/
def Overlays (t : InMemoryTransaction δ) (versionKey : Bytes) : Prop :=
  versionKey ∈ t.erases ∨ versionKey ∈ t.puts

instance (t : InMemoryTransaction δ) (versionKey : Bytes) : Decidable (t.Overlays versionKey) :=
  inferInstanceAs (Decidable (_ ∨ _))

/-- What `get` answers from the overlay. -/
def overlay (t : InMemoryTransaction δ) (versionKey : Bytes) : Option (VersionedRecord δ) :=
  if versionKey ∈ t.erases then none else t.puts[versionKey]?

/-- **Everything `get` can do**: it refuses, answers from the overlay without reading, or reads. -/
theorem get_cases (policy : ReadPolicy) (s : InMemoryState δ κ) (t : InMemoryTransaction δ)
    (c : CollectionName) (k : Key) :
    (t.isOpen = false ∧ get policy s t c k = (.error .closed, t)) ∨
    (t.isOpen = true ∧ t.Overlays (recordVersionKey c k) ∧
      get policy s t c k = (.ok (t.overlay (recordVersionKey c k)), t)) ∨
    (t.isOpen = true ∧ ¬ t.Overlays (recordVersionKey c k) ∧
      get policy s t c k = (.ok (s.recordAt c k),
        t.recordRead policy (recordVersionKey c k) (s.recordVersion c k))) := by
  by_cases hopen : t.isOpen = false
  · exact Or.inl ⟨hopen, by rw [get, if_pos hopen]⟩
  have hopen' : t.isOpen = true := by simpa using hopen
  by_cases herase : recordVersionKey c k ∈ t.erases
  · refine Or.inr (Or.inl ⟨hopen', Or.inl herase, ?_⟩)
    simp only [get, overlay, if_neg hopen, if_pos herase]
  cases hput : t.puts[recordVersionKey c k]? with
  | some r =>
    refine Or.inr (Or.inl ⟨hopen', Or.inr ?_, ?_⟩)
    · exact Std.ExtTreeMap.mem_iff_isSome_getElem?.mpr (by rw [hput]; rfl)
    · simp only [get, overlay, if_neg hopen, if_neg herase, hput]
  | none =>
    refine Or.inr (Or.inr ⟨hopen', ?_, ?_⟩)
    · rintro (h | h)
      · exact herase h
      · rw [Std.ExtTreeMap.mem_iff_isSome_getElem?, hput] at h
        cases h
    · simp only [get, if_neg hopen, if_neg herase, hput]
      cases hr : s.recordAt c k with
      | none => simp only [InMemoryState.recordVersion_of_none hr]
      | some r => simp only [InMemoryState.recordVersion_of_some hr]

/-- `get` from the overlay. -/
theorem get_of_overlays (policy : ReadPolicy) (s : InMemoryState δ κ) {t : InMemoryTransaction δ}
    {c : CollectionName} {k : Key} (hopen : t.isOpen = true)
    (hover : t.Overlays (recordVersionKey c k)) :
    get policy s t c k = (.ok (t.overlay (recordVersionKey c k)), t) := by
  rcases get_cases policy s t c k with ⟨h, _⟩ | ⟨_, _, h⟩ | ⟨_, h, _⟩
  · rw [hopen] at h
    cases h
  · exact h
  · exact absurd hover h

/-- `get` that reads. -/
theorem get_of_not_overlays (policy : ReadPolicy) (s : InMemoryState δ κ)
    {t : InMemoryTransaction δ} {c : CollectionName} {k : Key} (hopen : t.isOpen = true)
    (hover : ¬ t.Overlays (recordVersionKey c k)) :
    get policy s t c k = (.ok (s.recordAt c k),
      t.recordRead policy (recordVersionKey c k) (s.recordVersion c k)) := by
  rcases get_cases policy s t c k with ⟨h, _⟩ | ⟨_, h, _⟩ | ⟨_, _, h⟩
  · rw [hopen] at h
    cases h
  · exact absurd h hover
  · exact h

/-- `get` depends on the shared state through one record only. -/
theorem get_congr (policy : ReadPolicy) {s s' : InMemoryState δ κ} (t : InMemoryTransaction δ)
    {c : CollectionName} {k : Key} (h : s.recordAt c k = s'.recordAt c k) :
    get policy s t c k = get policy s' t c k := by
  simp only [get, h]

/-- After `get`, the key is in the read set of an open transaction. -/
theorem mem_readVersions_get (policy : ReadPolicy) (s : InMemoryState δ κ)
    {t : InMemoryTransaction δ} (hopen : t.isOpen = true) (c : CollectionName) (k : Key) :
    recordVersionKey c k ∈ (get policy s t c k).2.readVersions := by
  rcases get_cases policy s t c k with ⟨h, _⟩ | ⟨_, hover, h⟩ | ⟨_, _, h⟩
  · rw [hopen] at h
    cases h
  · rw [h]
    exact t.observed _ hover
  · rw [h]
    exact mem_recordRead policy t _ _

/-- `get` stages nothing and leaves the transaction open. -/
theorem get_frame (policy : ReadPolicy) (s : InMemoryState δ κ) (t : InMemoryTransaction δ)
    (c : CollectionName) (k : Key) :
    (get policy s t c k).2.isOpen = t.isOpen ∧ (get policy s t c k).2.puts = t.puts ∧
      (get policy s t c k).2.erases = t.erases := by
  rcases get_cases policy s t c k with ⟨_, h⟩ | ⟨_, _, h⟩ | ⟨_, _, h⟩ <;> rw [h] <;>
    exact ⟨rfl, rfl, rfl⟩

/-! ## `put` and `erase` -/

/-- The record `put` stages. -/
def stagedRecord (collection : CollectionName) (key : Key) (document : Json δ) :
    VersionedRecord δ :=
  { collection := collection, key := key, version := 0, document := document }

/-- `puts[version_key] = record; erases.erase(version_key)`. -/
def stage (t : InMemoryTransaction δ) (collection : CollectionName) (key : Key)
    (document : Json δ) (hread : recordVersionKey collection key ∈ t.readVersions) :
    InMemoryTransaction δ :=
  let versionKey := recordVersionKey collection key
  { t with
    puts := t.puts.insert versionKey (stagedRecord collection key document)
    erases := t.erases.erase versionKey
    staged := fun vk r h => by
      rw [OrderedMap.find_insert] at h
      by_cases hvk : vk = versionKey
      · rw [if_pos hvk] at h
        obtain rfl := Option.some_inj.mp h
        exact ⟨hvk.symm, rfl⟩
      · rw [if_neg hvk] at h
        exact t.staged vk r h
    disjoint := fun vk h => by
      obtain ⟨hne, hmem⟩ := Std.ExtTreeSet.mem_erase.mp h
      have hvk : vk ≠ versionKey := fun heq => hne (Std.compare_eq_iff_eq.mpr heq.symm)
      rw [OrderedMap.find_insert, if_neg hvk]
      exact t.disjoint vk hmem
    observed := fun vk h => by
      rcases h with h | h
      · exact t.observed vk (Or.inl (Std.ExtTreeSet.mem_erase.mp h).2)
      · rcases Std.ExtTreeMap.mem_insert.mp h with heq | hmem
        · exact Std.compare_eq_iff_eq.mp heq ▸ hread
        · exact t.observed vk (Or.inr hmem) }

/-- `puts.erase(version_key); erases.insert(version_key)`. -/
def unstage (t : InMemoryTransaction δ) (versionKey : Bytes)
    (hread : versionKey ∈ t.readVersions) : InMemoryTransaction δ :=
  { t with
    puts := t.puts.erase versionKey
    erases := t.erases.insert versionKey
    staged := fun vk r h => by
      rw [OrderedMap.find_erase] at h
      by_cases hvk : vk = versionKey
      · rw [if_pos hvk] at h
        cases h
      · rw [if_neg hvk] at h
        exact t.staged vk r h
    disjoint := fun vk h => by
      rw [OrderedMap.find_erase]
      by_cases hvk : vk = versionKey
      · rw [if_pos hvk]
      · rw [if_neg hvk]
        rcases Std.ExtTreeSet.mem_insert.mp h with heq | hmem
        · exact absurd (Std.compare_eq_iff_eq.mp heq).symm hvk
        · exact t.disjoint vk hmem
    observed := fun vk h => by
      rcases h with h | h
      · rcases Std.ExtTreeSet.mem_insert.mp h with heq | hmem
        · exact Std.compare_eq_iff_eq.mp heq ▸ hread
        · exact t.observed vk (Or.inl hmem)
      · exact t.observed vk (Or.inr (Std.ExtTreeMap.mem_erase.mp h).2) }

/-- `put`: a read of the record, and then the record is staged. -/
def put (policy : ReadPolicy) (s : InMemoryState δ κ) (t : InMemoryTransaction δ)
    (collection : CollectionName) (key : Key) (document : Json δ) :
    Except Fault Unit × InMemoryTransaction δ :=
  if hopen : t.isOpen = true then
    (.ok (), (get policy s t collection key).2.stage collection key document
      (mem_readVersions_get policy s hopen collection key))
  else (.error .closed, t)

/-- `erase`: a read of the record, and then its version key is erased. -/
def erase (policy : ReadPolicy) (s : InMemoryState δ κ) (t : InMemoryTransaction δ)
    (collection : CollectionName) (key : Key) : Except Fault Unit × InMemoryTransaction δ :=
  if hopen : t.isOpen = true then
    (.ok (), (get policy s t collection key).2.unstage (recordVersionKey collection key)
      (mem_readVersions_get policy s hopen collection key))
  else (.error .closed, t)

theorem put_cases (policy : ReadPolicy) (s : InMemoryState δ κ) (t : InMemoryTransaction δ)
    (c : CollectionName) (k : Key) (document : Json δ) :
    (t.isOpen = false ∧ put policy s t c k document = (.error .closed, t)) ∨
    (t.isOpen = true ∧ ∃ hread, put policy s t c k document =
      (.ok (), (get policy s t c k).2.stage c k document hread)) := by
  cases hopen : t.isOpen with
  | false => exact Or.inl ⟨rfl, by rw [put, dif_neg (by simp [hopen])]⟩
  | true => exact Or.inr ⟨rfl, _, by rw [put, dif_pos hopen]⟩

theorem erase_cases (policy : ReadPolicy) (s : InMemoryState δ κ) (t : InMemoryTransaction δ)
    (c : CollectionName) (k : Key) :
    (t.isOpen = false ∧ erase policy s t c k = (.error .closed, t)) ∨
    (t.isOpen = true ∧ ∃ hread, erase policy s t c k =
      (.ok (), (get policy s t c k).2.unstage (recordVersionKey c k) hread)) := by
  cases hopen : t.isOpen with
  | false => exact Or.inl ⟨rfl, by rw [erase, dif_neg (by simp [hopen])]⟩
  | true => exact Or.inr ⟨rfl, _, by rw [erase, dif_pos hopen]⟩

/-- `put` and `erase` depend on the shared state through one record only. -/
theorem put_congr (policy : ReadPolicy) {s s' : InMemoryState δ κ} (t : InMemoryTransaction δ)
    {c : CollectionName} {k : Key} (document : Json δ) (h : s.recordAt c k = s'.recordAt c k) :
    put policy s t c k document = put policy s' t c k document := by
  simp only [put, get_congr policy t h]

theorem erase_congr (policy : ReadPolicy) {s s' : InMemoryState δ κ} (t : InMemoryTransaction δ)
    {c : CollectionName} {k : Key} (h : s.recordAt c k = s'.recordAt c k) :
    erase policy s t c k = erase policy s' t c k := by
  simp only [erase, get_congr policy t h]

/-- `put` and `erase` observe what `get` observes, and no more. -/
theorem readVersions_put (policy : ReadPolicy) (s : InMemoryState δ κ) (t : InMemoryTransaction δ)
    (c : CollectionName) (k : Key) (document : Json δ) :
    (put policy s t c k document).2.readVersions = (get policy s t c k).2.readVersions := by
  rcases put_cases policy s t c k document with ⟨hopen, h⟩ | ⟨_, _, h⟩ <;> rw [h]
  · rw [get, if_pos hopen]
  · rfl

theorem readVersions_erase (policy : ReadPolicy) (s : InMemoryState δ κ)
    (t : InMemoryTransaction δ) (c : CollectionName) (k : Key) :
    (erase policy s t c k).2.readVersions = (get policy s t c k).2.readVersions := by
  rcases erase_cases policy s t c k with ⟨hopen, h⟩ | ⟨_, _, h⟩ <;> rw [h]
  · rw [get, if_pos hopen]
  · rfl

theorem isOpen_put (policy : ReadPolicy) (s : InMemoryState δ κ) (t : InMemoryTransaction δ)
    (c : CollectionName) (k : Key) (document : Json δ) :
    (put policy s t c k document).2.isOpen = t.isOpen := by
  rcases put_cases policy s t c k document with ⟨_, h⟩ | ⟨_, _, h⟩ <;> rw [h]
  exact (get_frame policy s t c k).1

theorem isOpen_erase (policy : ReadPolicy) (s : InMemoryState δ κ) (t : InMemoryTransaction δ)
    (c : CollectionName) (k : Key) : (erase policy s t c k).2.isOpen = t.isOpen := by
  rcases erase_cases policy s t c k with ⟨_, h⟩ | ⟨_, _, h⟩ <;> rw [h]
  exact (get_frame policy s t c k).1

end InMemoryTransaction

end StateSpec.Memory
