/-
  UNIQUE KEYS — what decides whether a commit can stage its indexes.

  The loop over the staged records takes each one's predecessor out of the indexes and files the
  record itself, testing the unique indexes as it goes.  Whether a record gets through depends on
  what is filed at ITS turn, and that is known exactly (`FiledAfter`): the records staged before it
  are filed under their new keys, the erased places are not filed, and all other places are filed as
  they were in the shared state — also those whose own staged record comes later.

  * `stageErases_ok_iff` — the erased records leave the indexes unless one of them has no key;
  * `stagePut_ok_iff`    — a staged record gets through unless its predecessor or its own document
                           has no key (`Stuck`, `Unreadable`), or it meets another record under its
                           key of a unique index (`Clashes`);
  * `clashes_iff`        — the three ways to clash: with a staged record of the same key that has
                           had its turn, with a record the transaction leaves alone, or with the
                           committed form of a staged record whose turn has not come (`Takes`).

  Only the last two lines of `clashes_iff` are about the final state; `Takes` is about the order.
-/
import Mathlib.Data.List.Nodup
import StateSpec.Memory.Commit

set_option linter.unusedSectionVars false

namespace StateSpec.Memory

variable {δ : Type} [Decimal δ]
variable {κ : Type} [Ord κ] [Std.TransOrd κ] [Std.LawfulEqOrd κ] [DecidableEq κ] [EntryKey κ]

/-! ## One record -/

/-- The document of a record has no key in some index of its collection. -/
def Unreadable (indexes : Indexes κ) (record : VersionedRecord δ) : Prop :=
  ∃ name d fault, descriptorOf indexes record.collection name = some d ∧
    (entryKey record.document d : Except Fault κ) = .error fault

/-- A unique index of its collection files another record under the key of a record. -/
def Taken (indexes : Indexes κ) (record : VersionedRecord δ) : Prop :=
  ∃ name d ikey k, descriptorOf indexes record.collection name = some d ∧ d.unique = true ∧
    entryKey record.document d = .ok ikey ∧ k ≠ record.key ∧
      Files indexes record.collection name ikey k

theorem unreadable_congr {indexes indexes' : Indexes κ}
    (h : InMemoryTransaction.SameShape indexes indexes') (record : VersionedRecord δ) :
    Unreadable indexes' record ↔ Unreadable indexes record := by
  simp only [Unreadable, h.descriptors]

/-- A change of the indexes of one collection succeeds when it succeeds at each of them. -/
theorem forIndexesOf_total_of {f : InMemoryIndexState κ → Except Fault (InMemoryIndexState κ)}
    {indexes : Indexes κ} {collection : CollectionName}
    (h : ∀ name index, OrderedMap.find₂ indexes collection name = some index →
      ∃ index', f index = .ok index') :
    ∃ indexes', forIndexesOf f indexes collection = .ok indexes' := by
  cases hf : forIndexesOf f indexes collection with
  | ok indexes' => exact ⟨indexes', rfl⟩
  | error fault =>
    obtain ⟨name, index, hindex, he⟩ := forIndexesOf_error hf
    obtain ⟨index', hok⟩ := h name index hindex
    rw [hok] at he
    cases he

/-- A change of the indexes of one collection fails when it fails at one of them. -/
theorem forIndexesOf_ne_ok {f : InMemoryIndexState κ → Except Fault (InMemoryIndexState κ)}
    {indexes indexes' : Indexes κ} {collection : CollectionName} {name : Bytes}
    {index : InMemoryIndexState κ} {fault : Fault}
    (hindex : OrderedMap.find₂ indexes collection name = some index)
    (he : f index = .error fault) : forIndexesOf f indexes collection ≠ .ok indexes' := by
  intro h
  rcases forIndexesOf_ok h collection name with ⟨h₁, -⟩ | ⟨index₁, index', h₁, -, hcase⟩
  · rw [h₁] at hindex
    cases hindex
  · obtain rfl := Option.some_inj.mp (h₁.symm.trans hindex)
    rcases hcase with ⟨-, hok⟩ | ⟨hne, -⟩
    · rw [hok] at he
      cases he
    · exact hne rfl

/-- The descriptor of an index, and the index it is of. -/
theorem descriptorOf_iff {indexes : Indexes κ} {c : CollectionName} {name : Bytes}
    {d : IndexDescriptor} : descriptorOf indexes c name = some d ↔
      ∃ index, OrderedMap.find₂ indexes c name = some index ∧ index.descriptor = d := by
  rw [descriptorOf, Option.map_eq_some_iff]

/-- **A record leaves the indexes unless it has no key in one of them.** -/
theorem removeRecordFromIndexes_ok_iff {indexes : Indexes κ} {record : VersionedRecord δ} :
    (∃ indexes', removeRecordFromIndexes indexes record = .ok indexes') ↔
      ¬ Unreadable indexes record := by
  constructor
  · rintro ⟨indexes', h⟩ ⟨name, d, fault, hd, hkey⟩
    obtain ⟨index, hindex, rfl⟩ := descriptorOf_iff.mp hd
    have hrefused : removeRecordFromIndex record index = .error fault := by
      rw [removeRecordFromIndex, hkey]
      rfl
    exact forIndexesOf_ne_ok hindex hrefused h
  · intro h
    refine forIndexesOf_total_of fun name index hindex => ?_
    cases hkey : (entryKey record.document index.descriptor : Except Fault κ) with
    | error fault =>
      exact absurd ⟨name, _, fault, descriptorOf_iff.mpr ⟨index, hindex, rfl⟩, hkey⟩ h
    | ok key => exact ⟨_, by rw [removeRecordFromIndex, hkey]; rfl⟩

/-- What cannot leave an index has no key there. -/
theorem removeRecordFromIndexes_nonScalar {indexes : Indexes κ} {record : VersionedRecord δ}
    {fault : Fault} (h : removeRecordFromIndexes indexes record = .error fault) :
    fault = .nonScalar := by
  obtain ⟨name, index, hindex, he⟩ := forIndexesOf_error h
  rw [removeRecordFromIndex] at he
  cases hkey : (entryKey record.document index.descriptor : Except Fault κ) with
  | ok key =>
    rw [hkey] at he
    cases he
  | error fault' =>
    rw [hkey] at he
    obtain rfl : fault' = fault := by simpa only [Except.map, Except.error.injEq] using he
    exact entryKey_error hkey

/-- **A record is filed unless it has no key in one of the indexes, or a key that is taken.** -/
theorem addRecordToIndexes_ok_iff {indexes : Indexes κ} {record : VersionedRecord δ} :
    (∃ indexes', addRecordToIndexes indexes record = .ok indexes') ↔
      ¬ Unreadable indexes record ∧ ¬ Taken indexes record := by
  constructor
  · rintro ⟨indexes', h⟩
    constructor
    · rintro ⟨name, d, fault, hd, hkey⟩
      obtain ⟨index, hindex, rfl⟩ := descriptorOf_iff.mp hd
      have hrefused : addRecordToIndex record index = .error fault := by
        rw [addRecordToIndex, hkey]
      exact forIndexesOf_ne_ok hindex hrefused h
    · rintro ⟨name, d, ikey, k, hd, hunique, hkey, hne, hfiles⟩
      exact hne (add_unique h hd hunique hkey hfiles)
  · rintro ⟨hreadable, hfree⟩
    refine forIndexesOf_total_of fun name index hindex => ?_
    have hd : descriptorOf indexes record.collection name = some index.descriptor :=
      descriptorOf_iff.mpr ⟨index, hindex, rfl⟩
    cases hkey : (entryKey record.document index.descriptor : Except Fault κ) with
    | error fault => exact absurd ⟨name, _, fault, hd, hkey⟩ hreadable
    | ok ikey =>
      refine ⟨{ index with entries := index.entries.add ikey record.key }, ?_⟩
      rw [addRecordToIndex, hkey]
      show (if _ then _ else _) = _
      rw [if_neg]
      intro hany
      rw [Bool.and_eq_true, List.any_eq_true] at hany
      obtain ⟨hunique, k, hk, hne⟩ := hany
      refine hfree ⟨name, _, ikey, k, hd, hunique, hkey, by simpa using hne, ?_⟩
      exact (files_iff hindex ikey k).mpr (Std.ExtTreeSet.mem_toList.mp hk)

/-- A record that has its keys is refused over a unique index only. -/
theorem addRecordToIndexes_conflict {indexes : Indexes κ} {record : VersionedRecord δ}
    {fault : Fault} (hreadable : ¬ Unreadable indexes record)
    (h : addRecordToIndexes indexes record = .error fault) :
    ∃ c name, fault = .uniqueIndexConflict c name := by
  obtain ⟨name, index, hindex, he⟩ := forIndexesOf_error h
  rw [addRecordToIndex] at he
  cases hkey : (entryKey record.document index.descriptor : Except Fault κ) with
  | error fault' =>
    exact absurd ⟨name, _, fault', descriptorOf_iff.mpr ⟨index, hindex, rfl⟩, hkey⟩ hreadable
  | ok ikey =>
    simp only [hkey] at he
    split at he
    · exact ⟨_, _, (Except.error.inj he).symm⟩
    · cases he

namespace InMemoryTransaction

/-! ## The erased records -/

/-- Some erased record has no key in an index. -/
def ErasesUnreadable (s : InMemoryState δ κ) (t : InMemoryTransaction δ) : Prop :=
  ∃ c k r, t.Erases c k ∧ s.recordAt c k = some r ∧ Unreadable s.indexes r

/-- What an erased version key that comes through leaves the same. -/
theorem sameShape_stageErase {records : Records δ} {before after : Indexes κ} {vk : Bytes}
    (h : stageErase records before vk = .ok after) : SameShape before after := by
  unfold stageErase at h
  split at h
  · obtain rfl := Except.ok.inj h
    exact ⟨fun _ _ => rfl, fun _ => Iff.rfl⟩
  · split at h
    · obtain rfl := Except.ok.inj h
      exact ⟨fun _ _ => rfl, fun _ => Iff.rfl⟩
    · exact ⟨descriptorOf_remove h, mem_forIndexesOf h⟩

theorem SameShape.trans {a b c : Indexes κ} (hab : SameShape a b) (hbc : SameShape b c) :
    SameShape a c where
  descriptors c name := (hbc.descriptors c name).trans (hab.descriptors c name)
  collections c := (hbc.collections c).trans (hab.collections c)

theorem SameShape.refl (a : Indexes κ) : SameShape a a := ⟨fun _ _ => rfl, fun _ => Iff.rfl⟩

/-- **The loop over the erased version keys**, in any order, comes through unless one of the records
    it takes out has no key. -/
theorem stageErases_ok_iff {s : InMemoryState δ κ} {t : InMemoryTransaction δ} {vks : List Bytes}
    (hvks : ∀ vk, vk ∈ vks ↔ vk ∈ t.erases) :
    (∃ mid, vks.foldlM (stageErase s.records) s.indexes = .ok mid) ↔ ¬ ErasesUnreadable s t := by
  constructor
  · rintro ⟨mid, hmid⟩ ⟨c, k, r, herase, hr, hunreadable⟩
    obtain ⟨vk, hvk, hparse⟩ := erases_iff.mp herase
    obtain ⟨done, rest, rfl⟩ := List.append_of_mem ((hvks vk).mpr hvk)
    obtain ⟨before, after, hbefore, hstep⟩ := foldlM_ok_split hmid
    have hshape : SameShape s.indexes before := by
      refine foldlM_invariant (fun _ after => SameShape s.indexes after) (SameShape.refl _) ?_ hbefore
      intro done vk rest b b' _ hb hb'
      exact hb.trans (sameShape_stageErase hb')
    rw [stageErase, hparse] at hstep
    simp only [show OrderedMap.find₂ s.records c k = some r from hr] at hstep
    exact removeRecordFromIndexes_ok_iff.mp ⟨after, hstep⟩
      ((unreadable_congr hshape r).mpr hunreadable)
  · intro h
    obtain ⟨mid, hmid, -⟩ : ∃ mid, vks.foldlM (stageErase s.records) s.indexes = .ok mid ∧
        SameShape s.indexes mid := by
      refine foldlM_total (SameShape s.indexes) (SameShape.refl _) fun indexes vk hvk hshape => ?_
      have hstep : ∃ after, stageErase s.records indexes vk = .ok after := by
        rw [stageErase]
        cases hparse : parseRecordVersionKey vk with
        | none => exact ⟨indexes, rfl⟩
        | some place =>
          obtain ⟨c, k⟩ := place
          simp only
          cases hr : OrderedMap.find₂ s.records c k with
          | none => exact ⟨indexes, rfl⟩
          | some r =>
            refine removeRecordFromIndexes_ok_iff.mpr fun hunreadable => h ⟨c, k, r, ?_, hr, ?_⟩
            · exact erases_iff.mpr ⟨vk, (hvks vk).mp hvk, hparse⟩
            · exact (unreadable_congr hshape r).mp hunreadable
      obtain ⟨after, hafter⟩ := hstep
      exact ⟨after, hafter, hshape.trans (sameShape_stageErase hafter)⟩
    exact ⟨mid, hmid⟩

/-- An erased record that cannot be taken out has no key. -/
theorem stageErases_nonScalar {s : InMemoryState δ κ} {indexes : Indexes κ} {vks : List Bytes}
    {fault : Fault} (h : vks.foldlM (stageErase s.records) indexes = .error fault) :
    fault = .nonScalar := by
  obtain ⟨mid, vk, -, hstep⟩ := foldlM_error h
  unfold stageErase at hstep
  split at hstep
  · cases hstep
  · split at hstep
    · cases hstep
    · exact removeRecordFromIndexes_nonScalar hstep

/-! ## What is filed at the turn of a staged record -/

/-- What is filed when the erased places and the staged records `done` have had their turns. -/
def FiledAfter (s : InMemoryState δ κ) (t : InMemoryTransaction δ) (done : List (VersionedRecord δ))
    (c : CollectionName) (name : Bytes) (ikey : κ) (k : Key) : Prop :=
  (∃ r ∈ done, c = r.collection ∧ k = r.key ∧
    ∃ d, descriptorOf s.indexes c name = some d ∧ entryKey r.document d = .ok ikey) ∨
  ((∀ r ∈ done, ¬ (c = r.collection ∧ k = r.key)) ∧ ¬ t.Erases c k ∧
    Files s.indexes c name ikey k)

/-- The indexes when the erased places and the staged records `done` have had their turns. -/
structure StagedSoFar (s : InMemoryState δ κ) (t : InMemoryTransaction δ)
    (done : List (VersionedRecord δ)) (indexes : Indexes κ) : Prop
    extends SameShape s.indexes indexes where
  files : ∀ c name ikey k, Files indexes c name ikey k ↔ FiledAfter s t done c name ikey k

/-- **What both loops have done so far.** -/
theorem stagedSoFar {s : InMemoryState δ κ} {t : InMemoryTransaction δ} {vks : List Bytes}
    {mid indexes : Indexes κ} {done : List (VersionedRecord δ)}
    (hvks : ∀ vk, vk ∈ vks ↔ vk ∈ t.erases)
    (hmid : vks.foldlM (stageErase s.records) s.indexes = .ok mid)
    (hnodup : (done.map versionKeyOf).Nodup)
    (h : done.foldlM (stagePut s.records) mid = .ok indexes) : StagedSoFar s t done indexes := by
  have hsound : ∀ c k, SoundAt s.records s.indexes c k := fun c k name ikey => s.sound c name ikey k
  have herased := unfiled_stageErases s.keyed hsound hmid
  have hput := allRefiled_stagePuts s.keyed (fun c k => (hsound c k).unfiled herased) hnodup h
  have hgone : ∀ c k, (∃ vk ∈ vks, parseRecordVersionKey vk = some (c, k)) ↔ t.Erases c k := by
    intro c k
    rw [erases_iff]
    simp only [hvks]
  refine ⟨herased.toSameShape.trans hput.toSameShape, fun c name ikey k => ?_⟩
  by_cases hplace : ∃ r ∈ done, c = r.collection ∧ k = r.key
  · obtain ⟨r, hr, rfl, rfl⟩ := hplace
    rw [hput.here r hr, herased.descriptors, FiledAfter]
    constructor
    · exact fun hkey => Or.inl ⟨r, hr, rfl, rfl, hkey⟩
    · rintro (⟨r', hr', hc, hk, hkey⟩ | ⟨hno, -⟩)
      · obtain rfl : r' = r := by
          refine List.inj_on_of_nodup_map hnodup hr' hr ?_
          rw [versionKeyOf, versionKeyOf, hc, hk]
        exact hkey
      · exact absurd ⟨rfl, rfl⟩ (hno r hr)
  · have hno : ∀ r ∈ done, ¬ (c = r.collection ∧ k = r.key) := fun r hr heq => hplace ⟨r, hr, heq⟩
    rw [hput.elsewhere c k hno, herased.files, hgone, FiledAfter]
    constructor
    · exact fun h => Or.inr ⟨hno, h.2, h.1⟩
    · rintro (⟨r, hr, hc, hk, -⟩ | ⟨-, hne, hf⟩)
      · exact absurd ⟨hc, hk⟩ (hno r hr)
      · exact ⟨hf, hne⟩

/-! ## The turn of a staged record -/

/-- The record a staged one replaces has no key in an index. -/
def Stuck (s : InMemoryState δ κ) (r : VersionedRecord δ) : Prop :=
  ∃ existing, s.recordAt r.collection r.key = some existing ∧ Unreadable s.indexes existing

/-- A staged record meets another one under its key of a unique index. -/
def Clashes (s : InMemoryState δ κ) (t : InMemoryTransaction δ) (done : List (VersionedRecord δ))
    (r : VersionedRecord δ) : Prop :=
  ∃ name d ikey k, descriptorOf s.indexes r.collection name = some d ∧ d.unique = true ∧
    entryKey r.document d = .ok ikey ∧ k ≠ r.key ∧ FiledAfter s t done r.collection name ikey k

/-- `mid` is `indexes` after the predecessor of a staged record has left, if it has one. -/
def Cleared (records : Records δ) (indexes mid : Indexes κ) (r : VersionedRecord δ) : Prop :=
  match OrderedMap.find₂ records r.collection r.key with
  | none => mid = indexes
  | some existing => removeRecordFromIndexes indexes existing = .ok mid

/-- The turn of a staged record: its predecessor leaves, and then it is filed. -/
theorem stagePut_of_cleared {records : Records δ} {indexes mid : Indexes κ} {r : VersionedRecord δ}
    (h : Cleared records indexes mid r) :
    stagePut records indexes r = addRecordToIndexes mid r := by
  rw [Cleared] at h
  rw [stagePut]
  cases hold : OrderedMap.find₂ records r.collection r.key with
  | none =>
    simp only [hold] at h
    simp only [h]
  | some existing =>
    simp only [hold] at h
    simp only [h]

/-- **The turn of a staged record**: what is filed when its predecessor has left. -/
theorem exists_cleared {s : InMemoryState δ κ} {t : InMemoryTransaction δ}
    {done : List (VersionedRecord δ)} {indexes : Indexes κ} {r : VersionedRecord δ}
    (hso : StagedSoFar s t done indexes) (hstuck : ¬ Stuck s r)
    (hfresh : ∀ r' ∈ done, ¬ (r.collection = r'.collection ∧ r.key = r'.key)) :
    ∃ mid, Cleared s.records indexes mid r ∧
      (Unreadable mid r ↔ Unreadable s.indexes r) ∧ (Taken mid r ↔ Clashes s t done r) := by
  have hsound : SoundAt s.records indexes r.collection r.key := by
    intro name ikey hfiles
    rcases (hso.files _ _ _ _).mp hfiles with ⟨r', hr', hc, hk, -⟩ | ⟨-, -, hf⟩
    · exact absurd ⟨hc, hk⟩ (hfresh r' hr')
    · rw [hso.descriptors]
      exact s.sound _ _ _ _ hf
  obtain ⟨mid, hcleared, hmid⟩ : ∃ mid, Cleared s.records indexes mid r ∧
      Unfiled indexes mid fun c k => c = r.collection ∧ k = r.key := by
    cases hold : OrderedMap.find₂ s.records r.collection r.key with
    | none =>
      refine ⟨indexes, by rw [Cleared, hold], Unfiled.refl indexes ?_⟩
      rintro c k ⟨rfl, rfl⟩ name ikey hfiles
      obtain ⟨r', d, hr', -⟩ := hsound name ikey hfiles
      rw [hold] at hr'
      cases hr'
    | some existing =>
      obtain ⟨mid, hrem⟩ := removeRecordFromIndexes_ok_iff.mpr fun hunreadable =>
        hstuck ⟨existing, hold, (unreadable_congr hso.toSameShape existing).mp hunreadable⟩
      exact ⟨mid, by rw [Cleared, hold]; exact hrem, unfiled_remove s.keyed hold hsound hrem⟩
  refine ⟨mid, hcleared, unreadable_congr (hso.toSameShape.trans hmid.toSameShape) r, ?_⟩
  simp only [Taken, Clashes, hmid.descriptors, hso.descriptors, hmid.files, hso.files]
  constructor
  · rintro ⟨name, d, ikey, k, hd, hunique, hkey, hne, hf, -⟩
    exact ⟨name, d, ikey, k, hd, hunique, hkey, hne, hf⟩
  · rintro ⟨name, d, ikey, k, hd, hunique, hkey, hne, hf⟩
    exact ⟨name, d, ikey, k, hd, hunique, hkey, hne, hf, fun heq => hne heq.2⟩

/-- **When a staged record gets through.** -/
theorem stagePut_ok_iff {s : InMemoryState δ κ} {t : InMemoryTransaction δ}
    {done : List (VersionedRecord δ)} {indexes : Indexes κ} {r : VersionedRecord δ}
    (hso : StagedSoFar s t done indexes)
    (hfresh : ∀ r' ∈ done, ¬ (r.collection = r'.collection ∧ r.key = r'.key)) :
    (∃ after, stagePut s.records indexes r = .ok after) ↔
      ¬ Stuck s r ∧ ¬ Unreadable s.indexes r ∧ ¬ Clashes s t done r := by
  by_cases hstuck : Stuck s r
  · refine iff_of_false ?_ fun h => h.1 hstuck
    rintro ⟨after, h⟩
    obtain ⟨existing, hold, hunreadable⟩ := hstuck
    rw [stagePut, show OrderedMap.find₂ s.records r.collection r.key = some existing from hold] at h
    cases hrem : removeRecordFromIndexes indexes existing with
    | ok mid =>
      exact removeRecordFromIndexes_ok_iff.mp ⟨mid, hrem⟩
        ((unreadable_congr hso.toSameShape existing).mpr hunreadable)
    | error fault =>
      simp only [hrem] at h
      cases h
  · obtain ⟨mid, hcleared, hunreadable, htaken⟩ := exists_cleared hso hstuck hfresh
    rw [stagePut_of_cleared hcleared, addRecordToIndexes_ok_iff, hunreadable, htaken]
    exact ⟨fun h => ⟨hstuck, h⟩, And.right⟩

/-! ## The three ways to clash -/

/-- Two records of one collection have the same key in a unique index. -/
def SameUniqueKey (indexes : Indexes κ) (r r' : VersionedRecord δ) : Prop :=
  r.collection = r'.collection ∧ r.key ≠ r'.key ∧ ∃ name d, ∃ ikey : κ,
    descriptorOf indexes r.collection name = some d ∧ d.unique = true ∧
      entryKey r.document d = .ok ikey ∧ entryKey r'.document d = .ok ikey

theorem SameUniqueKey.symm {indexes : Indexes κ} {r r' : VersionedRecord δ}
    (h : SameUniqueKey indexes r r') : SameUniqueKey indexes r' r := by
  obtain ⟨hc, hk, name, d, ikey, hd, hunique, hkey, hkey'⟩ := h
  exact ⟨hc.symm, hk.symm, name, d, ikey, hc ▸ hd, hunique, hkey', hkey⟩

/-- A staged record has the key under which the shared state files place `k` of its collection. -/
def TakesFrom (s : InMemoryState δ κ) (r : VersionedRecord δ) (k : Key) : Prop :=
  r.key ≠ k ∧ ∃ name d ikey, descriptorOf s.indexes r.collection name = some d ∧
    d.unique = true ∧ entryKey r.document d = .ok ikey ∧ Files s.indexes r.collection name ikey k

/-- A staged record takes the key under which the place of another staged one is still filed. -/
def Takes (s : InMemoryState δ κ) (r r' : VersionedRecord δ) : Prop :=
  r.collection = r'.collection ∧ TakesFrom s r r'.key

/-- A staged record has the key of a place the transaction leaves alone. -/
def Collides (s : InMemoryState δ κ) (t : InMemoryTransaction δ) (r : VersionedRecord δ) : Prop :=
  ∃ k, TakesFrom s r k ∧ ¬ t.Erases r.collection k ∧ ∀ r', ¬ t.Puts r.collection k r'

/-- **The three ways to clash**: with a record that has had its turn, with a place the transaction
    leaves alone, and with a staged record whose turn has not come. -/
theorem clashes_iff {s : InMemoryState δ κ} {t : InMemoryTransaction δ}
    {done rest : List (VersionedRecord δ)} {r : VersionedRecord δ}
    (hperm : (done ++ r :: rest).Perm t.stagedRecords) :
    Clashes s t done r ↔ (∃ r' ∈ done, SameUniqueKey s.indexes r r') ∨ Collides s t r ∨
      ∃ r' ∈ rest, Takes s r r' := by
  have hstaged : ∀ {r'}, r' ∈ t.stagedRecords ↔ r' ∈ done ∨ r' = r ∨ r' ∈ rest := by
    intro r'
    rw [← hperm.mem_iff, List.mem_append, List.mem_cons]
  have hnodup : ((done ++ r :: rest).map versionKeyOf).Nodup :=
    (hperm.map versionKeyOf).nodup_iff.mpr t.nodup_stagedRecords
  constructor
  · rintro ⟨name, d, ikey, k, hd, hunique, hkey, hne, hfiled⟩
    rcases hfiled with ⟨r', hr', hc, rfl, d', hd', hkey'⟩ | ⟨hno, hnotErased, hfiles⟩
    · obtain rfl := Option.some_inj.mp (hd.symm.trans hd')
      exact Or.inl ⟨r', hr', hc, hne.symm, name, d, ikey, hd, hunique, hkey, hkey'⟩
    · have htakes : TakesFrom s r k := ⟨hne.symm, name, d, ikey, hd, hunique, hkey, hfiles⟩
      by_cases hput : ∃ r', t.Puts r.collection k r'
      · obtain ⟨r', hr'⟩ := hput
        have hmem := mem_of_puts hr'
        obtain ⟨-, hc, rfl⟩ := hr'
        rcases hstaged.mp hmem with h | rfl | h
        · exact absurd ⟨hc.symm, rfl⟩ (hno r' h)
        · exact absurd rfl hne
        · exact Or.inr (Or.inr ⟨r', h, hc.symm, htakes⟩)
      · exact Or.inr (Or.inl ⟨k, htakes, hnotErased, fun r' hr' => hput ⟨r', hr'⟩⟩)
  · rintro (⟨r', hr', hc, hne, name, d, ikey, hd, hunique, hkey, hkey'⟩ |
      ⟨k, ⟨hne, name, d, ikey, hd, hunique, hkey, hfiles⟩, hnotErased, hno⟩ |
      ⟨r', hr', hc, hne, name, d, ikey, hd, hunique, hkey, hfiles⟩)
    · exact ⟨name, d, ikey, r'.key, hd, hunique, hkey, hne.symm,
        Or.inl ⟨r', hr', hc, rfl, d, hd, hkey'⟩⟩
    · refine ⟨name, d, ikey, k, hd, hunique, hkey, hne.symm, Or.inr ⟨?_, hnotErased, hfiles⟩⟩
      rintro r' hr' ⟨hc, rfl⟩
      exact hno r' (hc ▸ puts_of_mem (hstaged.mpr (Or.inl hr')))
    · refine ⟨name, d, ikey, r'.key, hd, hunique, hkey, hne.symm, Or.inr ⟨?_, ?_, hfiles⟩⟩
      · -- the two have different places in the list, so different version keys
        rintro r'' hr'' ⟨hc', hk⟩
        rw [List.map_append, List.map_cons] at hnodup
        refine (List.nodup_append.mp hnodup).2.2 _ (List.mem_map_of_mem hr'') _
          (List.mem_cons_of_mem _ (List.mem_map_of_mem hr')) ?_
        rw [versionKeyOf, versionKeyOf, ← hc', ← hk, hc]
      · rw [hc]
        exact not_erases_of_puts (puts_of_mem (hstaged.mpr (Or.inr (Or.inr hr'))))

end InMemoryTransaction

end StateSpec.Memory
