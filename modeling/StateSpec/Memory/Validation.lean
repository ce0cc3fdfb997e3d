/-
  WHAT VALIDATION MEANS — the counters of the shared state only grow, and a counter that did not
  move vouches for everything filed under its version key.

  * `Later s s'`  — `s'` may be reached from `s`: no counter shrank, indexes kept their descriptors,
                    and under a counter that is the same the record and its index entries are too;
  * `Good s t`    — no observation of `t` is ahead of its counter;
  * `Valid s t`   — every observation of `t` is its counter.

  A commit only moves on (`later_commit`).  From "good then, valid now" follows the one fact all
  arguments about a committed transaction use: what it observed has not changed in between
  (`unmoved_of_valid`, `recordAt_of_valid`).  It holds of every transaction of every binding; what
  the bindings disagree on is whether an observation can be LOST before the commit.
-/
import StateSpec.Memory.Query

set_option linter.unusedSectionVars false

namespace StateSpec.Memory

variable {δ : Type} [Decimal δ]
variable {κ : Type} [Ord κ] [Std.TransOrd κ] [Std.LawfulEqOrd κ] [DecidableEq κ] [EntryKey κ]

open InMemoryTransaction

/-! ## The shared state moves on -/

/-- `s'` may be reached from `s` by commits and registrations. -/
structure Later (s s' : InMemoryState δ κ) : Prop where
  counter : ∀ vk, s.counter vk ≤ s'.counter vk
  record : ∀ c k, s.counter (recordVersionKey c k) = s'.counter (recordVersionKey c k) →
    s'.recordAt c k = s.recordAt c k
  descriptor : ∀ c name d, descriptorOf s.indexes c name = some d →
    descriptorOf s'.indexes c name = some d
  files : ∀ c name d k, descriptorOf s.indexes c name = some d →
    s.counter (recordVersionKey c k) = s'.counter (recordVersionKey c k) →
    ∀ ikey, Files s'.indexes c name ikey k ↔ Files s.indexes c name ikey k

theorem Later.refl (s : InMemoryState δ κ) : Later s s where
  counter _ := Nat.le_refl _
  record _ _ _ := rfl
  descriptor _ _ _ h := h
  files _ _ _ _ _ _ _ := Iff.rfl

theorem Later.trans {s s' s'' : InMemoryState δ κ} (h : Later s s') (h' : Later s' s'') :
    Later s s'' := by
  -- a counter that is the same at both ends never moved
  have hmid : ∀ vk, s.counter vk = s''.counter vk →
      s.counter vk = s'.counter vk ∧ s'.counter vk = s''.counter vk := by
    intro vk heq
    have hle := h.counter vk
    have hle' := h'.counter vk
    exact ⟨Nat.le_antisymm hle (heq ▸ hle'), Nat.le_antisymm hle' (heq ▸ hle)⟩
  refine ⟨fun vk => (h.counter vk).trans (h'.counter vk), fun c k heq => ?_, fun c name d hd => ?_,
    fun c name d k hd heq ikey => ?_⟩
  · rw [h'.record c k (hmid _ heq).2, h.record c k (hmid _ heq).1]
  · exact h'.descriptor c name d (h.descriptor c name d hd)
  · rw [h'.files c name d k (h.descriptor c name d hd) (hmid _ heq).2,
      h.files c name d k hd (hmid _ heq).1]

theorem counter_committed (t : InMemoryTransaction δ) (s : InMemoryState δ κ) {order : List Nat}
    {indexes : Indexes κ} (h : stageIndexes order s t = .ok indexes) (vk : Bytes) :
    (t.committed s h).counter vk = s.counter vk + if t.Overlays vk then 1 else 0 :=
  t.versions_apply s vk

/-- What a commit leaves at each place, as `apply_cases` says. -/
theorem recordAt_committed (t : InMemoryTransaction δ) (s : InMemoryState δ κ) {order : List Nat}
    {indexes : Indexes κ} (h : stageIndexes order s t = .ok indexes) (c : CollectionName)
    (k : Key) :
    (∃ r, t.Puts c k r ∧ (t.committed s h).recordAt c k =
      some { r with version := (t.committed s h).counter (recordVersionKey c k) }) ∨
    (t.Erases c k ∧ (t.committed s h).recordAt c k = none) ∨
    ((∀ r, ¬ t.Puts c k r) ∧ ¬ t.Erases c k ∧
      (t.committed s h).recordAt c k = s.recordAt c k) :=
  t.apply_cases s c k

theorem overlays_of_puts {t : InMemoryTransaction δ} {c : CollectionName} {k : Key}
    {r : VersionedRecord δ} (h : t.Puts c k r) : t.Overlays (recordVersionKey c k) :=
  Or.inr (Std.ExtTreeMap.mem_iff_isSome_getElem?.mpr (by rw [h.1]; rfl))

/-- **A commit only moves on.** -/
theorem later_commit {order : List Nat} {s : InMemoryState δ κ} {t : InMemoryTransaction δ}
    {r : InMemoryState δ κ × InMemoryTransaction δ} (h : commit order s t = .ok r) :
    Later s r.1 := by
  obtain ⟨-, -, indexes, hst, rfl⟩ := commit_ok h
  have hcounter := counter_committed t s hst
  -- a counter that did not move is one the transaction neither staged nor erased
  have hfree : ∀ {vk}, s.counter vk = (t.committed s hst).counter vk → ¬ t.Overlays vk := by
    intro vk heq hover
    rw [hcounter, if_pos hover] at heq
    exact Nat.succ_ne_self _ heq.symm
  refine ⟨fun vk => by rw [hcounter]; exact Nat.le_add_right _ _, fun c k heq => ?_, fun c name d hd => ?_,
    fun c name d k _ heq ikey => ?_⟩
  · rcases recordAt_committed t s hst c k with ⟨r, hput, _⟩ | ⟨he, _⟩ | ⟨_, _, hr⟩
    · exact absurd (overlays_of_puts hput) (hfree heq)
    · exact absurd (Or.inl he.1) (hfree heq)
    · exact hr
  · exact ((staging hst).descriptors c name).trans hd
  · refine (staging hst).untouched c k (fun r hput => ?_) (fun he => ?_) name ikey
    · exact hfree heq (overlays_of_puts hput)
    · exact hfree heq (Or.inl he.1)

/-! ## Observations -/

/-- No observation is ahead of its counter. -/
def Good (s : InMemoryState δ κ) (t : InMemoryTransaction δ) : Prop :=
  ∀ vk v, t.observation vk = some v → v ≤ s.counter vk

/-- Every observation is its counter: what `commit` validates. -/
def Valid (s : InMemoryState δ κ) (t : InMemoryTransaction δ) : Prop :=
  ∀ vk v, t.observation vk = some v → s.counter vk = v

theorem valid_of_commit {order : List Nat} {s : InMemoryState δ κ} {t : InMemoryTransaction δ}
    {r : InMemoryState δ κ × InMemoryTransaction δ} (h : commit order s t = .ok r) : Valid s t :=
  current_iff.mp (commit_ok h).2.1

theorem good_begin (s : InMemoryState δ κ) : Good s begin := by
  intro vk v h
  simp [observation, begin] at h

theorem good_later {s s' : InMemoryState δ κ} {t : InMemoryTransaction δ} (hs : Later s s')
    (h : Good s t) : Good s' t := fun vk v hv => (h vk v hv).trans (hs.counter vk)

/-- A new observation of a key either is what is read, or the one that was there before. -/
theorem observation_recordRead {policy : ReadPolicy} {t : InMemoryTransaction δ}
    {versionKey vk : Bytes} {version v : Version}
    (h : (t.recordRead policy versionKey version).observation vk = some v) :
    (vk = versionKey ∧ v = version) ∨ t.observation vk = some v := by
  cases policy with
  | first =>
    rw [observation_recordRead_first] at h
    cases hv : t.observation vk with
    | some v' =>
      rw [hv, Option.some_or] at h
      exact Or.inr h
    | none =>
      rw [hv, Option.none_or] at h
      by_cases hvk : vk = versionKey
      · rw [if_pos hvk, Option.some_inj] at h
        exact Or.inl ⟨hvk, h.symm⟩
      · rw [if_neg hvk] at h
        cases h
  | latest =>
    rw [observation_recordRead_latest] at h
    by_cases hvk : vk = versionKey
    · rw [if_pos hvk, Option.some_inj] at h
      exact Or.inl ⟨hvk, h.symm⟩
    · rw [if_neg hvk] at h
      exact Or.inr h

theorem good_recordRead {policy : ReadPolicy} {s : InMemoryState δ κ} {t : InMemoryTransaction δ}
    {versionKey : Bytes} {version : Version} (h : Good s t)
    (hversion : version ≤ s.counter versionKey) :
    Good s (t.recordRead policy versionKey version) := by
  intro vk v hv
  rcases observation_recordRead hv with ⟨rfl, rfl⟩ | hold
  · exact hversion
  · exact h vk v hold

theorem good_get {policy : ReadPolicy} {s : InMemoryState δ κ} {t : InMemoryTransaction δ}
    (h : Good s t) (c : CollectionName) (k : Key) : Good s (get policy s t c k).2 := by
  rcases get_cases policy s t c k with ⟨_, heq⟩ | ⟨_, _, heq⟩ | ⟨_, _, heq⟩ <;> rw [heq]
  · exact h
  · exact h
  · exact good_recordRead h (s.recordVersion_le c k)

theorem good_recordReads {policy : ReadPolicy} {s : InMemoryState δ κ}
    {t : InMemoryTransaction δ} {records : List (VersionedRecord δ)} (h : Good s t)
    (hrecords : ∀ r ∈ records, r.version ≤ s.counter (versionKeyOf r)) :
    Good s (t.recordReads policy records) := by
  induction records generalizing t with
  | nil => exact h
  | cons r records ih =>
    exact ih (good_recordRead h (hrecords r List.mem_cons_self)) fun r' hr' =>
      hrecords r' (List.mem_cons_of_mem _ hr')

/-- A new observation made by a query either is of a record it answers, or was there before. -/
theorem observation_recordReads {policy : ReadPolicy} {t : InMemoryTransaction δ}
    {records : List (VersionedRecord δ)} {vk : Bytes} {v : Version}
    (h : (t.recordReads policy records).observation vk = some v) :
    (∃ r ∈ records, vk = versionKeyOf r ∧ v = r.version) ∨ t.observation vk = some v := by
  induction records generalizing t with
  | nil => exact Or.inr h
  | cons r records ih =>
    rcases ih h with ⟨r', hr', heq⟩ | hold
    · exact Or.inl ⟨r', List.mem_cons_of_mem _ hr', heq⟩
    · rcases observation_recordRead hold with heq | hold
      · exact Or.inl ⟨r, List.mem_cons_self, heq⟩
      · exact Or.inr hold

/-! ## Under `ReadPolicy.first` an observation is never lost -/

theorem observation_first_recordRead {t : InMemoryTransaction δ} {vk : Bytes} {v : Version}
    (h : t.observation vk = some v) (versionKey : Bytes) (version : Version) :
    (t.recordRead .first versionKey version).observation vk = some v := by
  rw [observation_recordRead_first, h, Option.some_or]

theorem observation_first_recordReads {t : InMemoryTransaction δ} {vk : Bytes} {v : Version}
    (h : t.observation vk = some v) (records : List (VersionedRecord δ)) :
    (t.recordReads .first records).observation vk = some v := by
  induction records generalizing t with
  | nil => exact h
  | cons r records ih => exact ih (observation_first_recordRead h _ _)

theorem observation_first_get {s : InMemoryState δ κ} {t : InMemoryTransaction δ} {vk : Bytes}
    {v : Version} (h : t.observation vk = some v) (c : CollectionName) (k : Key) :
    (get .first s t c k).2.observation vk = some v := by
  rcases get_cases .first s t c k with ⟨_, heq⟩ | ⟨_, _, heq⟩ | ⟨_, _, heq⟩ <;> rw [heq]
  · exact h
  · exact h
  · exact observation_first_recordRead h _ _

/-! ## Validity and the read set -/

/-- Observations are all that matters to `Good` and `Valid`. -/
theorem good_congr {s : InMemoryState δ κ} {t t' : InMemoryTransaction δ}
    (h : t'.readVersions = t.readVersions) : Good s t' ↔ Good s t := by
  simp only [Good, observation, h]

theorem valid_congr {s : InMemoryState δ κ} {t t' : InMemoryTransaction δ}
    (h : t'.readVersions = t.readVersions) : Valid s t' ↔ Valid s t := by
  simp only [Valid, observation, h]

/-! ## Good then and valid now -/

section

variable {s s' : InMemoryState δ κ} {t : InMemoryTransaction δ}

/-- **What was observed has not moved.** -/
theorem unmoved_of_valid (hs : Later s s') (hgood : Good s t) (hvalid : Valid s' t) {vk : Bytes}
    (hvk : vk ∈ t.readVersions) : s.counter vk = s'.counter vk := by
  obtain ⟨v, hv⟩ := mem_readVersions.mp hvk
  have hbefore : v ≤ s.counter vk := hgood vk v hv
  have hnow : s'.counter vk = v := hvalid vk v hv
  exact Nat.le_antisymm (hs.counter vk) (hnow ▸ hbefore)

/-- The record under an observed version key is the one that was read. -/
theorem recordAt_of_valid (hs : Later s s') (hgood : Good s t) (hvalid : Valid s' t)
    {c : CollectionName} {k : Key} (hvk : recordVersionKey c k ∈ t.readVersions) :
    s'.recordAt c k = s.recordAt c k :=
  hs.record c k (unmoved_of_valid hs hgood hvalid hvk)

end

/-- A `get` whose observations are still true gives the same answer again. -/
theorem get_redo {policy : ReadPolicy} {s s' : InMemoryState δ κ} {t : InMemoryTransaction δ}
    {c : CollectionName} {k : Key} (hs : Later s s') (hopen : t.isOpen = true) (hgood : Good s t)
    (hvalid : Valid s' (get policy s t c k).2) :
    s'.recordAt c k = s.recordAt c k :=
  recordAt_of_valid hs (good_get hgood c k) hvalid (mem_readVersions_get policy s hopen c k)

end StateSpec.Memory
