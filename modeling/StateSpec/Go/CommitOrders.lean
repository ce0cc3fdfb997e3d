/-
  WHEN A GO COMMIT DEPENDS ON THE ORDER of its maps.

  Go ranges over `tx.puts` in any order, and each staged record is tested against the unique indexes
  at its turn.  So a chain of records that hand a unique value on commits in one order and is refused
  in another (`handed_on`).

  `commit_order_blind_iff` says exactly when the orders do not matter (`OrderIrrelevant`): the commit
  fails before it comes to the staged records; or no staged record can meet another one, under any
  order; or all of them can be filed, and every order fails, because the final state breaks a unique
  index or the records take one another's values in a circle.

  The proof looks at one turn (`add_error`, `exists_add_*`), then at a whole run under a given order
  (`commit_none_iff`, `commit_some`), and last at the orders there are (`exists_commit_*`).
-/
import StateSpec.Go.Commit
import StateSpec.Lib.Acyclic

set_option linter.unusedSectionVars false

namespace StateSpec.Go

open Memory Memory.InMemoryTransaction

variable {δ : Type} [Decimal δ]

/-! ## One turn -/

section Turn

variable {o : Orders δ} {mid : Indexes Bytes} {r : VersionedRecord δ}

/-- What a record that is filed can be refused for. -/
theorem add_error {fault : Fault} (h : addRecordToIndexes o mid r = .error fault) :
    (fault = .nonScalar ∧ Unreadable mid r) ∨
      ((∃ c name, fault = .uniqueIndexConflict c name) ∧ Taken mid r) := by
  obtain ⟨name, index, hindex, he⟩ := forIndexes_error h
  have hd : descriptorOf mid r.collection name = some index.descriptor :=
    descriptorOf_iff.mpr ⟨index, hindex, rfl⟩
  rw [addRecordToIndex] at he
  cases hkey : (entryKey r.document index.descriptor : Except Fault Bytes) with
  | error fault' =>
    simp only [hkey, Except.error.injEq] at he
    exact Or.inl ⟨he ▸ entryKey_error hkey, name, _, fault', hd, hkey⟩
  | ok ikey =>
    simp only [hkey] at he
    split at he
    · rename_i hany
      rw [Bool.and_eq_true, List.any_eq_true] at hany
      obtain ⟨hunique, k, hk, hne⟩ := hany
      refine Or.inr ⟨⟨_, _, (Except.error.inj he).symm⟩, name, _, ikey, k, hd, hunique, hkey,
        by simpa using hne, ?_⟩
      exact (files_iff hindex ikey k).mpr (Std.ExtTreeSet.mem_toList.mp hk)
    · cases he

/-- A record without a key in some index is refused for that under some order. -/
theorem exists_add_nonScalar (h : Unreadable mid r) :
    ∃ order, ∀ o : Orders δ, o.filing r = order →
      addRecordToIndexes o mid r = .error .nonScalar := by
  obtain ⟨name, d, fault, hd, hkey⟩ := h
  obtain ⟨index, hindex, rfl⟩ := descriptorOf_iff.mp hd
  obtain rfl := entryKey_error hkey
  have hrefused : addRecordToIndex r index = .error .nonScalar := by
    rw [addRecordToIndex, hkey]
  obtain ⟨order, horder⟩ := exists_forIndexes_error hindex hrefused
  refine ⟨order, fun o ho => ?_⟩
  rw [addRecordToIndexes, ho, horder]

/-- A record whose key is taken in some unique index is refused for that under some order. -/
theorem exists_add_conflict (h : Taken mid r) :
    ∃ order fault, fault.conflictKind = some .uniqueIndexConflict ∧
      ∀ o : Orders δ, o.filing r = order → addRecordToIndexes o mid r = .error fault := by
  obtain ⟨name, d, ikey, k, hd, hunique, hkey, hne, hfiles⟩ := h
  obtain ⟨index, hindex, rfl⟩ := descriptorOf_iff.mp hd
  have hrefused : addRecordToIndex r index =
      .error (.uniqueIndexConflict r.collection index.descriptor.name) := by
    rw [addRecordToIndex, hkey]
    show (if _ then _ else _) = _
    rw [if_pos]
    rw [hunique, Bool.true_and, List.any_eq_true]
    exact ⟨k, Std.ExtTreeSet.mem_toList.mpr ((files_iff hindex ikey k).mp hfiles), by simpa using hne⟩
  obtain ⟨order, horder⟩ := exists_forIndexes_error hindex hrefused
  refine ⟨order, .uniqueIndexConflict r.collection index.descriptor.name, rfl, fun o ho => ?_⟩
  rw [addRecordToIndexes, ho, horder]

/-- Go's turn of a staged record, once its predecessor has left. -/
theorem goPut_of_cleared {records : Records δ} {indexes : Indexes Bytes}
    (h : Cleared records indexes mid r) (o : Orders δ) :
    stagePut o records indexes r = addRecordToIndexes o mid r := by
  rw [Cleared] at h
  rw [stagePut]
  cases hold : OrderedMap.find₂ records r.collection r.key with
  | none =>
    simp only [hold] at h
    simp only [h]
  | some existing =>
    simp only [hold] at h
    simp only [removeRecordFromIndexes_ok_iff_shared.mpr h]

/-- A record whose predecessor has no key is refused for that. -/
theorem goPut_stuck {s : State δ} {indexes : Indexes Bytes} {fault : Fault} (hstuck : Stuck s r)
    (hshape : SameShape s.indexes indexes)
    (h : stagePut o s.records indexes r = .error fault) : fault = .nonScalar := by
  obtain ⟨existing, hold, hunreadable⟩ := hstuck
  rw [stagePut, show OrderedMap.find₂ s.records r.collection r.key = some existing from hold] at h
  cases hrem : removeRecordFromIndexes o indexes existing with
  | ok mid =>
    exact absurd ((unreadable_congr hshape existing).mpr hunreadable)
      (removeRecordFromIndexes_ok_iff.mp ⟨mid, removeRecordFromIndexes_ok_iff_shared.mp hrem⟩)
  | error fault' =>
    simp only [hrem, Except.error.injEq] at h
    rw [← h]
    exact removeRecordFromIndexes_fault hrem

end Turn

/-! ## One run -/

/-- A staged record that cannot be filed whatever is filed already. -/
def Unfit (s : State δ) (r : VersionedRecord δ) : Prop := Stuck s r ∨ Unreadable s.indexes r

section Run

variable {o : Orders δ} {s : State δ} {t : InMemoryTransaction δ}

/-- A transaction that is not current is refused for that. -/
theorem commit_stale (hopen : t.isOpen = true) (hcurrent : t.current s = false) :
    commit o s t = failed s .versionConflict := by
  rw [commit, if_neg (by simp [hopen]), all_current, if_pos hcurrent]

/-- Otherwise staging decides. -/
theorem commit_of_current (hopen : t.isOpen = true) (hcurrent : t.current s = true) :
    commit o s t =
      match stagedIndexes o s t with
      | .error fault => failed s fault
      | .ok indexes =>
        { error := none, records := (t.apply s).1, versions := (t.apply s).2, indexes := indexes } := by
  rw [commit, if_neg (by simp [hopen]), all_current, if_neg (by simp [hcurrent]),
    applied_eq] <;> rfl

/-- An erased record without a key is what the commit is refused for. -/
theorem stagedIndexes_unreadable (h : ErasesUnreadable s t) :
    stagedIndexes o s t = .error .nonScalar := by
  rw [stagedIndexes]
  cases hmid : (visit o.stagedErases t.erases.toList).foldlM (stageErase o s.records) s.indexes with
  | ok mid => exact absurd h ((goErases_total_iff o.stagedErases).mp ⟨mid, hmid⟩)
  | error fault => rw [goErases_fault hmid]

/-- What is known when the loop has come to a staged record. -/
theorem stagedSoFar_of_visit {vks : List Bytes} {mid indexes : Indexes Bytes}
    {done rest : List (VersionedRecord δ)} {r : VersionedRecord δ}
    (hvks : ∀ vk, vk ∈ vks ↔ vk ∈ t.erases)
    (hmid : vks.foldlM (stageErase o s.records) s.indexes = .ok mid)
    (hperm : (done ++ r :: rest).Perm t.stagedRecords)
    (hdone : done.foldlM (stagePut o s.records) mid = .ok indexes) :
    StagedSoFar s t done indexes ∧
      ∀ r' ∈ done, ¬ (r.collection = r'.collection ∧ r.key = r'.key) := by
  have hnodup := (hperm.map versionKeyOf).nodup_iff.mpr t.nodup_stagedRecords
  rw [List.map_append, List.map_cons, List.nodup_append] at hnodup
  refine ⟨stagedSoFar hvks (goErases_ok_iff.mp hmid) hnodup.1 (goPuts_ok_iff.mp hdone), ?_⟩
  rintro r' hr' ⟨hc, hk⟩
  refine hnodup.2.2 _ (List.mem_map_of_mem hr') _ List.mem_cons_self ?_
  rw [versionKeyOf, versionKeyOf, hc, hk]

/-- **When staging comes through**: under the chosen order of the staged records no one is unfit and
    no one clashes. -/
theorem stagedIndexes_ok_iff (herases : ¬ ErasesUnreadable s t) :
    (∃ indexes, stagedIndexes o s t = .ok indexes) ↔
      ∀ done r rest, visit o.stagedPuts t.stagedRecords = done ++ r :: rest →
        ¬ Unfit s r ∧ ¬ Clashes s t done r := by
  obtain ⟨mid, hmid⟩ := (goErases_total_iff o.stagedErases).mpr herases
  have hvks := mem_visit_erases (t := t) o.stagedErases
  have hperm := visit_perm o.stagedPuts t.stagedRecords
  rw [stagedIndexes, hmid]
  simp only
  constructor
  · rintro ⟨indexes, hputs⟩ done r rest hsplit
    rw [hsplit] at hputs hperm
    obtain ⟨before, after, hdone, hstep⟩ := foldlM_ok_split hputs
    obtain ⟨hso, hfresh⟩ := stagedSoFar_of_visit hvks hmid hperm hdone
    obtain ⟨hstuck, hreadable, hclash⟩ :=
      (stagePut_ok_iff hso hfresh).mp ⟨after, stagePut_ok_iff_shared.mp hstep⟩
    exact ⟨fun h => h.elim hstuck hreadable, hclash⟩
  · intro h
    cases hputs : (visit o.stagedPuts t.stagedRecords).foldlM (stagePut o s.records) mid with
    | ok indexes => exact ⟨indexes, rfl⟩
    | error fault =>
      obtain ⟨done, r, rest, indexes, hsplit, hdone, hstep⟩ := foldlM_error_split hputs
      obtain ⟨hunfit, hclash⟩ := h done r rest hsplit
      obtain ⟨hso, hfresh⟩ := stagedSoFar_of_visit hvks hmid (hsplit ▸ hperm) hdone
      obtain ⟨after, hok⟩ := (stagePut_ok_iff hso hfresh).mpr
        ⟨fun h => hunfit (Or.inl h), fun h => hunfit (Or.inr h), hclash⟩
      rw [stagePut_ok_iff_shared.mpr hok] at hstep
      cases hstep

/-- **What staging can be refused for**: the first staged record that does not get through is unfit,
    or it can be filed but for a clash. -/
theorem stagedIndexes_error {fault : Fault} (herases : ¬ ErasesUnreadable s t)
    (h : stagedIndexes o s t = .error fault) :
    ∃ done r rest, visit o.stagedPuts t.stagedRecords = done ++ r :: rest ∧
      (∀ r' ∈ done, ¬ Unfit s r') ∧
      ((fault.conflictKind = none ∧ Unfit s r) ∨
        (fault.conflictKind = some .uniqueIndexConflict ∧ ¬ Stuck s r ∧ Clashes s t done r)) := by
  obtain ⟨mid, hmid⟩ := (goErases_total_iff o.stagedErases).mpr herases
  have hvks := mem_visit_erases (t := t) o.stagedErases
  have hperm := visit_perm o.stagedPuts t.stagedRecords
  rw [stagedIndexes, hmid] at h
  simp only at h
  obtain ⟨done, r, rest, indexes, hsplit, hdone, hstep⟩ := foldlM_error_split h
  rw [hsplit] at hperm
  obtain ⟨hso, hfresh⟩ := stagedSoFar_of_visit hvks hmid hperm hdone
  refine ⟨done, r, rest, hsplit, fun r' hr' => ?_, ?_⟩
  · -- the records before have got through
    obtain ⟨pre, post, rfl⟩ := List.append_of_mem hr'
    obtain ⟨before, after, hpre, hr'⟩ := foldlM_ok_split hdone
    rw [List.append_assoc, List.cons_append] at hperm
    obtain ⟨hso', hfresh'⟩ := stagedSoFar_of_visit hvks hmid hperm hpre
    obtain ⟨hstuck, hreadable, -⟩ :=
      (stagePut_ok_iff hso' hfresh').mp ⟨after, stagePut_ok_iff_shared.mp hr'⟩
    exact fun h => h.elim hstuck hreadable
  · by_cases hstuck : Stuck s r
    · rw [goPut_stuck hstuck hso.toSameShape hstep]
      exact Or.inl ⟨rfl, Or.inl hstuck⟩
    · obtain ⟨mid', hcleared, hunreadable, htaken⟩ := exists_cleared hso hstuck hfresh
      rw [goPut_of_cleared hcleared] at hstep
      rcases add_error hstep with ⟨rfl, hun⟩ | ⟨⟨c, name, rfl⟩, hta⟩
      · exact Or.inl ⟨rfl, Or.inr (hunreadable.mp hun)⟩
      · exact Or.inr ⟨rfl, hstuck, htaken.mp hta⟩

end Run

/-! ## The orders there are -/

section Choice

variable {s : State δ} {t : InMemoryTransaction δ}

/-- Orders that are chosen as far as a refusal depends on them. -/
def choose (stagedPuts filing : List Nat) : Orders δ where
  readVersions := []
  stagedErases := []
  stagedPuts := stagedPuts
  removal _ := []
  filing _ := filing
  erases := []
  puts := []

/-- **Every order of the staged records can be run**, with any order of the indexes, up to a record
    that does not get through. -/
theorem exists_stagedIndexes_error {done rest : List (VersionedRecord δ)} {r : VersionedRecord δ}
    (herases : ¬ ErasesUnreadable s t) (hperm : (done ++ r :: rest).Perm t.stagedRecords)
    (hdone : ∀ pre r' post, done = pre ++ r' :: post → ¬ Unfit s r' ∧ ¬ Clashes s t pre r') :
    (Unfit s r → ∃ o : Orders δ, stagedIndexes o s t = .error .nonScalar) ∧
      (¬ Stuck s r → Clashes s t done r → ∃ (o : Orders δ) (fault : Fault),
        fault.conflictKind = some .uniqueIndexConflict ∧ stagedIndexes o s t = .error fault) := by
  obtain ⟨order, horder⟩ := exists_visit hperm
  have hvks := mem_visit_erases (t := t) []
  -- the erased records and `done` get through under every order of the indexes
  obtain ⟨mid, indexes, hrun⟩ : ∃ mid indexes, ∀ filing,
      (visit [] t.erases.toList).foldlM (stageErase (choose order filing) s.records) s.indexes =
          .ok mid ∧ done.foldlM (stagePut (choose order filing) s.records) mid = .ok indexes := by
    obtain ⟨mid, hmid⟩ := (stageErases_ok_iff hvks).mpr herases
    have hputs : ∃ indexes, done.foldlM (InMemoryTransaction.stagePut s.records) mid = .ok indexes := by
      cases hfold : done.foldlM (InMemoryTransaction.stagePut s.records) mid with
      | ok indexes => exact ⟨indexes, rfl⟩
      | error fault =>
        obtain ⟨pre, r', post, before, rfl, hpre, hstep⟩ := foldlM_error_split hfold
        obtain ⟨hunfit, hclash⟩ := hdone pre r' post rfl
        rw [List.append_assoc, List.cons_append] at hperm
        obtain ⟨hso, hfresh⟩ := stagedSoFar_of_visit (o := choose order []) hvks
          (goErases_ok_iff.mpr hmid) hperm (goPuts_ok_iff.mpr hpre)
        obtain ⟨after, hok⟩ := (stagePut_ok_iff hso hfresh).mpr
          ⟨fun h => hunfit (Or.inl h), fun h => hunfit (Or.inr h), hclash⟩
        rw [hok] at hstep
        cases hstep
    obtain ⟨indexes, hindexes⟩ := hputs
    exact ⟨mid, indexes, fun filing => ⟨goErases_ok_iff.mpr hmid, goPuts_ok_iff.mpr hindexes⟩⟩
  have hstaged : ∀ filing fault, stagePut (choose order filing) s.records indexes r = .error fault →
      stagedIndexes (choose order filing) s t = .error fault := by
    intro filing fault hstep
    obtain ⟨hmid, hputs⟩ := hrun filing
    rw [stagedIndexes, show (visit (choose order filing : Orders δ).stagedErases _).foldlM _ _ = _
      from hmid]
    show (visit order t.stagedRecords).foldlM _ mid = _
    rw [horder]
    exact foldlM_error_of_split hputs hstep
  obtain ⟨hso, hfresh⟩ := stagedSoFar_of_visit hvks (hrun []).1 hperm (hrun []).2
  refine ⟨fun hunfit => ?_, fun hstuck hclash => ?_⟩
  · by_cases hstuck : Stuck s r
    · refine ⟨choose order [], hstaged [] _ ?_⟩
      cases hstep : stagePut (choose order []) s.records indexes r with
      | ok after =>
        exact absurd hstuck
          ((stagePut_ok_iff hso hfresh).mp ⟨after, stagePut_ok_iff_shared.mp hstep⟩).1
      | error fault => rw [goPut_stuck hstuck hso.toSameShape hstep]
    · obtain ⟨mid', hcleared, hunreadable, -⟩ := exists_cleared hso hstuck hfresh
      obtain ⟨filing, hadd⟩ := exists_add_nonScalar (hunreadable.mpr (hunfit.resolve_left hstuck))
      refine ⟨choose order filing, hstaged filing _ ?_⟩
      rw [goPut_of_cleared hcleared, hadd _ rfl]
  · obtain ⟨mid', hcleared, -, htaken⟩ := exists_cleared hso hstuck hfresh
    obtain ⟨filing, fault, hkind, hadd⟩ := exists_add_conflict (htaken.mpr hclash)
    refine ⟨choose order filing, fault, hkind, hstaged filing _ ?_⟩
    rw [goPut_of_cleared hcleared, hadd _ rfl]

end Choice

/-! ## When the orders do not matter -/

/-- Under some order a staged record comes for a key that another one has. -/
def Contested (s : State δ) (t : InMemoryTransaction δ) (r : VersionedRecord δ) : Prop :=
  ¬ Stuck s r ∧
    ((∃ r' ∈ t.stagedRecords, ¬ Unfit s r' ∧ SameUniqueKey s.indexes r r') ∨ Collides s t r ∨
      ∃ r' ∈ t.stagedRecords, Takes s r r')

/-- No order gets all staged records through: the final state breaks a unique index, or the records
    take one another's keys in a circle. -/
def Deadlocked (s : State δ) (t : InMemoryTransaction δ) : Prop :=
  (∃ r ∈ t.stagedRecords, Collides s t r ∨ ∃ r' ∈ t.stagedRecords, SameUniqueKey s.indexes r r') ∨
    ¬ AcyclicOn (Takes s) t.stagedRecords

/-- The condition under which every order ends alike. -/
def OrderIrrelevant (s : State δ) (t : InMemoryTransaction δ) : Prop :=
  t.current s = false ∨ ErasesUnreadable s t ∨ (∀ r ∈ t.stagedRecords, ¬ Contested s t r) ∨
    ((∀ r ∈ t.stagedRecords, ¬ Unfit s r) ∧ Deadlocked s t)

section Condition

variable {s : State δ} {t : InMemoryTransaction δ}

theorem takes_irrefl (r : VersionedRecord δ) : ¬ Takes s r r := fun h => h.2.1 rfl

/-- A list whose every item has a property of what comes after it. -/
theorem pairwise_of_splits {α : Type} {P : α → α → Prop} {l : List α}
    (h : ∀ done a rest, l = done ++ a :: rest → ∀ b ∈ rest, P a b) : l.Pairwise P := by
  induction l with
  | nil => exact List.Pairwise.nil
  | cons a l ih =>
    refine List.pairwise_cons.mpr ⟨h [] a l rfl, ih fun done b rest hl => ?_⟩
    exact h (a :: done) b rest (by rw [hl, List.cons_append])

theorem contested_of_clashes {done rest : List (VersionedRecord δ)} {r : VersionedRecord δ}
    (hperm : (done ++ r :: rest).Perm t.stagedRecords) (hdone : ∀ r' ∈ done, ¬ Unfit s r')
    (hstuck : ¬ Stuck s r) (hclash : Clashes s t done r) : Contested s t r := by
  refine ⟨hstuck, ?_⟩
  rcases (clashes_iff hperm).mp hclash with ⟨r', hr', hsame⟩ | hcollides | ⟨r', hr', htakes⟩
  · exact Or.inl ⟨r', hperm.subset (by simp [hr']), hdone r' hr', hsame⟩
  · exact Or.inr (Or.inl hcollides)
  · exact Or.inr (Or.inr ⟨r', hperm.subset (by simp [hr']), htakes⟩)

/-- **A contested record is refused for it under some order.** -/
theorem exists_conflict {r : VersionedRecord δ} (herases : ¬ ErasesUnreadable s t)
    (hr : r ∈ t.stagedRecords) (h : Contested s t r) :
    ∃ (o : Orders δ) (fault : Fault), fault.conflictKind = some .uniqueIndexConflict ∧
      stagedIndexes o s t = .error fault := by
  have hfirst : ∀ {r}, r ∈ t.stagedRecords →
      ∃ rest, ([] ++ r :: rest).Perm t.stagedRecords := by
    intro r hr
    obtain ⟨pre, post, hsplit⟩ := List.append_of_mem hr
    exact ⟨pre ++ post, by rw [hsplit]; exact List.perm_middle.symm⟩
  have hnone : ∀ pre (r' : VersionedRecord δ) post, [] = pre ++ r' :: post →
      ¬ Unfit s r' ∧ ¬ Clashes s t pre r' := fun pre r' post hnil => by simp at hnil
  have hother : ∀ {a b rest}, ([] ++ a :: rest).Perm t.stagedRecords → b ∈ t.stagedRecords →
      b ≠ a → b ∈ rest := by
    intro a b rest hperm hb hne
    have hin := hperm.mem_iff.mpr hb
    rw [List.nil_append, List.mem_cons] at hin
    exact hin.resolve_left hne
  obtain ⟨hstuck, ⟨r', hr', hfit, hsame⟩ | hlate⟩ := h
  · -- `r'` goes first, and then `r`, unless `r'` clashes already
    obtain ⟨rest, hperm⟩ := hfirst hr'
    by_cases hclash : Clashes s t [] r'
    · exact (exists_stagedIndexes_error herases hperm hnone).2 (fun h => hfit (Or.inl h)) hclash
    · have hrest : r ∈ rest := hother hperm hr fun heq => hsame.2.1 (by rw [heq])
      obtain ⟨pre, post, rfl⟩ := List.append_of_mem hrest
      have hperm' : ([r'] ++ r :: (pre ++ post)).Perm t.stagedRecords :=
        (List.Perm.cons r' List.perm_middle.symm).trans hperm
      refine (exists_stagedIndexes_error herases hperm' ?_).2 hstuck
        ((clashes_iff hperm').mpr (Or.inl ⟨r', List.mem_singleton_self r', hsame⟩))
      intro pre' a post' hsplit
      cases pre' with
      | nil =>
        obtain ⟨rfl, -⟩ := List.cons.inj hsplit
        exact ⟨hfit, hclash⟩
      | cons b pre' =>
        have hnil := (List.cons.inj hsplit).2
        simp at hnil
  · -- `r` goes first
    obtain ⟨rest, hperm⟩ := hfirst hr
    refine (exists_stagedIndexes_error herases hperm hnone).2 hstuck ((clashes_iff hperm).mpr ?_)
    rcases hlate with hcollides | ⟨r', hr', htakes⟩
    · exact Or.inr (Or.inl hcollides)
    · exact Or.inr (Or.inr ⟨r', hother hperm hr' fun heq => takes_irrefl r (heq ▸ htakes), htakes⟩)

/-- **When some order gets all staged records through.** -/
theorem exists_order_ok_iff (herases : ¬ ErasesUnreadable s t)
    (hfit : ∀ r ∈ t.stagedRecords, ¬ Unfit s r) :
    (∃ o : Orders δ, ∃ indexes, stagedIndexes o s t = .ok indexes) ↔ ¬ Deadlocked s t := by
  constructor
  · rintro ⟨o, hok⟩ hdead
    have hperm := visit_perm o.stagedPuts t.stagedRecords
    have hclash : ∀ done r rest, visit o.stagedPuts t.stagedRecords = done ++ r :: rest →
        ¬ ((∃ r' ∈ done, SameUniqueKey s.indexes r r') ∨ Collides s t r ∨
          ∃ r' ∈ rest, Takes s r r') := by
      intro done r rest hsplit
      rw [← clashes_iff (hsplit ▸ hperm)]
      exact (((stagedIndexes_ok_iff herases).mp hok) done r rest hsplit).2
    rcases hdead with ⟨r, hr, hcollides | ⟨r', hr', hsame⟩⟩ | hcycle
    · obtain ⟨done, rest, hsplit⟩ := List.append_of_mem (hperm.mem_iff.mpr hr)
      exact hclash done r rest hsplit (Or.inr (Or.inl hcollides))
    · -- the later one of the two meets the other
      obtain ⟨done, rest, hsplit⟩ := List.append_of_mem (hperm.mem_iff.mpr hr)
      have hin := hperm.mem_iff.mpr hr'
      rw [hsplit, List.mem_append, List.mem_cons] at hin
      rcases hin with hin | rfl | hin
      · exact hclash done r rest hsplit (Or.inl ⟨r', hin, hsame⟩)
      · exact hsame.2.1 rfl
      · obtain ⟨pre, post, rfl⟩ := List.append_of_mem hin
        refine hclash (done ++ r :: pre) r' post (by rw [hsplit]; simp) (Or.inl ⟨r, ?_, hsame.symm⟩)
        simp
    · refine hcycle ((exists_order_iff takes_irrefl).mp ⟨_, hperm, pairwise_of_splits ?_⟩)
      exact fun done r rest hsplit r' hr' htakes =>
        hclash done r rest hsplit (Or.inr (Or.inr ⟨r', hr', htakes⟩))
  · intro hdead
    have hacyclic : AcyclicOn (Takes s) t.stagedRecords :=
      not_not.mp fun hcycle => hdead (Or.inr hcycle)
    obtain ⟨rs, hperm, hpair⟩ := exists_pairwise_of_acyclicOn hacyclic
    obtain ⟨order, horder⟩ := exists_visit hperm
    refine ⟨choose order [], (stagedIndexes_ok_iff herases).mpr fun done r rest hsplit => ?_⟩
    replace hsplit : rs = done ++ r :: rest := horder.symm.trans hsplit
    rw [hsplit] at hperm hpair
    have hr : r ∈ t.stagedRecords := hperm.subset (by simp)
    refine ⟨hfit r hr, fun hclash => ?_⟩
    rcases (clashes_iff hperm).mp hclash with ⟨r', hr', hsame⟩ | hcollides | ⟨r', hr', htakes⟩
    · exact hdead (Or.inl ⟨r, hr, Or.inr ⟨r', hperm.subset (by simp [hr']), hsame⟩⟩)
    · exact hdead (Or.inl ⟨r, hr, Or.inl hcollides⟩)
    · exact (List.pairwise_cons.mp (List.pairwise_append.mp hpair).2.1).1 r' hr' htakes

/-- **Where no record is contested**, every order gets all of them through, or none does. -/
theorem stagedIndexes_of_uncontested (herases : ¬ ErasesUnreadable s t)
    (h : ∀ r ∈ t.stagedRecords, ¬ Contested s t r) (o : Orders δ) :
    ((∀ r ∈ t.stagedRecords, ¬ Unfit s r) → ∃ indexes, stagedIndexes o s t = .ok indexes) ∧
      ((∃ r ∈ t.stagedRecords, Unfit s r) →
        ∃ fault, fault.conflictKind = none ∧ stagedIndexes o s t = .error fault) := by
  have hperm := visit_perm o.stagedPuts t.stagedRecords
  constructor
  · intro hfit
    refine (stagedIndexes_ok_iff herases).mpr fun done r rest hsplit => ?_
    rw [hsplit] at hperm
    have hr : r ∈ t.stagedRecords := hperm.subset (by simp)
    refine ⟨hfit r hr, fun hclash => h r hr ?_⟩
    exact contested_of_clashes hperm (fun r' hr' => hfit r' (hperm.subset (by simp [hr'])))
      (fun hstuck => hfit r hr (Or.inl hstuck)) hclash
  · rintro ⟨r, hr, hunfit⟩
    cases hst : stagedIndexes o s t with
    | ok indexes =>
      obtain ⟨done, rest, hsplit⟩ := List.append_of_mem (hperm.mem_iff.mpr hr)
      exact absurd hunfit ((stagedIndexes_ok_iff herases).mp ⟨indexes, hst⟩ done r rest hsplit).1
    | error fault =>
      obtain ⟨done, r', rest, hsplit, hdone, ⟨hkind, -⟩ | ⟨-, hstuck, hclash⟩⟩ :=
        stagedIndexes_error herases hst
      · exact ⟨fault, hkind, rfl⟩
      · rw [hsplit] at hperm
        exact absurd (contested_of_clashes hperm hdone hstuck hclash)
          (h r' (hperm.subset (by simp)))

/-- **Where every record can be filed, but not all of them**, every order is refused over a unique
    index. -/
theorem stagedIndexes_of_deadlocked (herases : ¬ ErasesUnreadable s t)
    (hfit : ∀ r ∈ t.stagedRecords, ¬ Unfit s r) (hdead : Deadlocked s t) (o : Orders δ) :
    ∃ fault, fault.conflictKind = some .uniqueIndexConflict ∧ stagedIndexes o s t = .error fault := by
  cases hst : stagedIndexes o s t with
  | ok indexes => exact absurd hdead ((exists_order_ok_iff herases hfit).mp ⟨o, indexes, hst⟩)
  | error fault =>
    obtain ⟨done, r, rest, hsplit, -, ⟨-, hunfit⟩ | ⟨hkind, -⟩⟩ := stagedIndexes_error herases hst
    · refine absurd hunfit (hfit r ?_)
      refine (visit_perm o.stagedPuts t.stagedRecords).subset ?_
      rw [hsplit]
      simp
    · exact ⟨fault, hkind, rfl⟩

end Condition

/-! ## The theorem -/

/-- A commit that succeeds, and leaves what another one leaves. -/
structure Succeeds (published outcome : Outcome δ) : Prop where
  error : outcome.error = none
  records : outcome.records = published.records
  versions : outcome.versions = published.versions
  shape : SameShape published.indexes outcome.indexes
  entries : ∀ c name ikey k,
    Files outcome.indexes c name ikey k ↔ Files published.indexes c name ikey k

/-- A commit that fails with a kind of conflict, or as no conflict, and changes nothing. -/
structure Fails (s : State δ) (kind : Option ConflictKind) (outcome : Outcome δ) : Prop where
  error : ∃ e, outcome.error = some e ∧ e.conflictKind = kind
  records : outcome.records = s.records
  versions : outcome.versions = s.versions
  indexes : outcome.indexes = s.indexes

/-- Under every order the commit succeeds with the same result, or under every order it fails with
    the same kind of conflict. -/
def OrderBlind (s : State δ) (t : InMemoryTransaction δ) : Prop :=
  (∃ published, ∀ o, Succeeds published (commit o s t)) ∨ ∃ kind, ∀ o, Fails s kind (commit o s t)

section Theorem

variable {s : State δ} {t : InMemoryTransaction δ}

theorem fails_failed (s : State δ) (fault : Fault) :
    Fails s fault.conflictKind (failed s fault) where
  error := ⟨_, rfl, conflictKind_raise fault⟩
  records := rfl
  versions := rfl
  indexes := rfl

/-- **What staging comes to is the same under all orders** that get all records through. -/
theorem sameEntries {o o' : Orders δ} {indexes indexes' : Indexes Bytes}
    (h : stagedIndexes o s t = .ok indexes) (h' : stagedIndexes o' s t = .ok indexes') :
    SameShape indexes indexes' ∧
      ∀ c name ikey k, Files indexes' c name ikey k ↔ Files indexes c name ikey k := by
  have hall := stagedSoFar_of_stagedIndexes h
  have hall' := stagedSoFar_of_stagedIndexes h'
  have hmem : ∀ (o : Orders δ) r, r ∈ visit o.stagedPuts t.stagedRecords ↔ r ∈ t.stagedRecords :=
    fun o r => (visit_perm o.stagedPuts t.stagedRecords).mem_iff
  refine ⟨⟨fun c name => ?_, fun c => ?_⟩, fun c name ikey k => ?_⟩
  · rw [hall'.descriptors, hall.descriptors]
  · rw [hall'.collections, hall.collections]
  · rw [hall'.files, hall.files]
    simp only [FiledAfter, hmem]

/-- **When a Go commit does not depend on the order of its maps.** -/
theorem commit_order_blind_iff (hopen : t.isOpen = true) :
    OrderBlind s t ↔ OrderIrrelevant s t := by
  by_cases hcurrent : t.current s = true
  swap
  · have hstale : t.current s = false := by simpa using hcurrent
    refine iff_of_true (Or.inr ⟨some .versionConflict, fun o => ?_⟩) (Or.inl hstale)
    rw [commit_stale hopen hstale]
    exact fails_failed s .versionConflict
  by_cases herases : ErasesUnreadable s t
  · refine iff_of_true (Or.inr ⟨none, fun o => ?_⟩) (Or.inr (Or.inl herases))
    rw [commit_of_current hopen hcurrent, stagedIndexes_unreadable herases]
    exact fails_failed s .nonScalar
  -- from here on staging decides
  have hfails : ∀ {o fault}, stagedIndexes o s t = .error fault →
      Fails s fault.conflictKind (commit o s t) := by
    intro o fault hst
    rw [commit_of_current hopen hcurrent, hst]
    exact fails_failed s fault
  have hsucceeds : ∀ {o indexes}, stagedIndexes o s t = .ok indexes →
      commit o s t = { error := none, records := (t.apply s).1, versions := (t.apply s).2
                       indexes := indexes } := by
    intro o indexes hst
    rw [commit_of_current hopen hcurrent, hst]
  constructor
  · intro hblind
    -- two orders that end differently show that the condition cannot fail
    have hdiffer : ∀ {o o' fault}, stagedIndexes o s t = .error fault →
        fault.conflictKind = some .uniqueIndexConflict →
        (∃ indexes, stagedIndexes o' s t = .ok indexes) ∨
          (∃ fault', fault'.conflictKind = none ∧ stagedIndexes o' s t = .error fault') → False := by
      intro o o' fault hst hkind hother
      obtain ⟨e, he, hekind⟩ := (hfails hst).error
      rcases hblind with ⟨published, hall⟩ | ⟨kind, hall⟩
      · rw [(hall o).error] at he
        cases he
      · obtain ⟨e₁, he₁, hkind₁⟩ := (hall o).error
        obtain ⟨e₂, he₂, hkind₂⟩ := (hall o').error
        obtain rfl := Option.some_inj.mp (he.symm.trans he₁)
        rcases hother with ⟨indexes, hok⟩ | ⟨fault', hnone, hst'⟩
        · rw [hsucceeds hok] at he₂
          cases he₂
        · obtain ⟨e₃, he₃, hkind₃⟩ := (hfails hst').error
          obtain rfl := Option.some_inj.mp (he₂.symm.trans he₃)
          rw [hkind₁] at hekind
          rw [hkind₃, hekind, hkind, hnone] at hkind₂
          cases hkind₂
    refine Or.inr (Or.inr ?_)
    by_cases hcontested : ∀ r ∈ t.stagedRecords, ¬ Contested s t r
    · exact Or.inl hcontested
    · refine Or.inr ?_
      simp only [not_forall, not_not] at hcontested
      obtain ⟨r, hr, hcontested⟩ := hcontested
      obtain ⟨o, fault, hkind, hst⟩ := exists_conflict herases hr hcontested
      have hfit : ∀ r ∈ t.stagedRecords, ¬ Unfit s r := by
        intro r' hr' hunfit
        obtain ⟨pre, post, hsplit⟩ := List.append_of_mem hr'
        have hperm : ([] ++ r' :: (pre ++ post)).Perm t.stagedRecords := by
          rw [hsplit]
          exact List.perm_middle.symm
        obtain ⟨o', hst'⟩ := (exists_stagedIndexes_error herases hperm
          fun pre' a post' hnil => by simp at hnil).1 hunfit
        exact hdiffer hst hkind (Or.inr ⟨_, rfl, hst'⟩)
      refine ⟨hfit, not_not.mp fun hdead => ?_⟩
      obtain ⟨o', hok⟩ := (exists_order_ok_iff herases hfit).mpr hdead
      exact hdiffer hst hkind (Or.inl hok)
  · rintro (hstale | hunreadable | huncontested | ⟨hfit, hdead⟩)
    · rw [hcurrent] at hstale
      cases hstale
    · exact absurd hunreadable herases
    · by_cases hfit : ∀ r ∈ t.stagedRecords, ¬ Unfit s r
      · have hok := fun o => (stagedIndexes_of_uncontested herases huncontested o).1 hfit
        obtain ⟨indexes, hfirst⟩ := hok (choose [] [])
        refine Or.inl ⟨commit (choose [] []) s t, fun o => ?_⟩
        obtain ⟨indexes', hst⟩ := hok o
        obtain ⟨hshape, hentries⟩ := sameEntries hfirst hst
        rw [hsucceeds hfirst, hsucceeds hst]
        exact ⟨rfl, rfl, rfl, hshape, hentries⟩
      · simp only [not_forall, not_not] at hfit
        obtain ⟨r, hr, hunfit⟩ := hfit
        refine Or.inr ⟨none, fun o => ?_⟩
        obtain ⟨fault, hkind, hst⟩ :=
          (stagedIndexes_of_uncontested herases huncontested o).2 ⟨r, hr, hunfit⟩
        exact hkind ▸ hfails hst
    · refine Or.inr ⟨some .uniqueIndexConflict, fun o => ?_⟩
      obtain ⟨fault, hkind, hst⟩ := stagedIndexes_of_deadlocked herases hfit hdead o
      exact hkind ▸ hfails hst

end Theorem

/-! ## A status that is handed on -/

/-- The unique index of the orders. -/
def statusIndex : IndexDescriptor :=
  { name := ascii "by_status", fields := [ascii "status"], unique := true }

def orders : CollectionDescriptor := { name := ascii "orders", indexes := [statusIndex] }

def orderDocument (status : Bytes) : Json Empty := .object [(ascii "status", .string status)]

/-- A transaction that puts two orders. -/
def putOrders (s : State Empty) (first second : Bytes) : InMemoryTransaction Empty :=
  (put .latest s (put .latest s InMemoryTransaction.begin (ascii "orders") (ascii "order-1")
    (orderDocument first)).2 (ascii "orders") (ascii "order-2") (orderDocument second)).2

/-- The indexes of the registered collection, empty. -/
def ordersIndexes : Indexes Bytes :=
  (∅ : Indexes Bytes).insert (ascii "orders")
    ((∅ : OrderedMap Bytes (InMemoryIndexState Bytes)).insert (ascii "by_status") ⟨statusIndex, ∅⟩)

/-- The registered collection, empty. -/
def ordersState : State Empty where
  collections :=
    (∅ : OrderedMap CollectionName CollectionDescriptor).insert (ascii "orders") orders
  records := ∅
  versions := ∅
  indexes := ordersIndexes
  keyed := keyed_empty
  counted := counted_empty
  sound c name ikey k h := by
    obtain ⟨index, hindex, hholds⟩ := h
    rw [OrderedMap.find₂, ordersIndexes, OrderedMap.find_insert] at hindex
    split at hindex
    · rw [Option.bind_some, OrderedMap.find_insert] at hindex
      split at hindex
      · obtain rfl := Option.some_inj.mp hindex
        exact absurd hholds (Multimap.holds_empty ikey k)
      · simp at hindex
    · simp at hindex
  indexed c h := by
    rw [ordersIndexes, Std.ExtTreeMap.mem_insert] at h
    rw [Std.ExtTreeMap.mem_insert]
    exact h.imp_right fun h => by simp at h

/-- The collection with an open and a closed order. -/
def twoOrders : State Empty :=
  match InMemoryTransaction.commit [] ordersState
    (putOrders ordersState (ascii "Open") (ascii "Closed")) with
  | .ok r => r.1
  | .error _ => ordersState

/-- The second order is done, and the first one closed in its place. -/
def handOn : InMemoryTransaction Empty := putOrders twoOrders (ascii "Closed") (ascii "Done")

/-- Whether this commit depends on the order is whether the condition fails for it. -/
theorem commit_order_blind_handOn : OrderBlind twoOrders handOn ↔ OrderIrrelevant twoOrders handOn :=
  commit_order_blind_iff rfl

/-- **A status that is handed on commits in one order only.** -/
theorem handed_on : handOn.isOpen = true ∧ ¬ OrderBlind twoOrders handOn := by
  -- the first order first: the second one still has the status
  have hrefused : (commit (choose [0] []) twoOrders handOn).error =
      some (raise (.uniqueIndexConflict (ascii "orders") (ascii "by_status"))) := by decide +kernel
  -- the second order first: it has given the status up
  have hcommits : (commit (choose [1] []) twoOrders handOn).error = none := by decide +kernel
  refine ⟨rfl, ?_⟩
  rintro (⟨published, hall⟩ | ⟨kind, hall⟩)
  · rw [(hall (choose [0] [])).error] at hrefused
    cases hrefused
  · obtain ⟨e, he, -⟩ := (hall (choose [1] [])).error
    rw [hcommits] at he
    cases he

end StateSpec.Go
