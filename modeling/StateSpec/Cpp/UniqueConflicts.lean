/-
  UNIQUE-INDEX CONFLICTS of the C++ in-memory backend.

  A commit should be refused over a unique index exactly when the records it would leave break the
  index (`Duplicated`).  The loop in `commit` takes out one predecessor and files one record after
  the other, in the order of their version keys, so it sees states in between:

  * `throws_iff`     — it refuses when a staged record it reaches repeats a key of the final state
                       (`Repeats`), or comes for the key of a record that is staged too, but later
                       (`Premature`);
  * `duplicated_iff` — the final state breaks an index exactly when some staged record repeats a key;
  * `unique_conflicts_exact_iff` — so the refusal is exact but for premature ones: two records that
                       swap a unique value never commit (`swap_refused`).
-/
import StateSpec.Memory.UniqueKeys
import StateSpec.Cpp.Indexes

set_option linter.unusedSectionVars false

namespace StateSpec.Cpp

open StateSpec.Memory StateSpec.Memory.InMemoryTransaction

variable {δ : Type} [Decimal δ]

/-! ## Refusals, and states that break an index -/

/-- The commit throws a `ConflictError` over a unique index. -/
def ThrowsUniqueConflict (s : State δ) (t : Tx δ) : Prop :=
  ∃ e, commit s t = .error e ∧ e.conflictKind = some .uniqueIndexConflict

/-- Two different records of one collection have the same key in a unique index. -/
def Duplicated (indexes : Indexes InMemoryIndexKey) (records : Records δ) : Prop :=
  ∃ c k k' r r', OrderedMap.find₂ records c k = some r ∧ OrderedMap.find₂ records c k' = some r' ∧
    SameUniqueKey indexes r r'

/-- Every staged document has a key in every index of its collection. -/
def StagedReadable (s : State δ) (t : Tx δ) : Prop :=
  ∀ r ∈ t.stagedRecords, ¬ Unreadable s.indexes r

/-! ## The order of the loop -/

/-- The loop visits `r` before `r'`. -/
def Before (r r' : VersionedRecord δ) : Prop := compare (versionKeyOf r) (versionKeyOf r') = .lt

/-- The loop gets as far as `r`: every record it takes out before that has its keys. -/
def Reached (s : State δ) (t : Tx δ) (r : VersionedRecord δ) : Prop :=
  ¬ ErasesUnreadable s t ∧ ∀ r' ∈ t.stagedRecords, r' = r ∨ Before r' r → ¬ Stuck s r'

/-- A staged record has a key of the final state that another record has too. -/
def Repeats (s : State δ) (t : Tx δ) (r : VersionedRecord δ) : Prop :=
  (∃ r' ∈ t.stagedRecords, Before r' r ∧ SameUniqueKey s.indexes r r') ∨ Collides s t r

/-- A staged record comes for the key of a committed record that is staged too, but later. -/
def Premature (s : State δ) (t : Tx δ) (r : VersionedRecord δ) : Prop :=
  ∃ r' ∈ t.stagedRecords, Before r r' ∧ Takes s r r'

theorem pairwise_stagedRecords (t : Tx δ) : t.stagedRecords.Pairwise Before := by
  rw [stagedRecords, List.pairwise_map]
  refine List.Pairwise.imp_of_mem ?_ (Std.ExtTreeMap.ordered_keys_toList (t := t.puts))
  intro p q hp hq hlt
  show compare (versionKeyOf p.2) (versionKeyOf q.2) = .lt
  rw [t.keys_puts p hp, t.keys_puts q hq]
  exact hlt

theorem Before.irrefl (r : VersionedRecord δ) : ¬ Before r r := by
  intro h
  have hself : compare (versionKeyOf r) (versionKeyOf r) = .eq := Std.compare_eq_iff_eq.mpr rfl
  rw [Before, hself] at h
  cases h

theorem Before.asymm {r r' : VersionedRecord δ} (h : Before r r') : ¬ Before r' r := by
  intro h'
  exact Before.irrefl r (Std.TransCmp.lt_trans h h')

/-- Of two staged records of different keys one comes first. -/
theorem before_or_before {r r' : VersionedRecord δ} (hc : r.collection = r'.collection)
    (hk : r.key ≠ r'.key) : Before r r' ∨ Before r' r := by
  cases hcmp : compare (versionKeyOf r) (versionKeyOf r') with
  | lt => exact Or.inl hcmp
  | gt => exact Or.inr (Std.OrientedCmp.gt_iff_lt.mp hcmp)
  | eq =>
    have hvk := Std.compare_eq_iff_eq.mp hcmp
    rw [versionKeyOf, versionKeyOf, hc] at hvk
    exact absurd (recordVersionKey_inj_right hvk) hk

section

variable {t : Tx δ} {done rest : List (VersionedRecord δ)} {r : VersionedRecord δ}

/-- What the loop has visited when it comes to `r`, and what it has not. -/
theorem mem_done_rest (h : t.stagedRecords = done ++ r :: rest) (r' : VersionedRecord δ) :
    (r' ∈ done ↔ r' ∈ t.stagedRecords ∧ Before r' r) ∧
      (r' ∈ rest ↔ r' ∈ t.stagedRecords ∧ Before r r') := by
  have hpair := pairwise_stagedRecords t
  rw [h, List.pairwise_append, List.pairwise_cons] at hpair
  obtain ⟨-, ⟨hrest, -⟩, hdone⟩ := hpair
  have hmem : r' ∈ t.stagedRecords ↔ r' ∈ done ∨ r' = r ∨ r' ∈ rest := by
    rw [h, List.mem_append, List.mem_cons]
  have hbefore : r' ∈ done → Before r' r := fun hr' => hdone r' hr' r List.mem_cons_self
  constructor
  · refine ⟨fun hr' => ⟨hmem.mpr (Or.inl hr'), hbefore hr'⟩, ?_⟩
    rintro ⟨hr', hlt⟩
    rcases hmem.mp hr' with hr' | rfl | hr'
    · exact hr'
    · exact absurd hlt (Before.irrefl _)
    · exact absurd hlt (hrest r' hr').asymm
  · refine ⟨fun hr' => ⟨hmem.mpr (Or.inr (Or.inr hr')), hrest r' hr'⟩, ?_⟩
    rintro ⟨hr', hlt⟩
    rcases hmem.mp hr' with hr' | rfl | hr'
    · exact absurd hlt (hbefore hr').asymm
    · exact absurd hlt (Before.irrefl _)
    · exact hr'

/-- **When a staged record clashes at its turn.** -/
theorem clashes_in_order {s : State δ} (h : t.stagedRecords = done ++ r :: rest) :
    Clashes s t done r ↔ Repeats s t r ∨ Premature s t r := by
  have hparts := mem_done_rest h
  rw [clashes_iff (List.Perm.of_eq h.symm), Repeats, Premature, or_assoc]
  refine or_congr ?_ (or_congr_right ?_)
  · exact exists_congr fun r' => by rw [(hparts r').1, and_assoc]
  · exact exists_congr fun r' => by rw [(hparts r').2, and_assoc]

end

/-! ## When the commit throws -/

section

variable {s : State δ} {t : Tx δ}

theorem mem_erases_toList (vk : Bytes) : vk ∈ t.erases.toList ↔ vk ∈ t.erases :=
  Std.ExtTreeSet.mem_toList

/-- A record whose predecessor has no key fails, and not over a unique index. -/
theorem stagePut_stuck {indexes : Indexes InMemoryIndexKey} {r : VersionedRecord δ}
    (hstuck : Stuck s r) (hshape : SameShape s.indexes indexes) {fault : Fault}
    (h : stagePut s.records indexes r = .error fault) : fault = .nonScalar := by
  obtain ⟨existing, hold, hunreadable⟩ := hstuck
  rw [stagePut, show OrderedMap.find₂ s.records r.collection r.key = some existing from hold] at h
  cases hrem : removeRecordFromIndexes indexes existing with
  | ok mid =>
    exact absurd ((unreadable_congr hshape existing).mpr hunreadable)
      (removeRecordFromIndexes_ok_iff.mp ⟨mid, hrem⟩)
  | error fault' =>
    simp only [hrem, Except.error.injEq] at h
    rw [← h]
    exact removeRecordFromIndexes_nonScalar hrem

/-- The commit of a current transaction throws over a unique index when its staging does. -/
theorem throws_iff_staging (hopen : t.isOpen = true) (hcurrent : t.current s = true) :
    ThrowsUniqueConflict s t ↔
      ∃ c name, stageIndexes [] s t = .error (.uniqueIndexConflict c name) := by
  have hcommit : ∀ fault, stageIndexes [] s t = .error fault →
      commit s t = .error (thrown fault) := by
    intro fault hst
    rw [commit, InMemoryTransaction.commit, if_neg (by simp [hopen]), if_neg (by simp [hcurrent])]
    split
    · rename_i fault' hst'
      obtain rfl := Except.error.inj (hst.symm.trans hst')
      rfl
    · rename_i indexes hst'
      rw [hst] at hst'
      cases hst'
  constructor
  · rintro ⟨e, he, hkind⟩
    cases hst : stageIndexes [] s t with
    | ok indexes =>
      rw [commit, commit_of_staged hopen hcurrent hst] at he
      cases he
    | error fault =>
      rw [hcommit fault hst, Except.error.injEq] at he
      rw [← he, conflictKind_thrown] at hkind
      cases fault with
      | uniqueIndexConflict c name => exact ⟨c, name, rfl⟩
      | closed => cases hkind
      | versionConflict => cases hkind
      | nonScalar => cases hkind
  · rintro ⟨c, name, hst⟩
    exact ⟨_, hcommit _ hst, conflictKind_thrown _⟩

/-- What is known when the loop has come to a staged record. -/
theorem stagedSoFar_of_split {done rest : List (VersionedRecord δ)} {r : VersionedRecord δ}
    {mid indexes : Indexes InMemoryIndexKey}
    (hmid : t.erases.toList.foldlM (stageErase s.records) s.indexes = .ok mid)
    (hsplit : t.stagedRecords = done ++ r :: rest)
    (hdone : done.foldlM (stagePut s.records) mid = .ok indexes) :
    StagedSoFar s t done indexes ∧
      ∀ r' ∈ done, ¬ (r.collection = r'.collection ∧ r.key = r'.key) := by
  have hnodup := t.nodup_stagedRecords
  rw [hsplit, List.map_append, List.map_cons, List.nodup_append] at hnodup
  refine ⟨stagedSoFar mem_erases_toList hmid hnodup.1 hdone, ?_⟩
  rintro r' hr' ⟨hc, hk⟩
  refine hnodup.2.2 _ (List.mem_map_of_mem hr') _ List.mem_cons_self ?_
  rw [versionKeyOf, versionKeyOf, hc, hk]

/-- **When the commit throws over a unique index**: the loop reaches a staged record that repeats a
    key of the final state, or comes for one too early. -/
theorem throws_iff (hopen : t.isOpen = true) (hcurrent : t.current s = true)
    (hreadable : StagedReadable s t) :
    ThrowsUniqueConflict s t ↔
      ∃ r ∈ t.stagedRecords, Reached s t r ∧ (Repeats s t r ∨ Premature s t r) := by
  rw [throws_iff_staging hopen hcurrent]
  constructor
  · rintro ⟨c, name, hst⟩
    rw [stageIndexes] at hst
    cases hmid : t.erases.toList.foldlM (stageErase s.records) s.indexes with
    | error fault =>
      simp only [hmid, Except.error.injEq] at hst
      rw [stageErases_nonScalar hmid] at hst
      cases hst
    | ok mid =>
      simp only [hmid] at hst
      obtain ⟨done, r, rest, indexes, hsplit, hdone, hstep⟩ := foldlM_error_split hst
      replace hsplit : t.stagedRecords = done ++ r :: rest := hsplit
      obtain ⟨hso, hfresh⟩ := stagedSoFar_of_split hmid hsplit hdone
      have hmem : r ∈ t.stagedRecords := by rw [hsplit]; simp
      have hstuck : ¬ Stuck s r := by
        intro hstuck
        cases stagePut_stuck hstuck hso.toSameShape hstep
      refine ⟨r, hmem, ⟨(stageErases_ok_iff mem_erases_toList).mp ⟨mid, hmid⟩, ?_⟩, ?_⟩
      · rintro r' hr' (rfl | hlt)
        · exact hstuck
        · -- the records before have got through
          obtain ⟨pre, post, rfl⟩ := List.append_of_mem (((mem_done_rest hsplit r').1).mpr ⟨hr', hlt⟩)
          obtain ⟨before, after, hpre, hr'⟩ := foldlM_ok_split hdone
          have hsplit' : t.stagedRecords = pre ++ r' :: (post ++ r :: rest) := by
            rw [hsplit, List.append_assoc, List.cons_append]
          obtain ⟨hso', hfresh'⟩ := stagedSoFar_of_split hmid hsplit' hpre
          exact ((stagePut_ok_iff hso' hfresh').mp ⟨after, hr'⟩).1
      · rw [← clashes_in_order hsplit]
        by_contra hclash
        obtain ⟨after, hok⟩ := (stagePut_ok_iff hso hfresh).mpr ⟨hstuck, hreadable r hmem, hclash⟩
        rw [hok] at hstep
        cases hstep
  · rintro ⟨r, hmem, ⟨herases, hreached⟩, hclash⟩
    obtain ⟨mid, hmid⟩ := (stageErases_ok_iff mem_erases_toList).mpr herases
    obtain ⟨done, rest, hsplit⟩ := List.append_of_mem hmem
    rw [← clashes_in_order hsplit] at hclash
    rw [stageIndexes, hmid]
    show ∃ c name, t.stagedRecords.foldlM (stagePut s.records) mid = _
    cases hputs : t.stagedRecords.foldlM (stagePut s.records) mid with
    | ok indexes =>
      -- then `r` has got through, although it clashes
      rw [hsplit] at hputs
      obtain ⟨before, after, hdone, hstep⟩ := foldlM_ok_split hputs
      obtain ⟨hso, hfresh⟩ := stagedSoFar_of_split hmid hsplit hdone
      exact absurd hclash ((stagePut_ok_iff hso hfresh).mp ⟨after, hstep⟩).2.2
    | error fault =>
      obtain ⟨done', r', rest', indexes, hsplit', hdone', hstep⟩ := foldlM_error_split hputs
      obtain ⟨hso', hfresh'⟩ := stagedSoFar_of_split hmid hsplit' hdone'
      have hmem' : r' ∈ t.stagedRecords := by rw [hsplit']; simp
      by_cases hlate : Before r r'
      · -- the loop has passed `r`
        obtain ⟨pre, post, rfl⟩ := List.append_of_mem (((mem_done_rest hsplit' r).1).mpr ⟨hmem, hlate⟩)
        obtain ⟨before, after, hpre, hr⟩ := foldlM_ok_split hdone'
        have hsame : t.stagedRecords = pre ++ r :: (post ++ r' :: rest') := by
          rw [hsplit', List.append_assoc, List.cons_append]
        obtain ⟨hso, hfresh⟩ := stagedSoFar_of_split hmid hsame hpre
        rw [clashes_in_order hsplit, ← clashes_in_order hsame] at hclash
        exact absurd hclash ((stagePut_ok_iff hso hfresh).mp ⟨after, hr⟩).2.2
      · have hearly : r' = r ∨ Before r' r := by
          have hin : r' ∈ done ++ r :: rest := hsplit ▸ hmem'
          rcases List.mem_append.mp hin with hin | hin
          · exact Or.inr (((mem_done_rest hsplit r').1).mp hin).2
          · rcases List.mem_cons.mp hin with rfl | hin
            · exact Or.inl rfl
            · exact absurd (((mem_done_rest hsplit r').2).mp hin).2 hlate
        obtain ⟨mid', hcleared, hunreadable, -⟩ :=
          exists_cleared hso' (hreached r' hmem' hearly) hfresh'
        rw [stagePut_of_cleared hcleared] at hstep
        obtain ⟨c, name, rfl⟩ := addRecordToIndexes_conflict
          (fun h => hreadable r' hmem' (hunreadable.mp h)) hstep
        exact ⟨c, name, rfl⟩

end

/-! ## The final state -/

section

variable {s : State δ} {t : Tx δ}

/-- Where a staged record ends up. -/
theorem find_apply_put {c : CollectionName} {k : Key} {r : VersionedRecord δ}
    (h : t.Puts c k r) : ∃ v, OrderedMap.find₂ (t.apply s).1 c k = some { r with version := v } := by
  rcases t.apply_cases s c k with ⟨r', hr', hfind⟩ | ⟨herase, -⟩ | ⟨hno, -⟩
  · obtain rfl := Option.some_inj.mp (hr'.1.symm.trans h.1)
    exact ⟨_, hfind⟩
  · exact absurd herase (not_erases_of_puts h)
  · exact absurd h (hno r)

/-- Where the transaction does nothing, everything stays. -/
theorem find_apply_untouched {c : CollectionName} {k : Key} (hput : ∀ r, ¬ t.Puts c k r)
    (herase : ¬ t.Erases c k) : OrderedMap.find₂ (t.apply s).1 c k = s.recordAt c k := by
  rcases t.apply_cases s c k with ⟨r', hr', -⟩ | ⟨h, -⟩ | ⟨-, -, hfind⟩
  · exact absurd hr' (hput r')
  · exact absurd h herase
  · exact hfind

/-- **When the final state breaks a unique index**: some staged record repeats a key. -/
theorem duplicated_iff (hs : IndexConsistent s) :
    Duplicated s.indexes (t.apply s).1 ↔ ∃ r ∈ t.stagedRecords, Repeats s t r := by
  have hcollides : ∀ c k k' r r', t.Puts c k r → (∀ r, ¬ t.Puts c k' r) → ¬ t.Erases c k' →
      s.recordAt c k' = some r' → SameUniqueKey s.indexes r r' → Collides s t r := by
    rintro c k k' r r' hr hno hne hr' ⟨-, hk, name, d, ikey, hd, hunique, hkey, hkey'⟩
    obtain ⟨-, rfl, rfl⟩ := hr
    rw [(InMemoryState.recordAt_keyed hr').2] at hk
    exact ⟨k', ⟨hk, name, d, ikey, hd, hunique, hkey,
      (hs.image _ name d hd ikey k').mpr ⟨r', hr', hkey'⟩⟩, hne, hno⟩
  constructor
  · rintro ⟨c, k, k', r, r', hr, hr', hsame⟩
    rcases t.apply_cases s c k with ⟨a, ha, hfind⟩ | ⟨-, hfind⟩ | ⟨hno, hne, hfind⟩
    · rw [hfind, Option.some_inj] at hr
      subst hr
      rcases t.apply_cases s c k' with ⟨b, hb, hfind'⟩ | ⟨-, hfind'⟩ | ⟨hno, hne, hfind'⟩
      · -- both are staged: the later one repeats the key
        rw [hfind', Option.some_inj] at hr'
        subst hr'
        have horder : Before a b ∨ Before b a := before_or_before hsame.1 hsame.2.1
        rcases horder with hlt | hlt
        · exact ⟨b, mem_of_puts hb, Or.inl ⟨a, mem_of_puts ha, hlt, hsame.symm⟩⟩
        · exact ⟨a, mem_of_puts ha, Or.inl ⟨b, mem_of_puts hb, hlt, hsame⟩⟩
      · rw [hfind'] at hr'
        cases hr'
      · rw [hfind'] at hr'
        exact ⟨a, mem_of_puts ha, Or.inr (hcollides c k k' a r' ha hno hne hr' hsame)⟩
    · rw [hfind] at hr
      cases hr
    · rw [hfind] at hr
      rcases t.apply_cases s c k' with ⟨b, hb, hfind'⟩ | ⟨-, hfind'⟩ | ⟨-, -, hfind'⟩
      · rw [hfind', Option.some_inj] at hr'
        subst hr'
        exact ⟨b, mem_of_puts hb,
          Or.inr (hcollides c k' k b r hb hno hne hr (hsame.symm))⟩
      · rw [hfind'] at hr'
        cases hr'
      · -- two committed records: the state was consistent
        rw [hfind'] at hr'
        obtain ⟨-, hk, name, d, ikey, hd, hunique, hkey, hkey'⟩ := hsame
        rw [(InMemoryState.recordAt_keyed hr).1] at hd
        have heq := hs.unique c name d hd hunique ikey k k'
          ((hs.image c name d hd ikey k).mpr ⟨r, hr, hkey⟩)
          ((hs.image c name d hd ikey k').mpr ⟨r', hr', hkey'⟩)
        rw [(InMemoryState.recordAt_keyed hr).2, (InMemoryState.recordAt_keyed hr').2] at hk
        exact absurd heq hk
  · rintro ⟨r, hr, ⟨r', hr', -, hsame⟩ | ⟨k, ⟨hk, name, d, ikey, hd, hunique, hkey, hf⟩, hne, hno⟩⟩
    · obtain ⟨v, hv⟩ := find_apply_put (s := s) (puts_of_mem hr)
      obtain ⟨v', hv'⟩ := find_apply_put (s := s) (puts_of_mem hr')
      rw [← hsame.1] at hv'
      exact ⟨_, _, _, _, _, hv, hv', rfl, hsame.2⟩
    · obtain ⟨v, hv⟩ := find_apply_put (s := s) (puts_of_mem hr)
      obtain ⟨r', hr', hkey'⟩ := (hs.image _ name d hd ikey k).mp hf
      have hv' := (find_apply_untouched (s := s) hno hne).trans hr'
      obtain ⟨hc', hk'⟩ := InMemoryState.recordAt_keyed hr'
      exact ⟨_, _, _, _, r', hv, hv', hc'.symm, hk' ▸ hk, name, d, ikey, hd, hunique, hkey, hkey'⟩

/-- The condition under which a refusal over a unique index is exact.  When the final state breaks
    an index: the loop gets as far as a record that meets another.  When it does not: no record that
    the loop reaches comes for the key of one that is staged later. -/
def ConflictsExact (s : State δ) (t : Tx δ) : Prop :=
  (Duplicated s.indexes (t.apply s).1 →
    ∃ r ∈ t.stagedRecords, Reached s t r ∧ (Repeats s t r ∨ Premature s t r)) ∧
  (¬ Duplicated s.indexes (t.apply s).1 →
    ∀ r ∈ t.stagedRecords, Reached s t r → ¬ Premature s t r)

/-- Where every committed record has its keys, the loop reaches every staged record. -/
theorem conflictsExact_iff_of_readable (hs : IndexConsistent s)
    (hreadable : ∀ c k r, s.recordAt c k = some r → ¬ Unreadable s.indexes r) :
    ConflictsExact s t ↔ Duplicated s.indexes (t.apply s).1 ∨
      ∀ r ∈ t.stagedRecords, ¬ Premature s t r := by
  have hreached : ∀ r, Reached s t r := by
    refine fun r => ⟨?_, ?_⟩
    · rintro ⟨c, k, r', -, hr', hun⟩
      exact hreadable c k r' hr' hun
    · rintro r' - - ⟨existing, hexisting, hun⟩
      exact hreadable _ _ existing hexisting hun
  constructor
  · rintro ⟨-, hno⟩
    by_cases hdup : Duplicated s.indexes (t.apply s).1
    · exact Or.inl hdup
    · exact Or.inr fun r hr => hno hdup r hr (hreached r)
  · intro h
    refine ⟨fun hdup => ?_, fun hdup r hr _ => h.resolve_left hdup r hr⟩
    obtain ⟨r, hr, hrepeats⟩ := (duplicated_iff hs).mp hdup
    exact ⟨r, hr, hreached r, Or.inl hrepeats⟩

/-- **When the refusal over a unique index is exact.** -/
theorem unique_conflicts_exact_iff (hs : IndexConsistent s) (hcurrent : t.current s = true)
    (hclosed : t.isOpen = false → t.stagedRecords = []) (hreadable : StagedReadable s t) :
    (ThrowsUniqueConflict s t ↔ Duplicated s.indexes (t.apply s).1) ↔ ConflictsExact s t := by
  have hthrows : ThrowsUniqueConflict s t ↔
      ∃ r ∈ t.stagedRecords, Reached s t r ∧ (Repeats s t r ∨ Premature s t r) := by
    by_cases hopen : t.isOpen = true
    · exact throws_iff hopen hcurrent hreadable
    · -- a closed transaction has nothing staged, and is refused as closed
      rw [hclosed (by simpa using hopen)]
      refine iff_of_false ?_ (by simp)
      rintro ⟨e, he, hkind⟩
      rw [commit, InMemoryTransaction.commit, if_pos (by simpa using hopen)] at he
      obtain rfl := Except.error.inj he
      cases hkind
  rw [hthrows, ConflictsExact]
  by_cases hdup : Duplicated s.indexes (t.apply s).1
  · simp only [hdup, iff_true, true_implies, not_true_eq_false, false_implies, and_true]
  · have hno : ∀ r ∈ t.stagedRecords, ¬ Repeats s t r := fun r hr hrepeats =>
      hdup ((duplicated_iff hs).mpr ⟨r, hr, hrepeats⟩)
    simp only [hdup, iff_false, false_implies, not_false_eq_true, true_implies, true_and]
    constructor
    · exact fun h r hr hreached hpre => h ⟨r, hr, hreached, Or.inr hpre⟩
    · rintro h ⟨r, hr, hreached, hrepeats | hpre⟩
      · exact hno r hr hrepeats
      · exact h r hr hreached hpre

end

/-! ## Two orders that swap their status -/

/-- The unique index of the orders. -/
def statusIndex : IndexDescriptor :=
  { name := ascii "by_status", fields := [ascii "status"], unique := true }

def orders : CollectionDescriptor := { name := ascii "orders", indexes := [statusIndex] }

def orderDocument (status : Bytes) : Json Empty := .object [(ascii "status", .string status)]

/-- A transaction that puts both orders. -/
def putOrders (s : State Empty) (first second : Bytes) : Tx Empty :=
  (put .first s (put .first s InMemoryTransaction.begin (ascii "orders") (ascii "order-1")
    (orderDocument first)).2 (ascii "orders") (ascii "order-2") (orderDocument second)).2

/-- The registered collection, empty. -/
def ordersState : State Empty := register [orders] InMemoryState.empty

/-- The collection with an open and a closed order. -/
def twoOrders : State Empty :=
  match commit ordersState (putOrders ordersState (ascii "Open") (ascii "Closed")) with
  | .ok r => r.1
  | .error _ => ordersState

/-- The first order is closed, and the second one opened. -/
def swapOrders : Tx Empty := putOrders twoOrders (ascii "Closed") (ascii "Open")

theorem indexConsistent_twoOrders : IndexConsistent twoOrders := by
  have hempty : IndexConsistent ordersState := indexConsistent_register_empty [orders]
  rw [twoOrders]
  cases h : commit ordersState (putOrders ordersState (ascii "Open") (ascii "Closed")) with
  | error e => exact hempty
  | ok r =>
    obtain ⟨-, -, indexes, hst, rfl⟩ := commit_ok (commit_ok_iff.mp h)
    exact indexConsistent_committed hempty hst

/-- The only index of the orders. -/
theorem descriptorOf_twoOrders {c : CollectionName} {name : Bytes} {d : IndexDescriptor}
    (h : descriptorOf twoOrders.indexes c name = some d) : d = statusIndex := by
  obtain ⟨entries, hindexes⟩ : ∃ entries, twoOrders.indexes =
      (∅ : Indexes InMemoryIndexKey).insert (ascii "orders")
        ((∅ : OrderedMap Bytes (InMemoryIndexState InMemoryIndexKey)).insert (ascii "by_status")
          ⟨statusIndex, entries⟩) := ⟨_, rfl⟩
  rw [descriptorOf, OrderedMap.find₂, hindexes, OrderedMap.find_insert] at h
  by_cases hc : c = ascii "orders"
  · rw [if_pos hc, Option.bind_some, OrderedMap.find_insert] at h
    by_cases hname : name = ascii "by_status"
    · rw [if_pos hname, Option.map_some, Option.some_inj] at h
      exact h.symm
    · rw [if_neg hname] at h
      simp at h
  · rw [if_neg hc] at h
    simp at h

/-- The only orders. -/
theorem key_twoOrders {c : CollectionName} {k : Key} {r : VersionedRecord Empty}
    (h : twoOrders.recordAt c k = some r) : k = ascii "order-1" ∨ k = ascii "order-2" := by
  obtain ⟨first, second, hrecords⟩ : ∃ first second, twoOrders.records =
      (∅ : Records Empty).insert (ascii "orders")
        (((∅ : OrderedMap Key (VersionedRecord Empty)).insert (ascii "order-1") first).insert
          (ascii "order-2") second) := ⟨_, _, rfl⟩
  rw [InMemoryState.recordAt, OrderedMap.find₂, hrecords, OrderedMap.find_insert] at h
  by_cases hc : c = ascii "orders"
  · rw [if_pos hc, Option.bind_some, OrderedMap.find_insert, OrderedMap.find_insert] at h
    by_cases hsecond : k = ascii "order-2"
    · exact Or.inr hsecond
    · by_cases hfirst : k = ascii "order-1"
      · exact Or.inl hfirst
      · rw [if_neg hsecond, if_neg hfirst] at h
        simp at h
  · rw [if_neg hc] at h
    simp at h

theorem stagedRecords_swapOrders : swapOrders.stagedRecords =
    [stagedRecord (ascii "orders") (ascii "order-1") (orderDocument (ascii "Closed")),
      stagedRecord (ascii "orders") (ascii "order-2") (orderDocument (ascii "Open"))] := rfl

theorem stagedReadable_swapOrders : StagedReadable twoOrders swapOrders := by
  rintro r hr ⟨name, d, fault, hd, hkey⟩
  obtain rfl := descriptorOf_twoOrders hd
  rw [stagedRecords_swapOrders] at hr
  rcases List.mem_cons.mp hr with rfl | hr
  · cases hkey
  · obtain rfl := List.mem_singleton.mp hr
    cases hkey

/-- After the swap the two orders still have different statuses. -/
theorem not_duplicated_swapOrders :
    ¬ Duplicated twoOrders.indexes (swapOrders.apply twoOrders).1 := by
  rw [duplicated_iff indexConsistent_twoOrders]
  rintro ⟨r, hr, hrepeats⟩
  have hputs : ∀ k, k = ascii "order-1" ∨ k = ascii "order-2" →
      ∃ r', swapOrders.Puts (ascii "orders") k r' := by
    rintro k (rfl | rfl)
    · exact ⟨_, rfl, rfl, rfl⟩
    · exact ⟨_, rfl, rfl, rfl⟩
  have hcollection : ∀ r ∈ swapOrders.stagedRecords, r.collection = ascii "orders" := by decide
  rcases hrepeats with ⟨r', hr', -, -, hk, name, d, ikey, hd, -, hkey, hkey'⟩ | ⟨k, htakes, -, hno⟩
  · obtain rfl := descriptorOf_twoOrders hd
    have hdistinct : ∀ a ∈ swapOrders.stagedRecords, ∀ b ∈ swapOrders.stagedRecords, a.key ≠ b.key →
        (entryKey a.document statusIndex : Except Fault InMemoryIndexKey) ≠
          entryKey b.document statusIndex := by decide
    exact hdistinct r hr r' hr' hk (hkey.trans hkey'.symm)
  · obtain ⟨-, name, d, ikey, hd, -, -, hfiles⟩ := htakes
    obtain ⟨existing, hexisting, -⟩ := (indexConsistent_twoOrders.image _ name d hd ikey k).mp hfiles
    obtain ⟨r', hr'⟩ := hputs k (key_twoOrders hexisting)
    exact hno r' (hcollection r hr ▸ hr')

/-- The swap is refused though its final state is fine: the first order comes for the status that
    the second one still has. -/
theorem unique_conflicts_exact_swap :
    (ThrowsUniqueConflict twoOrders swapOrders ↔
      Duplicated twoOrders.indexes (swapOrders.apply twoOrders).1) ↔
        ConflictsExact twoOrders swapOrders :=
  unique_conflicts_exact_iff indexConsistent_twoOrders rfl (fun h => by cases h)
    stagedReadable_swapOrders

/-- **Two orders that swap their status never commit.** -/
theorem swap_refused :
    IndexConsistent twoOrders ∧ swapOrders.isOpen = true ∧ swapOrders.current twoOrders = true ∧
      StagedReadable twoOrders swapOrders ∧ ThrowsUniqueConflict twoOrders swapOrders ∧
        ¬ Duplicated twoOrders.indexes (swapOrders.apply twoOrders).1 :=
  ⟨indexConsistent_twoOrders, rfl, rfl, stagedReadable_swapOrders, ⟨_, rfl, rfl⟩,
    not_duplicated_swapOrders⟩

end StateSpec.Cpp
