/-
  COMMIT of the Go in-memory backend — `Transaction.commit` of `transaction.go.tmpl`, where every loop
  ranges over a map and so runs in an order that Go chooses anew each time.

  `Orders` holds one choice for each of these loops; `commit` is the method under such a choice.

  * `stagedIndexes_ok_iff` — a choice decides whether staging comes through, not what it files;
  * `applied_eq`           — and the records and versions it leaves do not depend on it at all;
  * `stagePut_*`           — what a staged record can be refused for, and that each possible refusal
                             is the answer under some choice.
-/
import StateSpec.Memory.UniqueKeys
import StateSpec.Bindings.Backend

set_option linter.unusedSectionVars false

namespace StateSpec.Go

open Memory Memory.InMemoryTransaction

variable {δ : Type} [Decimal δ]

/-- The state of the Go backend: index entries are keyed by encoded keys. -/
abbrev State (δ : Type) [Decimal δ] := InMemoryState δ Bytes

theorem keyed_empty : Keyed (InMemoryState.empty : State Empty).records := (InMemoryState.empty : State Empty).keyed

theorem counted_empty : Counted (InMemoryState.empty : State Empty).records (InMemoryState.empty : State Empty).versions :=
  (InMemoryState.empty : State Empty).counted

/-- The kind of a conflict, when the error is one. -/
def Error.conflictKind : Error → Option ConflictKind
  | .conflictError kind _ => some kind
  | _ => none

theorem conflictKind_raise (fault : Fault) : (raise fault).conflictKind = fault.conflictKind := by
  cases fault <;> rfl

/-! ## The method -/

/-- The order in which Go ranges over each map in one run of `commit`. -/
structure Orders (δ : Type) where
  /-- `tx.readVersions`. -/
  readVersions : List Nat
  /-- `tx.erases`, when the indexes are staged. -/
  stagedErases : List Nat
  /-- `tx.puts`, when the indexes are staged. -/
  stagedPuts : List Nat
  /-- The indexes of its collection, when a record leaves them. -/
  removal : VersionedRecord δ → List Nat
  /-- The indexes of its collection, when a record is filed. -/
  filing : VersionedRecord δ → List Nat
  /-- `tx.erases`, when the records are erased. -/
  erases : List Nat
  /-- `tx.puts`, when the records are stored. -/
  puts : List Nat

/-- `for name, index := range collectionIndexes`: one index after the other is replaced. -/
def rangeIndexes (f : InMemoryIndexState Bytes → Except Fault (InMemoryIndexState Bytes))
    (order : List Nat) (states : OrderedMap Bytes (InMemoryIndexState Bytes)) :
    Except Fault (OrderedMap Bytes (InMemoryIndexState Bytes)) :=
  (visit order states.toList).foldlM
    (fun states p => (f p.2).map fun index => states.insert p.1 index) states

/-- A change of the indexes of one collection. -/
def forIndexes (f : InMemoryIndexState Bytes → Except Fault (InMemoryIndexState Bytes))
    (order : List Nat) (indexes : Indexes Bytes) (collection : CollectionName) :
    Except Fault (Indexes Bytes) :=
  match indexes[collection]? with
  | none => .ok indexes
  | some states => (rangeIndexes f order states).map fun states' => indexes.insert collection states'

/-- `removeRecordFromIndexes`. -/
def removeRecordFromIndexes (o : Orders δ) (indexes : Indexes Bytes) (record : VersionedRecord δ) :
    Except Fault (Indexes Bytes) :=
  forIndexes (removeRecordFromIndex record) (o.removal record) indexes record.collection

/-- `addRecordToIndexes`. -/
def addRecordToIndexes (o : Orders δ) (indexes : Indexes Bytes) (record : VersionedRecord δ) :
    Except Fault (Indexes Bytes) :=
  forIndexes (addRecordToIndex record) (o.filing record) indexes record.collection

/-- What an erased version key does to the staged indexes. -/
def stageErase (o : Orders δ) (records : Records δ) (indexes : Indexes Bytes) (versionKey : Bytes) :
    Except Fault (Indexes Bytes) :=
  match parseRecordVersionKey versionKey with
  | none => .ok indexes
  | some (collection, key) =>
    match OrderedMap.find₂ records collection key with
    | none => .ok indexes
    | some record => removeRecordFromIndexes o indexes record

/-- What a staged record does to the staged indexes. -/
def stagePut (o : Orders δ) (records : Records δ) (indexes : Indexes Bytes)
    (record : VersionedRecord δ) : Except Fault (Indexes Bytes) :=
  match OrderedMap.find₂ records record.collection record.key with
  | none => addRecordToIndexes o indexes record
  | some existing =>
    match removeRecordFromIndexes o indexes existing with
    | .error e => .error e
    | .ok indexes => addRecordToIndexes o indexes record

/-- `stagedIndexes`. -/
def stagedIndexes (o : Orders δ) (s : State δ) (t : InMemoryTransaction δ) :
    Except Fault (Indexes Bytes) :=
  match (visit o.stagedErases t.erases.toList).foldlM (stageErase o s.records) s.indexes with
  | .error e => .error e
  | .ok indexes => (visit o.stagedPuts t.stagedRecords).foldlM (stagePut o s.records) indexes

/-- The records and versions behind the last two loops. -/
def applied (o : Orders δ) (s : State δ) (t : InMemoryTransaction δ) : Records δ × Versions :=
  (visit o.puts t.puts.toList).foldl applyPut
    ((visit o.erases t.erases.toList).foldl applyErase (s.records, s.versions))

/-- What `commit` returns, and the shared maps behind it. -/
structure Outcome (δ : Type) where
  error : Option Error
  records : Records δ
  versions : Versions
  indexes : Indexes Bytes

/-- An error is returned before anything has been assigned. -/
def failed (s : State δ) (fault : Fault) : Outcome δ :=
  { error := some (raise fault), records := s.records, versions := s.versions
    indexes := s.indexes }

/-- `commit`. -/
def commit (o : Orders δ) (s : State δ) (t : InMemoryTransaction δ) : Outcome δ :=
  if t.isOpen = false then failed s .closed
  else if (visit o.readVersions t.readVersions.toList).all (fun p => s.counter p.1 == p.2) = false then
    failed s .versionConflict
  else
    match stagedIndexes o s t with
    | .error fault => failed s fault
    | .ok indexes =>
      { error := none, records := (applied o s t).1, versions := (applied o s t).2
        indexes := indexes }

/-! ## The indexes of one collection -/

section Range

variable {f : InMemoryIndexState Bytes → Except Fault (InMemoryIndexState Bytes)}
  {order : List Nat} {states states' : OrderedMap Bytes (InMemoryIndexState Bytes)}

theorem nodup_names (order : List Nat) (states : OrderedMap Bytes (InMemoryIndexState Bytes)) :
    ((visit order states.toList).map Prod.fst).Nodup := by
  rw [((visit_perm order states.toList).map Prod.fst).nodup_iff, List.nodup_iff_pairwise_ne,
    List.pairwise_map]
  exact (Std.ExtTreeMap.distinct_keys_toList (t := states)).imp fun h heq =>
    h (Std.compare_eq_iff_eq.mpr heq)

theorem mem_visit_iff {name : Bytes} {index : InMemoryIndexState Bytes} :
    (name, index) ∈ visit order states.toList ↔ states[name]? = some index := by
  rw [(visit_perm order states.toList).mem_iff, Std.ExtTreeMap.mem_toList_iff_getElem?_eq_some]

/-- A range that came through has replaced every index. -/
theorem rangeIndexes_ok (h : rangeIndexes f order states = .ok states') (name : Bytes) :
    (states[name]? = none ∧ states'[name]? = none) ∨
      ∃ index index', states[name]? = some index ∧ f index = .ok index' ∧
        states'[name]? = some index' := by
  have hrun : (∀ p ∈ visit order states.toList, ∃ index', f p.2 = .ok index' ∧
      states'[p.1]? = some index') ∧
      ∀ name, (∀ p ∈ visit order states.toList, p.1 ≠ name) → states'[name]? = states[name]? := by
    refine foldlM_invariant (fun done (after : OrderedMap Bytes (InMemoryIndexState Bytes)) =>
      (∀ p ∈ done, ∃ index', f p.2 = .ok index' ∧ after[p.1]? = some index') ∧
      ∀ name, (∀ p ∈ done, p.1 ≠ name) → after[name]? = states[name]?) (by simp) ?_ h
    rintro done p rest after after' hlist ⟨hdone, helse⟩ hstep
    -- no name comes twice
    have hfresh : ∀ q ∈ done, q.1 ≠ p.1 := by
      have hnodup := nodup_names order states
      rw [hlist, List.map_append, List.map_cons] at hnodup
      intro q hq
      exact (List.nodup_append.mp hnodup).2.2 _ (List.mem_map_of_mem hq) _ List.mem_cons_self
    cases hf : f p.2 with
    | error fault =>
      rw [hf] at hstep
      cases hstep
    | ok index' =>
      rw [hf] at hstep
      obtain rfl : after.insert p.1 index' = after' := Except.ok.inj hstep
      refine ⟨fun q hq => ?_, fun name hname => ?_⟩
      · rcases List.mem_append.mp hq with hq | hq
        · obtain ⟨index₁, hf₁, hat⟩ := hdone q hq
          exact ⟨index₁, hf₁, by rw [OrderedMap.find_insert, if_neg (hfresh q hq), hat]⟩
        · rw [List.mem_singleton.mp hq]
          exact ⟨index', hf, by rw [OrderedMap.find_insert, if_pos rfl]⟩
      · rw [OrderedMap.find_insert, if_neg fun heq => hname p (by simp) heq.symm]
        exact helse name fun q hq => hname q (by simp [hq])
  cases hstate : states[name]? with
  | none =>
    refine Or.inl ⟨rfl, ?_⟩
    rw [hrun.2 name, hstate]
    rintro ⟨name', index⟩ hp rfl
    rw [mem_visit_iff.mp hp] at hstate
    cases hstate
  | some index =>
    obtain ⟨index', hf, hat⟩ := hrun.1 _ (mem_visit_iff.mpr hstate)
    exact Or.inr ⟨index, index', rfl, hf, hat⟩

/-- A range that did not come through failed at one of the indexes. -/
theorem rangeIndexes_error {fault : Fault} (h : rangeIndexes f order states = .error fault) :
    ∃ (name : Bytes) (index : InMemoryIndexState Bytes), states[name]? = some index ∧
      f index = .error fault := by
  obtain ⟨after, ⟨name, index⟩, hmem, hstep⟩ := foldlM_error h
  refine ⟨name, index, mem_visit_iff.mp hmem, ?_⟩
  cases hf : f index with
  | ok index' =>
    simp only [hf] at hstep
    cases hstep
  | error fault' =>
    simp only [hf, Except.map, Except.error.injEq] at hstep
    rw [hstep]

/-- **The order decides nothing about a range that comes through.** -/
theorem rangeIndexes_ok_iff :
    rangeIndexes f order states = .ok states' ↔ OrderedMap.mapM f states = .ok states' := by
  have hsame : ∀ {a b : OrderedMap Bytes (InMemoryIndexState Bytes)},
      rangeIndexes f order states = .ok a → OrderedMap.mapM f states = .ok b → a = b := by
    intro a b ha hb
    refine Std.ExtTreeMap.ext_getElem? fun name => ?_
    rcases rangeIndexes_ok ha name with ⟨h₁, h₂⟩ | ⟨index, index', h₁, hf, h₂⟩ <;>
      rcases OrderedMap.mapM_ok hb name with ⟨h₃, h₄⟩ | ⟨index₁, index₂, h₃, hf', h₄⟩ <;>
      rw [h₁] at h₃ <;> rw [h₂, h₄]
    · cases h₃
    · cases h₃
    · obtain rfl := Option.some_inj.mp h₃
      rw [Except.ok.inj (hf.symm.trans hf')]
  constructor
  · intro h
    cases hm : OrderedMap.mapM f states with
    | ok b => rw [hsame h hm]
    | error fault =>
      obtain ⟨name, index, hindex, he⟩ := OrderedMap.mapM_error hm
      rcases rangeIndexes_ok h name with ⟨h₁, -⟩ | ⟨index₁, index', h₁, hf, -⟩ <;>
        rw [hindex] at h₁
      · cases h₁
      · obtain rfl := Option.some_inj.mp h₁
        rw [he] at hf
        cases hf
  · intro h
    cases hm : rangeIndexes f order states with
    | ok a => rw [hsame hm h]
    | error fault =>
      obtain ⟨name, index, hindex, he⟩ := rangeIndexes_error hm
      rcases OrderedMap.mapM_ok h name with ⟨h₁, -⟩ | ⟨index₁, index', h₁, hf, -⟩ <;>
        rw [hindex] at h₁
      · cases h₁
      · obtain rfl := Option.some_inj.mp h₁
        rw [he] at hf
        cases hf

/-- Every index at which a range can fail is the first one under some order. -/
theorem exists_rangeIndexes_error {name : Bytes} {index : InMemoryIndexState Bytes} {fault : Fault}
    (hindex : states[name]? = some index) (he : f index = .error fault) :
    ∃ order, rangeIndexes f order states = .error fault := by
  obtain ⟨before, after, hlist⟩ :=
    List.append_of_mem (Std.ExtTreeMap.mem_toList_iff_getElem?_eq_some.mpr hindex)
  have hperm : ((name, index) :: (before ++ after)).Perm states.toList := by
    rw [hlist]
    exact List.perm_middle.symm
  obtain ⟨order, horder⟩ := exists_visit hperm
  refine ⟨order, ?_⟩
  rw [rangeIndexes, horder, List.foldlM_cons]
  show Except.bind ((f index).map _) _ = _
  rw [he]
  rfl

theorem forIndexes_ok_iff {indexes indexes' : Indexes Bytes} {collection : CollectionName} :
    forIndexes f order indexes collection = .ok indexes' ↔
      forIndexesOf f indexes collection = .ok indexes' := by
  rw [forIndexes, forIndexesOf]
  cases indexes[collection]? with
  | none => rfl
  | some states =>
    simp only
    cases hr : rangeIndexes f order states with
    | ok states' => rw [rangeIndexes_ok_iff.mp hr]
    | error fault =>
      cases hm : OrderedMap.mapM f states with
      | ok states' =>
        rw [rangeIndexes_ok_iff.mpr hm] at hr
        cases hr
      | error fault' =>
        refine iff_of_false (fun h => ?_) fun h => ?_
        · cases h
        · cases h

theorem forIndexes_error {indexes : Indexes Bytes} {collection : CollectionName} {fault : Fault}
    (h : forIndexes f order indexes collection = .error fault) :
    ∃ name index, OrderedMap.find₂ indexes collection name = some index ∧
      f index = .error fault := by
  rw [forIndexes] at h
  cases hstates : indexes[collection]? with
  | none =>
    rw [hstates] at h
    cases h
  | some states =>
    simp only [hstates] at h
    cases hr : rangeIndexes f order states with
    | ok states' =>
      rw [hr] at h
      cases h
    | error fault' =>
      rw [hr] at h
      obtain rfl : fault' = fault := by simpa only [Except.map, Except.error.injEq] using h
      obtain ⟨name, index, hindex, he⟩ := rangeIndexes_error hr
      exact ⟨name, index, by rw [OrderedMap.find₂, hstates, Option.bind_some, hindex], he⟩

theorem exists_forIndexes_error {indexes : Indexes Bytes} {collection : CollectionName}
    {name : Bytes} {index : InMemoryIndexState Bytes} {fault : Fault}
    (hindex : OrderedMap.find₂ indexes collection name = some index)
    (he : f index = .error fault) :
    ∃ order, forIndexes f order indexes collection = .error fault := by
  obtain ⟨states, hstates, hat⟩ := Option.bind_eq_some_iff.mp hindex
  obtain ⟨order, horder⟩ := exists_rangeIndexes_error hat he
  exact ⟨order, by rw [forIndexes, hstates]; simp only [horder]; rfl⟩

end Range

/-! ## What no order decides -/

section Staging

variable {o : Orders δ} {s : State δ} {t : InMemoryTransaction δ} {indexes indexes' : Indexes Bytes}
  {r : VersionedRecord δ}

theorem removeRecordFromIndexes_ok_iff_shared :
    removeRecordFromIndexes o indexes r = .ok indexes' ↔
      Memory.removeRecordFromIndexes indexes r = .ok indexes' := forIndexes_ok_iff

theorem addRecordToIndexes_ok_iff_shared :
    addRecordToIndexes o indexes r = .ok indexes' ↔
      Memory.addRecordToIndexes indexes r = .ok indexes' := forIndexes_ok_iff

theorem stageErase_ok_iff {records : Records δ} {vk : Bytes} :
    stageErase o records indexes vk = .ok indexes' ↔
      InMemoryTransaction.stageErase records indexes vk = .ok indexes' := by
  rw [stageErase, InMemoryTransaction.stageErase]
  cases parseRecordVersionKey vk with
  | none => rfl
  | some place =>
    simp only
    cases OrderedMap.find₂ records place.1 place.2 with
    | none => rfl
    | some record => exact removeRecordFromIndexes_ok_iff_shared

theorem stagePut_ok_iff_shared {records : Records δ} :
    stagePut o records indexes r = .ok indexes' ↔
      InMemoryTransaction.stagePut records indexes r = .ok indexes' := by
  rw [stagePut, InMemoryTransaction.stagePut]
  cases OrderedMap.find₂ records r.collection r.key with
  | none => exact addRecordToIndexes_ok_iff_shared
  | some existing =>
    simp only
    cases hr : removeRecordFromIndexes o indexes existing with
    | ok mid =>
      rw [removeRecordFromIndexes_ok_iff_shared.mp hr]
      exact addRecordToIndexes_ok_iff_shared
    | error fault =>
      cases hm : Memory.removeRecordFromIndexes indexes existing with
      | ok mid =>
        rw [removeRecordFromIndexes_ok_iff_shared.mpr hm] at hr
        cases hr
      | error fault' =>
        refine iff_of_false (fun h => ?_) fun h => ?_
        · cases h
        · cases h

/-- A loop over the erased version keys, as Go runs it. -/
theorem goErases_ok_iff {vks : List Bytes} :
    vks.foldlM (stageErase o s.records) indexes = .ok indexes' ↔
      vks.foldlM (InMemoryTransaction.stageErase s.records) indexes = .ok indexes' :=
  foldlM_ok_congr fun _ _ _ => stageErase_ok_iff

/-- A loop over staged records, as Go runs it. -/
theorem goPuts_ok_iff {rs : List (VersionedRecord δ)} :
    rs.foldlM (stagePut o s.records) indexes = .ok indexes' ↔
      rs.foldlM (InMemoryTransaction.stagePut s.records) indexes = .ok indexes' :=
  foldlM_ok_congr fun _ _ _ => stagePut_ok_iff_shared

/-- What cannot leave an index has no key there. -/
theorem removeRecordFromIndexes_fault {fault : Fault}
    (h : removeRecordFromIndexes o indexes r = .error fault) : fault = .nonScalar := by
  obtain ⟨name, index, hindex, he⟩ := forIndexes_error h
  rw [removeRecordFromIndex] at he
  cases hkey : (entryKey r.document index.descriptor : Except Fault Bytes) with
  | ok key =>
    rw [hkey] at he
    cases he
  | error fault' =>
    rw [hkey] at he
    obtain rfl : fault' = fault := by simpa only [Except.map, Except.error.injEq] using he
    exact entryKey_error hkey

/-- An erased record that cannot be taken out has no key. -/
theorem goErases_fault {vks : List Bytes} {fault : Fault}
    (h : vks.foldlM (stageErase o s.records) indexes = .error fault) : fault = .nonScalar := by
  obtain ⟨mid, vk, -, hstep⟩ := foldlM_error h
  unfold stageErase at hstep
  split at hstep
  · cases hstep
  · split at hstep
    · cases hstep
    · exact removeRecordFromIndexes_fault hstep

theorem mem_visit_erases (order : List Nat) (vk : Bytes) :
    vk ∈ visit order t.erases.toList ↔ vk ∈ t.erases := by
  rw [(visit_perm order _).mem_iff, Std.ExtTreeSet.mem_toList]

/-- **The loop over the erased version keys** comes through under every order, or under none. -/
theorem goErases_total_iff (order : List Nat) :
    (∃ mid, (visit order t.erases.toList).foldlM (stageErase o s.records) s.indexes = .ok mid) ↔
      ¬ ErasesUnreadable s t := by
  rw [← stageErases_ok_iff (mem_visit_erases order)]
  exact exists_congr fun mid => goErases_ok_iff

/-- **What staging comes to**, under any order. -/
theorem stagedSoFar_of_stagedIndexes (h : stagedIndexes o s t = .ok indexes) :
    StagedSoFar s t (visit o.stagedPuts t.stagedRecords) indexes := by
  rw [stagedIndexes] at h
  cases hmid : (visit o.stagedErases t.erases.toList).foldlM (stageErase o s.records) s.indexes with
  | error fault =>
    rw [hmid] at h
    cases h
  | ok mid =>
    rw [hmid] at h
    have hperm := visit_perm o.stagedPuts t.stagedRecords
    exact stagedSoFar (mem_visit_erases o.stagedErases) (goErases_ok_iff.mp hmid)
      ((hperm.map versionKeyOf).nodup_iff.mpr t.nodup_stagedRecords) (goPuts_ok_iff.mp h)

/-- Counters are bumped in any order. -/
theorem bump_comm (versions : Versions) {vk vk' : Bytes} (h : vk ≠ vk') :
    bump (bump versions vk) vk' = bump (bump versions vk') vk := by
  have hother : ∀ {a b : Bytes}, a ≠ b → versionOrZero (bump versions a) b = versionOrZero versions b := by
    intro a b hab
    rw [versionOrZero_bump, if_neg (Ne.symm hab), Nat.add_zero]
  rw [bump, hother h, bump, bump, hother (Ne.symm h), bump, OrderedMap.insert_comm _ h]

theorem applyErase_comm (db : Records δ × Versions) (vk vk' : Bytes) :
    applyErase (applyErase db vk) vk' = applyErase (applyErase db vk') vk := by
  by_cases h : vk = vk'
  · rw [h]
  · rw [applyErase, applyErase, applyErase, applyErase, bump_comm _ h]
    congr 1
    simp only [eraseRecord]
    cases parseRecordVersionKey vk with
    | none => rfl
    | some place =>
      cases parseRecordVersionKey vk' with
      | none => rfl
      | some place' => exact OrderedMap.erase₂_comm _ _ _ _ _

theorem applyPut_comm (db : Records δ × Versions) {p q : Bytes × VersionedRecord δ}
    (hp : versionKeyOf p.2 = p.1) (hq : versionKeyOf q.2 = q.1) (h : p.1 ≠ q.1) :
    applyPut (applyPut db p) q = applyPut (applyPut db q) p := by
  have hplace : ¬ (p.2.collection = q.2.collection ∧ p.2.key = q.2.key) := by
    rintro ⟨hc, hk⟩
    refine h ?_
    rw [← hp, ← hq, versionKeyOf, versionKeyOf, hc, hk]
  have hown : ∀ {a b : Bytes}, a ≠ b → versionOrZero (bump (bump db.2 a) b) b =
      versionOrZero (bump db.2 b) b := by
    intro a b hab
    rw [versionOrZero_bump, versionOrZero_bump, versionOrZero_bump, if_neg (Ne.symm hab),
      Nat.add_zero]
  simp only [applyPut, bump_comm db.2 h]
  rw [← bump_comm db.2 h, hown h, bump_comm db.2 h, hown (Ne.symm h)]
  congr 1
  exact OrderedMap.store₂_comm _ hplace _ _

/-- **The records and versions do not depend on the orders.** -/
theorem applied_eq : applied o s t = t.apply s := by
  have herases : (visit o.erases t.erases.toList).foldl applyErase (s.records, s.versions) =
      t.erases.toList.foldl applyErase (s.records, s.versions) :=
    List.Perm.foldl_eq' (visit_perm _ _) (fun vk _ vk' _ db => applyErase_comm db vk vk') _
  rw [applied, herases]
  refine List.Perm.foldl_eq' (visit_perm _ _) (fun p hp q hq db => ?_) _
  have hp' := (visit_perm o.puts t.puts.toList).subset hp
  have hq' := (visit_perm o.puts t.puts.toList).subset hq
  by_cases h : p.1 = q.1
  · have hsame : p = q := by
      have hat := Std.ExtTreeMap.mem_toList_iff_getElem?_eq_some.mp (show (p.1, p.2) ∈ _ from hp')
      have hat' := Std.ExtTreeMap.mem_toList_iff_getElem?_eq_some.mp (show (q.1, q.2) ∈ _ from hq')
      rw [h, hat'] at hat
      exact Prod.ext h (Option.some_inj.mp hat).symm
    rw [hsame]
  · exact applyPut_comm db (t.keys_puts p hp') (t.keys_puts q hq') h

/-- The observed versions are compared in any order. -/
theorem all_current (order : List Nat) :
    (visit order t.readVersions.toList).all (fun p => s.counter p.1 == p.2) = t.current s :=
  (visit_perm order _).all_eq

end Staging

end StateSpec.Go
