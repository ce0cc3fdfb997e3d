/-
  COMMIT of the in-memory backends (`InMemoryTransaction::commit`).

  A commit validates every observed version against its counter, stages the new indexes on a copy
  (all erased records leave them; then each staged record replaces its predecessor), and only then
  applies: erased records go and staged ones are stored, each bumping its counter.  A commit that
  fails has changed nothing.

  * `committed_cases` — what the commit leaves at each place: the staged record, nothing, or what
                        was there;
  * `counter_committed` — exactly the staged and erased version keys are bumped;
  * `staging` — the new indexes file the staged records where they belong, nothing for the erased
                ones, and what they filed before for all others; unique indexes stay unique.

  `order` is the order in which the loop over the staged records visits them: key order (`[]`) in
  C++ and Rust, any order in Go and Java.  It can decide whether a unique index is in the way, and
  only in that loop does an order matter: all other loops handle places independently.
-/
import StateSpec.Memory.Transaction

set_option linter.unusedSectionVars false

namespace StateSpec.Memory

variable {δ : Type} [Decimal δ]
variable {κ : Type} [Ord κ] [Std.TransOrd κ] [Std.LawfulEqOrd κ] [DecidableEq κ] [EntryKey κ]

namespace InMemoryTransaction

/-! ## What is staged -/

/-- The version key of a record. -/
def versionKeyOf (r : VersionedRecord δ) : Bytes := recordVersionKey r.collection r.key

/-- The staged records, in the order of their version keys. -/
def stagedRecords (t : InMemoryTransaction δ) : List (VersionedRecord δ) :=
  t.puts.toList.map Prod.snd

theorem mem_stagedRecords {t : InMemoryTransaction δ} {r : VersionedRecord δ} :
    r ∈ t.stagedRecords ↔ t.puts[versionKeyOf r]? = some r := by
  rw [stagedRecords, List.mem_map]
  constructor
  · rintro ⟨p, hp, rfl⟩
    have hput := Std.ExtTreeMap.mem_toList_iff_getElem?_eq_some.mp (show (p.1, p.2) ∈ _ from hp)
    rw [versionKeyOf, (t.staged _ _ hput).1, hput]
  · intro h
    exact ⟨(versionKeyOf r, r), Std.ExtTreeMap.mem_toList_iff_getElem?_eq_some.mpr h, rfl⟩

theorem pairwise_puts (t : InMemoryTransaction δ) :
    t.puts.toList.Pairwise fun p q => p.1 ≠ q.1 :=
  (Std.ExtTreeMap.distinct_keys_toList (t := t.puts)).imp fun h heq =>
    h (Std.compare_eq_iff_eq.mpr heq)

theorem keys_puts (t : InMemoryTransaction δ) : ∀ p ∈ t.puts.toList, versionKeyOf p.2 = p.1 :=
  fun p hp => (t.staged p.1 p.2 (Std.ExtTreeMap.mem_toList_iff_getElem?_eq_some.mp hp)).1

theorem nodup_erases (t : InMemoryTransaction δ) : t.erases.toList.Nodup :=
  List.nodup_iff_pairwise_ne.mpr (Std.ExtTreeSet.distinct_toList.imp fun h heq =>
    h (Std.compare_eq_iff_eq.mpr heq))

/-- No two staged records have the same version key. -/
theorem nodup_stagedRecords (t : InMemoryTransaction δ) :
    (t.stagedRecords.map versionKeyOf).Nodup := by
  have hkeys : t.stagedRecords.map versionKeyOf = t.puts.toList.map Prod.fst := by
    rw [stagedRecords, List.map_map]
    exact List.map_congr_left t.keys_puts
  rw [hkeys, List.nodup_iff_pairwise_ne, List.pairwise_map]
  exact t.pairwise_puts

/-- The transaction has staged the record `r` at a place. -/
def Puts (t : InMemoryTransaction δ) (c : CollectionName) (k : Key) (r : VersionedRecord δ) :
    Prop := t.puts[recordVersionKey c k]? = some r ∧ r.collection = c ∧ r.key = k

/-- The transaction erases what is at a place.  A version key erases only the place it parses to. -/
def Erases (t : InMemoryTransaction δ) (c : CollectionName) (k : Key) : Prop :=
  recordVersionKey c k ∈ t.erases ∧ parseRecordVersionKey (recordVersionKey c k) = some (c, k)

theorem puts_of_mem {t : InMemoryTransaction δ} {r : VersionedRecord δ}
    (h : r ∈ t.stagedRecords) : t.Puts r.collection r.key r :=
  ⟨mem_stagedRecords.mp h, rfl, rfl⟩

theorem mem_of_puts {t : InMemoryTransaction δ} {c : CollectionName} {k : Key}
    {r : VersionedRecord δ} (h : t.Puts c k r) : r ∈ t.stagedRecords := by
  obtain ⟨hput, rfl, rfl⟩ := h
  exact mem_stagedRecords.mpr hput

/-- A version key that is erased and parses to a place erases that place. -/
theorem erases_iff {t : InMemoryTransaction δ} {c : CollectionName} {k : Key} :
    t.Erases c k ↔ ∃ vk ∈ t.erases, parseRecordVersionKey vk = some (c, k) := by
  constructor
  · exact fun h => ⟨_, h.1, h.2⟩
  · rintro ⟨vk, hvk, hparse⟩
    have hkey := (parse_sound hparse).1
    exact ⟨hkey ▸ hvk, hkey ▸ hparse⟩

theorem not_erases_of_puts {t : InMemoryTransaction δ} {c : CollectionName} {k : Key}
    {r : VersionedRecord δ} (h : t.Puts c k r) : ¬ t.Erases c k := by
  intro herase
  have hnone := t.disjoint _ herase.1
  rw [h.1] at hnone
  cases hnone

/-! ## Validation -/

/-- Every observed version is the present one. -/
def current (t : InMemoryTransaction δ) (s : InMemoryState δ κ) : Bool :=
  t.readVersions.toList.all fun p => s.counter p.1 == p.2

theorem current_iff {t : InMemoryTransaction δ} {s : InMemoryState δ κ} :
    t.current s = true ↔ ∀ vk v, t.observation vk = some v → s.counter vk = v := by
  rw [current, List.all_eq_true]
  constructor
  · intro h vk v hv
    simpa using h (vk, v) (Std.ExtTreeMap.mem_toList_iff_getElem?_eq_some.mpr hv)
  · rintro h ⟨vk, v⟩ hmem
    simpa using h vk v (Std.ExtTreeMap.mem_toList_iff_getElem?_eq_some.mp hmem)

/-! ## Staging the indexes -/

/-- What an erased version key does to the staged indexes. -/
def stageErase (records : Records δ) (indexes : Indexes κ) (versionKey : Bytes) :
    Except Fault (Indexes κ) :=
  match parseRecordVersionKey versionKey with
  | none => .ok indexes
  | some (collection, key) =>
    match OrderedMap.find₂ records collection key with
    | none => .ok indexes
    | some record => removeRecordFromIndexes indexes record

/-- What a staged record does to the staged indexes. -/
def stagePut (records : Records δ) (indexes : Indexes κ) (record : VersionedRecord δ) :
    Except Fault (Indexes κ) :=
  match OrderedMap.find₂ records record.collection record.key with
  | none => addRecordToIndexes indexes record
  | some existing =>
    match removeRecordFromIndexes indexes existing with
    | .error e => .error e
    | .ok indexes => addRecordToIndexes indexes record

/-- The indexes a commit is going to publish. -/
def stageIndexes (order : List Nat) (s : InMemoryState δ κ) (t : InMemoryTransaction δ) :
    Except Fault (Indexes κ) :=
  match t.erases.toList.foldlM (stageErase s.records) s.indexes with
  | .error e => .error e
  | .ok indexes => (visit order t.stagedRecords).foldlM (stagePut s.records) indexes

/-- What the indexes file for one place is there, under the key of its document. -/
def SoundAt (records : Records δ) (indexes : Indexes κ) (c : CollectionName) (k : Key) : Prop :=
  ∀ name ikey, Files indexes c name ikey k →
    ∃ r d, OrderedMap.find₂ records c k = some r ∧ descriptorOf indexes c name = some d ∧
      entryKey r.document d = .ok ikey

/-- No two record keys under one key of a unique index. -/
def Unique (indexes : Indexes κ) : Prop :=
  ∀ c name d, descriptorOf indexes c name = some d → d.unique = true →
    ∀ ikey k k', Files indexes c name ikey k → Files indexes c name ikey k' → k = k'

/-- The same indexes of the same collections, whatever they file. -/
structure SameShape (before after : Indexes κ) : Prop where
  descriptors : ∀ c name, descriptorOf after c name = descriptorOf before c name
  collections : ∀ c, c ∈ after ↔ c ∈ before

/-- `after` is `before` with nothing filed for the places that are `gone`. -/
structure Unfiled (before after : Indexes κ) (gone : CollectionName → Key → Prop) : Prop
    extends SameShape before after where
  files : ∀ c name ikey k, Files after c name ikey k ↔ Files before c name ikey k ∧ ¬ gone c k
  tidy : AllTidy before → AllTidy after

theorem Unfiled.refl (indexes : Indexes κ) {gone : CollectionName → Key → Prop}
    (h : ∀ c k, gone c k → ∀ name ikey, ¬ Files indexes c name ikey k) :
    Unfiled indexes indexes gone where
  descriptors _ _ := rfl
  collections _ := Iff.rfl
  files c name ikey k := ⟨fun hf => ⟨hf, fun hg => h c k hg name ikey hf⟩, And.left⟩
  tidy := id

/-- Removing the record that is at a place unfiles the place altogether. -/
theorem unfiled_remove {records : Records δ} {before after : Indexes κ} {c : CollectionName}
    {k : Key} {record : VersionedRecord δ} (hkeyed : Keyed records)
    (hrecord : OrderedMap.find₂ records c k = some record) (hsound : SoundAt records before c k)
    (h : removeRecordFromIndexes before record = .ok after) :
    Unfiled before after fun c' k' => c' = c ∧ k' = k where
  descriptors := descriptorOf_remove h
  collections := mem_forIndexesOf h
  files c' name ikey k' := by
    obtain ⟨hc, hk⟩ := hkeyed c k record hrecord
    rw [files_remove h]
    refine and_congr_right fun hfiles => not_congr ⟨fun hb => ⟨hb.1.trans hc, hb.2.1.trans hk⟩, ?_⟩
    rintro ⟨rfl, rfl⟩
    obtain ⟨r, d, hr, hd, hkey⟩ := hsound name ikey hfiles
    obtain rfl := Option.some_inj.mp (hr.symm.trans hrecord)
    exact ⟨hc.symm, hk.symm, d, hd, hkey⟩
  tidy := tidy_remove h

theorem SoundAt.unfiled {records : Records δ} {before after : Indexes κ}
    {gone : CollectionName → Key → Prop} (h : Unfiled before after gone) {c : CollectionName}
    {k : Key} (hsound : SoundAt records before c k) : SoundAt records after c k := by
  intro name ikey hfiles
  rw [h.descriptors]
  exact hsound name ikey ((h.files c name ikey k).mp hfiles).1

theorem Unique.unfiled {before after : Indexes κ} {gone : CollectionName → Key → Prop}
    (h : Unfiled before after gone) (hu : Unique before) : Unique after := by
  intro c name d hd hunique ikey k k' hk hk'
  rw [h.descriptors] at hd
  exact hu c name d hd hunique ikey k k' ((h.files ..).mp hk).1 ((h.files ..).mp hk').1

/-- One erased version key unfiles the place it parses to. -/
theorem unfiled_stageErase {records : Records δ} {before after : Indexes κ} {vk : Bytes}
    (hkeyed : Keyed records) (hsound : ∀ c k, SoundAt records before c k)
    (h : stageErase records before vk = .ok after) :
    Unfiled before after fun c k => parseRecordVersionKey vk = some (c, k) := by
  rw [stageErase] at h
  cases hparse : parseRecordVersionKey vk with
  | none =>
    rw [hparse] at h
    obtain rfl := Except.ok.inj h
    exact Unfiled.refl before fun c k hg => by cases hg
  | some place =>
    obtain ⟨c₀, k₀⟩ := place
    simp only [hparse] at h
    have hgone : ∀ c k, some (c₀, k₀) = some (c, k) ↔ c = c₀ ∧ k = k₀ := by
      intro c k
      rw [Option.some_inj, Prod.mk.injEq, eq_comm, @eq_comm _ k₀]
    simp only [hgone]
    cases hrecord : OrderedMap.find₂ records c₀ k₀ with
    | none =>
      simp only [hrecord] at h
      obtain rfl := Except.ok.inj h
      refine Unfiled.refl before ?_
      rintro c k ⟨rfl, rfl⟩ name ikey hfiles
      obtain ⟨r, d, hr, -⟩ := hsound c k name ikey hfiles
      rw [hrecord] at hr
      cases hr
    | some record =>
      simp only [hrecord] at h
      exact unfiled_remove hkeyed hrecord (hsound c₀ k₀) h

/-- The loop over the erased version keys unfiles every place one of them parses to. -/
theorem unfiled_stageErases {records : Records δ} {before after : Indexes κ} {vks : List Bytes}
    (hkeyed : Keyed records) (hsound : ∀ c k, SoundAt records before c k)
    (h : vks.foldlM (stageErase records) before = .ok after) :
    Unfiled before after fun c k => ∃ vk ∈ vks, parseRecordVersionKey vk = some (c, k) := by
  refine foldlM_invariant (fun done after => Unfiled before after fun c k =>
    ∃ vk ∈ done, parseRecordVersionKey vk = some (c, k)) ?_ ?_ h
  · exact Unfiled.refl before fun c k hg => by simp at hg
  · intro done vk rest mid after' _ hdone hstep
    have hvk := unfiled_stageErase hkeyed (fun c k => (hsound c k).unfiled hdone) hstep
    refine ⟨⟨fun c name => ?_, fun c => ?_⟩, fun c name ikey k => ?_, fun ht => ?_⟩
    · rw [hvk.descriptors, hdone.descriptors]
    · rw [hvk.collections, hdone.collections]
    · rw [hvk.files, hdone.files, and_assoc, ← not_or]
      simp [or_and_right, exists_or]
    · exact hvk.tidy (hdone.tidy ht)

/-- Where a record belongs, as far as the shape of the indexes decides. -/
theorem belongs_self {indexes : Indexes κ} {r : VersionedRecord δ} {name : Bytes} {ikey : κ} :
    Belongs indexes r r.collection name ikey r.key ↔
      ∃ d, descriptorOf indexes r.collection name = some d ∧ entryKey r.document d = .ok ikey :=
  ⟨fun h => h.2.2, fun h => ⟨rfl, rfl, h⟩⟩

/-- `after` is `before` with the record `r` in the place of whatever was filed for its place. -/
structure Refiled (before after : Indexes κ) (r : VersionedRecord δ) : Prop
    extends SameShape before after where
  here : ∀ name ikey, Files after r.collection name ikey r.key ↔
    ∃ d, descriptorOf before r.collection name = some d ∧ entryKey r.document d = .ok ikey
  elsewhere : ∀ c k, ¬ (c = r.collection ∧ k = r.key) →
    ∀ name ikey, Files after c name ikey k ↔ Files before c name ikey k
  tidy : AllTidy before → AllTidy after
  unique : Unique before → Unique after

/-- One staged record replaces whatever was filed for its place. -/
theorem refiled_stagePut {records : Records δ} {before after : Indexes κ} {r : VersionedRecord δ}
    (hkeyed : Keyed records) (hsound : SoundAt records before r.collection r.key)
    (h : stagePut records before r = .ok after) : Refiled before after r := by
  -- first the predecessor goes, if there is one
  obtain ⟨mid, hmid, hadd⟩ : ∃ mid,
      Unfiled before mid (fun c k => c = r.collection ∧ k = r.key) ∧
        addRecordToIndexes mid r = .ok after := by
    rw [stagePut] at h
    cases hold : OrderedMap.find₂ records r.collection r.key with
    | none =>
      simp only [hold] at h
      refine ⟨before, Unfiled.refl before ?_, h⟩
      rintro c k ⟨rfl, rfl⟩ name ikey hfiles
      obtain ⟨r', d, hr, -⟩ := hsound name ikey hfiles
      rw [hold] at hr
      cases hr
    | some existing =>
      simp only [hold] at h
      cases hrem : removeRecordFromIndexes before existing with
      | error e =>
        simp only [hrem] at h
        cases h
      | ok mid =>
        simp only [hrem] at h
        exact ⟨mid, unfiled_remove hkeyed hold hsound hrem, h⟩
  -- then the record is filed where it belongs
  have hdesc : ∀ c name, descriptorOf after c name = descriptorOf mid c name := descriptorOf_add hadd
  refine ⟨⟨fun c name => ?_, fun c => ?_⟩, fun name ikey => ?_, fun c k hne name ikey => ?_,
    fun ht => tidy_add hadd (hmid.tidy ht), fun hu => ?_⟩
  · rw [hdesc, hmid.descriptors]
  · rw [mem_forIndexesOf hadd, hmid.collections]
  · rw [files_add hadd, hmid.files, belongs_self, hmid.descriptors]
    simp
  · rw [files_add hadd, hmid.files]
    refine ⟨fun hf => hf.elim And.left fun hb => absurd ⟨hb.1, hb.2.1⟩ hne, fun hf => ?_⟩
    exact Or.inl ⟨hf, hne⟩
  · have humid := hu.unfiled hmid
    intro c name d hd hunique ikey k k' hk hk'
    rw [hdesc] at hd
    rw [files_add hadd] at hk hk'
    have hself : ∀ {k₁ k₂}, Belongs mid r c name ikey k₁ → Files mid c name ikey k₂ → k₂ = k₁ := by
      rintro k₁ k₂ ⟨rfl, rfl, d', hd', hkey⟩ hfiles
      obtain rfl := Option.some_inj.mp (hd.symm.trans hd')
      exact add_unique hadd hd hunique hkey hfiles
    rcases hk with hk | hk <;> rcases hk' with hk' | hk'
    · exact humid c name d hd hunique ikey k k' hk hk'
    · exact hself hk' hk
    · exact (hself hk hk').symm
    · exact hk.2.1.trans hk'.2.1.symm

/-- The loop over the staged records, with distinct places, refiles every one of them. -/
structure AllRefiled (before after : Indexes κ) (rs : List (VersionedRecord δ)) : Prop
    extends SameShape before after where
  here : ∀ r ∈ rs, ∀ name ikey, Files after r.collection name ikey r.key ↔
    ∃ d, descriptorOf before r.collection name = some d ∧ entryKey r.document d = .ok ikey
  elsewhere : ∀ c k, (∀ r ∈ rs, ¬ (c = r.collection ∧ k = r.key)) →
    ∀ name ikey, Files after c name ikey k ↔ Files before c name ikey k
  tidy : AllTidy before → AllTidy after
  unique : Unique before → Unique after

theorem allRefiled_stagePuts {records : Records δ} {before after : Indexes κ}
    {rs : List (VersionedRecord δ)} (hkeyed : Keyed records)
    (hsound : ∀ c k, SoundAt records before c k) (hnodup : (rs.map versionKeyOf).Nodup)
    (h : rs.foldlM (stagePut records) before = .ok after) : AllRefiled before after rs := by
  refine foldlM_invariant (fun done after => AllRefiled before after done) ?_ ?_ h
  · exact ⟨⟨fun _ _ => rfl, fun _ => Iff.rfl⟩, by simp, fun _ _ _ _ _ => Iff.rfl, id, id⟩
  · intro done r rest mid after' hrs hdone hstep
    -- the place of `r` has not been touched yet
    have hfresh : ∀ r' ∈ done, ¬ (r.collection = r'.collection ∧ r.key = r'.key) := by
      rintro r' hr' ⟨hc, hk⟩
      rw [hrs, List.map_append, List.map_cons] at hnodup
      refine (List.nodup_append.mp hnodup).2.2 _ (List.mem_map_of_mem hr') _ List.mem_cons_self ?_
      rw [versionKeyOf, versionKeyOf, hc, hk]
    have hmid : SoundAt records mid r.collection r.key := by
      intro name ikey hfiles
      rw [hdone.descriptors]
      exact hsound _ _ name ikey ((hdone.elsewhere _ _ hfresh name ikey).mp hfiles)
    have hr := refiled_stagePut hkeyed hmid hstep
    refine ⟨⟨fun c name => ?_, fun c => ?_⟩, fun r' hr' name ikey => ?_,
      fun c k hne name ikey => ?_, fun ht => hr.tidy (hdone.tidy ht),
      fun hu => hr.unique (hdone.unique hu)⟩
    · rw [hr.descriptors, hdone.descriptors]
    · rw [hr.collections, hdone.collections]
    · rcases List.mem_append.mp hr' with hold | hnew
      · have hne : ¬ (r'.collection = r.collection ∧ r'.key = r.key) := fun heq =>
          hfresh r' hold ⟨heq.1.symm, heq.2.symm⟩
        rw [hr.elsewhere _ _ hne, hdone.here r' hold]
      · rw [List.mem_singleton.mp hnew, hr.here, hdone.descriptors]
    · rw [hr.elsewhere c k (hne r (by simp)), hdone.elsewhere c k fun r' hr' => hne r' (by simp [hr'])]

/-- **Staging.**  The indexes a commit publishes file each staged record where it belongs, nothing
    for an erased place, and what they filed before for every other place. -/
structure Staging (s : InMemoryState δ κ) (t : InMemoryTransaction δ) (after : Indexes κ) : Prop
    extends SameShape s.indexes after where
  put : ∀ c k r, t.Puts c k r → ∀ name ikey, Files after c name ikey k ↔
    ∃ d, descriptorOf s.indexes c name = some d ∧ entryKey r.document d = .ok ikey
  erased : ∀ c k, t.Erases c k → ∀ name ikey, ¬ Files after c name ikey k
  untouched : ∀ c k, (∀ r, ¬ t.Puts c k r) → ¬ t.Erases c k →
    ∀ name ikey, Files after c name ikey k ↔ Files s.indexes c name ikey k
  tidy : AllTidy s.indexes → AllTidy after
  unique : Unique s.indexes → Unique after

theorem staging {order : List Nat} {s : InMemoryState δ κ} {t : InMemoryTransaction δ}
    {after : Indexes κ} (h : stageIndexes order s t = .ok after) : Staging s t after := by
  rw [stageIndexes] at h
  cases herase : t.erases.toList.foldlM (stageErase s.records) s.indexes with
  | error e =>
    rw [herase] at h
    cases h
  | ok mid =>
    simp only [herase] at h
    have hsound : ∀ c k, SoundAt s.records s.indexes c k := fun c k name ikey =>
      s.sound c name ikey k
    have hmid := unfiled_stageErases s.keyed hsound herase
    have hperm := visit_perm order t.stagedRecords
    have hput := allRefiled_stagePuts s.keyed (fun c k => (hsound c k).unfiled hmid)
      ((hperm.map versionKeyOf).nodup_iff.mpr t.nodup_stagedRecords) h
    have helse : ∀ c k, (∀ r, ¬ t.Puts c k r) →
        ∀ r ∈ visit order t.stagedRecords, ¬ (c = r.collection ∧ k = r.key) := by
      rintro c k hno r hr ⟨rfl, rfl⟩
      exact hno r (puts_of_mem (hperm.subset hr))
    have hgone : ∀ c k, (∃ vk ∈ t.erases.toList, parseRecordVersionKey vk = some (c, k)) ↔
        t.Erases c k := fun c k => by
      rw [erases_iff]
      simp
    refine ⟨⟨fun c name => ?_, fun c => ?_⟩, fun c k r hr name ikey => ?_,
      fun c k he name ikey hfiles => ?_, fun c k hno hne name ikey => ?_,
      fun ht => hput.tidy (hmid.tidy ht), fun hu => hput.unique (hu.unfiled hmid)⟩
    · rw [hput.descriptors, hmid.descriptors]
    · rw [hput.collections, hmid.collections]
    · have hmem := hperm.mem_iff.mpr (mem_of_puts hr)
      obtain ⟨-, rfl, rfl⟩ := hr
      rw [hput.here r hmem, hmid.descriptors]
    · have hno : ∀ r, ¬ t.Puts c k r := fun r hr => not_erases_of_puts hr he
      rw [hput.elsewhere c k (helse c k hno), hmid.files] at hfiles
      exact hfiles.2 ((hgone c k).mpr he)
    · rw [hput.elsewhere c k (helse c k hno), hmid.files, hgone]
      exact and_iff_left hne

/-! ## Applying the commit -/

/-- An erased version key: the record goes and its counter is bumped. -/
def applyErase (db : Records δ × Versions) (versionKey : Bytes) : Records δ × Versions :=
  (eraseRecord db.1 versionKey, bump db.2 versionKey)

/-- A staged record: its counter is bumped, and it is stored with the new version. -/
def applyPut (db : Records δ × Versions) (p : Bytes × VersionedRecord δ) : Records δ × Versions :=
  let versions := bump db.2 p.1
  let record := { p.2 with version := versionOrZero versions p.1 }
  (OrderedMap.store₂ db.1 record.collection record.key record, versions)

/-- The records and versions a commit leaves. -/
def apply (t : InMemoryTransaction δ) (s : InMemoryState δ κ) : Records δ × Versions :=
  t.puts.toList.foldl applyPut (t.erases.toList.foldl applyErase (s.records, s.versions))

theorem applyErases (db : Records δ × Versions) {vks : List Bytes} (hnodup : vks.Nodup) :
    (∀ vk, versionOrZero (vks.foldl applyErase db).2 vk =
      versionOrZero db.2 vk + if vk ∈ vks then 1 else 0) ∧
    ∀ c k, OrderedMap.find₂ (vks.foldl applyErase db).1 c k =
      if ∃ vk ∈ vks, parseRecordVersionKey vk = some (c, k) then none
      else OrderedMap.find₂ db.1 c k := by
  refine foldl_invariant (fun done (db' : Records δ × Versions) =>
    (∀ vk, versionOrZero db'.2 vk = versionOrZero db.2 vk + if vk ∈ done then 1 else 0) ∧
    ∀ c k, OrderedMap.find₂ db'.1 c k =
      if ∃ vk ∈ done, parseRecordVersionKey vk = some (c, k) then none
      else OrderedMap.find₂ db.1 c k) (by simp) ?_
  rintro done vk rest db' hvks ⟨hversions, hrecords⟩
  have hfresh : vk ∉ done := by
    rw [hvks] at hnodup
    exact fun hmem => (List.nodup_append.mp hnodup).2.2 vk hmem vk List.mem_cons_self rfl
  refine ⟨fun vk' => ?_, fun c k => ?_⟩
  · rw [applyErase, versionOrZero_bump, hversions]
    by_cases h : vk' = vk
    · subst h
      simp [hfresh]
    · simp [h]
  · rw [applyErase, find_eraseRecord, hrecords]
    by_cases h : parseRecordVersionKey vk = some (c, k)
    · rw [if_pos h, if_pos ⟨vk, by simp, h⟩]
    · rw [if_neg h]
      simp [or_and_right, exists_or, h]

theorem applyPuts (db : Records δ × Versions) {ps : List (Bytes × VersionedRecord δ)}
    (hkeys : ∀ p ∈ ps, versionKeyOf p.2 = p.1) (hnodup : ps.Pairwise fun p q => p.1 ≠ q.1) :
    (∀ vk, versionOrZero (ps.foldl applyPut db).2 vk =
      versionOrZero db.2 vk + if vk ∈ ps.map Prod.fst then 1 else 0) ∧
    (∀ p ∈ ps, OrderedMap.find₂ (ps.foldl applyPut db).1 p.2.collection p.2.key =
      some { p.2 with version := versionOrZero (ps.foldl applyPut db).2 p.1 }) ∧
    ∀ c k, (∀ p ∈ ps, ¬ (c = p.2.collection ∧ k = p.2.key)) →
      OrderedMap.find₂ (ps.foldl applyPut db).1 c k = OrderedMap.find₂ db.1 c k := by
  refine foldl_invariant (fun (done : List (Bytes × VersionedRecord δ))
      (db' : Records δ × Versions) =>
    (∀ vk, versionOrZero db'.2 vk =
      versionOrZero db.2 vk + if vk ∈ done.map Prod.fst then 1 else 0) ∧
    (∀ p ∈ done, OrderedMap.find₂ db'.1 p.2.collection p.2.key =
      some { p.2 with version := versionOrZero db'.2 p.1 }) ∧
    ∀ c k, (∀ p ∈ done, ¬ (c = p.2.collection ∧ k = p.2.key)) →
      OrderedMap.find₂ db'.1 c k = OrderedMap.find₂ db.1 c k) (by simp) ?_
  rintro done p rest db' hps ⟨hversions, hdone, helse⟩
  have hfresh : ∀ q ∈ done, q.1 ≠ p.1 := by
    rw [hps] at hnodup
    exact fun q hq => (List.pairwise_append.mp hnodup).2.2 q hq p List.mem_cons_self
  have hfresh' : p.1 ∉ done.map Prod.fst := by
    intro hmem
    obtain ⟨q, hq, heq⟩ := List.mem_map.mp hmem
    exact hfresh q hq heq
  refine ⟨fun vk => ?_, fun q hq => ?_, fun c k hne => ?_⟩
  · simp only [applyPut, versionOrZero_bump, hversions, List.map_append, List.mem_append,
      List.map_singleton, List.mem_singleton]
    by_cases h : vk = p.1
    · rw [h]
      simp only [hfresh', or_true, if_true, if_false]
    · simp only [h, or_false, if_false, Nat.add_zero]
  · simp only [applyPut, OrderedMap.find₂_store₂]
    rcases List.mem_append.mp hq with hold | hnew
    · have hplace : ¬ (q.2.collection = p.2.collection ∧ q.2.key = p.2.key) := by
        rintro ⟨hc, hk⟩
        refine hfresh q hold ?_
        rw [← hkeys q (by rw [hps]; simp [hold]), ← hkeys p (by rw [hps]; simp), versionKeyOf,
          versionKeyOf, hc, hk]
      rw [if_neg hplace, hdone q hold, versionOrZero_bump, if_neg (hfresh q hold), Nat.add_zero]
    · rw [List.mem_singleton.mp hnew, if_pos ⟨rfl, rfl⟩]
  · simp only [applyPut, OrderedMap.find₂_store₂]
    rw [if_neg (hne p (by simp)), helse c k fun q hq => hne q (by simp [hq])]

/-- **Exactly the staged and the erased version keys are bumped**, by one. -/
theorem versions_apply (t : InMemoryTransaction δ) (s : InMemoryState δ κ) (vk : Bytes) :
    versionOrZero (t.apply s).2 vk = s.counter vk + if t.Overlays vk then 1 else 0 := by
  have herases := applyErases (s.records, s.versions) t.nodup_erases
  have hputs := applyPuts (t.erases.toList.foldl applyErase (s.records, s.versions)) t.keys_puts
    t.pairwise_puts
  rw [apply, hputs.1, herases.1]
  have hmem : vk ∈ t.puts.toList.map Prod.fst ↔ vk ∈ t.puts := by
    rw [Std.ExtTreeMap.mem_iff_isSome_getElem?, Option.isSome_iff_exists, List.mem_map]
    constructor
    · rintro ⟨p, hp, rfl⟩
      exact ⟨p.2, Std.ExtTreeMap.mem_toList_iff_getElem?_eq_some.mp hp⟩
    · rintro ⟨r, hr⟩
      exact ⟨(vk, r), Std.ExtTreeMap.mem_toList_iff_getElem?_eq_some.mpr hr, rfl⟩
  simp only [hmem, Std.ExtTreeSet.mem_toList, Overlays, InMemoryState.counter]
  by_cases he : vk ∈ t.erases
  · have hp : vk ∉ t.puts := fun hp => by
      rw [Std.ExtTreeMap.mem_iff_isSome_getElem?, t.disjoint vk he] at hp
      cases hp
    simp [he, hp]
  · simp [he]

/-- **What a commit leaves at each place**: the staged record with its new version, nothing where
    it erased, and what was there everywhere else. -/
theorem apply_cases (t : InMemoryTransaction δ) (s : InMemoryState δ κ) (c : CollectionName)
    (k : Key) :
    (∃ r, t.Puts c k r ∧ OrderedMap.find₂ (t.apply s).1 c k =
      some { r with version := versionOrZero (t.apply s).2 (recordVersionKey c k) }) ∨
    (t.Erases c k ∧ OrderedMap.find₂ (t.apply s).1 c k = none) ∨
    ((∀ r, ¬ t.Puts c k r) ∧ ¬ t.Erases c k ∧
      OrderedMap.find₂ (t.apply s).1 c k = s.recordAt c k) := by
  have herases := applyErases (s.records, s.versions) t.nodup_erases
  have hputs := applyPuts (t.erases.toList.foldl applyErase (s.records, s.versions)) t.keys_puts
    t.pairwise_puts
  by_cases hput : ∃ r, t.Puts c k r
  · obtain ⟨r, hr⟩ := hput
    refine Or.inl ⟨r, hr, ?_⟩
    obtain ⟨hr, rfl, rfl⟩ := hr
    exact hputs.2.1 _ (Std.ExtTreeMap.mem_toList_iff_getElem?_eq_some.mpr hr)
  have hno : ∀ r, ¬ t.Puts c k r := fun r hr => hput ⟨r, hr⟩
  have helse : OrderedMap.find₂ (t.apply s).1 c k =
      OrderedMap.find₂ (t.erases.toList.foldl applyErase (s.records, s.versions)).1 c k := by
    refine hputs.2.2 c k ?_
    rintro ⟨vk, r⟩ hp ⟨rfl, rfl⟩
    have hr := Std.ExtTreeMap.mem_toList_iff_getElem?_eq_some.mp hp
    exact hno r ⟨by rw [(t.staged vk r hr).1, hr], rfl, rfl⟩
  have hgone : (∃ vk ∈ t.erases.toList, parseRecordVersionKey vk = some (c, k)) ↔ t.Erases c k := by
    rw [erases_iff]
    simp
  rw [herases.2] at helse
  by_cases he : t.Erases c k
  · exact Or.inr (Or.inl ⟨he, by rw [helse, if_pos (hgone.mpr he)]⟩)
  · exact Or.inr (Or.inr ⟨hno, he, by rw [helse, if_neg (mt hgone.mp he)]; rfl⟩)

/-! ## The commit -/

/-- The state a commit publishes. -/
def committed (t : InMemoryTransaction δ) (s : InMemoryState δ κ) {order : List Nat}
    {indexes : Indexes κ} (h : stageIndexes order s t = .ok indexes) : InMemoryState δ κ where
  collections := s.collections
  records := (t.apply s).1
  versions := (t.apply s).2
  indexes := indexes
  keyed c k r hr := by
    rcases t.apply_cases s c k with ⟨r', hput, hr'⟩ | ⟨_, hr'⟩ | ⟨_, _, hr'⟩ <;> rw [hr'] at hr
    · obtain rfl := Option.some_inj.mp hr
      exact hput.2
    · cases hr
    · exact s.keyed c k r hr
  counted c k r hr := by
    rw [versions_apply]
    rcases t.apply_cases s c k with ⟨r', hput, hr'⟩ | ⟨_, hr'⟩ | ⟨_, _, hr'⟩ <;> rw [hr'] at hr
    · obtain rfl := Option.some_inj.mp hr
      have hover : t.Overlays (recordVersionKey c k) :=
        Or.inr (Std.ExtTreeMap.mem_iff_isSome_getElem?.mpr (by rw [hput.1]; rfl))
      simp only [versions_apply, if_pos hover]
      exact ⟨Nat.succ_pos _, Nat.le_refl _⟩
    · cases hr
    · exact ⟨(s.counted c k r hr).1, Nat.le_add_right_of_le (s.counted c k r hr).2⟩
  sound c name ikey k hfiles := by
    have hst := staging h
    rw [hst.descriptors]
    rcases t.apply_cases s c k with ⟨r', hput, hr'⟩ | ⟨he, _⟩ | ⟨hno, hne, hr'⟩
    · obtain ⟨d, hd, hkey⟩ := (hst.put c k r' hput name ikey).mp hfiles
      exact ⟨_, d, hr', hd, hkey⟩
    · exact absurd hfiles (hst.erased c k he name ikey)
    · rw [hr']
      exact s.sound c name ikey k ((hst.untouched c k hno hne name ikey).mp hfiles)
  indexed c hc := s.indexed c (((staging h).collections c).mp hc)

/-- `commit`. -/
def commit (order : List Nat) (s : InMemoryState δ κ) (t : InMemoryTransaction δ) :
    Except Fault (InMemoryState δ κ × InMemoryTransaction δ) :=
  if t.isOpen = false then .error .closed
  else if t.current s = false then .error .versionConflict
  else
    match h : stageIndexes order s t with
    | .error e => .error e
    | .ok _ => .ok (t.committed s h, t.abort)

/-- **Everything a successful commit has done.** -/
theorem commit_ok {order : List Nat} {s : InMemoryState δ κ} {t : InMemoryTransaction δ}
    {r : InMemoryState δ κ × InMemoryTransaction δ} (h : commit order s t = .ok r) :
    t.isOpen = true ∧ t.current s = true ∧
      ∃ indexes, ∃ hst : stageIndexes order s t = .ok indexes, r = (t.committed s hst, t.abort) := by
  rw [commit] at h
  split at h
  · cases h
  rename_i hopen
  split at h
  · cases h
  rename_i hcurrent
  split at h
  · cases h
  · rename_i indexes hst
    exact ⟨by simpa using hopen, by simpa using hcurrent, indexes, hst, (Except.ok.inj h).symm⟩

/-- A commit that passes its validation and can stage its indexes. -/
theorem commit_of_staged {order : List Nat} {s : InMemoryState δ κ} {t : InMemoryTransaction δ}
    {indexes : Indexes κ} (hopen : t.isOpen = true) (hcurrent : t.current s = true)
    (hst : stageIndexes order s t = .ok indexes) :
    commit order s t = .ok (t.committed s hst, t.abort) := by
  rw [commit, if_neg (by simp [hopen]), if_neg (by simp [hcurrent])]
  split
  · rename_i fault he
    rw [hst] at he
    cases he
  · rename_i indexes' h'
    obtain rfl := Except.ok.inj (h'.symm.trans hst)
    rfl

/-- Staging fails only over an index. -/
theorem stageIndexes_error {order : List Nat} {s : InMemoryState δ κ} {t : InMemoryTransaction δ}
    {fault : Fault} (h : stageIndexes order s t = .error fault) : fault.OfIndex := by
  rw [stageIndexes] at h
  cases herase : t.erases.toList.foldlM (stageErase s.records) s.indexes with
  | error fault' =>
    simp only [herase, Except.error.injEq] at h
    subst h
    obtain ⟨indexes, vk, -, hstep⟩ := foldlM_error herase
    unfold stageErase at hstep
    split at hstep
    · cases hstep
    · split at hstep
      · cases hstep
      · exact removeRecordFromIndexes_error hstep
  | ok mid =>
    simp only [herase] at h
    obtain ⟨indexes, r, -, hstep⟩ := foldlM_error h
    unfold stagePut at hstep
    split at hstep
    · exact addRecordToIndexes_error hstep
    · split at hstep
      · rename_i fault' hrem
        obtain rfl := Except.error.inj hstep
        exact removeRecordFromIndexes_error hrem
      · exact addRecordToIndexes_error hstep

/-- No collection has an index. -/
def Plain (indexes : Indexes κ) : Prop := ∀ c name, descriptorOf indexes c name = none

/-- **Without indexes staging does not fail.** -/
theorem stageIndexes_total {s : InMemoryState δ κ} (hplain : Plain s.indexes) (order : List Nat)
    (t : InMemoryTransaction δ) : ∃ indexes, stageIndexes order s t = .ok indexes := by
  have hremove : ∀ (indexes : Indexes κ) (r : VersionedRecord δ), Plain indexes →
      ∃ indexes', removeRecordFromIndexes indexes r = .ok indexes' ∧ Plain indexes' := by
    intro indexes r hindexes
    obtain ⟨indexes', h⟩ := forIndexesOf_total (f := removeRecordFromIndex r) (hindexes r.collection)
    exact ⟨indexes', h, fun c name => (descriptorOf_remove h c name).trans (hindexes c name)⟩
  have hadd : ∀ (indexes : Indexes κ) (r : VersionedRecord δ), Plain indexes →
      ∃ indexes', addRecordToIndexes indexes r = .ok indexes' ∧ Plain indexes' := by
    intro indexes r hindexes
    obtain ⟨indexes', h⟩ := forIndexesOf_total (f := addRecordToIndex r) (hindexes r.collection)
    exact ⟨indexes', h, fun c name => (descriptorOf_add h c name).trans (hindexes c name)⟩
  obtain ⟨mid, hmid, hplainMid⟩ : ∃ mid,
      t.erases.toList.foldlM (stageErase s.records) s.indexes = .ok mid ∧ Plain mid := by
    refine foldlM_total Plain hplain fun indexes vk _ hindexes => ?_
    rw [stageErase]
    split
    · exact ⟨indexes, rfl, hindexes⟩
    · split
      · exact ⟨indexes, rfl, hindexes⟩
      · exact hremove indexes _ hindexes
  obtain ⟨after, hafter, -⟩ : ∃ after,
      (visit order t.stagedRecords).foldlM (stagePut s.records) mid = .ok after ∧ Plain after := by
    refine foldlM_total Plain hplainMid fun indexes r _ hindexes => ?_
    rw [stagePut]
    split
    · exact hadd indexes r hindexes
    · rename_i existing _
      obtain ⟨indexes', hrem, hindexes'⟩ := hremove indexes existing hindexes
      rw [hrem]
      exact hadd indexes' r hindexes'
  exact ⟨after, by rw [stageIndexes, hmid]; exact hafter⟩

/-- An open transaction is refused with a version conflict exactly when an observed version is not
    the present one. -/
theorem commit_conflict_iff {order : List Nat} {s : InMemoryState δ κ} {t : InMemoryTransaction δ}
    (hopen : t.isOpen = true) :
    commit order s t = .error .versionConflict ↔ t.current s = false := by
  rw [commit, if_neg (by simp [hopen])]
  by_cases hcurrent : t.current s = false
  · simp [hcurrent]
  · rw [if_neg hcurrent]
    refine ⟨fun h => ?_, fun h => absurd h hcurrent⟩
    split at h
    · rename_i fault hst
      obtain rfl := Except.error.inj h
      rcases stageIndexes_error hst with hf | ⟨_, _, hf⟩ <;> cases hf
    · cases h

end InMemoryTransaction

end StateSpec.Memory
