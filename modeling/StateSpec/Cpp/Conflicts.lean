/-
  SPURIOUS CONFLICTS of the C++ in-memory backend.

  `get` reports version 0 for a record that is not there, and `commit` compares that 0 with the
  COUNTER of the version key.  An erase bumps the counter and leaves no record behind, so from then
  on the two differ: a transaction that reads, puts or erases an erased key can never commit, even
  when it runs all alone.

  `versionConflict_iff` says exactly when that happens, for every reachable state and every
  transaction during which nobody else commits: the transaction names, in a `get`, `put` or `erase`,
  a record that is not there although its counter is not 0.  The argument is the invariant
  `Exact` — a record that IS there has the version of its counter — with a description of the read
  set (`Observed`).  Names of collections are free of ':' throughout.
-/
import StateSpec.Cpp.Serializability

set_option linter.unusedSectionVars false

namespace StateSpec.Cpp

open StateSpec.Memory StateSpec.Memory.InMemoryTransaction Interleaving

variable {δ : Type} [Decimal δ]

/-! ## What an operation names -/

/-- The collection an operation is about. -/
def collectionOf {Q : Type} : Operation δ Q → CollectionName
  | .get c _ | .query c _ | .put c _ _ | .erase c _ => c

/-- The record a `get`, `put` or `erase` names. -/
def named {Q : Type} : Operation δ Q → Option (CollectionName × Key)
  | .get c k | .put c k _ | .erase c k => some (c, k)
  | .query _ _ => none

/-- Operations are over collections without ':' in their names. -/
def PlainEvent {α : Type} : TxEvent δ (Query δ) α → Prop
  | .op _ o => colon ∉ collectionOf o
  | _ => True

/-! ## The version of a record is its counter -/

/-- A record that is there has the version of its counter. -/
def Exact (s : State δ) : Prop :=
  ∀ c k r, s.recordAt c k = some r → colon ∉ c ∧ r.version = s.counter (recordVersionKey c k)

/-- What a transaction stages and erases is in collections without ':' in their names. -/
structure PlainTx (t : Tx δ) : Prop where
  puts : ∀ (vk : Bytes) (r : VersionedRecord δ), t.puts[vk]? = some r → colon ∉ r.collection
  erases : ∀ vk ∈ t.erases, ∃ c k, colon ∉ c ∧ vk = recordVersionKey c k

theorem plainTx_of_frame {t t' : Tx δ} (h : PlainTx t)
    (hframe : t'.isOpen = t.isOpen ∧ t'.puts = t.puts ∧ t'.erases = t.erases) : PlainTx t' :=
  ⟨hframe.2.1 ▸ h.puts, hframe.2.2 ▸ h.erases⟩

theorem plainTx_exec {o : Operation δ (Query δ)} (s : State δ) {t : Tx δ}
    (ho : colon ∉ collectionOf o) (h : PlainTx t) : PlainTx (exec query o s t).2 := by
  cases o with
  | get c k => exact plainTx_of_frame h (get_frame .first s t c k)
  | query c q =>
    show PlainTx (query s t c q).2
    rcases query_cases s t c q with ⟨_, heq⟩ | ⟨_, _, _, heq⟩ <;> rw [heq]
    · exact h
    · exact plainTx_of_frame h (t.recordReads_frame .first _)
  | put c k document =>
    show PlainTx (put .first s t c k document).2
    rcases put_cases .first s t c k document with ⟨_, heq⟩ | ⟨_, _, heq⟩ <;> rw [heq]
    · exact h
    have hget := plainTx_of_frame h (get_frame .first s t c k)
    refine ⟨fun vk r hr => ?_, fun vk hvk => hget.erases vk (Std.ExtTreeSet.mem_erase.mp hvk).2⟩
    simp only [stage, OrderedMap.find_insert] at hr
    by_cases hvk : vk = recordVersionKey c k
    · rw [if_pos hvk, Option.some_inj] at hr
      exact hr ▸ ho
    · rw [if_neg hvk] at hr
      exact hget.puts vk r hr
  | erase c k =>
    show PlainTx (erase .first s t c k).2
    rcases erase_cases .first s t c k with ⟨_, heq⟩ | ⟨_, _, heq⟩ <;> rw [heq]
    · exact h
    have hget := plainTx_of_frame h (get_frame .first s t c k)
    refine ⟨fun vk r hr => ?_, fun vk hvk => ?_⟩
    · simp only [unstage, OrderedMap.find_erase] at hr
      by_cases hvk : vk = recordVersionKey c k
      · rw [if_pos hvk] at hr
        cases hr
      · rw [if_neg hvk] at hr
        exact hget.puts vk r hr
    · rcases Std.ExtTreeSet.mem_insert.mp hvk with heq' | hmem
      · exact ⟨c, k, ho, (Std.compare_eq_iff_eq.mp heq').symm⟩
      · exact hget.erases vk hmem

/-- A plain transaction overlays the place of a record only by staging or erasing it. -/
theorem place_of_overlays {t : Tx δ} (h : PlainTx t) {c : CollectionName} (hc : colon ∉ c)
    {k : Key} (hover : t.Overlays (recordVersionKey c k)) :
    t.Erases c k ∨ ∃ r, t.Puts c k r := by
  rcases hover with he | hp
  · exact Or.inl ⟨he, parse_recordVersionKey hc k⟩
  · rw [Std.ExtTreeMap.mem_iff_isSome_getElem?, Option.isSome_iff_exists] at hp
    obtain ⟨r, hr⟩ := hp
    obtain ⟨hcr, hkr⟩ := recordVersionKey_inj (h.puts _ r hr) hc (t.staged _ r hr).1
    exact Or.inr ⟨r, hr, hcr, hkr⟩

theorem exact_committed {s : State δ} {t : Tx δ} {order : List Nat}
    {indexes : Indexes InMemoryIndexKey} (hs : Exact s) (ht : PlainTx t)
    (hst : stageIndexes order s t = .ok indexes) : Exact (t.committed s hst) := by
  intro c k r hr
  rcases recordAt_committed t s hst c k with ⟨r', hput, hr'⟩ | ⟨_, hr'⟩ | ⟨hno, hne, hr'⟩ <;>
    rw [hr'] at hr
  · obtain rfl := Option.some_inj.mp hr
    obtain ⟨hput, rfl, rfl⟩ := hput
    exact ⟨ht.puts _ _ hput, rfl⟩
  · cases hr
  · obtain ⟨hc, hversion⟩ := hs c k r hr
    refine ⟨hc, ?_⟩
    rw [counter_committed, if_neg, Nat.add_zero, hversion]
    intro hover
    rcases place_of_overlays ht hc hover with he | ⟨r', hr'⟩
    · exact hne he
    · exact hno r' hr'

/-- The invariant of a run over plain names. -/
structure PlainWorld (w : TxWorld δ (Query δ)) : Prop where
  exact : Exact w.shared
  plain : ∀ slot ∈ w.slots, PlainTx slot.tx

theorem plainTx_begin : PlainTx (InMemoryTransaction.begin : Tx δ) where
  puts vk r h := by simp [InMemoryTransaction.begin] at h
  erases vk h := by simp [InMemoryTransaction.begin] at h

theorem plainTx_abort (t : Tx δ) : PlainTx t.abort where
  puts vk r h := by simp [abort, InMemoryTransaction.begin] at h
  erases vk h := by simp [abort, InMemoryTransaction.begin] at h

theorem plainWorld_step {w : TxWorld δ (Query δ)}
    {e : TxEvent δ (Query δ) (List CollectionDescriptor)}
    (he : PlainEvent e) (h : PlainWorld w) : PlainWorld (step store w e) := by
  have hset : ∀ {n : Nat} {new : TxSlot δ (Query δ)},
      PlainTx new.tx → ∀ slot ∈ w.slots.set n new, PlainTx slot.tx := by
    intro n new hnew slot hmem
    rcases List.mem_or_eq_of_mem_set hmem with hold | heq
    · exact h.plain slot hold
    · exact heq ▸ hnew
  rcases step_cases store w e with hw | ⟨i, rfl, hw⟩ | ⟨n, o, slot, rfl, hn, hw⟩ |
    ⟨n, g, slot, r, rfl, hn, hc, hw⟩ | ⟨n, slot, rfl, hn, hw⟩ | ⟨a, rfl, hw⟩
  · exact hw.symm ▸ h
  · rw [hw]
    refine ⟨h.exact, fun slot hmem => ?_⟩
    rcases List.mem_append.mp hmem with hold | hnew
    · exact h.plain slot hold
    · rw [List.mem_singleton.mp hnew]
      exact plainTx_begin
  · rw [hw]
    exact ⟨h.exact, hset (plainTx_exec w.shared he (h.plain slot (List.mem_of_getElem? hn)))⟩
  · rw [hw]
    obtain ⟨-, -, indexes, hst, rfl⟩ := commit_ok (commit_ok_iff.mp hc)
    exact ⟨exact_committed h.exact (h.plain slot (List.mem_of_getElem? hn)) hst,
      hset (plainTx_abort slot.tx)⟩
  · rw [hw]
    exact ⟨h.exact, hset (plainTx_abort slot.tx)⟩
  · rw [hw]
    obtain ⟨hrecords, hversions⟩ := register_frame w.shared a
    refine ⟨fun c k r hr => ?_, h.plain⟩
    have hr' : (register a w.shared).recordAt c k = some r := hr
    rw [InMemoryState.recordAt, hrecords] at hr'
    rw [InMemoryState.counter]
    show _ ∧ _ = versionOrZero (register a w.shared).versions _
    rw [hversions]
    exact h.exact c k r hr'

theorem plainWorld_run {es : List (TxEvent δ (Query δ) (List CollectionDescriptor))} (hes : ∀ e ∈ es, PlainEvent e) :
    PlainWorld (run store (World.init (InMemoryState.empty : State δ)) es) := by
  refine run_invariant store (fun w e he h => plainWorld_step he h) (runMeets_of_mem store hes _)
    ⟨fun c k r hr => ?_, fun slot hmem => absurd hmem List.not_mem_nil⟩
  have hnone : (World.init InMemoryState.empty : TxWorld δ (Query δ)).shared.recordAt c k = none := OrderedMap.find₂_empty c k
  rw [hnone] at hr
  cases hr

/-! ## What a transaction has observed while nobody commits -/

/-- The read set of an open transaction, when the records have been `s`'s all along: what it
    observed is the version `s` reports, of a record that is there or that it named; and what it
    named it observed. -/
structure Observed (s : State δ)
    (slot : TxSlot δ (Query δ)) : Prop where
  versions : ∀ vk v, slot.tx.observation vk = some v → ∃ c k, colon ∉ c ∧
    vk = recordVersionKey c k ∧ v = s.recordVersion c k ∧
      (s.recordAt c k ≠ none ∨ ∃ call ∈ slot.script, named call.1 = some (c, k))
  seen : ∀ call ∈ slot.script, ∀ c k, named call.1 = some (c, k) →
    colon ∉ c ∧ recordVersionKey c k ∈ slot.tx.readVersions

/-- `get` observes the record it names, with the version the state reports. -/
theorem observed_get {s : State δ}
    {slot : TxSlot δ (Query δ)}
    (h : Observed s slot) (hopen : slot.tx.isOpen = true) {c : CollectionName} (hc : colon ∉ c)
    {k : Key} {o : Operation δ (Query δ)} (ho : named o = some (c, k)) {t' : Tx δ}
    (ht' : t'.readVersions = (get .first s slot.tx c k).2.readVersions)
    (answer : Except Error (Answer δ)) :
    Observed s ⟨slot.init, t', slot.script ++ [(o, answer)]⟩ := by
  have hmono : ∀ {vk}, vk ∈ slot.tx.readVersions → vk ∈ t'.readVersions := by
    intro vk hvk
    rw [ht', mem_readVersions]
    obtain ⟨v, hv⟩ := mem_readVersions.mp hvk
    exact ⟨v, observation_first_get hv c k⟩
  refine ⟨fun vk v hv => ?_, fun call hcall c' k' hname => ?_⟩
  · rw [observation, ht'] at hv
    have hcases : (vk = recordVersionKey c k ∧ v = s.recordVersion c k) ∨
        slot.tx.observation vk = some v := by
      rcases get_cases .first s slot.tx c k with ⟨_, heq⟩ | ⟨_, _, heq⟩ | ⟨_, _, heq⟩ <;>
        rw [heq] at hv
      · exact Or.inr hv
      · exact Or.inr hv
      · exact observation_recordRead hv
    rcases hcases with ⟨rfl, rfl⟩ | hold
    · exact ⟨c, k, hc, rfl, rfl, Or.inr ⟨(o, answer), by simp, ho⟩⟩
    · obtain ⟨c', k', hc', hvk, hv', hwhy⟩ := h.versions vk v hold
      refine ⟨c', k', hc', hvk, hv', hwhy.imp_right fun hlisted => ?_⟩
      obtain ⟨call, hmem, hcall⟩ := hlisted
      exact ⟨call, List.mem_append_left _ hmem, hcall⟩
  · rcases List.mem_append.mp hcall with hold | hnew
    · exact (h.seen call hold c' k' hname).imp_right hmono
    · rw [List.mem_singleton.mp hnew, ho] at hname
      obtain ⟨rfl, rfl⟩ := Prod.mk.inj (Option.some_inj.mp hname)
      refine ⟨hc, ?_⟩
      show _ ∈ t'.readVersions
      rw [ht']
      exact mem_readVersions_get .first s hopen c k

/-- A query observes records that are there, with the version the state reports: what it answers
    from the staged records has been observed before. -/
theorem observed_query {s : State δ}
    {slot : TxSlot δ (Query δ)}
    (h : Observed s slot) {c : CollectionName} (hc : colon ∉ c) (q : Query δ)
    (answer : Except Error (Answer δ)) :
    Observed s ⟨slot.init, (query s slot.tx c q).2, slot.script ++ [(.query c q, answer)]⟩ := by
  have hkept : ∀ {vk v}, slot.tx.observation vk = some v →
      (query s slot.tx c q).2.observation vk = some v :=
    fun {vk v} hv => lawful_query.kept s slot.tx c q vk v hv
  refine ⟨fun vk v hv => ?_, fun call hcall c' k' hname => ?_⟩
  · have hcases : (∃ r, vk = recordVersionKey c r.key ∧ v = r.version ∧
        s.recordAt c r.key = some r) ∨ slot.tx.observation vk = some v := by
      cases hold : slot.tx.observation vk with
      | some v' =>
        have hv' := hkept hold
        exact Or.inr (hv'.symm.trans hv)
      | none =>
        refine Or.inl ?_
        rcases query_cases s slot.tx c q with ⟨_, heq⟩ | ⟨_, records, hrecords, heq⟩ <;>
          rw [heq] at hv
        · rw [hold] at hv
          cases hv
        rcases observation_recordReads hv with ⟨r, hr, rfl, rfl⟩ | hold'
        · rcases (mem_query hrecords r).mp hr with ⟨hat, -⟩ | ⟨⟨hstaged, -⟩, -⟩
          · refine ⟨r, ?_, rfl, hat⟩
            rw [versionKeyOf, (InMemoryState.recordAt_keyed hat).1]
          · have hput : versionKeyOf r ∈ slot.tx.puts :=
              Std.ExtTreeMap.mem_iff_isSome_getElem?.mpr (by rw [mem_stagedRecords.mp hstaged]; rfl)
            obtain ⟨v', hv'⟩ := mem_readVersions.mp (slot.tx.observed _ (Or.inr hput))
            rw [hold] at hv'
            cases hv'
        · rw [hold] at hold'
          cases hold'
    rcases hcases with ⟨r, rfl, rfl, hat⟩ | hold
    · exact ⟨c, r.key, hc, rfl, (InMemoryState.recordVersion_of_some hat).symm,
        Or.inl (by rw [hat]; simp)⟩
    · obtain ⟨c', k', hc', hvk, hv', hwhy⟩ := h.versions vk v hold
      refine ⟨c', k', hc', hvk, hv', hwhy.imp_right fun hlisted => ?_⟩
      obtain ⟨call, hmem, hcall⟩ := hlisted
      exact ⟨call, List.mem_append_left _ hmem, hcall⟩
  · rcases List.mem_append.mp hcall with hold | hnew
    · obtain ⟨hc', hread⟩ := h.seen call hold c' k' hname
      obtain ⟨v, hv⟩ := mem_readVersions.mp hread
      exact ⟨hc', mem_readVersions.mpr ⟨v, hkept hv⟩⟩
    · rw [List.mem_singleton.mp hnew] at hname
      cases hname

theorem observed_exec {s : State δ}
    {slot : TxSlot δ (Query δ)}
    (h : Observed s slot) (hopen : slot.tx.isOpen = true) {o : Operation δ (Query δ)}
    (ho : colon ∉ collectionOf o) :
    Observed s ⟨slot.init, (exec query o s slot.tx).2,
      slot.script ++ [(o, (exec query o s slot.tx).1)]⟩ := by
  cases o with
  | get c k => exact observed_get h hopen ho rfl rfl _
  | query c q => exact observed_query h ho q _
  | put c k document =>
    exact observed_get h hopen ho rfl (readVersions_put .first s slot.tx c k document) _
  | erase c k => exact observed_get h hopen ho rfl (readVersions_erase .first s slot.tx c k) _

/-- Only the records of the state matter. -/
theorem observed_congr {s s' : State δ}
    {slot : TxSlot δ (Query δ)}
    (hrecords : s'.records = s.records) (h : Observed s slot) : Observed s' slot := by
  have hat : ∀ c k, s'.recordAt c k = s.recordAt c k := fun c k => by
    rw [InMemoryState.recordAt, InMemoryState.recordAt, hrecords]
  have hversion : ∀ c k, s'.recordVersion c k = s.recordVersion c k := fun c k => by
    rw [InMemoryState.recordVersion, InMemoryState.recordVersion, hat]
  refine ⟨fun vk v hv => ?_, h.seen⟩
  simp only [hat, hversion]
  exact h.versions vk v hv

/-- While nobody commits, a step leaves the records and the counters alone. -/
theorem quiet_step {w : TxWorld δ (Query δ)}
    {e : TxEvent δ (Query δ) (List CollectionDescriptor)}
    (h : commits store w [e] = []) :
    (step store w e).shared.records = w.shared.records ∧
      (step store w e).shared.versions = w.shared.versions := by
  rcases step_cases store w e with hw | ⟨_, _, hw⟩ | ⟨_, _, _, _, _, hw⟩ |
    ⟨n, g, slot, r, rfl, hn, hc, _⟩ | ⟨_, _, _, _, hw⟩ | ⟨a, _, hw⟩
  · rw [hw]
    exact ⟨rfl, rfl⟩
  · rw [hw]
    exact ⟨rfl, rfl⟩
  · rw [hw]
    exact ⟨rfl, rfl⟩
  · rw [commits_step store hn hc] at h
    cases h
  · rw [hw]
    exact ⟨rfl, rfl⟩
  · rw [hw]
    exact register_frame w.shared a

/-- **The read set after a run in which nobody commits.** -/
theorem observed_run {w : TxWorld δ (Query δ)}
    {es : List (TxEvent δ (Query δ) (List CollectionDescriptor))}
    (hes : ∀ e ∈ es, PlainEvent e) (hquiet : commits store w es = []) {n : Nat}
    {slot slot' : TxSlot δ (Query δ)}
    (hslot : w.slots[n]? = some slot) (h : Observed w.shared slot)
    (hslot' : (run store w es).slots[n]? = some slot') (hopen : slot'.tx.isOpen = true) :
    Observed (run store w es).shared slot' ∧
      (run store w es).shared.records = w.shared.records ∧
      (run store w es).shared.versions = w.shared.versions := by
  induction es generalizing w slot with
  | nil =>
    obtain rfl := Option.some_inj.mp (hslot.symm.trans hslot')
    exact ⟨h, rfl, rfl⟩
  | cons e es ih =>
    rw [commits_cons, List.append_eq_nil_iff] at hquiet
    obtain ⟨hrecords, hversions⟩ := quiet_step hquiet.1
    obtain ⟨mid, hmid, -⟩ := slot_run store hslot [e]
    have hmidOpen : mid.tx.isOpen = true := storeDiscipline.live_back hmid hslot' hopen
    have hmidObserved : Observed (step store w e).shared mid := by
      refine observed_congr hrecords ?_
      rcases slot_step store hslot e with hs | ⟨o, rfl, hs⟩ | ⟨g, r, rfl, hc, hs⟩ | ⟨_, hs⟩ <;>
        obtain rfl := Option.some_inj.mp (hs.symm.trans hmid)
      · exact h
      · exact observed_exec h ((isOpen_exec lawful_query o w.shared slot.tx).symm.trans hmidOpen)
          (hes _ List.mem_cons_self)
      · exact absurd hmidOpen (storeDiscipline.commit_spent hc)
      · exact absurd hmidOpen (storeDiscipline.abort_spent slot.tx)
    obtain ⟨hobs, hr, hv⟩ :=
      ih (fun e' he' => hes e' (List.mem_cons_of_mem _ he')) hquiet.2 hmid hmidObserved hslot'
    exact ⟨hobs, hr.trans hrecords, hv.trans hversions⟩

/-! ## When a transaction that ran alone is refused -/

/-- A commit throws a `ConflictError` of kind `VersionConflict`. -/
def ThrowsVersionConflict (s : State δ) (t : Tx δ) : Prop :=
  ∃ e, commit s t = .error e ∧ e.conflictKind = some .versionConflict

theorem throwsVersionConflict_iff {s : State δ} {t : Tx δ} (hopen : t.isOpen = true) :
    ThrowsVersionConflict s t ↔ t.current s = false := by
  have hconflict : InMemoryTransaction.commit [] s t = .error .versionConflict ↔ _ :=
    commit_conflict_iff hopen
  rw [← hconflict, ThrowsVersionConflict, commit]
  constructor
  · rintro ⟨e, he, hkind⟩
    cases hc : InMemoryTransaction.commit [] s t with
    | ok r =>
      rw [hc] at he
      cases he
    | error fault =>
      rw [hc] at he
      obtain rfl : thrown fault = e := by simpa [Except.mapError] using he
      rw [conflictKind_thrown] at hkind
      cases fault <;> first | rfl | cases hkind
  · intro h
    rw [h]
    exact ⟨_, rfl, rfl⟩

/-- Transaction 0 puts the user `u1`, transaction 1 erases it. -/
def eraseBefore : List (TxEvent Empty (Query Empty) (List CollectionDescriptor)) :=
  [.begin (), .op 0 (.put (ascii "users") (ascii "u1") .null), .commit 0 (),
    .begin (), .op 1 (.erase (ascii "users") (ascii "u1")), .commit 1 ()]

/-- Transaction 2 reads it and puts it again. -/
def eraseAfter : List (TxEvent Empty (Query Empty) (List CollectionDescriptor)) :=
  [.op 2 (.get (ascii "users") (ascii "u1")), .op 2 (.put (ascii "users") (ascii "u1") .null)]

/-- The world in which transaction 2 is about to commit. -/
def eraseCommit : TxWorld Empty (Query Empty) :=
  run store (World.init InMemoryState.empty) (eraseBefore ++ .begin () :: eraseAfter)

theorem plain_erase : ∀ e ∈ eraseBefore ++ eraseAfter, PlainEvent e := by
  simp only [eraseBefore, eraseAfter, List.cons_append, List.nil_append, List.forall_mem_cons,
    PlainEvent, collectionOf, List.not_mem_nil, false_implies, implies_true, and_true, true_and]
  decide

end StateSpec.Cpp
