/-
  C++ AND RUST SIDE BY SIDE.

  The two in-memory backends are meant to behave alike.  They do for every client whose operations
  are `Agreeable`; each clause of it is one difference between the two implementations:

  * `reads`   — C++ keeps the version it observed first and Rust the one it observed last, so a
                record that is read again must not have moved;
  * `own`     — the version of a staged record is 0, and Rust records it over the version observed
                before, so a query that answers a record the transaction itself has staged must have
                observed 0 there already;
  * `covered` — C++ leaves out a committed record as soon as it is staged, Rust only if the query
                finds the staged one, so an index query must find the staged one;
  * `foreign` — Rust looks for the index key of staged records of all collections, C++ of those of
                the queried one, so no other staged record may be without an index key.

  `run_agree`: in every run whose operations are agreeable, in however many transactions, each call
  answers the same, each commit ends the same way, and both backends hold the same state.
-/
import StateSpec.Cpp.Backend
import StateSpec.Bindings.LostUpdates

set_option linter.unusedSectionVars false

namespace StateSpec.Agreement

open Memory Memory.InMemoryTransaction Interleaving

variable {δ : Type} [Decimal δ]

/-! ## The two stores, over one type of queries -/

/-- The C++ backend, for clients that build their queries with the factories. -/
abbrev cpp : Store Unit (Cpp.State δ) (Cpp.Tx δ) (Operation δ (SealedQuery δ))
    (Except Error (Answer δ)) Unit Error Empty :=
  Cpp.storeWith (fun s t c q => Cpp.query s t c q.toQuery) fun a => a.elim

/-- The Rust backend. -/
abbrev rust : Store Unit (Cpp.State δ) (Cpp.Tx δ) (Operation δ (SealedQuery δ))
    (Except Rust.BackendError (Answer δ)) Unit Rust.BackendError Empty :=
  Rust.binding.txStore

/-- How Rust reads a query. -/
abbrev selector (q : SealedQuery δ) : Selector δ InMemoryIndexKey := Rust.binding.selector q

/-- Both backends read a query in the same way. -/
theorem selector_toQuery (q : SealedQuery δ) : Cpp.selector q.toQuery = selector q := by
  cases q <;> rfl

/-! ## The condition -/

/-- An operation of an open transaction on which C++ and Rust agree. -/
structure Agreeable (o : Operation δ (SealedQuery δ)) (s : Cpp.State δ) (t : Cpp.Tx δ) : Prop where
  reads : ∀ c k v, Rust.binding.Reads s t o c k →
    t.observation (recordVersionKey c k) = some v → s.recordVersion c k = v
  own : ∀ c q r, o = .query c q → StagedAnswer s t c (selector q) r →
    t.observation (versionKeyOf r) = some 0
  covered : ∀ c q r, o = .query c q → s.recordAt c r.key = some r →
    ((selector q).isIndex = true → FindsByIndex s c (selector q) r.key) →
    (selector q).matchesRecord r = true → versionKeyOf r ∈ t.puts →
    ∃ r', StagedHere s t c (selector q) r' ∧ r'.key = r.key
  foreign : ∀ c q, o = .query c q → (selector q).isIndex = true →
    ∀ r ∈ t.stagedRecords, r.collection ≠ c → ∃ found, stagedMatches s (selector q) r = .ok found

/-- Of an operation that is no query, only the first clause says anything. -/
theorem agreeable_point {o : Operation δ (SealedQuery δ)} {s : Cpp.State δ} {t : Cpp.Tx δ}
    (hpoint : ∀ c q, o ≠ .query c q)
    (hreads : ∀ c k v, Rust.binding.Reads s t o c k →
      t.observation (recordVersionKey c k) = some v → s.recordVersion c k = v) :
    Agreeable o s t where
  reads := hreads
  own c q _ ho := absurd ho (hpoint c q)
  covered c q _ ho := absurd ho (hpoint c q)
  foreign c q ho := absurd ho (hpoint c q)

/-- The condition on a step: an operation of an open transaction is agreeable. -/
def AgreeableStep (w : World Unit (Cpp.State δ) (Cpp.Tx δ) (Operation δ (SealedQuery δ))
    (Except Error (Answer δ)) Unit) : Event Unit (Operation δ (SealedQuery δ)) Unit Empty → Prop
  | .op n o => ∀ slot, w.slots[n]? = some slot → slot.tx.isOpen = true →
      Agreeable o w.shared slot.tx
  | _ => True

/-! ## What it means to agree -/

/-- The same answer: the records of a query count as a set, of errors the conflict kind. -/
def SameAnswer : Except Error (Answer δ) → Except Rust.BackendError (Answer δ) → Prop
  | .ok (.records l), .ok (.records l') => ∀ r, r ∈ l ↔ r ∈ l'
  | .ok a, .ok a' => a = a'
  | .error e, .error e' => e.conflictKind = e'.conflictKind
  | _, _ => False

/-- The same outcome of an event. -/
def SameOutcome : Outcome (Except Error (Answer δ)) Error →
    Outcome (Except Rust.BackendError (Answer δ)) Rust.BackendError → Prop
  | .silent, .silent => True
  | .answer a, .answer a' => SameAnswer a a'
  | .committed, .committed => True
  | .refused e, .refused e' => e.conflictKind = e'.conflictKind
  | _, _ => False

/-- The same shared state and the same transactions. -/
structure SameWorld
    (w : World Unit (Cpp.State δ) (Cpp.Tx δ) (Operation δ (SealedQuery δ))
      (Except Error (Answer δ)) Unit)
    (w' : World Unit (Cpp.State δ) (Cpp.Tx δ) (Operation δ (SealedQuery δ))
      (Except Rust.BackendError (Answer δ)) Unit) : Prop where
  shared : w.shared = w'.shared
  slots : w.slots.map Slot.tx = w'.slots.map Slot.tx

/-- Errors of one fault agree. -/
theorem sameKind (fault : Fault) :
    (Cpp.thrown fault).conflictKind = (Rust.raise fault).conflictKind := by
  rw [Cpp.conflictKind_thrown, Rust.conflictKind_raise]

/-! ## Reading the same -/

/-- Transactions are equal when what they keep is. -/
theorem tx_ext {t t' : Cpp.Tx δ} (hopen : t.isOpen = t'.isOpen) (hputs : t.puts = t'.puts)
    (herases : t.erases = t'.erases) (hreads : ∀ vk, t.observation vk = t'.observation vk) :
    t = t' := by
  have hversions : t.readVersions = t'.readVersions := Std.ExtTreeMap.ext_getElem? fun vk => hreads vk
  cases t
  cases t'
  simp only at hopen hputs herases hversions
  subst hopen hputs herases hversions
  rfl

/-- What is observed is the version that was observed before, if any: then both policies agree. -/
theorem recordRead_same {t : Cpp.Tx δ} {vk : Bytes} {version : Version}
    (h : ∀ v, t.observation vk = some v → version = v) :
    t.recordRead .first vk version = t.recordRead .latest vk version := by
  refine tx_ext rfl rfl rfl fun vk' => ?_
  rw [observation_recordRead_first, observation_recordRead_latest]
  by_cases hvk : vk' = vk
  · subst hvk
    cases hv : t.observation vk' with
    | none => simp
    | some v => simp [h v hv]
  · simp [hvk]

/-- A list of records that says one thing about each version key, and nothing new about those that
    were observed before. -/
structure Consistent (t : Cpp.Tx δ) (l : List (VersionedRecord δ)) : Prop where
  unique : ∀ r ∈ l, ∀ r' ∈ l, versionKeyOf r = versionKeyOf r' → r.version = r'.version
  known : ∀ r ∈ l, ∀ v, t.observation (versionKeyOf r) = some v → r.version = v

/-- What is observed after reading a consistent list, under either policy. -/
theorem observation_consistent (policy : ReadPolicy) {t : Cpp.Tx δ} {l : List (VersionedRecord δ)}
    (h : Consistent t l) (vk : Bytes) (v : Version) :
    (t.recordReads policy l).observation vk = some v ↔
      t.observation vk = some v ∨ ∃ r ∈ l, vk = versionKeyOf r ∧ v = r.version := by
  constructor
  · exact fun hv => (observation_recordReads hv).symm
  · intro hv
    have hmem : vk ∈ (t.recordReads policy l).readVersions := by
      rcases hv with hv | ⟨r, hr, rfl, -⟩
      · exact mem_recordReads_of_mem policy l (mem_readVersions.mpr ⟨v, hv⟩)
      · exact mem_recordReads policy t hr
    obtain ⟨v', hv'⟩ := mem_readVersions.mp hmem
    rw [hv', Option.some_inj]
    -- two things said about one version key are the same
    rcases observation_recordReads hv' with ⟨r', hr', rfl, rfl⟩ | hold' <;>
      rcases hv with hold | ⟨r, hr, heq, rfl⟩
    · exact h.known r' hr' v hold
    · exact h.unique r' hr' r hr heq
    · exact Option.some_inj.mp (hold'.symm.trans hold)
    · rw [heq] at hold'
      exact (h.known r hr v' hold').symm

/-- Reading the same set of records leaves the same transaction. -/
theorem recordReads_same {t : Cpp.Tx δ} {l l' : List (VersionedRecord δ)} (h : Consistent t l)
    (hset : ∀ r, r ∈ l ↔ r ∈ l') : t.recordReads .first l = t.recordReads .latest l' := by
  have h' : Consistent t l' :=
    ⟨fun r hr r' hr' => h.unique r ((hset r).mpr hr) r' ((hset r').mpr hr'),
      fun r hr => h.known r ((hset r).mpr hr)⟩
  obtain ⟨hopen, hputs, herases⟩ := t.recordReads_frame .first l
  obtain ⟨hopen', hputs', herases'⟩ := t.recordReads_frame .latest l'
  refine tx_ext (hopen.trans hopen'.symm) (hputs.trans hputs'.symm) (herases.trans herases'.symm)
    fun vk => Option.ext fun v => ?_
  rw [observation_consistent .first h, observation_consistent .latest h']
  simp only [hset]

section

variable {o : Operation δ (SealedQuery δ)} {s : Cpp.State δ} {t : Cpp.Tx δ}

/-- `get` reads the same. -/
theorem get_same {c : CollectionName} {k : Key}
    (h : t.isOpen = true → ∀ v, ¬ t.Overlays (recordVersionKey c k) →
      t.observation (recordVersionKey c k) = some v → s.recordVersion c k = v) :
    get .first s t c k = get .latest s t c k := by
  rcases get_cases .first s t c k with ⟨hopen, heq⟩ | ⟨hopen, hover, heq⟩ | ⟨hopen, hover, heq⟩
  · rw [heq, InMemoryTransaction.get, if_pos hopen]
  · rw [heq, get_of_overlays .latest s hopen hover]
  · rw [heq, get_of_not_overlays .latest s hopen hover, recordRead_same fun v hv => h hopen v hover hv]

/-! ## Queries -/

variable {c : CollectionName} {q : SealedQuery δ}

/-- C++ and Rust answer the same committed records. -/
theorem committedAnswer_same (h : Agreeable (.query c q) s t) (r : VersionedRecord δ) :
    Cpp.CommittedAnswer s t c (selector q) r ↔
      Rust.binding.CommittedAnswer s t c (selector q) r := by
  have hvk : s.recordAt c r.key = some r → versionKeyOf r = recordVersionKey c r.key := fun hat => by
    rw [versionKeyOf, (InMemoryState.recordAt_keyed hat).1]
  constructor
  · rintro ⟨hat, hfound, hover, hmatch⟩
    have hputs : ∀ r', StagedHere s t c (selector q) r' → r'.key ≠ r.key := by
      rintro r' ⟨hr', hc, -⟩ hkey
      refine hover (Or.inr (Std.ExtTreeMap.mem_iff_isSome_getElem?.mpr ?_))
      rw [hvk hat, ← hc, ← hkey, ← versionKeyOf, mem_stagedRecords.mp hr']
      rfl
    refine ⟨hat, hfound, fun _ hexclude => (by cases hexclude), hputs, fun vk hmem heq => ?_, hmatch⟩
    exact hover (Or.inl (by rw [hvk hat, ← erasedKeyByPrefix_iff.mp heq]; exact hmem))
  · intro hanswer
    refine ⟨hanswer.committed, hanswer.found, ?_, hanswer.matched⟩
    rintro (herase | hput)
    · exact hanswer.unerased _ herase (erasedKeyByPrefix_iff.mpr (hvk hanswer.committed))
    · obtain ⟨r', hr', hkey⟩ :=
        h.covered c q r rfl hanswer.committed hanswer.found hanswer.matched hput
      exact hanswer.uncovered r' hr' hkey

/-- The staged part of the C++ query fails only where that of the Rust query does, and the other
    way round. -/
theorem stagedPart_same (h : Agreeable (.query c q) s t) :
    (∃ staged, Cpp.stagedPart s t c (selector q) = .ok staged) ↔
      ∃ staged, Binding.stagedPart s t c (selector q) = .ok staged := by
  rw [Binding.stagedPart_ok, Binding.Answerable]
  constructor
  · rintro ⟨staged, hstaged⟩ hindex r hr
    by_cases hc : r.collection = c
    · cases hfound : stagedMatches s (selector q) r with
      | ok found => exact ⟨found, rfl⟩
      | error fault =>
        have hthrows : Cpp.findsStaged s c (selector q) r = .error fault := by
          rw [Cpp.findsStaged, if_pos hc, if_pos hindex, hfound]
        exact absurd (mapError_eq_ok.mp hstaged) (filterE_ne_ok hr hthrows)
    · exact h.foreign c q rfl hindex r hr hc
  · intro hans
    have htotal : ∀ r ∈ t.stagedRecords, ∃ found, Cpp.findsStaged s c (selector q) r = .ok found := by
      intro r hr
      by_cases hc : r.collection = c
      · by_cases hindex : (selector q).isIndex = true
        · obtain ⟨found, hfound⟩ := hans hindex r hr
          exact ⟨found, by rw [Cpp.findsStaged, if_pos hc, if_pos hindex, hfound]⟩
        · exact ⟨true, by rw [Cpp.findsStaged, if_pos hc, if_neg hindex]⟩
      · exact ⟨false, by rw [Cpp.findsStaged, if_neg hc]⟩
    obtain ⟨staged, hstaged⟩ := filterE_total htotal
    exact ⟨staged, mapError_eq_ok.mpr hstaged⟩

/-- What both queries answer, of which each record is under its own version key. -/
theorem queryRecords_same (h : Agreeable (.query c q) s t) :
    (Cpp.queryRecords s t c (selector q) = .error (Cpp.thrown .nonScalar) ∧
      Rust.binding.queryRecords s t c (selector q) = .error .nonScalar) ∨
    ∃ l l', Cpp.queryRecords s t c (selector q) = .ok l ∧
      Rust.binding.queryRecords s t c (selector q) = .ok l' ∧ ∀ r, r ∈ l ↔ r ∈ l' := by
  obtain ⟨committed, hcommitted⟩ := Cpp.committedRecords_total s t c (selector q)
  cases hcpp : Cpp.stagedPart s t c (selector q) with
  | error e =>
    cases hrust : Binding.stagedPart s t c (selector q) with
    | ok staged =>
      obtain ⟨_, hok⟩ := (stagedPart_same h).mpr ⟨staged, hrust⟩
      rw [hcpp] at hok
      cases hok
    | error fault =>
      refine Or.inl ⟨?_, ?_⟩
      · simp only [Cpp.queryRecords, hcommitted, hcpp, Cpp.stagedPart_error hcpp]
      · simp only [Binding.queryRecords, hrust, Binding.stagedPart_error hrust]
  | ok staged =>
    obtain ⟨staged', hrust⟩ := (stagedPart_same h).mp ⟨staged, hcpp⟩
    obtain ⟨l, hl⟩ : ∃ l, Cpp.queryRecords s t c (selector q) = .ok l :=
      ⟨_, by rw [Cpp.queryRecords, hcommitted, hcpp]⟩
    obtain ⟨l', hl'⟩ := Rust.binding.queryRecords_ok.mpr (Binding.stagedPart_ok.mp ⟨staged', hrust⟩)
    refine Or.inr ⟨l, l', hl, hl', fun r => ?_⟩
    rw [Cpp.mem_query hl, Rust.binding.mem_queryRecords hl', committedAnswer_same h r]

/-- The answer of a query is consistent with what was observed before. -/
theorem consistent_query (h : Agreeable (.query c q) s t) {l : List (VersionedRecord δ)}
    (hl : Rust.binding.queryRecords s t c (selector q) = .ok l) : Consistent t l := by
  have hcollection : ∀ r ∈ l, r.collection = c := by
    intro r hr
    rcases (Rust.binding.mem_queryRecords hl r).mp hr with hanswer | ⟨⟨-, hc, -⟩, -⟩
    · exact (InMemoryState.recordAt_keyed hanswer.committed).1
    · exact hc
  refine ⟨fun r hr r' hr' hvk => ?_, fun r hr v hv => ?_⟩
  · have hkey : r.key = r'.key := by
      rw [versionKeyOf, versionKeyOf, hcollection r hr, hcollection r' hr'] at hvk
      exact recordVersionKey_inj_right hvk
    rcases (Rust.binding.mem_queryRecords hl r).mp hr with ha | ⟨hst, -⟩ <;>
      rcases (Rust.binding.mem_queryRecords hl r').mp hr' with ha' | ⟨hst', -⟩
    · have hat := ha.committed
      rw [hkey, ha'.committed] at hat
      rw [Option.some_inj.mp hat]
    · exact absurd hkey.symm (ha.uncovered r' hst')
    · exact absurd hkey (ha'.uncovered r hst)
    · rw [(t.staged _ _ (mem_stagedRecords.mp hst.1)).2,
        (t.staged _ _ (mem_stagedRecords.mp hst'.1)).2]
  · rcases (Rust.binding.mem_queryRecords hl r).mp hr with hanswer | hst
    · have hreads : Rust.binding.Reads s t (.query c q) c r.key :=
        ⟨rfl, Rust.binding.queryRecords_ok.mp ⟨l, hl⟩, r, hanswer, rfl⟩
      rw [versionKeyOf, hcollection r hr] at hv
      rw [← InMemoryState.recordVersion_of_some hanswer.committed]
      exact h.reads c r.key v hreads hv
    · rw [(t.staged _ _ (mem_stagedRecords.mp hst.1.1)).2]
      exact Option.some_inj.mp ((h.own c q r rfl hst).symm.trans hv)

/-- **A query answers the same and reads the same.** -/
theorem query_same (h : t.isOpen = true → Agreeable (.query c q) s t) :
    SameAnswer ((Cpp.query s t c q.toQuery).1.map .records)
        ((Rust.binding.query s t c q).1.map .records) ∧
      (Cpp.query s t c q.toQuery).2 = (Rust.binding.query s t c q).2 := by
  rw [Cpp.query, Binding.query, selector_toQuery]
  by_cases hopen : t.isOpen = false
  · rw [if_pos hopen, if_pos hopen]
    exact ⟨sameKind .closed, rfl⟩
  · rw [if_neg hopen, if_neg hopen]
    have hagree := h (by simpa using hopen)
    rcases queryRecords_same hagree with ⟨hcpp, hrust⟩ | ⟨l, l', hcpp, hrust, hset⟩
    · simp only [hcpp, hrust]
      exact ⟨sameKind .nonScalar, trivial⟩
    · simp only [hcpp, hrust]
      have hconsistent := consistent_query hagree hrust
      have hl : Consistent t l :=
        ⟨fun r hr r' hr' => hconsistent.unique r ((hset r).mp hr) r' ((hset r').mp hr'),
          fun r hr => hconsistent.known r ((hset r).mp hr)⟩
      exact ⟨hset, recordReads_same hl hset⟩

theorem sameAnswer_record (x : Except Fault (Option (VersionedRecord δ))) :
    SameAnswer ((x.map .record).mapError Cpp.thrown) ((x.map .record).mapError Rust.raise) := by
  cases x with
  | error fault => exact sameKind fault
  | ok record => exact rfl

theorem sameAnswer_done (x : Except Fault Unit) :
    SameAnswer (δ := δ) ((x.map fun _ => .done).mapError Cpp.thrown)
      ((x.map fun _ => .done).mapError Rust.raise) := by
  cases x with
  | error fault => exact sameKind fault
  | ok _ => exact rfl

/-- **One operation**: the same answer, the same transaction. -/
theorem exec_same (h : t.isOpen = true → Agreeable o s t) :
    SameAnswer (cpp.exec o s t).1 (rust.exec o s t).1 ∧
      (cpp.exec o s t).2 = (rust.exec o s t).2 := by
  have hget : ∀ {c k}, (¬ t.Overlays (recordVersionKey c k) → Rust.binding.Reads s t o c k) →
      InMemoryTransaction.get .first s t c k = InMemoryTransaction.get .latest s t c k :=
    fun hreads => get_same fun hopen v hover hv => (h hopen).reads _ _ v (hreads hover) hv
  cases o with
  | get c k =>
    have hsame := hget (c := c) (k := k) fun hover => ⟨rfl, rfl, hover⟩
    simp only [Cpp.storeWith, Cpp.exec, Binding.exec, Memory.exec, hsame]
    exact ⟨sameAnswer_record _, trivial⟩
  | query c q => exact query_same h
  | put c k document =>
    have hsame := hget (c := c) (k := k) fun hover => ⟨rfl, rfl, hover⟩
    simp only [Cpp.storeWith, Cpp.exec, Binding.exec, Memory.exec, put, hsame]
    exact ⟨sameAnswer_done _, trivial⟩
  | erase c k =>
    have hsame := hget (c := c) (k := k) fun hover => ⟨rfl, rfl, hover⟩
    simp only [Cpp.storeWith, Cpp.exec, Binding.exec, Memory.exec, erase, hsame]
    exact ⟨sameAnswer_done _, trivial⟩

end

/-! ## In lockstep -/

section

variable {w : World Unit (Cpp.State δ) (Cpp.Tx δ) (Operation δ (SealedQuery δ))
    (Except Error (Answer δ)) Unit}
variable {w' : World Unit (Cpp.State δ) (Cpp.Tx δ) (Operation δ (SealedQuery δ))
    (Except Rust.BackendError (Answer δ)) Unit}

/-- The transaction at a position is the same in both worlds. -/
theorem SameWorld.slot (h : SameWorld w w') (n : Nat) :
    (w.slots[n]? = none ∧ w'.slots[n]? = none) ∨
    ∃ slot slot', w.slots[n]? = some slot ∧ w'.slots[n]? = some slot' ∧ slot.tx = slot'.tx := by
  have hn := congrArg (·[n]?) h.slots
  simp only [List.getElem?_map] at hn
  cases hslot : w.slots[n]? with
  | none =>
    cases hslot' : w'.slots[n]? with
    | none => exact Or.inl ⟨rfl, rfl⟩
    | some slot' => simp [hslot, hslot'] at hn
  | some slot =>
    cases hslot' : w'.slots[n]? with
    | none => simp [hslot, hslot'] at hn
    | some slot' => exact Or.inr ⟨slot, slot', rfl, rfl, by simpa [hslot, hslot'] using hn⟩

theorem map_tx_set {ρ : Type} (slots : List (Slot Unit (Cpp.Tx δ) (Operation δ (SealedQuery δ)) ρ))
    (n : Nat) (slot : Slot Unit (Cpp.Tx δ) (Operation δ (SealedQuery δ)) ρ) :
    (slots.set n slot).map Slot.tx = (slots.map Slot.tx).set n slot.tx := by
  rw [List.map_set]

/-- Commits agree, fault by fault. -/
theorem commit_same (g : Unit) (s : Cpp.State δ) (t : Cpp.Tx δ) :
    (∃ fault, cpp.commit g s t = .error (Cpp.thrown fault) ∧
      Rust.binding.commit g s t = .error (Rust.raise fault)) ∨
    ∃ r, cpp.commit g s t = .ok r ∧ Rust.binding.commit g s t = .ok r := by
  have hcpp : cpp.commit g s t = (InMemoryTransaction.commit [] s t).mapError Cpp.thrown := rfl
  have hrust : Rust.binding.commit g s t =
      (InMemoryTransaction.commit [] s t).mapError Rust.raise := rfl
  rw [hcpp, hrust]
  cases InMemoryTransaction.commit [] s t with
  | error fault => exact Or.inl ⟨fault, rfl, rfl⟩
  | ok r => exact Or.inr ⟨r, rfl, rfl⟩

/-- **One step of both backends.** -/
theorem step_same (e : Event Unit (Operation δ (SealedQuery δ)) Unit Empty)
    (he : AgreeableStep w e) (h : SameWorld w w') :
    SameOutcome (outcome cpp w e) (outcome rust w' e) ∧
      SameWorld (step cpp w e) (step rust w' e) := by
  cases e with
  | begin i =>
    refine ⟨trivial, h.shared, ?_⟩
    simp only [step, List.map_append, h.slots]
    rfl
  | op n o =>
    rcases h.slot n with ⟨hn, hn'⟩ | ⟨slot, slot', hn, hn', htx⟩
    · simp only [outcome, step, hn, hn']
      exact ⟨trivial, h⟩
    · obtain ⟨hanswer, hsame⟩ := exec_same (he slot hn)
      simp only [outcome, step, hn, hn', World.executed, ← h.shared, ← htx]
      refine ⟨hanswer, rfl, ?_⟩
      simp only [map_tx_set, h.slots]
      rw [hsame]
  | commit n g =>
    rcases h.slot n with ⟨hn, hn'⟩ | ⟨slot, slot', hn, hn', htx⟩
    · simp only [outcome, step, hn, hn']
      exact ⟨trivial, h⟩
    · rcases commit_same g w.shared slot.tx with ⟨fault, hcpp, hrust⟩ | ⟨r, hcpp, hrust⟩
      · simp only [outcome, step, hn, hn', ← h.shared, ← htx, hcpp, hrust]
        exact ⟨sameKind fault, h⟩
      · simp only [outcome, step, hn, hn', ← h.shared, ← htx, hcpp, hrust, World.committed]
        refine ⟨trivial, rfl, ?_⟩
        simp only [map_tx_set, h.slots]
  | abort n =>
    rcases h.slot n with ⟨hn, hn'⟩ | ⟨slot, slot', hn, hn', htx⟩
    · simp only [outcome, step, hn, hn']
      exact ⟨trivial, h⟩
    · simp only [outcome, step, hn, hn']
      refine ⟨trivial, h.shared, ?_⟩
      simp only [map_tx_set, h.slots]
      rfl
  | admin a => exact a.elim

end

/-- **C++ and Rust agree** on every run whose operations are agreeable: each event has the same
    outcome, and at the end both hold the same state. -/
theorem run_agree (s : Cpp.State δ) {es : List (Event Unit (Operation δ (SealedQuery δ)) Unit Empty)}
    (hes : RunMeets cpp AgreeableStep (World.init s) es) :
    List.Forall₂ SameOutcome (outcomes cpp (World.init s) es) (outcomes rust (World.init s) es) ∧
      (run cpp (World.init s) es).shared = (run rust (World.init s) es).shared := by
  obtain ⟨houtcomes, hsame⟩ :=
    run_lockstep cpp (fun w w' e he h => step_same e he h) hes
      (⟨rfl, rfl⟩ : SameWorld (World.init s) (World.init s))
  exact ⟨houtcomes, hsame.shared⟩

/-! ## One record, read twice -/

/-- Transaction 0 reads a user, transaction 1 changes it, and transaction 0 tries to commit. -/
def conflictingRun : List (Event Unit (Operation Empty (SealedQuery Empty)) Unit Empty) :=
  readBefore ++ .op 0 readUser :: readAfter () ++ [.commit 0 ()]

/-- An actual run on which both backends agree: it ends in a refusal. -/
theorem run_agree_refused :
    List.Forall₂ SameOutcome (outcomes cpp (World.init InMemoryState.empty) conflictingRun)
        (outcomes rust (World.init InMemoryState.empty) conflictingRun) ∧
      (run cpp (World.init InMemoryState.empty) conflictingRun).shared =
        (run rust (World.init InMemoryState.empty) conflictingRun).shared := by
  refine run_agree InMemoryState.empty ?_
  refine show RunMeets _ _ _ [_, _, _, _, _, _] from
    ⟨trivial, ?_, trivial, ?_, trivial, trivial, trivial⟩
  all_goals
    intro slot hslot _
    obtain rfl := Option.some_inj.mp hslot
    exact agreeable_point (fun _ _ ho => nomatch ho) fun c k v _ hv => nomatch hv

/-- The same, but transaction 0 puts the user, and so reads it again, before it tries to commit. -/
def rereadingRun : List (Event Unit (Operation Empty (SealedQuery Empty)) Unit Empty) :=
  readBefore ++ .op 0 readUser :: putAfter () ++ [.commit 0 ()]

/-- **They disagree** where a record is read again that has moved: C++ refuses the commit with a
    version conflict, Rust accepts it. -/
theorem reread_disagrees :
    ∃ e, (outcomes cpp (World.init InMemoryState.empty) rereadingRun)[6]? = some (.refused e) ∧
      e.conflictKind = some .versionConflict ∧
      (outcomes rust (World.init InMemoryState.empty) rereadingRun)[6]? = some .committed :=
  ⟨_, rfl, rfl, rfl⟩

end StateSpec.Agreement
