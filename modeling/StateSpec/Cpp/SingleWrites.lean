/-
  SINGLE WRITES — transactions of the C++ in-memory backend that read any number of records and then
  store at most one.

  Until it stores something, a transaction sees the committed records (`ReadOnly`); after that it sees
  its own record at that place (`Written`).  The two say everything a commit depends on: what it
  leaves at each place (`sameRecords_commit`, `recordAt_commit_written`), and whether what was
  read is still the case (`current_of_settled`), which it is where no record has been erased
  (`Settled`).
-/
import StateSpec.Cpp.Clients

set_option linter.unusedSectionVars false

namespace StateSpec.Cpp

open Memory Memory.InMemoryTransaction Interleaving

variable {δ : Type} [Decimal δ]

/-- `tx.get`. -/
def getTx (collection : CollectionName) (key : Key) : Script δ (Option (VersionedRecord δ)) :=
  .get collection key .ret

/-- `tx.put`. -/
def putTx (collection : CollectionName) (key : Key) (document : Json δ) : Script δ Unit :=
  .put collection key document (.ret ())

/-- A place of a record. -/
abbrev Place := CollectionName × Key

def Place.versionKey (place : Place) : Bytes := recordVersionKey place.1 place.2

/-- What has been observed is what is there, at some of the places. -/
def ObservedAt (s : State δ) (t : Tx δ) (places : List Place) : Prop :=
  ∀ vk v, t.observation vk = some v →
    ∃ place ∈ places, vk = place.versionKey ∧ v = s.recordVersion place.1 place.2

/-- **The transaction has read some places, and nothing else.** -/
structure ReadOnly (s : State δ) (t : Tx δ) (places : List Place) : Prop where
  isOpen : t.isOpen = true
  puts : ∀ vk : Bytes, t.puts[vk]? = none
  erases : ∀ vk : Bytes, vk ∉ t.erases
  observed : ObservedAt s t places

/-- **The transaction has stored one record**, and has read some places. -/
structure Written (s : State δ) (t : Tx δ) (c : CollectionName) (k : Key) (document : Json δ)
    (places : List Place) : Prop where
  isOpen : t.isOpen = true
  puts : ∀ vk : Bytes, t.puts[vk]? =
    if vk = recordVersionKey c k then some (stagedRecord c k document) else none
  erases : ∀ vk : Bytes, vk ∉ t.erases
  observed : ObservedAt s t places

variable {s : State δ} {t : Tx δ} {places : List Place} {c : CollectionName} {k : Key}
  {document : Json δ}

theorem readOnly_begin (s : State δ) : ReadOnly s begin [] where
  isOpen := rfl
  puts vk := by simp [begin]
  erases vk := by simp [begin]
  observed vk v h := by simp [begin, observation] at h

theorem ReadOnly.not_overlays (h : ReadOnly s t places) (vk : Bytes) : ¬ t.Overlays vk := by
  rintro (herase | hput)
  · exact h.erases vk herase
  · rw [Std.ExtTreeMap.mem_iff_isSome_getElem?, h.puts vk] at hput
    cases hput

theorem ObservedAt.recordRead (h : ObservedAt s t places) (c : CollectionName) (k : Key) :
    ObservedAt s (t.recordRead .first (recordVersionKey c k) (s.recordVersion c k))
      ((c, k) :: places) := by
  intro vk v hv
  rcases observation_recordRead hv with ⟨rfl, rfl⟩ | hold
  · exact ⟨(c, k), List.mem_cons_self, rfl, rfl⟩
  · obtain ⟨place, hplace, hsame⟩ := h vk v hold
    exact ⟨place, List.mem_cons_of_mem _ hplace, hsame⟩

/-- What `get` does to a transaction that has only read. -/
theorem ReadOnly.get (h : ReadOnly s t places) (c : CollectionName) (k : Key) :
    (get .first s t c k).1 = .ok (s.recordAt c k) ∧
      ReadOnly s (get .first s t c k).2 ((c, k) :: places) := by
  rw [get_of_not_overlays .first s h.isOpen (h.not_overlays _)]
  exact ⟨rfl, h.isOpen, h.puts, h.erases, h.observed.recordRead c k⟩

/-- **A transaction that has only read sees the committed records.** -/
theorem eval_getTx (h : ReadOnly s t places) (c : CollectionName) (k : Key) :
    ∃ t', (getTx c k).eval s t = (.ok (s.recordAt c k), t') ∧ ReadOnly s t' ((c, k) :: places) := by
  refine ⟨(get .first s t c k).2, ?_, (h.get c k).2⟩
  rw [getTx, Script.eval, (h.get c k).1]
  rfl

/-- **The first record that is stored.** -/
theorem eval_putTx (h : ReadOnly s t places) (c : CollectionName) (k : Key) (document : Json δ) :
    ∃ t', (putTx c k document).eval s t = (.ok (), t') ∧
      Written s t' c k document ((c, k) :: places) := by
  obtain ⟨-, hread⟩ := h.get c k
  rcases put_cases .first s t c k document with ⟨hclosed, -⟩ | ⟨-, hmem, hput⟩
  · rw [h.isOpen] at hclosed
    cases hclosed
  refine ⟨(get .first s t c k).2.stage c k document hmem, by rw [putTx, Script.eval, hput]; rfl,
    hread.isOpen, fun vk => ?_, fun vk => ?_, hread.observed⟩
  · show ((get .first s t c k).2.puts.insert _ _)[vk]? = _
    rw [OrderedMap.find_insert, hread.puts vk]
  · intro hvk
    exact hread.erases vk (Std.ExtTreeSet.mem_erase.mp hvk).2

/-- What has been stored is seen. -/
theorem eval_getTx_written (h : Written s t c k document places) :
    (getTx c k).eval s t = (.ok (some (stagedRecord c k document)), t) := by
  have hput : t.puts[recordVersionKey c k]? = some (stagedRecord c k document) := by
    rw [h.puts, if_pos rfl]
  have hover : t.Overlays (recordVersionKey c k) :=
    Or.inr (Std.ExtTreeMap.mem_iff_isSome_getElem?.mpr (by rw [hput]; rfl))
  rw [getTx, Script.eval, get_of_overlays .first s h.isOpen hover, overlay,
    if_neg (h.erases _), hput]
  rfl

/-! ## Commits -/

/-- The transaction has stored and erased nothing. -/
def NothingStaged (t : Tx δ) : Prop := (∀ vk : Bytes, t.puts[vk]? = none) ∧ ∀ vk : Bytes, vk ∉ t.erases

/-- **The same records**, and the same counters. -/
structure SameRecords (s s' : State δ) : Prop where
  records : ∀ c k, s'.recordAt c k = s.recordAt c k
  counters : ∀ vk, s'.counter vk = s.counter vk

theorem SameRecords.refl (s : State δ) : SameRecords s s := ⟨fun _ _ => rfl, fun _ => rfl⟩

theorem sameRecords_register (s : State δ) (descriptors : List CollectionDescriptor) :
    SameRecords s (register descriptors s) := by
  obtain ⟨hrecords, hversions⟩ := register_frame s descriptors
  refine ⟨fun c k => ?_, fun vk => ?_⟩
  · rw [InMemoryState.recordAt, InMemoryState.recordAt, hrecords]
  · rw [InMemoryState.counter, InMemoryState.counter, hversions]

theorem NothingStaged.not_overlays (h : NothingStaged t) (vk : Bytes) : ¬ t.Overlays vk := by
  rintro (herase | hput)
  · exact h.2 vk herase
  · rw [Std.ExtTreeMap.mem_iff_isSome_getElem?, h.1] at hput
    cases hput

theorem sameRecords_commit {r : State δ × Tx δ} (h : NothingStaged t)
    (hcommit : commit s t = .ok r) : SameRecords s r.1 := by
  obtain ⟨-, -, _, hst, rfl⟩ := commit_ok (commit_ok_iff.mp hcommit)
  refine ⟨fun c k => ?_, fun vk => ?_⟩
  · rcases recordAt_committed t s hst c k with ⟨record, hput, -⟩ | ⟨herase, -⟩ | ⟨-, -, hsame⟩
    · rw [Puts, h.1] at hput
      cases hput.1
    · exact absurd herase.1 (h.2 _)
    · exact hsame
  · rw [counter_committed, if_neg (h.not_overlays vk), Nat.add_zero]

/-- A commit that stores one record counts it. -/
theorem counter_commit_written {r : State δ × Tx δ} (h : Written s t c k document places)
    (hcommit : commit s t = .ok r) (vk : Bytes) :
    r.1.counter vk = s.counter vk + if vk = recordVersionKey c k then 1 else 0 := by
  obtain ⟨-, -, _, hst, rfl⟩ := commit_ok (commit_ok_iff.mp hcommit)
  have hover : t.Overlays vk ↔ vk = recordVersionKey c k := by
    constructor
    · rintro (herase | hput)
      · exact absurd herase (h.erases vk)
      · rw [Std.ExtTreeMap.mem_iff_isSome_getElem?, h.puts vk] at hput
        by_contra hne
        rw [if_neg hne] at hput
        cases hput
    · rintro rfl
      refine Or.inr (Std.ExtTreeMap.mem_iff_isSome_getElem?.mpr ?_)
      rw [h.puts, if_pos rfl]
      rfl
  rw [counter_committed]
  simp only [hover]

/-- **A commit leaves the record where it was stored**, and everything else as it was. -/
theorem recordAt_commit_written {r : State δ × Tx δ} (h : Written s t c k document places)
    (hcommit : commit s t = .ok r) (c' : CollectionName) (k' : Key) :
    r.1.recordAt c' k' = if c' = c ∧ k' = k then
      some { stagedRecord c k document with version := r.1.counter (recordVersionKey c k) }
      else s.recordAt c' k' := by
  obtain ⟨-, -, _, hst, rfl⟩ := commit_ok (commit_ok_iff.mp hcommit)
  have hputs : ∀ record, t.Puts c' k' record ↔
      c' = c ∧ k' = k ∧ record = stagedRecord c k document := by
    intro record
    rw [Puts, h.puts]
    constructor
    · rintro ⟨hput, hc, hk⟩
      by_cases hvk : recordVersionKey c' k' = recordVersionKey c k
      · rw [if_pos hvk] at hput
        obtain rfl := Option.some_inj.mp hput
        exact ⟨hc.symm, hk.symm, rfl⟩
      · rw [if_neg hvk] at hput
        cases hput
    · rintro ⟨rfl, rfl, rfl⟩
      exact ⟨if_pos rfl, rfl, rfl⟩
  rcases recordAt_committed t s hst c' k' with ⟨record, hput, hrecord⟩ | ⟨herase, -⟩ | ⟨hno, -, hsame⟩
  · obtain ⟨rfl, rfl, rfl⟩ := (hputs record).mp hput
    rw [if_pos ⟨rfl, rfl⟩]
    exact hrecord
  · exact absurd herase.1 (h.erases _)
  · rw [if_neg]
    · exact hsame
    · rintro ⟨hc, hk⟩
      exact hno _ ((hputs _).mpr ⟨hc, hk, rfl⟩)

/-! ## Runs of clients that make no query, or store nothing -/

/-- The script stores and erases nothing. -/
def Script.Reads {ρ : Type} : Script δ ρ → Prop
  | .ret _ => True
  | .throw _ => True
  | .get _ _ next => ∀ r, (next r).Reads
  | .query _ _ next => ∀ l, (next l).Reads
  | .put _ _ _ _ => False
  | .erase _ _ _ => False

theorem Script.reads_do {α β : Type} {p : Script δ α} {f : α → Script δ β} (hp : p.Reads)
    (hf : ∀ a, (f a).Reads) : (p >>= f).Reads := by
  show (p.bind f).Reads
  induction p with
  | ret a => exact hf a
  | throw e => trivial
  | get c k next ih => exact fun r => ih r (hp r)
  | query c q next ih => exact fun l => ih l (hp l)
  | put c k document next ih => exact hp.elim
  | erase c k next ih => exact hp.elim

theorem Script.reads_ofExcept {α : Type} (x : Except Error α) :
    (Script.ofExcept x : Script δ α).Reads := by
  cases x <;> trivial

theorem nothingStaged_abort : NothingStaged (abort t) :=
  ⟨fun vk => by simp [abort, begin], fun vk => by simp [abort, begin]⟩

theorem reads_call {ρ : Type} {client : Client δ ρ} (hscript : client.script.Reads)
    (htx : NothingStaged client.tx) (s : State δ) :
    (client.call s).script.Reads ∧ NothingStaged (client.call s).tx := by
  obtain ⟨tx, script⟩ := client
  rw [Client.call]
  cases script with
  | ret a => exact ⟨trivial, htx⟩
  | throw e => exact ⟨trivial, htx⟩
  | get c k next =>
    obtain ⟨-, hputs, herases⟩ := get_frame .first s tx c k
    refine ⟨?_, fun vk => ?_, fun vk => ?_⟩
    · simp only
      split
      · exact hscript _
      · trivial
    · exact (congrArg (·[vk]?) hputs).trans (htx.1 vk)
    · exact fun hvk => htx.2 vk (herases ▸ hvk)
  | query c q next =>
    refine ⟨?_, ?_⟩
    · simp only
      split
      · exact hscript _
      · trivial
    · show NothingStaged (query s tx c q).2
      rw [query]
      split
      · exact htx
      · split
        · exact htx
        · obtain ⟨-, hputs, herases⟩ := tx.recordReads_frame .first ‹_›
          exact ⟨fun vk => (congrArg (·[vk]?) hputs).trans (htx.1 vk),
            fun vk hvk => htx.2 vk (herases ▸ hvk)⟩
  | put c k document next => exact hscript.elim
  | erase c k next => exact hscript.elim

/-! ## Scripts that look for records before they store -/

section

variable {ρ α β : Type} (bad : Error → Prop) (absent : CollectionName → Key → Error → Prop)

/-- The script throws no bad error by itself, and makes no query. -/
def Script.Quiet : Script δ ρ → Prop
  | .ret _ => True
  | .throw e => ¬ bad e
  | .get _ _ next => ∀ r, (next r).Quiet
  | .query _ _ _ => False
  | .put _ _ _ next => next.Quiet
  | .erase _ _ next => next.Quiet

/-- **The script throws a bad error only where it has just found a record absent**, and never after it
    has stored something. -/
def Script.Checks : Script δ ρ → Prop
  | .ret _ => True
  | .throw e => ¬ bad e
  | .get c k next => ∀ r, (next r).Checks ∨ (r = none ∧ ∃ e, next r = .throw e ∧ absent c k e)
  | .query _ _ _ => False
  | .put _ _ _ next => next.Quiet bad
  | .erase _ _ next => next.Quiet bad

variable {bad absent}

theorem Script.checks_of_quiet {p : Script δ ρ} (h : p.Quiet bad) : p.Checks bad absent := by
  induction p with
  | ret a => trivial
  | throw e => exact h
  | get c k next ih => exact fun r => Or.inl (ih r (h r))
  | query c q next ih => exact h.elim
  | put c k document next ih => exact h
  | erase c k next ih => exact h

theorem Script.quiet_do {p : Script δ α} {f : α → Script δ β} (hp : p.Quiet bad)
    (hf : ∀ a, (f a).Quiet bad) : (p >>= f).Quiet bad := by
  show (p.bind f).Quiet bad
  induction p with
  | ret a => exact hf a
  | throw e => exact hp
  | get c k next ih => exact fun r => ih r (hp r)
  | query c q next ih => exact hp.elim
  | put c k document next ih => exact ih hp
  | erase c k next ih => exact ih hp

/-- A script that only reads, and then one that checks. -/
theorem Script.checks_do {p : Script δ α} {f : α → Script δ β} (hreads : p.Reads)
    (hp : p.Checks bad absent) (hf : ∀ a, (f a).Checks bad absent) :
    (p >>= f).Checks bad absent := by
  show (p.bind f).Checks bad absent
  induction p with
  | ret a => exact hf a
  | throw e => exact hp
  | get c k next ih =>
    intro r
    rcases hp r with hnext | ⟨hnone, e, hthrow, habsent⟩
    · exact Or.inl (ih r (hreads r) hnext)
    · exact Or.inr ⟨hnone, e, congrArg (Script.bind · f) hthrow, habsent⟩
  | query c q next ih => exact hp.elim
  | put c k document next ih => exact hreads.elim
  | erase c k next ih => exact hreads.elim

/-- A quiet client stays quiet. -/
theorem quiet_call {client : Client δ ρ} (hfault : ∀ fault, ¬ bad (thrown fault))
    (h : client.script.Quiet bad) (s : State δ) : (client.call s).script.Quiet bad := by
  obtain ⟨tx, script⟩ := client
  rw [Client.call]
  cases script with
  | ret a => trivial
  | throw e => exact h
  | get c k next =>
    simp only
    split
    · exact h _
    · exact hfault _
  | query c q next => exact h.elim
  | put c k document next =>
    simp only
    split
    · exact h
    · exact hfault _
  | erase c k next =>
    simp only
    split
    · exact h
    · exact hfault _

theorem call_get (s : State δ) (tx : Tx δ) (c : CollectionName) (k : Key)
    (next : Option (VersionedRecord δ) → Script δ ρ) :
    Client.call s ⟨tx, .get c k next⟩ = ⟨(get .first s tx c k).2,
      match (get .first s tx c k).1 with
      | .ok record => next record
      | .error fault => .throw (thrown fault)⟩ := rfl

/-- **One call of a script that checks**: it goes on checking, it has begun to store, or it has found
    a record absent that is absent. -/
theorem checks_call {client : Client δ ρ} (hfault : ∀ fault, ¬ bad (thrown fault))
    (h : client.script.Checks bad absent) (htx : NothingStaged client.tx) (s : State δ) :
    ((client.call s).script.Checks bad absent ∧ NothingStaged (client.call s).tx) ∨
    (client.call s).script.Quiet bad ∨
    ∃ c k e, (client.call s).script = .throw e ∧ absent c k e ∧ s.recordAt c k = none := by
  obtain ⟨tx, script⟩ := client
  cases script with
  | ret a => exact Or.inl ⟨trivial, htx⟩
  | throw e => exact Or.inl ⟨h, htx⟩
  | get c k next =>
    have hover : ¬ tx.Overlays (recordVersionKey c k) := htx.not_overlays _
    rw [call_get]
    rcases get_cases .first s tx c k with ⟨-, hget⟩ | ⟨-, hoverlays, -⟩ | ⟨-, -, hget⟩
    · rw [hget]
      exact Or.inr (Or.inl (hfault _))
    · exact absurd hoverlays hover
    · rw [hget]
      rcases h (s.recordAt c k) with hnext | ⟨hnone, e, hthrow, habsent⟩
      · exact Or.inl ⟨hnext, htx⟩
      · exact Or.inr (Or.inr ⟨c, k, e, hthrow, habsent, hnone⟩)
  | query c q next => exact h.elim
  | put c k document next =>
    refine Or.inr (Or.inl ?_)
    rw [Client.call]
    simp only
    split
    · exact h
    · exact hfault _
  | erase c k next =>
    refine Or.inr (Or.inl ?_)
    rw [Client.call]
    simp only
    split
    · exact h
    · exact hfault _

end

section

variable {ι ρ γ α : Type} {program : ι → Script δ ρ} {admin : α → State δ → State δ}

theorem nothingStaged_begin : NothingStaged (begin : Tx δ) :=
  ⟨fun vk => by simp [begin], fun vk => by simp [begin]⟩

/-- **What a step does to one client**: it is opened, it makes a call, or its transaction ends. -/
theorem client_cases {w : ClientWorld δ ι ρ γ} {e : ClientEvent ι γ α} {n : Nat}
    {slot' : Slot ι (Client δ ρ) Unit Unit}
    (hn' : (step (clients γ program admin) w e).slots[n]? = some slot') :
    (w.slots[n]? = none ∧ slot'.tx = ⟨begin, program slot'.init⟩) ∨
    ∃ slot, w.slots[n]? = some slot ∧ slot'.init = slot.init ∧
      (slot'.tx = slot.tx ∨ slot'.tx = slot.tx.call w.shared ∨
        (slot'.tx.script = slot.tx.script ∧ NothingStaged slot'.tx.tx)) := by
  cases hn : w.slots[n]? with
  | none =>
    refine Or.inl ⟨rfl, ?_⟩
    have hset : ∀ {m : Nat} {new : Slot ι (Client δ ρ) Unit Unit},
        (w.slots.set m new)[n]? = some slot' → slot'.tx = ⟨begin, program slot'.init⟩ := by
      intro m new h
      rw [List.getElem?_eq_none_iff] at hn
      rw [List.getElem?_eq_none (by rwa [List.length_set])] at h
      cases h
    rcases step_cases (clients γ program admin) w e with h | ⟨i, rfl, h⟩ | ⟨_, _, _, rfl, _, h⟩ |
      ⟨_, _, _, _, rfl, _, _, h⟩ | ⟨_, _, rfl, _, h⟩ | ⟨_, rfl, h⟩ <;> rw [h] at hn'
    · rw [hn] at hn'
      cases hn'
    · have hmem := List.mem_of_getElem? hn'
      rw [List.getElem?_eq_none_iff] at hn
      rw [List.getElem?_append_right hn] at hn'
      obtain rfl := List.mem_singleton.mp (List.mem_of_getElem? hn')
      rfl
    · exact hset hn'
    · exact hset hn'
    · exact hset hn'
    · exact absurd (hn.symm.trans hn') (by simp)
  | some slot =>
    refine Or.inr ⟨slot, rfl, ?_⟩
    rcases slot_step (clients γ program admin) hn e with h | ⟨o, -, h⟩ | ⟨g, r, -, hc, h⟩ | ⟨-, h⟩ <;>
      obtain rfl := Option.some_inj.mp (h.symm.trans hn')
    · exact ⟨rfl, Or.inl rfl⟩
    · exact ⟨rfl, Or.inr (Or.inl rfl)⟩
    · -- a commit closes the transaction, and nothing is left of the script but its value
      obtain ⟨-, hok⟩ := commit_clients program admin hc
      obtain ⟨-, -, _, _, hr⟩ := commit_ok (commit_ok_iff.mp hok)
      refine ⟨rfl, Or.inr (Or.inr ⟨script_of_commit program admin hc, ?_⟩)⟩
      show NothingStaged r.2.tx
      rw [(Prod.mk.inj hr).2]
      exact nothingStaged_abort (t := slot.tx.tx)
    · exact ⟨rfl, Or.inr (Or.inr ⟨rfl, nothingStaged_abort (t := slot.tx.tx)⟩)⟩

/-- **Induction over what happens to a client** in a run. -/
theorem run_client {P : ι → Client δ ρ → Prop} (hbegin : ∀ i, P i ⟨begin, program i⟩)
    (hcall : ∀ i client s, P i client → P i (client.call s))
    (hend : ∀ i client client', P i client → client'.script = client.script →
      NothingStaged client'.tx → P i client') {s₀ : State δ} (es : List (ClientEvent ι γ α)) :
    ∀ (n : Nat) (slot : Slot ι (Client δ ρ) Unit Unit),
      (run (clients γ program admin) (World.init s₀) es).slots[n]? = some slot →
        P slot.init slot.tx := by
  refine run_invariant (clients γ program admin)
    (P := fun w => ∀ (n : Nat) (slot : Slot ι (Client δ ρ) Unit Unit),
      w.slots[n]? = some slot → P slot.init slot.tx)
    (C := fun _ _ => True) ?_ (runMeets_of_forall _ (fun _ _ => trivial) _ es) (by simp [World.init])
  intro w e _ hw n slot' hn'
  rcases client_cases hn' with ⟨-, htx⟩ | ⟨slot, hn, hinit, htx | htx | ⟨hscript, htx⟩⟩
  · rw [htx]
    exact hbegin _
  · rw [hinit, htx]
    exact hw n slot hn
  · rw [hinit, htx]
    exact hcall _ _ _ (hw n slot hn)
  · rw [hinit]
    exact hend _ _ _ (hw n slot hn) hscript htx

/-- A client whose script only reads has stored nothing, all through a run. -/
theorem run_reads {s₀ : State δ} (es : List (ClientEvent ι γ α)) {n : Nat}
    {slot : Slot ι (Client δ ρ) Unit Unit}
    (hn : (run (clients γ program admin) (World.init s₀) es).slots[n]? = some slot)
    (hreads : (program slot.init).Reads) : NothingStaged slot.tx.tx :=
  (run_client (P := fun i client => (program i).Reads →
      client.script.Reads ∧ NothingStaged client.tx)
    (fun _ h => ⟨h, nothingStaged_begin⟩)
    (fun _ _ s h hreads => reads_call (h hreads).1 (h hreads).2 s)
    (fun _ _ _ h hscript htx hreads => ⟨hscript ▸ (h hreads).1, htx⟩) es n slot hn hreads).2

/-- **What one step of a run does** to the records: nothing, an administrative call, or a whole
    transaction, of the client that commits. -/
theorem step_transactions (hadmin : ∀ s a, Later s (admin a s))
    (hprogram : ∀ request, (program request).Point ∨ (program request).Reads) {s₀ : State δ}
    (es : List (ClientEvent ι γ α)) (e : ClientEvent ι γ α) {w : ClientWorld δ ι ρ γ}
    (hw : run (clients γ program admin) (World.init s₀) es = w) :
    SameRecords w.shared (step (clients γ program admin) w e).shared ∨
    (∃ a, e = .admin a ∧ (step (clients γ program admin) w e).shared = admin a w.shared) ∨
    ∃ n g slot a, e = .commit n g ∧ w.slots[n]? = some slot ∧ slot.tx.script = .ret a ∧
      (program slot.init).Point ∧ (program slot.init).transact w.shared =
        .ok (a, (step (clients γ program admin) w e).shared) := by
  have hreads := @run_reads δ _ ι ρ γ α program admin s₀ es
  rw [hw] at hreads
  rcases step_cases (clients γ program admin) w e with h | ⟨i, rfl, h⟩ | ⟨n, o, slot, rfl, hn, h⟩ |
    ⟨n, g, slot, r, rfl, hn, hc, h⟩ | ⟨n, slot, rfl, hn, h⟩ | ⟨a, rfl, h⟩ <;> rw [h]
  · exact Or.inl (SameRecords.refl _)
  · exact Or.inl (SameRecords.refl _)
  · exact Or.inl (SameRecords.refl _)
  · rcases hprogram slot.init with hpoint | honly
    · obtain ⟨a, ha, htransact⟩ := transact_of_commit hadmin hw hn hpoint hc
      exact Or.inr (Or.inr ⟨n, g, slot, a, rfl, hn, ha, hpoint, htransact⟩)
    · obtain ⟨-, hok⟩ := commit_clients program admin hc
      exact Or.inl (sameRecords_commit (hreads hn honly) hok)
  · exact Or.inl (SameRecords.refl _)
  · exact Or.inr (Or.inl ⟨a, rfl, rfl⟩)

end

end StateSpec.Cpp
