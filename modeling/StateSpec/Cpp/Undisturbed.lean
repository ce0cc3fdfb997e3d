/-
  UNDISTURBED TRANSACTIONS — nobody writes what a transaction of the C++ in-memory backend has
  observed, until it commits.

  Such a transaction can still be refused.  What it observes of a record is the version of the record,
  0 where there is none; what the commit compares it with is the counter, which an erased record leaves
  behind.  So an undisturbed transaction passes validation exactly when each version was the counter
  at the time it was read: `passes_run` is an induction over the run, with "it would pass validation
  now" as the invariant, and `readsSettled_of_valid` looks back from the commit.
-/
import StateSpec.Cpp.SingleWrites
import StateSpec.Cpp.Transcripts

set_option linter.unusedSectionVars false

namespace StateSpec.Cpp

open Memory Memory.InMemoryTransaction Interleaving

variable {δ : Type} [Decimal δ]

abbrev StoreWorld (δ : Type) [Decimal δ] := TxWorld δ (Query δ)
abbrev StoreEvent (δ : Type) [Decimal δ] := TxEvent δ (Query δ) (List CollectionDescriptor)

section

variable (n : Nat)

/-- What the transaction observes for the first time has the version of its counter. -/
def ReadsSettled (w : StoreWorld δ) (e : StoreEvent δ) : Prop :=
  ∀ o slot, e = .op n o → w.slots[n]? = some slot → ∀ vk v,
    slot.tx.observation vk = none →
    (exec query o w.shared slot.tx).2.observation vk = some v → w.shared.counter vk = v

/-- Another transaction commits. -/
def OtherCommits (w : StoreWorld δ) (e : StoreEvent δ) (slot : TxSlot δ (Query δ))
    (r : State δ × Tx δ) : Prop :=
  ∃ m, m ≠ n ∧ e = .commit m () ∧ w.slots[m]? = some slot ∧ commit w.shared slot.tx = .ok r

/-- The transaction has observed the record. -/
def HasObserved (w : StoreWorld δ) (vk : Bytes) : Prop :=
  ∃ slot v, w.slots[n]? = some slot ∧ slot.tx.observation vk = some v

/-- No other transaction commits a write of what the transaction has observed. -/
def Undisturbed (w : StoreWorld δ) (e : StoreEvent δ) : Prop :=
  ∀ slot r, OtherCommits n w e slot r → ∀ vk, HasObserved n w vk → ¬ slot.tx.Overlays vk

/-- The transaction would pass validation now. -/
def Passes (w : StoreWorld δ) : Prop :=
  ∀ slot, w.slots[n]? = some slot → Valid w.shared slot.tx

end

variable {n : Nat} {w : StoreWorld δ} {e : StoreEvent δ}

/-! ## One step -/

/-- What an event does to the records while a transaction stays open: it leaves them, or it is the
    commit of another one. -/
theorem shared_step (hopen : storeDiscipline.Unspent n (step store w e)) :
    SameRecords w.shared (step store w e).shared ∨
    ∃ slot r, OtherCommits n w e slot r ∧ (step store w e).shared = r.1 := by
  rcases step_cases store w e with h | ⟨i, rfl, h⟩ | ⟨m, o, slot, rfl, hm, h⟩ |
    ⟨m, g, slot, r, rfl, hm, hc, h⟩ | ⟨m, slot, rfl, hm, h⟩ | ⟨descriptors, rfl, h⟩
  · exact Or.inl (h.symm ▸ SameRecords.refl w.shared)
  · exact Or.inl (h.symm ▸ SameRecords.refl w.shared)
  · exact Or.inl (h.symm ▸ SameRecords.refl w.shared)
  · refine Or.inr ⟨slot, r, ⟨m, hopen.ne_of_commit hm hc, rfl, hm, hc⟩, ?_⟩
    rw [h]
    rfl
  · exact Or.inl (h.symm ▸ SameRecords.refl w.shared)
  · exact Or.inl (h.symm ▸ sameRecords_register w.shared descriptors)

/-- A commit moves the counters of what it writes. -/
theorem counter_commit {s : State δ} {t : Tx δ} {r : State δ × Tx δ} (hcommit : commit s t = .ok r)
    (vk : Bytes) : r.1.counter vk = s.counter vk + if t.Overlays vk then 1 else 0 := by
  obtain ⟨-, -, _, hst, rfl⟩ := commit_ok (commit_ok_iff.mp hcommit)
  exact counter_committed t s hst vk

theorem recordAt_commit_of_not_overlays {s : State δ} {t : Tx δ} {r : State δ × Tx δ}
    (hcommit : commit s t = .ok r) {c : CollectionName} {k : Key}
    (h : ¬ t.Overlays (recordVersionKey c k)) : r.1.recordAt c k = s.recordAt c k := by
  have hcounter := counter_commit hcommit (recordVersionKey c k)
  rw [if_neg h, Nat.add_zero] at hcounter
  exact (later_commit (commit_ok_iff.mp hcommit)).record c k hcounter.symm

/-- A transaction that appears has observed nothing. -/
theorem slot_appears {slot : TxSlot δ (Query δ)} (hn : w.slots[n]? = none)
    (hn' : (step store w e).slots[n]? = some slot) : slot = ⟨(), begin, []⟩ := by
  have hset : ∀ {m : Nat} {new : TxSlot δ (Query δ)},
      (w.slots.set m new)[n]? = some slot → slot = ⟨(), begin, []⟩ := by
    intro m new h
    rw [List.getElem?_eq_none_iff] at hn
    rw [List.getElem?_eq_none (by rwa [List.length_set])] at h
    cases h
  rcases step_cases store w e with h | ⟨i, rfl, h⟩ | ⟨m, o, other, rfl, hm, h⟩ |
    ⟨m, g, other, r, rfl, hm, hc, h⟩ | ⟨m, other, rfl, hm, h⟩ | ⟨descriptors, rfl, h⟩ <;>
    rw [h] at hn'
  · exact nomatch hn.symm.trans hn'
  · rw [List.getElem?_eq_none_iff] at hn
    rw [List.getElem?_append_right hn] at hn'
    exact List.mem_singleton.mp (List.mem_of_getElem? hn')
  · exact hset hn'
  · exact hset hn'
  · exact hset hn'
  · exact nomatch hn.symm.trans hn'

/-- **One step of a run** in which nobody disturbs the transaction. -/
theorem passes_step (hreads : ReadsSettled n w e) (hundisturbed : Undisturbed n w e)
    (hopen : storeDiscipline.Unspent n (step store w e)) (h : Passes n w) :
    Passes n (step store w e) := by
  intro slot' hn'
  cases hn : w.slots[n]? with
  | none =>
    obtain rfl := slot_appears hn hn'
    intro vk v hv
    simp [observation, begin] at hv
  | some slot =>
    rcases storeDiscipline.step_of_live hn hn' (hopen slot' hn') with rfl | ⟨o, rfl, htx⟩
    · intro vk v hv
      rw [← h slot' hn vk v hv]
      rcases shared_step hopen with hsame | ⟨other, r, hother, hshared⟩
      · exact hsame.counters vk
      · have hover := hundisturbed other r hother vk ⟨slot', v, hn, hv⟩
        obtain ⟨m, -, -, -, hc⟩ := hother
        rw [hshared, counter_commit hc, if_neg hover, Nat.add_zero]
    · have hshared : (step store w (.op n o)).shared = w.shared := by
        simp only [step, hn]
        rfl
      rw [hshared, htx]
      intro vk v hv
      cases hbefore : slot.tx.observation vk with
      | none => exact hreads o slot rfl hn vk v hbefore hv
      | some v' =>
        have hkept : (exec query o w.shared slot.tx).2.observation vk = some v' :=
          observation_exec lawful_query o w.shared slot.tx hbefore
        obtain rfl := Option.some_inj.mp (hkept.symm.trans hv)
        exact h slot hn vk v' hbefore

/-! ## Whole runs -/

variable {es : List (StoreEvent δ)}

/-- **A run in which nobody disturbs the transaction**, and everything it observes is settled. -/
theorem passes_run (hreads : RunMeets store (ReadsSettled n) w es)
    (hundisturbed : RunMeets store (Undisturbed n) w es)
    (hopen : storeDiscipline.Unspent n (run store w es)) (h : Passes n w) :
    Passes n (run store w es) :=
  Discipline.Unspent.run_invariant (D := storeDiscipline)
    (fun _ _ hstep hopen h => passes_step hstep.1 hstep.2 hopen h)
    (runMeets_and store hreads hundisturbed) hopen h

/-- **Looking back from a commit**: everything the transaction has observed was settled. -/
theorem readsSettled_of_valid {s₀ : State δ} (hinv : storeDiscipline.Inv s₀ w)
    {slot : TxSlot δ (Query δ)} (hn : (run store w es).slots[n]? = some slot)
    (hopen : slot.tx.isOpen = true) (hvalid : Valid (run store w es).shared slot.tx) :
    RunMeets store (ReadsSettled n) w es := by
  rw [runMeets_iff]
  rintro before e after rfl o mine rfl hmine vk v hnone hv
  have hbefore := run_invariant store (fun w e => storeDiscipline.inv_step w e)
    (allowed_all w before) hinv
  generalize hw : run store w before = w' at hmine hv hbefore
  rw [run_append, hw, run_cons] at hn hvalid
  have hlt : n < w'.slots.length := (List.getElem?_eq_some_iff.mp hmine).1
  have hafter : (step store w' (.op n o)).slots[n]? = some ⟨mine.init,
      (exec query o w'.shared mine.tx).2,
      mine.script ++ [(o, (exec query o w'.shared mine.tx).1)]⟩ := by
    simp only [step, hmine, World.executed, List.getElem?_set_self hlt]
    rfl
  -- it is valid at the end, and the counter has only moved on from what was observed
  obtain ⟨hlive, hend⟩ := storeDiscipline.valid_back (allowed_all _ after)
    (storeDiscipline.inv_step w' _ (allowed_all w' [_]).1 hbefore) hafter hn hopen
    (Later.refl _) hvalid
  have hcurrent := hend vk v hv
  have hlater : Later w'.shared (run store (step store w' (.op n o)) after).shared :=
    storeDiscipline.run_later w' (.op n o :: after)
  have hmove := hlater.counter vk
  rw [hcurrent] at hmove
  have hmine' := hbefore.slots mine (List.mem_of_getElem? hmine) (storeDiscipline.exec_live hlive)
  exact Nat.le_antisymm hmove (good_exec lawful_query o w'.shared mine.tx hmine'.1 vk v hv)

end StateSpec.Cpp
