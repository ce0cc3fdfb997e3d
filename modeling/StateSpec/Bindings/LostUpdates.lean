/-
  LOST UPDATES in the Rust, Go and Java in-memory backends.

  A read of these bindings replaces the version observed before.  If another transaction commits in
  between, the second read — and every `put` and `erase` reads first — observes the NEW version, the
  commit validates that one, and what the transaction read first is silently overwritten
  (`lost_update`).

  So the bindings obey optimistic concurrency control exactly as long as no transaction reads a
  record again that has moved on since it was observed: `FreshReads`, a condition on each operation.
  In a run whose operations all meet it, nothing is lost (`no_lost_update`): a transaction one of
  whose reads is out of date at the commit is refused with a version conflict.
-/
import StateSpec.Lib.Optimistic
import StateSpec.Bindings.Backend

set_option linter.unusedSectionVars false

namespace StateSpec

open Memory Memory.InMemoryTransaction Interleaving

variable {δ : Type} [Decimal δ]
variable {κ : Type} [Ord κ] [Std.TransOrd κ] [Std.LawfulEqOrd κ] [DecidableEq κ] [EntryKey κ]

namespace Memory.Binding

variable {Q γ ε : Type} (B : Binding δ Q κ γ ε)

/-- The events, slots and worlds of a binding. -/
abbrev TxEvent (_ : Binding δ Q κ γ ε) := Event Unit (Operation δ Q) γ Empty
abbrev TxSlot (_ : Binding δ Q κ γ ε) :=
  Slot Unit (InMemoryTransaction δ) (Operation δ Q) (Except ε (Answer δ))
abbrev TxWorld (_ : Binding δ Q κ γ ε) :=
  World Unit (InMemoryState δ κ) (InMemoryTransaction δ) (Operation δ Q) (Except ε (Answer δ)) γ

/-! ## The condition -/

/-- What the operation reads has not moved on since the transaction observed it. -/
def Fresh (o : Operation δ Q) (s : InMemoryState δ κ) (t : InMemoryTransaction δ) : Prop :=
  ∀ c k v, B.Reads s t o c k → t.observation (recordVersionKey c k) = some v →
    s.recordVersion c k ≤ v

/-- No open transaction reads a record again that has moved on since it was observed. -/
def FreshReads (w : B.TxWorld) : B.TxEvent → Prop
  | .op n o => ∀ slot, w.slots[n]? = some slot → slot.tx.isOpen = true → B.Fresh o w.shared slot.tx
  | _ => True

/-! ## The discipline -/

/-- Under the condition an observation is replaced by an older one at most, so that what is valid
    after an operation was valid before. -/
theorem valid_exec {o : Operation δ Q} {s s' : InMemoryState δ κ} {t : InMemoryTransaction δ}
    (hfresh : B.Fresh o s t) (hs : Later s s') (hgood : Good s t)
    (hvalid : Valid s' (B.exec o s t).2) : Valid s' t := by
  intro vk v hv
  obtain ⟨v', hle, hv'⟩ : ∃ v' ≤ v, (B.exec o s t).2.observation vk = some v' := by
    rcases B.observation_exec (o := o) (s := s) hv with h | ⟨c, k, rfl, hreads, h⟩ | h
    · exact ⟨v, Nat.le_refl v, h⟩
    · exact ⟨_, hfresh c k v hreads hv, h⟩
    · exact ⟨0, Nat.zero_le v, h⟩
  have hnow : s'.counter vk = v' := hvalid vk v' hv'
  have hbefore : v ≤ s.counter vk := hgood vk v hv
  exact Nat.le_antisymm (hnow ▸ hle) (hbefore.trans (hs.counter vk))

/-- **The bindings obey optimistic concurrency control**, as long as reads are fresh. -/
def discipline : Discipline B.txStore where
  live t := t.isOpen = true
  later := Later
  good := Good
  valid := Valid
  allowed := B.Fresh
  later_refl := Later.refl
  later_trans := Later.trans
  begin_good s _ := good_begin s
  good_later := good_later
  exec_live {o s t} h := (B.isOpen_exec o s t).symm.trans h
  exec_good {o s t} _ _ hgood := B.good_exec o s t hgood
  exec_valid hfresh hs _ hgood hvalid := B.valid_exec hfresh hs hgood hvalid
  commit_live h := (commit_ok (B.commit_ok_iff.mp h)).1
  commit_valid h := valid_of_commit (B.commit_ok_iff.mp h)
  commit_spent h := by
    obtain ⟨-, -, _, _, rfl⟩ := commit_ok (B.commit_ok_iff.mp h)
    simp [abort]
  commit_later h := later_commit (B.commit_ok_iff.mp h)
  abort_spent t := by simp [abort]
  admin_later _ a := a.elim

theorem allowed_of_fresh {w : B.TxWorld} {es : List B.TxEvent}
    (h : RunMeets B.txStore B.FreshReads w es) :
    RunMeets B.txStore B.discipline.Allowed w es := by
  induction es generalizing w with
  | nil => trivial
  | cons e es ih =>
    refine ⟨?_, ih h.2⟩
    cases e with
    | op n o => exact h.1
    | _ => trivial

/-! ## Changes of a record -/

/-- A transaction that changes a version key moves its counter. -/
theorem counter_run_lt {w : B.TxWorld} {es : List B.TxEvent} {vk : Bytes}
    (h : ∃ entry ∈ commits B.txStore w es, entry.tx.Overlays vk) :
    w.shared.counter vk < (run B.txStore w es).shared.counter vk := by
  induction es generalizing w with
  | nil => simp at h
  | cons e es ih =>
    obtain ⟨entry, hentry, hover⟩ := h
    rw [commits_cons] at hentry
    have hfirst : Later w.shared (step B.txStore w e).shared := B.discipline.step_later w e
    have hrest : Later (step B.txStore w e).shared (run B.txStore w (e :: es)).shared :=
      B.discipline.run_later (step B.txStore w e) es
    rcases List.mem_append.mp hentry with hmem | hmem
    · refine Nat.lt_of_lt_of_le ?_ (hrest.counter vk)
      rcases log_step B.txStore w e with ⟨hlog, _⟩ | ⟨n, g, slot, r, rfl, hn, hc, -⟩
      · rw [commits, run_cons, run_nil, hlog, List.drop_length] at hmem
        cases hmem
      · rw [commits_step B.txStore hn hc, List.mem_singleton] at hmem
        subst hmem
        obtain ⟨-, -, indexes, hst, rfl⟩ := commit_ok (B.commit_ok_iff.mp hc)
        have hok : B.commit g w.shared slot.tx = .ok (slot.tx.committed w.shared hst, slot.tx.abort) :=
          hc
        have hstep : (step B.txStore w (.commit n g)).shared = slot.tx.committed w.shared hst := by
          simp only [step, hn, hok, World.committed]
        rw [hstep, counter_committed, if_pos hover]
        exact Nat.lt_succ_self _
    · exact Nat.lt_of_le_of_lt (hfirst.counter vk) (ih ⟨entry, hmem, hover⟩)

/-- In every run of the binding with fresh reads: if transaction `n` read a record and another
    transaction has committed a change of it since, then `n`, if it is still open, cannot commit: it
    fails with a version conflict.  And if it does commit, the record is still what it read. -/
def NoLostUpdate : Prop :=
  ∀ (s₀ : InMemoryState δ κ) (before after : List B.TxEvent) (n : Nat) (o : Operation δ Q)
    (c : CollectionName) (k : Key) (slot slot' : B.TxSlot) (g : γ),
    RunMeets B.txStore B.FreshReads (World.init s₀) (before ++ .op n o :: after) →
    (run B.txStore (World.init s₀) before).slots[n]? = some slot → slot.tx.isOpen = true →
    B.Reads (run B.txStore (World.init s₀) before).shared slot.tx o c k →
    (run B.txStore (World.init s₀) (before ++ .op n o :: after)).slots[n]? = some slot' →
    ((∃ entry ∈ commits B.txStore (run B.txStore (World.init s₀) before) (.op n o :: after),
        entry.tx.Overlays (recordVersionKey c k)) → slot'.tx.isOpen = true →
      B.commit g (run B.txStore (World.init s₀) (before ++ .op n o :: after)).shared slot'.tx =
        .error (B.raise .versionConflict)) ∧
    ∀ r, B.commit g (run B.txStore (World.init s₀) (before ++ .op n o :: after)).shared slot'.tx =
        .ok r →
      (run B.txStore (World.init s₀) (before ++ .op n o :: after)).shared.recordAt c k =
        (run B.txStore (World.init s₀) before).shared.recordAt c k

theorem noLostUpdate : B.NoLostUpdate := by
  intro s₀ before after n o c k slot slot' g hfresh hslot hopen hreads hslot'
  rw [run_append] at hslot' ⊢
  have hallowed := B.allowed_of_fresh hfresh
  rw [runMeets_append] at hallowed
  -- name the worlds at the read, right after it, and at the commit
  have hinv := B.discipline.run_inv hallowed.1
  have hafter := hallowed.2
  generalize run B.txStore (World.init s₀) before = w at *
  have hlater : Later w.shared (run B.txStore w (.op n o :: after)).shared :=
    B.discipline.run_later w (.op n o :: after)
  have hgood : Good w.shared slot.tx := (hinv.slots slot (List.mem_of_getElem? hslot) hopen).1
  have hmid : (step B.txStore w (.op n o)).slots[n]? =
      some ⟨slot.init, (B.exec o w.shared slot.tx).2,
        slot.script ++ [(o, (B.exec o w.shared slot.tx).1)]⟩ := by
    have hlt := (List.getElem?_eq_some_iff.mp hslot).1
    simp only [step, hslot, World.executed, List.getElem?_set_self hlt]
  -- if what it observed is valid at the commit, the record has not moved since the read
  have hunmoved : slot'.tx.isOpen = true →
      Valid (run B.txStore w (.op n o :: after)).shared slot'.tx →
      w.shared.counter (recordVersionKey c k) =
        (run B.txStore w (.op n o :: after)).shared.counter (recordVersionKey c k) := by
    intro hlive hvalid
    have hback := (B.discipline.valid_back hafter.2 (B.discipline.inv_step w _ hafter.1 hinv) hmid
      hslot' hlive (Later.refl _) hvalid).2
    exact unmoved_of_valid hlater (B.good_exec o w.shared slot.tx hgood) hback
      (B.mem_readVersions_exec hopen hreads)
  refine ⟨fun hchanged hlive => ?_, fun r hcommit => ?_⟩
  · have hlt := B.counter_run_lt hchanged
    have hstale : slot'.tx.current (run B.txStore w (.op n o :: after)).shared = false := by
      rw [Bool.eq_false_iff]
      intro hcurrent
      exact absurd (hunmoved hlive (current_iff.mp hcurrent)) (Nat.ne_of_lt hlt)
    rw [commit, (commit_conflict_iff hlive).mpr hstale]
    rfl
  · have hok := B.commit_ok_iff.mp hcommit
    exact hlater.record c k (hunmoved (commit_ok hok).1 (valid_of_commit hok))

end Memory.Binding

/-- **No lost updates in Rust, Go and Java**, in every interleaving in which no transaction reads a
    record again that has moved on since it was observed. -/
theorem no_lost_update :
    (Rust.binding (δ := δ)).NoLostUpdate ∧ (Go.binding (δ := δ)).NoLostUpdate ∧
      (Java.binding (δ := δ)).NoLostUpdate :=
  ⟨Rust.binding.noLostUpdate, Go.binding.noLostUpdate, Java.binding.noLostUpdate⟩

/-! ## Two transactions and one record -/

section

variable {Q γ : Type}

/-- Transaction 0 begins; it is about to read the user `u1`. -/
def readBefore : List (Event Unit (Operation Empty Q) γ Empty) := [.begin ()]

/-- The read. -/
def readUser : Operation Empty Q := .get (ascii "users") (ascii "u1")

/-- Transaction 1 puts the user and commits. -/
def readAfter (g : γ) : List (Event Unit (Operation Empty Q) γ Empty) :=
  [.begin (), .op 1 (.put (ascii "users") (ascii "u1") (.bool true)), .commit 1 g]

/-- The same, and then transaction 0 puts the user too. -/
def putAfter (g : γ) : List (Event Unit (Operation Empty Q) γ Empty) :=
  readAfter g ++ [.op 0 (.put (ascii "users") (ascii "u1") .null)]

end

/-- A run with fresh reads: transaction 0 only reads, and is refused. -/
theorem no_lost_update_refused :
    ∃ slot', (run Rust.binding.txStore (World.init InMemoryState.empty)
        (readBefore ++ .op 0 readUser :: readAfter ())).slots[0]? = some slot' ∧
      Rust.binding.commit () (run Rust.binding.txStore (World.init InMemoryState.empty)
        (readBefore ++ .op 0 readUser :: readAfter ())).shared slot'.tx =
          .error (Rust.raise .versionConflict) := by
  refine ⟨_, rfl, ?_⟩
  have hfresh : RunMeets Rust.binding.txStore Rust.binding.FreshReads
      (World.init InMemoryState.empty) (readBefore ++ .op 0 readUser :: readAfter ()) := by
    refine show RunMeets _ _ _ [_, _, _, _, _] from ⟨trivial, ?_, trivial, ?_, trivial, trivial⟩
    all_goals
      intro slot hslot _ c k v _ hv
      obtain rfl := Option.some_inj.mp hslot
      cases hv
  exact (no_lost_update.1 _ _ _ _ _ (ascii "users") (ascii "u1") _ _ _ hfresh rfl rfl
    ⟨rfl, rfl, by decide⟩ rfl).1 ⟨_, List.mem_cons_self, by decide⟩ rfl

/-- Transaction 0 reads a record that is then changed by transaction 1, puts it, and commits. -/
def Memory.Binding.LosesUpdate {Q κ γ ε : Type} [Ord κ] [Std.TransOrd κ] [Std.LawfulEqOrd κ]
    [DecidableEq κ] [EntryKey κ] (B : Binding Empty Q κ γ ε) (g : γ) : Prop :=
  ∃ slot slot' entry staged r,
    (run B.txStore (World.init InMemoryState.empty) readBefore).slots[0]? = some slot ∧
    B.Reads (run B.txStore (World.init InMemoryState.empty) readBefore).shared slot.tx readUser
      (ascii "users") (ascii "u1") ∧
    (run B.txStore (World.init InMemoryState.empty)
      (readBefore ++ .op 0 readUser :: putAfter g)).slots[0]? = some slot' ∧
    slot'.tx.Puts (ascii "users") (ascii "u1") staged ∧
    entry ∈ commits B.txStore (run B.txStore (World.init InMemoryState.empty) readBefore)
      (.op 0 readUser :: putAfter g) ∧
    entry.slot = 1 ∧ entry.tx.Overlays (recordVersionKey (ascii "users") (ascii "u1")) ∧
    B.commit g (run B.txStore (World.init InMemoryState.empty)
      (readBefore ++ .op 0 readUser :: putAfter g)).shared slot'.tx = .ok r

/-- **An update is lost** in Rust, in Go and in Java: transaction 0 commits although the record it
    read has been changed in between. -/
theorem lost_update :
    Rust.binding.LosesUpdate () ∧ Go.binding.LosesUpdate [] ∧ Java.binding.LosesUpdate [] :=
  ⟨⟨_, _, _, _, _, rfl, ⟨rfl, rfl, by decide⟩, rfl, ⟨rfl, rfl, rfl⟩, List.mem_cons_self, rfl,
      by decide, rfl⟩,
    ⟨_, _, _, _, _, rfl, ⟨rfl, rfl, by decide⟩, rfl, ⟨rfl, rfl, rfl⟩, List.mem_cons_self, rfl,
      by decide, rfl⟩,
    ⟨_, _, _, _, _, rfl, ⟨rfl, rfl, by decide⟩, rfl, ⟨rfl, rfl, rfl⟩, List.mem_cons_self, rfl,
      by decide, rfl⟩⟩

end StateSpec
