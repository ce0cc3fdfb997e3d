/-
  OPTIMISTIC CONCURRENCY CONTROL, as a discipline on a store of `StateSpec.Lib.Interleaving`.

  A transaction runs against whatever the shared state is at each of its steps, and a commit is
  accepted only if what the transaction observed is still current.  `Discipline` names the pieces
  of that argument for an arbitrary store:

  * `live`    — the transaction can still commit;
  * `later`   — the shared state has only moved on (a preorder on shared states);
  * `good`    — what the transaction observed was the truth at some earlier moment;
  * `valid`   — the validation a commit performs: the observations are the truth NOW;
  * `allowed` — the operations the discipline covers; a store whose transactions can lose an
                observation obeys it only as long as they do not.

  From the local laws — one operation, one commit at a time — the file derives once what holds of
  every interleaving of any number of transactions:

  * `run_serial`  — the successful commits, in commit order, are a SERIAL history: each committed
                    transaction could have run from beginning to end at the instant of its commit;
  * `valid_back`  — a transaction that would pass validation now would have passed validation
                    against the present state at every earlier moment of its life;
  * `replay`      — when an answer that is still true is the answer the operation gives now
                    (`Redo` determines it), the serial history is an equation: replaying the
                    committed operations one transaction after another produces the same answers and
                    the same shared state.
-/
import Mathlib.Data.List.Induction
import StateSpec.Lib.Interleaving

namespace StateSpec.Interleaving

variable {ι σ τ ω ρ γ ε α : Type}

/-- The local laws of optimistic concurrency control for a store. -/
structure Discipline (S : Store ι σ τ ω ρ γ ε α) where
  live : τ → Prop
  later : σ → σ → Prop
  good : σ → τ → Prop
  valid : σ → τ → Prop
  allowed : ω → σ → τ → Prop
  later_refl : ∀ s, later s s
  later_trans : ∀ {s s' s''}, later s s' → later s' s'' → later s s''
  /-- A transaction that has just begun has observed nothing. -/
  begin_good : ∀ s i, good s (S.begin i)
  /-- An observation of an earlier state stays one. -/
  good_later : ∀ {s s' t}, later s s' → good s t → good s' t
  /-- No operation brings a spent transaction back. -/
  exec_live : ∀ {o s t}, live (S.exec o s t).2 → live t
  exec_good : ∀ {o s t}, allowed o s t → live t → good s t → good s (S.exec o s t).2
  /-- Validation only gets harder as a transaction goes on. -/
  exec_valid : ∀ {o s s' t}, allowed o s t → later s s' → live t → good s t →
    valid s' (S.exec o s t).2 → valid s' t
  commit_live : ∀ {g s t r}, S.commit g s t = .ok r → live t
  commit_valid : ∀ {g s t r}, S.commit g s t = .ok r → valid s t
  /-- A transaction commits once. -/
  commit_spent : ∀ {g s t r}, S.commit g s t = .ok r → ¬ live r.2
  commit_later : ∀ {g s t r}, S.commit g s t = .ok r → later s r.1
  abort_spent : ∀ t, ¬ live (S.abort t)
  admin_later : ∀ s a, later s (S.admin a s)

namespace Discipline

variable {S : Store ι σ τ ω ρ γ ε α} (D : Discipline S)

/-! ## Re-running a transaction at one instant -/

/-- The result `r` of an operation is still true at `s'`: it was computed at an earlier state, and
    what the transaction has observed by then is valid now. -/
def Redo (o : ω) (s' : σ) (t : τ) (r : ρ × τ) : Prop :=
  ∃ s, D.later s s' ∧ D.live t ∧ D.good s t ∧ D.allowed o s t ∧ D.valid s' r.2 ∧ r = S.exec o s t

/-- The transaction opened by `i` has run the script `l`, ending as `t`, and each of its answers is
    still true at `s`. -/
inductive Replay (s : σ) (i : ι) : List (ω × ρ) → τ → Prop where
  | nil : Replay s i [] (S.begin i)
  | snoc {l : List (ω × ρ)} {t : τ} {o : ω} {r : ρ × τ} :
      Replay s i l t → D.Redo o s t r → Replay s i (l ++ [(o, r.1)]) r.2

/-- One operation of a script, in the middle of it. -/
theorem Replay.split {D : Discipline S} {s : σ} {i : ι} {first rest : List (ω × ρ)} {o : ω} {a : ρ}
    {t : τ} (h : D.Replay s i (first ++ (o, a) :: rest) t) :
    ∃ t₀ r, D.Replay s i first t₀ ∧ D.Redo o s t₀ r ∧ r.1 = a := by
  induction rest using List.reverseRecOn generalizing t with
  | nil =>
    generalize hl : first ++ [(o, a)] = l at h
    cases h with
    | nil => simp at hl
    | @snoc l t₀ o' r hbefore hredo =>
      obtain ⟨rfl, hlast⟩ := List.append_inj' hl rfl
      obtain ⟨rfl, rfl⟩ := Prod.mk.inj (List.singleton_inj.mp hlast)
      exact ⟨t₀, r, hbefore, hredo, rfl⟩
  | append_singleton rest call ih =>
    generalize hl : first ++ (o, a) :: (rest ++ [call]) = l at h
    cases h with
    | nil => simp at hl
    | @snoc l t₀ o' r hbefore hredo =>
      rw [← List.cons_append, ← List.append_assoc] at hl
      obtain ⟨rfl, -⟩ := List.append_inj' hl rfl
      exact ih hbefore

/-- A serial history: from `s`, the logged transactions run and commit one after another. -/
inductive Serial (s : σ) : List (Entry ι τ ω ρ γ) → σ → Prop where
  | nil : Serial s [] s
  | commit {log : List (Entry ι τ ω ρ γ)} {s' : σ} {e : Entry ι τ ω ρ γ} {r : σ × τ} :
      Serial s log s' → D.Replay s' e.init e.script e.tx → S.commit e.choice s' e.tx = .ok r →
      Serial s (log ++ [e]) r.1
  | admin {log : List (Entry ι τ ω ρ γ)} {s' : σ} (a : α) :
      Serial s log s' → Serial s log (S.admin a s')

/-- The step condition of the discipline: an operation of a live transaction is an allowed one. -/
def Allowed (w : World ι σ τ ω ρ γ) : Event ι ω γ α → Prop
  | .op n o => ∀ slot, w.slots[n]? = some slot → D.live slot.tx → D.allowed o w.shared slot.tx
  | _ => True

/-! ## The shared state only moves on -/

theorem step_later (w : World ι σ τ ω ρ γ) (e : Event ι ω γ α) :
    D.later w.shared (step S w e).shared := by
  rcases step_cases S w e with h | ⟨_, _, h⟩ | ⟨_, _, _, _, _, h⟩ | ⟨_, _, _, _, _, _, hc, h⟩ |
    ⟨_, _, _, _, h⟩ | ⟨a, _, h⟩ <;> rw [h]
  · exact D.later_refl _
  · exact D.later_refl _
  · exact D.later_refl _
  · exact D.commit_later hc
  · exact D.later_refl _
  · exact D.admin_later _ a

theorem run_later (w : World ι σ τ ω ρ γ) (es : List (Event ι ω γ α)) :
    D.later w.shared (run S w es).shared := by
  induction es generalizing w with
  | nil => exact D.later_refl _
  | cons e es ih => exact D.later_trans (D.step_later w e) (ih _)

/-! ## The invariant of one transaction -/

/-- What is true of a transaction that can still commit: its observations were true, and if they
    are true at some later state then its whole script can be re-run there. -/
def SlotOk (s : σ) (slot : Slot ι τ ω ρ) : Prop :=
  D.live slot.tx → D.good s slot.tx ∧
    ∀ s', D.later s s' → D.valid s' slot.tx → D.Replay s' slot.init slot.script slot.tx

theorem slotOk_later {s s' : σ} {slot : Slot ι τ ω ρ} (h : D.SlotOk s slot)
    (hs : D.later s s') : D.SlotOk s' slot := by
  intro hlive
  obtain ⟨hgood, hreplay⟩ := h hlive
  exact ⟨D.good_later hs hgood, fun s'' hs' hvalid =>
    hreplay s'' (D.later_trans hs hs') hvalid⟩

theorem slotOk_begin (s : σ) (i : ι) : D.SlotOk s ⟨i, S.begin i, []⟩ :=
  fun _ => ⟨D.begin_good s i, fun _ _ _ => Replay.nil⟩

theorem slotOk_exec {s : σ} {slot : Slot ι τ ω ρ} {o : ω} (h : D.SlotOk s slot)
    (hallowed : D.live slot.tx → D.allowed o s slot.tx) :
    D.SlotOk s ⟨slot.init, (S.exec o s slot.tx).2,
      slot.script ++ [(o, (S.exec o s slot.tx).1)]⟩ := by
  intro hlive
  have hlive₀ : D.live slot.tx := D.exec_live hlive
  have hal := hallowed hlive₀
  obtain ⟨hgood, hreplay⟩ := h hlive₀
  refine ⟨D.exec_good hal hlive₀ hgood, fun s' hs hvalid => ?_⟩
  have hbefore := hreplay s' hs (D.exec_valid hal hs hlive₀ hgood hvalid)
  exact Replay.snoc hbefore ⟨s, hs, hlive₀, hgood, hal, hvalid, rfl⟩

theorem slotOk_spent {s : σ} {slot : Slot ι τ ω ρ} (h : ¬ D.live slot.tx) : D.SlotOk s slot :=
  fun hlive => absurd hlive h

/-- The invariant of a whole run that started in the shared state `s₀`. -/
structure Inv (s₀ : σ) (w : World ι σ τ ω ρ γ) : Prop where
  slots : ∀ slot ∈ w.slots, D.SlotOk w.shared slot
  serial : D.Serial s₀ w.log w.shared

theorem inv_init (s : σ) : D.Inv s (World.init s) where
  slots _ h := absurd h List.not_mem_nil
  serial := Serial.nil

/-- One step keeps the invariant: the shared state moves on, and the one transaction the event
    names is again as it should be. -/
theorem inv_step {s₀ : σ} (w : World ι σ τ ω ρ γ) (e : Event ι ω γ α) (he : D.Allowed w e)
    (h : D.Inv s₀ w) : D.Inv s₀ (step S w e) := by
  have hslot : ∀ {n slot}, w.slots[n]? = some slot → D.SlotOk w.shared slot := fun hn =>
    h.slots _ (List.mem_of_getElem? hn)
  have hset : ∀ {n : Nat} {new : Slot ι τ ω ρ} {s' : σ}, D.later w.shared s' →
      D.SlotOk s' new → ∀ slot ∈ w.slots.set n new, D.SlotOk s' slot := by
    intro n new s' hs hnew slot hmem
    rcases List.mem_or_eq_of_mem_set hmem with hold | heq
    · exact D.slotOk_later (h.slots slot hold) hs
    · exact heq ▸ hnew
  rcases step_cases S w e with hw | ⟨i, rfl, hw⟩ | ⟨n, o, slot, rfl, hn, hw⟩ |
    ⟨n, g, slot, r, rfl, hn, hc, hw⟩ | ⟨n, slot, rfl, hn, hw⟩ | ⟨a, rfl, hw⟩
  · exact hw.symm ▸ h
  · rw [hw]
    refine ⟨fun slot hmem => ?_, h.serial⟩
    rcases List.mem_append.mp hmem with hold | hnew
    · exact h.slots slot hold
    · rw [List.mem_singleton.mp hnew]
      exact D.slotOk_begin _ i
  · rw [hw]
    exact ⟨hset (D.later_refl _) (D.slotOk_exec (hslot hn) (he slot hn)), h.serial⟩
  · rw [hw]
    have hlive := D.commit_live hc
    obtain ⟨-, hreplay⟩ := hslot hn hlive
    refine ⟨hset (D.commit_later hc) (D.slotOk_spent (D.commit_spent hc)), ?_⟩
    exact Serial.commit (e := ⟨n, slot.init, slot.tx, slot.script, g⟩) h.serial
      (hreplay _ (D.later_refl _) (D.commit_valid hc)) hc
  · rw [hw]
    exact ⟨hset (D.later_refl _) (D.slotOk_spent (D.abort_spent _)), h.serial⟩
  · rw [hw]
    exact ⟨fun slot hmem => D.slotOk_later (h.slots slot hmem) (D.admin_later _ a),
      Serial.admin a h.serial⟩

/-- **Every interleaving is serial in commit order.** -/
theorem run_inv {s : σ} {es : List (Event ι ω γ α)}
    (hes : RunMeets S D.Allowed (World.init s) es) : D.Inv s (run S (World.init s) es) :=
  run_invariant S (fun w e he h => D.inv_step w e he h) hes (D.inv_init s)

theorem run_serial {s : σ} {es : List (Event ι ω γ α)}
    (hes : RunMeets S D.Allowed (World.init s) es) :
    D.Serial s (run S (World.init s) es).log (run S (World.init s) es).shared :=
  (D.run_inv hes).serial

/-- **Induction over the commits of a run**: what each commit preserves, of a transaction that could
    have run from beginning to end at that instant, holds of the log and the shared state at the end
    of the run. -/
theorem run_commits {C : World ι σ τ ω ρ γ → Event ι ω γ α → Prop}
    {P : List (Entry ι τ ω ρ γ) → σ → Prop}
    (hcommit : ∀ w n g slot r, C w (.commit n g) → w.slots[n]? = some slot →
      D.Replay w.shared slot.init slot.script slot.tx → S.commit g w.shared slot.tx = .ok r →
      P w.log w.shared → P (w.log ++ [⟨n, slot.init, slot.tx, slot.script, g⟩]) r.1)
    (hadmin : ∀ log s a, P log s → P log (S.admin a s)) {s₀ : σ} {w : World ι σ τ ω ρ γ}
    {es : List (Event ι ω γ α)} (hes : RunMeets S (fun w e => D.Allowed w e ∧ C w e) w es)
    (hinv : D.Inv s₀ w) (hw : P w.log w.shared) :
    P (run S w es).log (run S w es).shared := by
  refine (run_invariant S (P := fun w => D.Inv s₀ w ∧ P w.log w.shared) ?_ hes ⟨hinv, hw⟩).2
  rintro w e ⟨hallowed, hC⟩ ⟨hinv, hP⟩
  refine ⟨D.inv_step w e hallowed hinv, ?_⟩
  rcases step_cases S w e with h | ⟨i, rfl, h⟩ | ⟨n, o, slot, rfl, hn, h⟩ |
    ⟨n, g, slot, r, rfl, hn, hc, h⟩ | ⟨n, slot, rfl, hn, h⟩ | ⟨a, rfl, h⟩ <;> rw [h]
  · exact hP
  · exact hP
  · exact hP
  · have hslot := hinv.slots slot (List.mem_of_getElem? hn) (D.commit_live hc)
    exact hcommit w n g slot r hC hn (hslot.2 _ (D.later_refl _) (D.commit_valid hc)) hc hP
  · exact hP
  · exact hadmin w.log w.shared a hP

/-! ## A transaction that can still commit has not committed -/

/-- What a step has done to a transaction that can still commit: nothing, or one of its own
    operations. -/
theorem step_of_live {w : World ι σ τ ω ρ γ} {n : Nat} {slot slot' : Slot ι τ ω ρ}
    {e : Event ι ω γ α} (hn : w.slots[n]? = some slot)
    (hn' : (step S w e).slots[n]? = some slot') (hlive : D.live slot'.tx) :
    slot' = slot ∨ ∃ o, e = .op n o ∧ slot'.tx = (S.exec o w.shared slot.tx).2 := by
  rcases slot_step S hn e with h | ⟨o, rfl, h⟩ | ⟨g, r, _, hc, h⟩ | ⟨_, h⟩ <;>
    obtain rfl := Option.some_inj.mp (h.symm.trans hn')
  · exact Or.inl rfl
  · exact Or.inr ⟨o, rfl, rfl⟩
  -- a commit and an abort leave a transaction that cannot commit
  · exact absurd hlive (D.commit_spent hc)
  · exact absurd hlive (D.abort_spent _)

theorem live_back_step {w : World ι σ τ ω ρ γ} {n : Nat} {slot slot' : Slot ι τ ω ρ}
    {e : Event ι ω γ α} (hn : w.slots[n]? = some slot)
    (hn' : (step S w e).slots[n]? = some slot') (hlive : D.live slot'.tx) : D.live slot.tx := by
  rcases D.step_of_live hn hn' hlive with rfl | ⟨o, -, htx⟩
  · exact hlive
  · rw [htx] at hlive
    exact D.exec_live hlive

theorem live_back {w : World ι σ τ ω ρ γ} {n : Nat} {slot slot' : Slot ι τ ω ρ}
    {es : List (Event ι ω γ α)} (hn : w.slots[n]? = some slot)
    (hn' : (run S w es).slots[n]? = some slot') (hlive : D.live slot'.tx) : D.live slot.tx := by
  induction es generalizing w slot with
  | nil =>
    obtain rfl := Option.some_inj.mp (hn.symm.trans hn')
    exact hlive
  | cons e es ih =>
    obtain ⟨mid, hmid, -⟩ := slot_run S hn [e]
    exact D.live_back_step hn hmid (ih hmid hn')

/-- **What can still commit has not committed**: none of the commits so far is its own. -/
theorem slot_ne_of_live {w : World ι σ τ ω ρ γ} {n : Nat} {slot slot' : Slot ι τ ω ρ}
    {es : List (Event ι ω γ α)} (hn : w.slots[n]? = some slot)
    (hn' : (run S w es).slots[n]? = some slot') (hlive : D.live slot'.tx) :
    ∀ entry ∈ commits S w es, entry.slot ≠ n := by
  induction es generalizing w slot with
  | nil => simp
  | cons e es ih =>
    obtain ⟨mid, hmid, -⟩ := slot_run S hn [e]
    intro entry hmem
    rw [commits_cons] at hmem
    rcases List.mem_append.mp hmem with hfirst | hrest
    · rcases log_step S w e with ⟨h, _⟩ | ⟨m, g, other, r, rfl, hm, hc, h⟩
      · rw [commits, run_cons, run_nil, h] at hfirst
        simp at hfirst
      · rw [commits_step S hm hc, List.mem_singleton] at hfirst
        subst hfirst
        rintro rfl
        -- its own commit would have spent it
        have hmid' : (step S w (.commit m g)).slots[m]? = some { other with tx := r.2 } := by
          have hlt := (List.getElem?_eq_some_iff.mp hm).1
          simp only [step, hm, hc, World.committed, List.getElem?_set_self hlt]
        exact D.commit_spent hc (D.live_back hmid' hn' hlive)
    · exact ih hmid hn' entry hrest

/-! ## Runs in which a transaction stays open -/

/-- Transaction `n` has not been opened, or can still commit. -/
def Unspent (n : Nat) (w : World ι σ τ ω ρ γ) : Prop :=
  ∀ slot, w.slots[n]? = some slot → D.live slot.tx

variable {D}

theorem Unspent.back {n : Nat} {w : World ι σ τ ω ρ γ} {es : List (Event ι ω γ α)}
    (h : D.Unspent n (run S w es)) : D.Unspent n w := by
  intro slot hn
  obtain ⟨slot', hn', -⟩ := slot_run S hn es
  exact D.live_back hn hn' (h slot' hn')

/-- A commit that leaves it unspent is somebody else's. -/
theorem Unspent.ne_of_commit {n m : Nat} {w : World ι σ τ ω ρ γ} {g : γ} {slot : Slot ι τ ω ρ}
    {r : σ × τ} (h : D.Unspent n (step S w (.commit m g))) (hm : w.slots[m]? = some slot)
    (hc : S.commit g w.shared slot.tx = .ok r) : m ≠ n := by
  rintro rfl
  have hlt := (List.getElem?_eq_some_iff.mp hm).1
  have hspent : (step S w (.commit m g)).slots[m]? = some { slot with tx := r.2 } := by
    simp only [step, hm, hc, World.committed, List.getElem?_set_self hlt]
  exact D.commit_spent hc (h _ hspent)

/-- **Run induction while a transaction stays open.** -/
theorem Unspent.run_invariant {n : Nat} {C : World ι σ τ ω ρ γ → Event ι ω γ α → Prop}
    {P : World ι σ τ ω ρ γ → Prop}
    (hstep : ∀ w e, C w e → D.Unspent n (step S w e) → P w → P (step S w e))
    {w : World ι σ τ ω ρ γ} {es : List (Event ι ω γ α)} (hes : RunMeets S C w es)
    (hend : D.Unspent n (run S w es)) (hw : P w) : P (run S w es) := by
  induction es generalizing w with
  | nil => exact hw
  | cons e es ih => exact ih hes.2 hend (hstep w e hes.1 (Unspent.back hend) hw)

variable (D)

/-! ## Looking back from a successful validation -/

/-- One step back: if transaction `n` can still commit after the step, and its observations are
    true at some later state, then both held before the step. -/
theorem valid_back_step {w : World ι σ τ ω ρ γ} {n : Nat} {slot slot' : Slot ι τ ω ρ}
    {e : Event ι ω γ α} {s' : σ} (he : D.Allowed w e) (hok : D.SlotOk w.shared slot)
    (hn : w.slots[n]? = some slot) (hn' : (step S w e).slots[n]? = some slot')
    (hlive : D.live slot'.tx) (hs : D.later w.shared s') (hvalid : D.valid s' slot'.tx) :
    D.live slot.tx ∧ D.valid s' slot.tx := by
  have hlive₀ : D.live slot.tx := D.live_back_step hn hn' hlive
  refine ⟨hlive₀, ?_⟩
  rcases D.step_of_live hn hn' hlive with rfl | ⟨o, rfl, htx⟩
  · exact hvalid
  · rw [htx] at hvalid
    exact D.exec_valid (he slot hn hlive₀) hs hlive₀ (hok hlive₀).1 hvalid

/-- **What passes validation now would have passed it all along**, from any moment of the
    transaction's life. -/
theorem valid_back {s₀ : σ} {w : World ι σ τ ω ρ γ} {n : Nat} {slot slot' : Slot ι τ ω ρ}
    {es : List (Event ι ω γ α)} {s' : σ} (hes : RunMeets S D.Allowed w es) (hinv : D.Inv s₀ w)
    (hn : w.slots[n]? = some slot) (hn' : (run S w es).slots[n]? = some slot')
    (hlive : D.live slot'.tx) (hs : D.later (run S w es).shared s')
    (hvalid : D.valid s' slot'.tx) : D.live slot.tx ∧ D.valid s' slot.tx := by
  induction es generalizing w slot with
  | nil =>
    obtain rfl := Option.some_inj.mp (hn.symm.trans hn')
    exact ⟨hlive, hvalid⟩
  | cons e es ih =>
    obtain ⟨mid, hmid, -⟩ := slot_run S hn [e]
    have hrest := ih hes.2 (D.inv_step w e hes.1 hinv) hmid hn' hs
    have hs' : D.later w.shared s' := D.later_trans (D.run_later w (e :: es)) hs
    exact D.valid_back_step hes.1 (hinv.slots slot (List.mem_of_getElem? hn)) hn hmid hrest.1
      hs' hrest.2

end Discipline

/-! ## Deterministic operations: replay as an equation -/

section

variable (S : Store ι σ τ ω ρ γ ε α)

/-- Run a list of operations of one transaction at the fixed state `s`, collecting the answers. -/
def execAll (s : σ) : τ → List ω → List ρ × τ
  | t, [] => ([], t)
  | t, o :: os =>
    let r := S.exec o s t
    let rest := execAll s r.2 os
    (r.1 :: rest.1, rest.2)

theorem execAll_append (s : σ) (t : τ) (os : List ω) (o : ω) :
    execAll S s t (os ++ [o]) =
      ((execAll S s t os).1 ++ [(S.exec o s (execAll S s t os).2).1],
        (S.exec o s (execAll S s t os).2).2) := by
  induction os generalizing t with
  | nil => rfl
  | cons o' os ih => simp only [List.cons_append, execAll, ih]

/-- Run transactions one after another: each is opened, runs all of its operations and commits.
    The answers of every transaction, and the final shared state; `none` if a commit is refused. -/
def replay (s : σ) : List (ι × List ω × γ) → Option (List (List ρ) × σ)
  | [] => some ([], s)
  | (i, os, g) :: rest =>
    let r := execAll S s (S.begin i) os
    match S.commit g s r.2 with
    | .error _ => none
    | .ok c => (replay c.1 rest).map fun p => (r.1 :: p.1, p.2)

theorem replay_append (s : σ) (l : List (ι × List ω × γ)) (i : ι) (os : List ω) (g : γ)
    {answers : List (List ρ)} {s' : σ} {r : σ × τ} (hl : replay S s l = some (answers, s'))
    (hc : S.commit g s' (execAll S s' (S.begin i) os).2 = .ok r) :
    replay S s (l ++ [(i, os, g)]) =
      some (answers ++ [(execAll S s' (S.begin i) os).1], r.1) := by
  induction l generalizing s answers with
  | nil =>
    obtain ⟨rfl, rfl⟩ := Prod.mk.inj (Option.some_inj.mp hl)
    simp only [List.nil_append, replay, hc, Option.map_some]
  | cons p l ih =>
    simp only [List.cons_append, replay] at hl ⊢
    cases hp : S.commit p.2.2 s (execAll S s (S.begin p.1) p.2.1).2 with
    | error e => simp [hp] at hl
    | ok c =>
      simp only [hp] at hl ⊢
      obtain ⟨q, hq, hpair⟩ := Option.map_eq_some_iff.mp hl
      obtain ⟨rfl, rfl⟩ := Prod.mk.inj hpair
      rw [ih c.1 hq]
      rfl

variable {S}

/-- What a deterministic re-run computes: the same answers and the same transaction. -/
theorem Discipline.Replay.eq_execAll {D : Discipline S}
    (hdet : ∀ {o s t r}, D.Redo o s t r → r = S.exec o s t) {s : σ} {i : ι}
    {l : List (ω × ρ)} {t : τ} (h : D.Replay s i l t) :
    execAll S s (S.begin i) (l.map Prod.fst) = (l.map Prod.snd, t) := by
  induction h with
  | nil => rfl
  | snoc hl hr ih =>
    rw [List.map_append, List.map_append, List.map_singleton, List.map_singleton,
      execAll_append, ih, hdet hr]

/-- **Serializability as an equation.**  When answers that are still true are determined and there
    are no administrative calls, replaying the committed transactions one after another gives every
    answer of the interleaved run again, and the same final state. -/
theorem Discipline.Serial.replay [IsEmpty α] {D : Discipline S}
    (hdet : ∀ {o s t r}, D.Redo o s t r → r = S.exec o s t) {s s' : σ}
    {log : List (Entry ι τ ω ρ γ)} (h : D.Serial s log s') :
    Interleaving.replay S s (log.map fun e => (e.init, e.script.map Prod.fst, e.choice)) =
      some (log.map fun e => e.script.map Prod.snd, s') := by
  induction h with
  | nil => rfl
  | commit hlog hreplay hc ih =>
    have hexec := hreplay.eq_execAll hdet
    rw [List.map_append, List.map_append, List.map_singleton, List.map_singleton]
    rw [replay_append S s _ _ _ _ ih (by rw [hexec]; exact hc), hexec]
  | admin a => exact isEmptyElim a

end

end StateSpec.Interleaving
