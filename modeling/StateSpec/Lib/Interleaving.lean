/-
  INTERLEAVED TRANSACTIONS over one shared state, for any store whatsoever.

  A `Store` is what the clients of a transactional store can do: open a transaction, run an
  operation of a transaction (which reads the shared state and changes only the transaction),
  commit it (which may fail, and is the only step of a transaction that changes the shared state),
  abort it; and administrative calls that change the shared state outside of any transaction.  A
  commit may depend on a choice of the language's run-time system (the order in which a hash map is
  visited, say); that choice is part of the event.

  A `World` is the shared state with every transaction ever opened (`slots`, addressed by position,
  so that a transaction handle is never reused).  One `Event` is one atomic step; `run` executes a
  list of events, in the order of the list — every interleaving of any number of transactions is
  such a list.  Two ghost components record the history without influencing it: each slot keeps the
  `script` of operations it executed with their answers, and the world keeps the `log` of successful
  commits in commit order.

  What every development over a store uses:
  * `step_cases` — everything one event can do, once and for all;
  * `run_invariant` — what every step preserves holds at the end of every run;
  * `slot_step`, `slot_run` — what events do to one transaction;
  * `run_lockstep` — what two stores show their clients, step by step.
-/
import Mathlib.Algebra.GroupWithZero.Nat
import Mathlib.Data.List.Basic

namespace StateSpec.Interleaving

/-! ## Stores, events, worlds -/

/-- A transactional store, as its clients see it: `ι` opens transactions, `σ` is the shared state,
    `τ` a transaction, `ω`/`ρ` its operations and their answers, `γ` what the run-time system
    chooses at a commit, `ε` the ways a commit can fail, `α` the administrative calls. -/
structure Store (ι σ τ ω ρ γ ε α : Type) where
  /-- Open a transaction. -/
  begin : ι → τ
  /-- Run one operation: it reads the shared state and changes the transaction. -/
  exec : ω → σ → τ → ρ × τ
  /-- Commit: the new shared state and the spent transaction, or the reason for the refusal. -/
  commit : γ → σ → τ → Except ε (σ × τ)
  /-- Abort. -/
  abort : τ → τ
  /-- A call on the store itself, outside of any transaction. -/
  admin : α → σ → σ

/-- One atomic step of one client; transactions are named by the order in which they began. -/
inductive Event (ι ω γ α : Type) where
  | begin (init : ι)
  | op (slot : Nat) (o : ω)
  | commit (slot : Nat) (choice : γ)
  | abort (slot : Nat)
  | admin (a : α)

/-- A transaction that was opened: what opened it, what it is now, and (ghost) what it did. -/
structure Slot (ι τ ω ρ : Type) where
  init : ι
  tx : τ
  script : List (ω × ρ)

/-- (Ghost) one successful commit: the slot, as it was when the commit was called. -/
structure Entry (ι τ ω ρ γ : Type) where
  slot : Nat
  init : ι
  tx : τ
  script : List (ω × ρ)
  choice : γ

/-- The shared state, all transactions, and (ghost) the successful commits in order. -/
structure World (ι σ τ ω ρ γ : Type) where
  shared : σ
  slots : List (Slot ι τ ω ρ)
  log : List (Entry ι τ ω ρ γ)

variable {ι σ τ ω ρ γ ε α : Type} (S : Store ι σ τ ω ρ γ ε α)

/-- A world in which nothing has happened yet. -/
def World.init (s : σ) : World ι σ τ ω ρ γ := ⟨s, [], []⟩

/-- The world after transaction `n`, found as `slot`, has committed with the result `r`. -/
def World.committed (w : World ι σ τ ω ρ γ) (n : Nat) (slot : Slot ι τ ω ρ) (g : γ) (r : σ × τ) :
    World ι σ τ ω ρ γ where
  shared := r.1
  slots := w.slots.set n { slot with tx := r.2 }
  log := w.log ++ [⟨n, slot.init, slot.tx, slot.script, g⟩]

/-- The world after transaction `n`, found as `slot`, has executed `o` with the result `r`. -/
def World.executed (w : World ι σ τ ω ρ γ) (n : Nat) (slot : Slot ι τ ω ρ) (o : ω) (r : ρ × τ) :
    World ι σ τ ω ρ γ :=
  { w with slots := w.slots.set n ⟨slot.init, r.2, slot.script ++ [(o, r.1)]⟩ }

/-- One event.  Events that name a transaction nobody opened, and commits that are refused, change
    nothing. -/
def step (w : World ι σ τ ω ρ γ) : Event ι ω γ α → World ι σ τ ω ρ γ
  | .begin i => { w with slots := w.slots ++ [⟨i, S.begin i, []⟩] }
  | .op n o =>
    match w.slots[n]? with
    | none => w
    | some slot => w.executed n slot o (S.exec o w.shared slot.tx)
  | .commit n g =>
    match w.slots[n]? with
    | none => w
    | some slot =>
      match S.commit g w.shared slot.tx with
      | .error _ => w
      | .ok r => w.committed n slot g r
  | .abort n =>
    match w.slots[n]? with
    | none => w
    | some slot => { w with slots := w.slots.set n { slot with tx := S.abort slot.tx } }
  | .admin a => { w with shared := S.admin a w.shared }

/-- A run: the events in order. -/
def run (w : World ι σ τ ω ρ γ) (es : List (Event ι ω γ α)) : World ι σ τ ω ρ γ :=
  es.foldl (step S) w

@[simp] theorem run_nil (w : World ι σ τ ω ρ γ) : run S w [] = w := rfl

@[simp] theorem run_cons (w : World ι σ τ ω ρ γ) (e : Event ι ω γ α) (es : List (Event ι ω γ α)) :
    run S w (e :: es) = run S (step S w e) es := rfl

theorem run_append (w : World ι σ τ ω ρ γ) (es es' : List (Event ι ω γ α)) :
    run S w (es ++ es') = run S (run S w es) es' :=
  List.foldl_append

/-! ## What one step can do -/

/-- **The step, once and for all**: every way in which an event changes the world.  The invariants
    below and in the developments over a store split on this and never unfold `step`. -/
theorem step_cases (w : World ι σ τ ω ρ γ) (e : Event ι ω γ α) :
    step S w e = w ∨
    (∃ i, e = .begin i ∧ step S w e = { w with slots := w.slots ++ [⟨i, S.begin i, []⟩] }) ∨
    (∃ n o slot, e = .op n o ∧ w.slots[n]? = some slot ∧
      step S w e = w.executed n slot o (S.exec o w.shared slot.tx)) ∨
    (∃ n g slot r, e = .commit n g ∧ w.slots[n]? = some slot ∧
      S.commit g w.shared slot.tx = .ok r ∧ step S w e = w.committed n slot g r) ∨
    (∃ n slot, e = .abort n ∧ w.slots[n]? = some slot ∧
      step S w e = { w with slots := w.slots.set n { slot with tx := S.abort slot.tx } }) ∨
    (∃ a, e = .admin a ∧ step S w e = { w with shared := S.admin a w.shared }) := by
  cases e with
  | begin i => exact Or.inr (Or.inl ⟨i, rfl, rfl⟩)
  | op n o =>
    cases hn : w.slots[n]? with
    | none => exact Or.inl (by simp only [step, hn])
    | some slot =>
      exact Or.inr (Or.inr (Or.inl ⟨n, o, slot, rfl, hn, by simp only [step, hn]⟩))
  | commit n g =>
    cases hn : w.slots[n]? with
    | none => exact Or.inl (by simp only [step, hn])
    | some slot =>
      cases hc : S.commit g w.shared slot.tx with
      | error err => exact Or.inl (by simp only [step, hn, hc])
      | ok r =>
        exact Or.inr (Or.inr (Or.inr (Or.inl ⟨n, g, slot, r, rfl, hn, hc, by
          simp only [step, hn, hc]⟩)))
  | abort n =>
    cases hn : w.slots[n]? with
    | none => exact Or.inl (by simp only [step, hn])
    | some slot =>
      exact Or.inr (Or.inr (Or.inr (Or.inr (Or.inl ⟨n, slot, rfl, hn, by simp only [step, hn]⟩))))
  | admin a => exact Or.inr (Or.inr (Or.inr (Or.inr (Or.inr ⟨a, rfl, rfl⟩))))

/-! ## The log -/

/-- The log only grows, by the commits that succeed. -/
theorem log_step (w : World ι σ τ ω ρ γ) (e : Event ι ω γ α) :
    ((step S w e).log = w.log ∧
      ∀ n g slot r, e = .commit n g → w.slots[n]? = some slot → S.commit g w.shared slot.tx ≠ .ok r) ∨
    ∃ n g slot r, e = .commit n g ∧ w.slots[n]? = some slot ∧
      S.commit g w.shared slot.tx = .ok r ∧
      (step S w e).log = w.log ++ [⟨n, slot.init, slot.tx, slot.script, g⟩] := by
  cases e with
  | commit n g =>
    cases hn : w.slots[n]? with
    | none =>
      refine Or.inl ⟨by simp only [step, hn], ?_⟩
      rintro m g' slot r heq hm
      cases heq
      rw [hn] at hm
      cases hm
    | some slot =>
      cases hc : S.commit g w.shared slot.tx with
      | error err =>
        refine Or.inl ⟨by simp only [step, hn, hc], ?_⟩
        rintro m g' slot' r heq hm hok
        cases heq
        obtain rfl := Option.some_inj.mp (hn.symm.trans hm)
        rw [hc] at hok
        cases hok
      | ok r =>
        exact Or.inr ⟨n, g, slot, r, rfl, hn, hc, by simp only [step, hn, hc, World.committed]⟩
  | op n o =>
    refine Or.inl ⟨?_, fun _ _ _ _ heq => by cases heq⟩
    cases hn : w.slots[n]? <;> simp only [step, hn, World.executed]
  | begin i => exact Or.inl ⟨rfl, fun _ _ _ _ heq => by cases heq⟩
  | abort n =>
    refine Or.inl ⟨?_, fun _ _ _ _ heq => by cases heq⟩
    cases hn : w.slots[n]? <;> simp only [step, hn]
  | admin a => exact Or.inl ⟨rfl, fun _ _ _ _ heq => by cases heq⟩

theorem log_prefix (w : World ι σ τ ω ρ γ) (es : List (Event ι ω γ α)) :
    ∃ l, (run S w es).log = w.log ++ l := by
  induction es generalizing w with
  | nil => exact ⟨[], by simp⟩
  | cons e es ih =>
    obtain ⟨l, hl⟩ := ih (step S w e)
    rcases log_step S w e with ⟨h, _⟩ | ⟨n, g, slot, r, _, _, _, h⟩
    · exact ⟨l, by rw [run_cons, hl, h]⟩
    · exact ⟨_ :: l, by rw [run_cons, hl, h, List.append_assoc]; rfl⟩

/-- The successful commits of a run. -/
def commits (w : World ι σ τ ω ρ γ) (es : List (Event ι ω γ α)) : List (Entry ι τ ω ρ γ) :=
  (run S w es).log.drop w.log.length

theorem log_run (w : World ι σ τ ω ρ γ) (es : List (Event ι ω γ α)) :
    (run S w es).log = w.log ++ commits S w es := by
  obtain ⟨l, hl⟩ := log_prefix S w es
  rw [commits, hl, List.drop_left]

@[simp] theorem commits_nil (w : World ι σ τ ω ρ γ) : commits S w [] = [] := by
  simp [commits]

/-- The commits of a run are those of its first step and those of the rest. -/
theorem commits_cons (w : World ι σ τ ω ρ γ) (e : Event ι ω γ α) (es : List (Event ι ω γ α)) :
    commits S w (e :: es) = commits S w [e] ++ commits S (step S w e) es := by
  have hall := log_run S w (e :: es)
  have hfirst : (step S w e).log = w.log ++ commits S w [e] := log_run S w [e]
  have hrest := log_run S (step S w e) es
  rw [run_cons, hrest, hfirst, List.append_assoc] at hall
  exact (List.append_cancel_left hall).symm

/-- One step commits at most one transaction. -/
theorem length_commits_le (w : World ι σ τ ω ρ γ) (e : Event ι ω γ α) :
    (commits S w [e]).length ≤ 1 := by
  have hlog : (step S w e).log = w.log ++ commits S w [e] := log_run S w [e]
  have hlength := congrArg List.length hlog
  rw [List.length_append] at hlength
  rcases log_step S w e with ⟨h, -⟩ | ⟨n, g, slot, r, -, -, -, h⟩
  · rw [h] at hlength
    omega
  · rw [h, List.length_append, List.length_singleton] at hlength
    omega

/-- What one step commits. -/
theorem commits_step {w : World ι σ τ ω ρ γ} {n : Nat} {g : γ} {slot : Slot ι τ ω ρ} {r : σ × τ}
    (hn : w.slots[n]? = some slot) (hc : S.commit g w.shared slot.tx = .ok r) :
    commits S w [.commit n g] = [⟨n, slot.init, slot.tx, slot.script, g⟩] := by
  rw [commits, run_cons, run_nil]
  simp only [step, hn, hc, World.committed, List.drop_left]

/-! ## Induction over runs -/

/-- A run all of whose steps meet a condition on the world before the step. -/
def RunMeets (C : World ι σ τ ω ρ γ → Event ι ω γ α → Prop) :
    World ι σ τ ω ρ γ → List (Event ι ω γ α) → Prop
  | _, [] => True
  | w, e :: es => C w e ∧ RunMeets C (step S w e) es

theorem runMeets_append {C : World ι σ τ ω ρ γ → Event ι ω γ α → Prop} {w : World ι σ τ ω ρ γ}
    {es es' : List (Event ι ω γ α)} :
    RunMeets S C w (es ++ es') ↔ RunMeets S C w es ∧ RunMeets S C (run S w es) es' := by
  induction es generalizing w with
  | nil => simp [RunMeets]
  | cons e es ih => simp only [List.cons_append, RunMeets, run_cons, ih, and_assoc]

/-- A run meets a condition when each of its events does, in the world it finds. -/
theorem runMeets_iff {C : World ι σ τ ω ρ γ → Event ι ω γ α → Prop} {w : World ι σ τ ω ρ γ}
    {es : List (Event ι ω γ α)} :
    RunMeets S C w es ↔ ∀ before e after, es = before ++ e :: after → C (run S w before) e := by
  induction es generalizing w with
  | nil => exact ⟨fun _ before e after h => by simp at h, fun _ => trivial⟩
  | cons e es ih =>
    rw [RunMeets, ih]
    constructor
    · rintro ⟨he, hes⟩ before e' after h
      cases before with
      | nil =>
        obtain ⟨rfl, -⟩ := List.cons.inj h
        exact he
      | cons first before =>
        obtain ⟨rfl, rfl⟩ := List.cons.inj h
        exact hes before e' after rfl
    · intro h
      exact ⟨h [] e es rfl, fun before e' after heq => h (e :: before) e' after (heq ▸ rfl)⟩

/-- **Run induction.**  What every admissible step preserves, every admissible run preserves. -/
theorem run_invariant {C : World ι σ τ ω ρ γ → Event ι ω γ α → Prop} {P : World ι σ τ ω ρ γ → Prop}
    (hstep : ∀ w e, C w e → P w → P (step S w e)) {w : World ι σ τ ω ρ γ}
    {es : List (Event ι ω γ α)} (hes : RunMeets S C w es) (hw : P w) : P (run S w es) := by
  induction es generalizing w with
  | nil => exact hw
  | cons e es ih => exact ih hes.2 (hstep w e hes.1 hw)

/-- A condition that no step can miss is met by every run. -/
theorem runMeets_of_forall {C : World ι σ τ ω ρ γ → Event ι ω γ α → Prop} (hC : ∀ w e, C w e)
    (w : World ι σ τ ω ρ γ) (es : List (Event ι ω γ α)) : RunMeets S C w es := by
  induction es generalizing w with
  | nil => trivial
  | cons e es ih => exact ⟨hC w e, ih _⟩

/-- What meets a condition meets a weaker one. -/
theorem RunMeets.mono {C C' : World ι σ τ ω ρ γ → Event ι ω γ α → Prop} (h : ∀ w e, C w e → C' w e)
    {w : World ι σ τ ω ρ γ} {es : List (Event ι ω γ α)} (hes : RunMeets S C w es) :
    RunMeets S C' w es := by
  induction es generalizing w with
  | nil => trivial
  | cons e es ih => exact ⟨h w e hes.1, ih hes.2⟩

/-- What meets a condition meets what follows from it under an invariant. -/
theorem RunMeets.of_invariant {C C' : World ι σ τ ω ρ γ → Event ι ω γ α → Prop}
    {P : World ι σ τ ω ρ γ → Prop} (hstep : ∀ w e, P w → P (step S w e))
    (h : ∀ w e, P w → C w e → C' w e) {w : World ι σ τ ω ρ γ} {es : List (Event ι ω γ α)}
    (hes : RunMeets S C w es) (hw : P w) : RunMeets S C' w es := by
  induction es generalizing w with
  | nil => trivial
  | cons e es ih => exact ⟨h w e hw hes.1, ih hes.2 (hstep w e hw)⟩

theorem runMeets_and {C C' : World ι σ τ ω ρ γ → Event ι ω γ α → Prop} {w : World ι σ τ ω ρ γ}
    {es : List (Event ι ω γ α)} (h : RunMeets S C w es) (h' : RunMeets S C' w es) :
    RunMeets S (fun w e => C w e ∧ C' w e) w es := by
  induction es generalizing w with
  | nil => trivial
  | cons e es ih => exact ⟨⟨h.1, h'.1⟩, ih h.2 h'.2⟩

/-- A condition on the events alone. -/
theorem runMeets_of_mem {C : Event ι ω γ α → Prop} {es : List (Event ι ω γ α)}
    (h : ∀ e ∈ es, C e) (w : World ι σ τ ω ρ γ) : RunMeets S (fun _ e => C e) w es := by
  induction es generalizing w with
  | nil => trivial
  | cons e es ih =>
    exact ⟨h e List.mem_cons_self, ih (fun e' he' => h e' (List.mem_cons_of_mem _ he')) _⟩

/-! ## What a client sees -/

/-- What the client who sent an event gets back. -/
inductive Outcome (ρ ε : Type) where
  | silent
  | answer (r : ρ)
  | committed
  | refused (e : ε)

def outcome (w : World ι σ τ ω ρ γ) : Event ι ω γ α → Outcome ρ ε
  | .op n o =>
    match w.slots[n]? with
    | none => .silent
    | some slot => .answer (S.exec o w.shared slot.tx).1
  | .commit n g =>
    match w.slots[n]? with
    | none => .silent
    | some slot =>
      match S.commit g w.shared slot.tx with
      | .error e => .refused e
      | .ok _ => .committed
  | _ => .silent

/-- What the clients see of a run. -/
def outcomes : World ι σ τ ω ρ γ → List (Event ι ω γ α) → List (Outcome ρ ε)
  | _, [] => []
  | w, e :: es => outcome S w e :: outcomes (step S w e) es

/-- **Two stores in lockstep.**  If every admissible step of both, from related worlds, shows the
    clients related outcomes and leads to related worlds, then so does every admissible run. -/
theorem run_lockstep {σ' τ' ρ' ε' : Type} {S' : Store ι σ' τ' ω ρ' γ ε' α}
    {C : World ι σ τ ω ρ γ → Event ι ω γ α → Prop}
    {R : World ι σ τ ω ρ γ → World ι σ' τ' ω ρ' γ → Prop} {V : Outcome ρ ε → Outcome ρ' ε' → Prop}
    (hstep : ∀ w w' e, C w e → R w w' →
      V (outcome S w e) (outcome S' w' e) ∧ R (step S w e) (step S' w' e))
    {w : World ι σ τ ω ρ γ} {w' : World ι σ' τ' ω ρ' γ} {es : List (Event ι ω γ α)}
    (hes : RunMeets S C w es) (hw : R w w') :
    List.Forall₂ V (outcomes S w es) (outcomes S' w' es) ∧ R (run S w es) (run S' w' es) := by
  induction es generalizing w w' with
  | nil => exact ⟨List.Forall₂.nil, hw⟩
  | cons e es ih =>
    obtain ⟨hfirst, hw'⟩ := hstep w w' e hes.1 hw
    obtain ⟨hrest, hend⟩ := ih hes.2 hw'
    exact ⟨List.Forall₂.cons hfirst hrest, hend⟩

/-! ## Transactions stay where they are -/

/-- How many transactions an event opens. -/
def Event.opened : Event ι ω γ α → Nat
  | .begin _ => 1
  | _ => 0

theorem length_slots_step (w : World ι σ τ ω ρ γ) (e : Event ι ω γ α) :
    (step S w e).slots.length = w.slots.length + e.opened := by
  cases e with
  | begin i => exact List.length_append
  | op n o =>
    cases hn : w.slots[n]? <;> simp only [step, hn, World.executed, List.length_set] <;> rfl
  | commit n g =>
    cases hn : w.slots[n]? with
    | none => simp only [step, hn]; rfl
    | some slot =>
      cases hc : S.commit g w.shared slot.tx <;>
        simp only [step, hn, hc, World.committed, List.length_set] <;> rfl
  | abort n => cases hn : w.slots[n]? <;> simp only [step, hn, List.length_set] <;> rfl
  | admin a => rfl

theorem length_slots_run (w : World ι σ τ ω ρ γ) (es : List (Event ι ω γ α)) :
    (run S w es).slots.length = w.slots.length + (es.map Event.opened).sum := by
  induction es generalizing w with
  | nil => rfl
  | cons e es ih =>
    have hstep := length_slots_step S w e
    rw [run_cons, ih, List.map_cons, List.sum_cons]
    omega

/-- What a step does to one transaction: nothing, unless the event names it. -/
theorem slot_step {w : World ι σ τ ω ρ γ} {n : Nat} {slot : Slot ι τ ω ρ}
    (hn : w.slots[n]? = some slot) (e : Event ι ω γ α) :
    (step S w e).slots[n]? = some slot ∨
    (∃ o, e = .op n o ∧ (step S w e).slots[n]? =
      some ⟨slot.init, (S.exec o w.shared slot.tx).2,
        slot.script ++ [(o, (S.exec o w.shared slot.tx).1)]⟩) ∨
    (∃ g r, e = .commit n g ∧ S.commit g w.shared slot.tx = .ok r ∧
      (step S w e).slots[n]? = some { slot with tx := r.2 }) ∨
    (e = .abort n ∧ (step S w e).slots[n]? = some { slot with tx := S.abort slot.tx }) := by
  have hlt : n < w.slots.length := (List.getElem?_eq_some_iff.mp hn).1
  rcases step_cases S w e with h | ⟨i, rfl, h⟩ | ⟨m, o, slot', rfl, hm, h⟩ |
    ⟨m, g, slot', r, rfl, hm, hc, h⟩ | ⟨m, slot', rfl, hm, h⟩ | ⟨a, rfl, h⟩
  · exact Or.inl (by rw [h, hn])
  · refine Or.inl ?_
    rw [h]
    simp only [List.getElem?_append_left hlt, hn]
  · by_cases hmn : m = n
    · subst hmn
      obtain rfl := Option.some_inj.mp (hm.symm.trans hn)
      refine Or.inr (Or.inl ⟨o, rfl, ?_⟩)
      rw [h]
      simp only [World.executed, List.getElem?_set_self hlt]
    · refine Or.inl ?_
      rw [h]
      simp only [World.executed, List.getElem?_set_ne hmn, hn]
  · by_cases hmn : m = n
    · subst hmn
      obtain rfl := Option.some_inj.mp (hm.symm.trans hn)
      refine Or.inr (Or.inr (Or.inl ⟨g, r, rfl, hc, ?_⟩))
      rw [h]
      simp only [World.committed, List.getElem?_set_self hlt]
    · refine Or.inl ?_
      rw [h]
      simp only [World.committed, List.getElem?_set_ne hmn, hn]
  · by_cases hmn : m = n
    · subst hmn
      obtain rfl := Option.some_inj.mp (hm.symm.trans hn)
      refine Or.inr (Or.inr (Or.inr ⟨rfl, ?_⟩))
      rw [h]
      simp only [List.getElem?_set_self hlt]
    · refine Or.inl ?_
      rw [h]
      simp only [List.getElem?_set_ne hmn, hn]
  · exact Or.inl (by rw [h]; exact hn)

/-- A transaction that was opened stays open to inspection for the rest of the run. -/
theorem slot_run {w : World ι σ τ ω ρ γ} {n : Nat} {slot : Slot ι τ ω ρ}
    (hn : w.slots[n]? = some slot) (es : List (Event ι ω γ α)) :
    ∃ slot', (run S w es).slots[n]? = some slot' ∧ slot'.init = slot.init := by
  induction es generalizing w slot with
  | nil => exact ⟨slot, hn, rfl⟩
  | cons e es ih =>
    rcases slot_step S hn e with h | ⟨o, _, h⟩ | ⟨g, r, _, _, h⟩ | ⟨_, h⟩
    all_goals
      obtain ⟨slot', hslot', hinit⟩ := ih h
      exact ⟨slot', hslot', hinit⟩

end StateSpec.Interleaving
