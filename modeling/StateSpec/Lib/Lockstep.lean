/-
  PROGRAMS IN LOCKSTEP — two programs that make corresponding calls on two stores, for any types of
  keys, documents, errors and states.

  A `Machine` is what the calls of a transaction do; `drive` is a program on a machine, alone, and
  `transact` the program with its commit.  A `Coupling` of two machines relates their states so that
  corresponding calls answer alike and keep them related.

  `SameOutcome` compares what two transactions have come to: both have ended with results that
  correspond, on states that correspond, or both have failed with errors that correspond.  The rules
  (`lockstep_ret`, `lockstep_do`, `lockstepFresh_read`, ...) compose it, one for each way to build a
  program; `sameOutcome_transact` closes the transaction, `forall₂_outcomes` goes along a run.
-/
import StateSpec.Lib.Program

namespace StateSpec.Program

section

variable {ε ε' α β σ σ' : Type}

/-- Both have ended alike, or both have failed alike. -/
def SameOutcome (sameError : ε → ε' → Prop) (same : α → β → Prop) (sameState : σ → σ' → Prop) :
    Except ε (α × σ) → Except ε' (β × σ') → Prop
  | .ok (a, s), .ok (b, t) => same a b ∧ sameState s t
  | .error e, .error e' => sameError e e'
  | _, _ => False

variable {sameError : ε → ε' → Prop} {same : α → β → Prop} {sameState : σ → σ' → Prop}
  {x : Except ε (α × σ)} {y : Except ε' (β × σ')}

/-- The two ways to have come to the same. -/
theorem SameOutcome.cases (h : SameOutcome sameError same sameState x y) :
    (∃ e e', x = .error e ∧ y = .error e' ∧ sameError e e') ∨
      ∃ a s b t, x = .ok (a, s) ∧ y = .ok (b, t) ∧ same a b ∧ sameState s t := by
  cases x with
  | error e =>
    cases y with
    | error e' => exact Or.inl ⟨e, e', rfl, rfl, h⟩
    | ok r' => exact h.elim
  | ok r =>
    cases y with
    | error e' => exact h.elim
    | ok r' => exact Or.inr ⟨r.1, r.2, r'.1, r'.2, rfl, rfl, h⟩

end

section

variable {C K D D' ε ε' α β γ γ' : Type} [DecidableEq C] [DecidableEq K]
  {sameError : ε → ε' → Prop} {scan : Documents C K D → C → List (K × D)}
  {scan' : Documents C K D' → C → List (K × D')} {d : Documents C K D} {e : Documents C K D'}
  {p : Program C K D ε α} {q : Program C K D' ε' β}
  {sameState : Documents C K D → Documents C K D' → Prop}

/-- Results may be compared before they are wrapped. -/
theorem sameOutcome_map_iff {f : α → γ} {g : β → γ'} {same : γ → γ' → Prop} :
    SameOutcome sameError same sameState ((f <$> p).eval scan d) ((g <$> q).eval scan' e) ↔
      SameOutcome sameError (fun a b => same (f a) (g b)) sameState (p.eval scan d)
        (q.eval scan' e) := by
  cases hp : p.eval scan d with
  | error x =>
    rw [eval_map_error hp]
    cases hq : q.eval scan' e with
    | error y =>
      rw [eval_map_error hq]
      rfl
    | ok b =>
      rw [eval_map hq]
      rfl
  | ok a =>
    rw [eval_map hp]
    cases hq : q.eval scan' e with
    | error y =>
      rw [eval_map_error hq]
      rfl
    | ok b =>
      rw [eval_map hq]
      rfl

end

/-! ## Machines -/

/-- What the calls of a transaction do to its state. -/
structure Machine (C K D ε σ : Type) where
  get : C → K → σ → Except ε (Option D × σ)
  all : C → σ → Except ε (List (K × D) × σ)
  put : C → K → D → σ → Except ε (Unit × σ)
  erase : C → K → σ → Except ε (Unit × σ)

namespace Machine

variable {C K D ε σ α β : Type} (M : Machine C K D ε σ)

/-- A program on a machine; an error ends it. -/
def drive : Program C K D ε α → σ → Except ε (α × σ)
  | .ret a, s => .ok (a, s)
  | .throw e, _ => .error e
  | .get c k next, s =>
    match M.get c k s with
    | .ok (r, s) => drive (next r) s
    | .error e => .error e
  | .all c next, s =>
    match M.all c s with
    | .ok (l, s) => drive (next l) s
    | .error e => .error e
  | .put c k document next, s =>
    match M.put c k document s with
    | .ok (_, s) => drive next s
    | .error e => .error e
  | .erase c k next, s =>
    match M.erase c k s with
    | .ok (_, s) => drive next s
    | .error e => .error e

/-- **Sequencing.** -/
theorem drive_bind (p : Program C K D ε α) (f : α → Program C K D ε β) (s : σ) :
    M.drive (p.bind f) s = match M.drive p s with
      | .ok (a, s) => M.drive (f a) s
      | .error e => .error e := by
  induction p generalizing s with
  | ret a => rfl
  | throw e => rfl
  | get c k next ih =>
    simp only [bind, drive]
    cases M.get c k s with
    | error e => rfl
    | ok r => exact ih r.1 r.2
  | all c next ih =>
    simp only [bind, drive]
    cases M.all c s with
    | error e => rfl
    | ok r => exact ih r.1 r.2
  | put c k document next ih =>
    simp only [bind, drive]
    cases M.put c k document s with
    | error e => rfl
    | ok r => exact ih r.2
  | erase c k next ih =>
    simp only [bind, drive]
    cases M.erase c k s with
    | error e => rfl
    | ok r => exact ih r.2

/-! ## Transactions -/

/-- A transaction: the program from the beginning, and then the commit. -/
def transact {S : Type} (start : σ) (commit : σ → Except ε S) (p : Program C K D ε α) :
    Except ε (α × S) :=
  match M.drive p start with
  | .ok (a, t) => (commit t).map fun s => (a, s)
  | .error e => .error e

end Machine

/-! ## Couplings -/

/-- Two machines whose corresponding calls answer alike.  A transaction reads before it writes: its
    states are `fresh` while nothing has been written, and only then are reads promised to answer
    alike. -/
structure Coupling {C K D D' ε ε' σ σ' : Type} (M : Machine C K D ε σ) (M' : Machine C K D' ε' σ') where
  /-- Errors that correspond. -/
  sameError : ε → ε' → Prop
  /-- Documents of a collection that correspond. -/
  same : C → D → D' → Prop
  /-- The same of documents that are stored; the stores may promise more of them. -/
  stored : C → D → D' → Prop
  /-- The states correspond, and nothing has been written. -/
  fresh : σ → σ' → Prop
  /-- The states correspond. -/
  going : σ → σ' → Prop
  going_of_fresh : ∀ {s t}, fresh s t → going s t
  get : ∀ c k {s t}, fresh s t →
    SameOutcome sameError (Option.Rel (stored c)) fresh (M.get c k s) (M'.get c k t)
  all : ∀ c {s t}, fresh s t →
    SameOutcome sameError (List.Forall₂ fun r r' => r.1 = r'.1 ∧ stored c r.2 r'.2) fresh
      (M.all c s) (M'.all c t)
  put : ∀ c k {document document' s t}, same c document document' → going s t →
    SameOutcome sameError (fun _ _ => True) going (M.put c k document s) (M'.put c k document' t)
  erase : ∀ c k {s t}, going s t →
    SameOutcome sameError (fun _ _ => True) going (M.erase c k s) (M'.erase c k t)

namespace Coupling

variable {C K D D' ε ε' σ σ' α β γ γ' : Type} {M : Machine C K D ε σ} {M' : Machine C K D' ε' σ'}
  (L : Coupling M M')

/-- The programs come to the same, from any states that correspond. -/
def Lockstep (R : α → β → Prop) (p : Program C K D ε α) (q : Program C K D' ε' β) : Prop :=
  ∀ s t, L.going s t → SameOutcome L.sameError R L.going (M.drive p s) (M'.drive q t)

/-- The same from states in which nothing has been written. -/
def LockstepFresh (R : α → β → Prop) (p : Program C K D ε α) (q : Program C K D' ε' β) : Prop :=
  ∀ s t, L.fresh s t → SameOutcome L.sameError R L.going (M.drive p s) (M'.drive q t)

variable {L} {R : α → β → Prop} {T : γ → γ' → Prop} {p : Program C K D ε α} {q : Program C K D' ε' β}

theorem Lockstep.fresh (h : L.Lockstep R p q) : L.LockstepFresh R p q :=
  fun s t hst => h s t (L.going_of_fresh hst)

theorem lockstep_ret {a : α} {b : β} (h : R a b) :
    L.Lockstep R (pure a : Program C K D ε α) (pure b : Program C K D' ε' β) :=
  fun _ _ hst => ⟨h, hst⟩

theorem lockstep_throw {e : ε} {e' : ε'} (h : L.sameError e e') :
    L.Lockstep R (.throw e) (.throw e') :=
  fun _ _ _ => h

/-! ### Sequencing -/

/-- What corresponds is handed on. -/
theorem sameOutcome_bind {f : α → Program C K D ε γ} {g : β → Program C K D' ε' γ'} {s : σ} {t : σ'}
    (h : SameOutcome L.sameError R L.going (M.drive p s) (M'.drive q t))
    (hnext : ∀ a b, R a b → L.Lockstep T (f a) (g b)) :
    SameOutcome L.sameError T L.going (M.drive (p.bind f) s) (M'.drive (q.bind g) t) := by
  rw [M.drive_bind, M'.drive_bind]
  obtain ⟨e, e', hp, hq, he⟩ | ⟨a, u, b, v, hp, hq, hab, huv⟩ := h.cases
  · rw [hp, hq]
    exact he
  · rw [hp, hq]
    exact hnext a b hab u v huv

/-- **Sequencing** of writes. -/
theorem lockstep_do {f : α → Program C K D ε γ} {g : β → Program C K D' ε' γ'}
    (h : L.Lockstep R p q) (hnext : ∀ a b, R a b → L.Lockstep T (f a) (g b)) :
    L.Lockstep T (p >>= f) (q >>= g) :=
  fun s t hst => sameOutcome_bind (h s t hst) hnext

/-- **Sequencing**: first what reads, then what writes. -/
theorem lockstepFresh_do {f : α → Program C K D ε γ} {g : β → Program C K D' ε' γ'}
    (h : L.LockstepFresh R p q) (hnext : ∀ a b, R a b → L.Lockstep T (f a) (g b)) :
    L.LockstepFresh T (p >>= f) (q >>= g) :=
  fun s t hst => sameOutcome_bind (h s t hst) hnext

theorem lockstepFresh_map {f : α → γ} {g : β → γ'} (h : L.LockstepFresh R p q)
    (hnext : ∀ a b, R a b → T (f a) (g b)) : L.LockstepFresh T (f <$> p) (g <$> q) :=
  lockstepFresh_do h fun a b hab => lockstep_ret (hnext a b hab)

/-- **A branch**, on conditions that hold alike. -/
theorem lockstep_ite {c c' : Prop} [Decidable c] [Decidable c'] {p' : Program C K D ε α}
    {q' : Program C K D' ε' β} (hc : c ↔ c') (hthen : c → L.Lockstep R p q)
    (helse : ¬ c → L.Lockstep R p' q') :
    L.Lockstep R (if c then p else p') (if c' then q else q') := by
  by_cases h : c
  · rw [if_pos h, if_pos (hc.mp h)]
    exact hthen h
  · rw [if_neg h, if_neg (mt hc.mpr h)]
    exact helse h

/-! ### Calls -/

/-- **A read**, before anything has been written. -/
theorem lockstepFresh_read {c : C} {k : K} {f : Option D → Program C K D ε γ}
    {g : Option D' → Program C K D' ε' γ'}
    (hnext : ∀ r r', Option.Rel (L.stored c) r r' → L.LockstepFresh T (f r) (g r')) :
    L.LockstepFresh T (read c k >>= f) (read c k >>= g) := by
  intro s t hst
  show SameOutcome _ _ _ (M.drive (.get c k f) s) (M'.drive (.get c k g) t)
  obtain ⟨e, e', hs, ht, he⟩ | ⟨r, u, r', v, hs, ht, hr, huv⟩ := (L.get c k hst).cases
  · simp only [Machine.drive, hs, ht]
    exact he
  · simp only [Machine.drive, hs, ht]
    exact hnext r r' hr u v huv

/-- **A scan**, before anything has been written. -/
theorem lockstepFresh_scan {c : C} {f : List (K × D) → Program C K D ε γ}
    {g : List (K × D') → Program C K D' ε' γ'}
    (hnext : ∀ l l', List.Forall₂ (fun r r' => r.1 = r'.1 ∧ L.stored c r.2 r'.2) l l' →
      L.LockstepFresh T (f l) (g l')) :
    L.LockstepFresh T (scan c >>= f) (scan c >>= g) := by
  intro s t hst
  show SameOutcome _ _ _ (M.drive (.all c f) s) (M'.drive (.all c g) t)
  obtain ⟨e, e', hs, ht, he⟩ | ⟨l, u, l', v, hs, ht, hl, huv⟩ := (L.all c hst).cases
  · simp only [Machine.drive, hs, ht]
    exact he
  · simp only [Machine.drive, hs, ht]
    exact hnext l l' hl u v huv

theorem lockstep_write {c : C} {document : D} {document' : D'} (h : L.same c document document')
    (k : K) : L.Lockstep (fun _ _ => True) (write c k document) (write c k document') := by
  intro s t hst
  obtain ⟨e, e', hs, ht, he⟩ | ⟨_, u, _, v, hs, ht, -, huv⟩ := (L.put c k h hst).cases
  · simp only [write, Machine.drive, hs, ht]
    exact he
  · simp only [write, Machine.drive, hs, ht]
    exact ⟨trivial, huv⟩

theorem lockstep_remove (c : C) (k : K) :
    L.Lockstep (fun _ _ => True) (remove c k) (remove c k) := by
  intro s t hst
  obtain ⟨e, e', hs, ht, he⟩ | ⟨_, u, _, v, hs, ht, -, huv⟩ := (L.erase c k hst).cases
  · simp only [remove, Machine.drive, hs, ht]
    exact he
  · simp only [remove, Machine.drive, hs, ht]
    exact ⟨trivial, huv⟩

/-! ### Transactions -/

/-- **Whole transactions** come to the same, when the commits do. -/
theorem sameOutcome_transact {S S' : Type} {sameStore : S → S' → Prop} {start : σ} {start' : σ'}
    {commit : σ → Except ε S} {commit' : σ' → Except ε' S'} (hstart : L.fresh start start')
    (hcommit : ∀ s t, L.going s t →
      SameOutcome L.sameError (fun _ _ => True) sameStore ((commit s).map fun u => ((), u))
        ((commit' t).map fun u => ((), u)))
    (h : L.LockstepFresh R p q) :
    SameOutcome L.sameError R sameStore (M.transact start commit p) (M'.transact start' commit' q) := by
  rw [Machine.transact, Machine.transact]
  obtain ⟨e, e', hp, hq, he⟩ | ⟨a, u, b, v, hp, hq, hab, huv⟩ := (h _ _ hstart).cases
  · rw [hp, hq]
    exact he
  · rw [hp, hq]
    -- both programs have ended: the commits decide
    have hend := hcommit u v huv
    simp only
    cases hs : commit u <;> cases ht : commit' v <;> rw [hs, ht] at hend
    · exact hend
    · exact hend.elim
    · exact hend.elim
    · exact ⟨hab, hend.2⟩

end Coupling

/-! ## Runs -/

section

variable {S S' ι ε ε' ρ ρ' : Type}

/-- What requests come to, one after another. -/
def outcomes (step : S → ι → Except ε ρ × S) : S → List ι → List (Except ε ρ)
  | _, [] => []
  | s, request :: rest => (step s request).1 :: outcomes step (step s request).2 rest

/-- What they leave. -/
def stateAfter (step : S → ι → Except ε ρ × S) (s : S) (requests : List ι) : S :=
  requests.foldl (fun s request => (step s request).2) s

/-- **Runs come to the same**, request by request, if every step from states that correspond does.
    A step may count on what holds of the request and of every state the first run has reached. -/
theorem forall₂_outcomes {step : S → ι → Except ε ρ × S} {step' : S' → ι → Except ε' ρ' × S'}
    {P : ι → Prop} {I : S → Prop} {sameState : S → S' → Prop}
    {same : Except ε ρ → Except ε' ρ' → Prop}
    (hstep : ∀ {s t request}, sameState s t → I s → P request →
      same (step s request).1 (step' t request).1 ∧
        sameState (step s request).2 (step' t request).2)
    {s : S} {t : S'} (hst : sameState s t) {requests : List ι} (hP : ∀ request ∈ requests, P request)
    (hI : ∀ done, done <+: requests → I (stateAfter step s done)) :
    List.Forall₂ same (outcomes step s requests) (outcomes step' t requests) := by
  induction requests generalizing s t with
  | nil => exact .nil
  | cons request rest ih =>
    obtain ⟨hsame, hnext⟩ := hstep hst (hI [] List.nil_prefix) (hP request List.mem_cons_self)
    refine .cons hsame (ih hnext (fun r hr => hP r (List.mem_cons_of_mem _ hr)) fun done hdone => ?_)
    exact hI (request :: done) (List.prefix_cons_inj request |>.mpr hdone)

end

end StateSpec.Program
