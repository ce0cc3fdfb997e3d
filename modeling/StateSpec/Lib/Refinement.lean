/-
  REFINEMENT — what a store of documents is for, said without its documents.

  1. An `Object` says what a request may do to an abstract state and what is answered; it may leave a
     choice, so it is a relation.  `Serves o s₀ log s`: the requests of the list, carried out one after
     another with the answers beside them, lead from `s₀` to `s`.
  2. Objects are put together: `beside` is two objects with a state each, `seen` is an object under other
     names for its requests and answers, and `transaction` takes any number of requests at once, where
     what is asked next may depend on the answers before (`Calls`).
  3. `Implements program o Stands`: each program does to its documents what the object may do to the
     state they stand for.  What implements an object, implements its transactions
     (`Implements.transactions`), and two stores that leave each other's documents alone implement the
     two objects beside each other (`Implements.beside`).
  4. `Implements.serves` is the crux: every history of the programs is one of the object.
-/
import StateSpec.Lib.Program

namespace StateSpec

variable {C K D ε ι ι' ρ ρ' σ σ' α : Type}

/-! ## Objects -/

/-- What a request may do to the state, and what is answered. -/
abbrev Object (σ ι ρ : Type) := σ → ι → ρ → σ → Prop

/-- The calls of one transaction. -/
inductive Calls (ι ρ α : Type) where
  | done (a : α)
  | call (request : ι) (next : ρ → Calls ι ρ α)

namespace Object

/-- The object carries out the requests of the list, each with the answer beside it. -/
inductive Serves (o : Object σ ι ρ) (s₀ : σ) : List (ι × ρ) → σ → Prop where
  | nil : Serves o s₀ [] s₀
  | snoc {log : List (ι × ρ)} {s s' : σ} {request : ι} {answer : ρ} :
      Serves o s₀ log s → o s request answer s' → Serves o s₀ (log ++ [(request, answer)]) s'

/-- The object under other names: `request` and `answer` translate. -/
def seen (o : Object σ ι ρ) (request : ι' → ι) (answer : ρ → ρ') : Object σ ι' ρ' :=
  fun s i r s' => ∃ a, o s (request i) a s' ∧ r = answer a

/-- Two objects with a state each; a request is for one of them and leaves the other alone. -/
inductive beside (o : Object σ ι ρ) (o' : Object σ' ι' ρ') : Object (σ × σ') (ι ⊕ ι') (ρ ⊕ ρ') where
  | left {s t : σ} {s' : σ'} {request : ι} {answer : ρ} : o s request answer t →
      beside o o' (s, s') (.inl request) (.inl answer) (t, s')
  | right {s : σ} {s' t' : σ'} {request : ι'} {answer : ρ'} : o' s' request answer t' →
      beside o o' (s, s') (.inr request) (.inr answer) (s, t')

/-- All calls of a transaction, with nothing in between. -/
inductive transaction (o : Object σ ι ρ) : Object σ (Calls ι ρ α) α where
  | done {s : σ} {a : α} : transaction o s (.done a) a s
  | call {s s' s'' : σ} {request : ι} {answer : ρ} {next : ρ → Calls ι ρ α} {a : α} :
      o s request answer s' → transaction o s' (next answer) a s'' →
      transaction o s (.call request next) a s''

end Object

/-! ## Programs -/

/-- The program of a transaction: the programs of its calls, one after another. -/
def Calls.program (program : ι → Program C K D ε ρ) : Calls ι ρ α → Program C K D ε α
  | .done a => pure a
  | .call request next => program request >>= fun answer => (next answer).program program

/-- The programs of two stores. -/
def Program.beside (program : ι → Program C K D ε ρ) (program' : ι' → Program C K D ε ρ') :
    ι ⊕ ι' → Program C K D ε (ρ ⊕ ρ')
  | .inl request => .inl <$> program request
  | .inr request => .inr <$> program' request

variable [DecidableEq C] [DecidableEq K] {program : ι → Program C K D ε ρ}
  {program' : ι' → Program C K D ε ρ'} {o : Object σ ι ρ} {o' : Object σ' ι' ρ'}
  {Stands : Documents C K D → σ → Prop} {Stands' : Documents C K D → σ' → Prop}

/-- Programs that do to their documents what the object may do to the state they stand for. -/
structure Implements (program : ι → Program C K D ε ρ) (o : Object σ ι ρ)
    (Stands : Documents C K D → σ → Prop) : Prop where
  step : ∀ {d d' s request answer}, Stands d s → (program request).Runs d answer d' →
    ∃ s', o s request answer s' ∧ Stands d' s'

/-- No run of the programs changes what the documents stand for. -/
structure Respects (program : ι → Program C K D ε ρ) (Stands : Documents C K D → σ → Prop) : Prop where
  kept : ∀ {d d' s request answer}, Stands d s → (program request).Runs d answer d' → Stands d' s

/-- **Two stores beside each other.** -/
theorem Implements.beside (h : Implements program o Stands) (h' : Implements program' o' Stands')
    (hrespects : Respects program Stands') (hrespects' : Respects program' Stands) :
    Implements (Program.beside program program') (o.beside o')
      fun d (s : σ × σ') => Stands d s.1 ∧ Stands' d s.2 := by
  refine ⟨fun {d d' s request answer} hstands hruns => ?_⟩
  cases request with
  | inl request =>
    obtain ⟨r, hr, rfl⟩ := Program.runs_map.mp hruns
    obtain ⟨t, ho, ht⟩ := h.step hstands.1 hr
    exact ⟨(t, s.2), .left ho, ht, hrespects.kept hstands.2 hr⟩
  | inr request =>
    obtain ⟨r, hr, rfl⟩ := Program.runs_map.mp hruns
    obtain ⟨t, ho, ht⟩ := h'.step hstands.2 hr
    exact ⟨(s.1, t), .right ho, hrespects'.kept hstands.1 hr, ht⟩

/-- **Transactions of several calls**: induction on the calls, each of which starts where the one before
    it ended. -/
theorem Implements.transactions (h : Implements program o Stands) :
    Implements (Calls.program program : Calls ι ρ α → _) o.transaction Stands := by
  refine ⟨fun {d d' s calls a} hstands hruns => ?_⟩
  induction calls generalizing d s with
  | done b =>
    obtain ⟨rfl, rfl⟩ := Program.runs_pure.mp hruns
    exact ⟨s, .done, hstands⟩
  | call request next ih =>
    obtain ⟨answer, mid, hcall, hrest⟩ := Program.runs_do.mp hruns
    obtain ⟨t, ho, ht⟩ := h.step hstands hcall
    obtain ⟨s', htransaction, hs'⟩ := ih answer ht hrest
    exact ⟨s', .call ho htransaction, hs'⟩

/-- Requests that met a condition met a weaker one. -/
theorem History.mono {P Q : List (ι × ρ) → Documents C K D → ι → Prop} {d₀ d : Documents C K D}
    {log : List (ι × ρ)} (h : History program P d₀ log d)
    (hPQ : ∀ log d request, P log d request → Q log d request) : History program Q d₀ log d := by
  induction h with
  | nil => exact .nil
  | snoc _ hP hruns ih => exact .snoc ih (hPQ _ _ _ hP) hruns

/-- **Forward simulation**: induction on the history; the state the documents stand for goes along. -/
theorem Implements.serves (h : Implements program o Stands)
    {P : List (ι × ρ) → Documents C K D → ι → Prop} {d₀ d : Documents C K D} {s₀ : σ}
    {log : List (ι × ρ)} (hhistory : History program P d₀ log d) (hstart : Stands d₀ s₀) :
    ∃ s, o.Serves s₀ log s ∧ Stands d s := by
  induction hhistory with
  | nil => exact ⟨s₀, .nil, hstart⟩
  | snoc _ _ hruns ih =>
    obtain ⟨s, hserves, hstands⟩ := ih
    obtain ⟨s', hlast, hstands'⟩ := h.step hstands hruns
    exact ⟨s', .snoc hserves hlast, hstands'⟩

end StateSpec
