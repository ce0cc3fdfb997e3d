/-
  STATEMENTS WITH EXCEPTIONS — programs whose statements assign to a memory and may throw.

  A throw ends the program and undoes nothing: what has been assigned stays assigned.  So a program that fails
  leaves the memory alone only if it is written that way:
  1. `ReadsOnly` — it assigns nothing, however it ends;
  2. `Total`     — it does not throw;
  3. `Atomic`    — where it throws, it has assigned nothing.

  First reading and then assigning without a throw is atomic (`ReadsOnly.atomic_bind`, `Total.atomic`).
-/
import Mathlib.Logic.Basic

namespace StateSpec

/-- A program over a memory `σ` that throws an `ε` or returns an `α`. -/
abbrev Statements (ε σ α : Type) := ExceptT ε (StateM σ) α

namespace Statements

variable {ε σ α β : Type}

/-- How the program ends, and the memory it leaves. -/
def exec (p : Statements ε σ α) (s : σ) : Except ε α × σ := p.run.run s

/-- A computation on its own. -/
def ofExcept (r : Except ε α) : Statements ε σ α :=
  match r with
  | .error e => throw e
  | .ok a => pure a

@[simp]
theorem exec_pure (a : α) (s : σ) : (pure a : Statements ε σ α).exec s = (.ok a, s) := rfl

@[simp]
theorem exec_throw (e : ε) (s : σ) : (throw e : Statements ε σ α).exec s = (.error e, s) := rfl

@[simp]
theorem exec_get (s : σ) : (get : Statements ε σ σ).exec s = (.ok s, s) := rfl

@[simp]
theorem exec_modify (f : σ → σ) (s : σ) : (modify f : Statements ε σ PUnit).exec s = (.ok ⟨⟩, f s) := rfl

@[simp]
theorem exec_ofExcept (r : Except ε α) (s : σ) : (ofExcept r : Statements ε σ α).exec s = (r, s) := by
  cases r with
  | error e => rfl
  | ok a => rfl

/-- One program behind another. -/
theorem exec_bind (p : Statements ε σ α) (f : α → Statements ε σ β) (s : σ) :
    (p >>= f).exec s =
      match p.exec s with
      | (.error e, s') => (.error e, s')
      | (.ok a, s') => (f a).exec s' := by
  show (ExceptT.bindCont f (p.run.run s).1).run (p.run.run s).2 = _
  rw [exec]
  rcases p.run.run s with ⟨e | a, s'⟩
  · rfl
  · rfl

theorem exec_bind_ok {p : Statements ε σ α} {f : α → Statements ε σ β} {s s' : σ} {a : α}
    (h : p.exec s = (.ok a, s')) : (p >>= f).exec s = (f a).exec s' := by
  rw [exec_bind, h]

/-! ## What failing leaves -/

/-- The program assigns nothing. -/
def ReadsOnly (p : Statements ε σ α) : Prop := ∀ s, (p.exec s).2 = s

/-- The program does not throw. -/
def Total (p : Statements ε σ α) : Prop := ∀ s, ∃ a s', p.exec s = (.ok a, s')

/-- Where the program throws, it has assigned nothing. -/
def Atomic (p : Statements ε σ α) : Prop := ∀ s e s', p.exec s = (.error e, s') → s' = s

theorem readsOnly_pure (a : α) : (pure a : Statements ε σ α).ReadsOnly := fun _ => rfl

theorem readsOnly_throw (e : ε) : (throw e : Statements ε σ α).ReadsOnly := fun _ => rfl

theorem readsOnly_get : (get : Statements ε σ σ).ReadsOnly := fun _ => rfl

theorem readsOnly_ofExcept (r : Except ε α) : (ofExcept r : Statements ε σ α).ReadsOnly := by
  intro s
  rw [exec_ofExcept]

theorem ReadsOnly.bind {p : Statements ε σ α} {f : α → Statements ε σ β} (hp : p.ReadsOnly)
    (hf : ∀ a, (f a).ReadsOnly) : (p >>= f).ReadsOnly := by
  intro s
  have hs := hp s
  rw [exec_bind]
  rcases hrun : p.exec s with ⟨e | a, s'⟩
  · rw [hrun] at hs
    exact hs
  · rw [hrun] at hs
    exact (hf a s').trans hs

theorem total_modify (f : σ → σ) : (modify f : Statements ε σ PUnit).Total := fun s => ⟨⟨⟩, f s, rfl⟩

theorem total_get : (get : Statements ε σ σ).Total := fun s => ⟨s, s, rfl⟩

theorem Total.bind {p : Statements ε σ α} {f : α → Statements ε σ β} (hp : p.Total) (hf : ∀ a, (f a).Total) :
    (p >>= f).Total := by
  intro s
  obtain ⟨a, s', hrun⟩ := hp s
  obtain ⟨b, s'', hrest⟩ := hf a s'
  exact ⟨b, s'', (exec_bind_ok hrun).trans hrest⟩

/-- A loop of statements that do not throw. -/
theorem total_forM {items : List α} {body : α → Statements ε σ PUnit} (h : ∀ a, (body a).Total) :
    (items.forM body).Total := by
  induction items with
  | nil => exact fun s => ⟨⟨⟩, s, rfl⟩
  | cons a rest ih => exact (h a).bind fun _ => ih

theorem Total.atomic {p : Statements ε σ α} (hp : p.Total) : p.Atomic := by
  intro s e s' hrun
  obtain ⟨a, s'', hok⟩ := hp s
  rw [hrun] at hok
  cases hok

/-- **Read first, then assign.** -/
theorem ReadsOnly.atomic_bind {p : Statements ε σ α} {f : α → Statements ε σ β} (hp : p.ReadsOnly)
    (hf : ∀ a, (f a).Atomic) : (p >>= f).Atomic := by
  intro s e s' hrun
  have hs := hp s
  rw [exec_bind] at hrun
  rcases hfirst : p.exec s with ⟨e' | a, s₁⟩
  · rw [hfirst] at hrun hs
    obtain ⟨-, rfl⟩ := Prod.mk.inj hrun
    exact hs
  · rw [hfirst] at hrun hs
    obtain rfl : s₁ = s := hs
    exact hf a s₁ e s' hrun

/-- A loop whose statements assign, as the loop over their effects. -/
theorem exec_forM {items : List α} {body : α → Statements ε σ PUnit} {effect : α → σ → σ}
    (h : ∀ a s, (body a).exec s = (.ok ⟨⟩, effect a s)) (s : σ) :
    (items.forM body).exec s = (.ok ⟨⟩, items.foldl (fun s a => effect a s) s) := by
  induction items generalizing s with
  | nil => rfl
  | cons a rest ih => exact (exec_bind_ok (h a s)).trans (ih _)

end Statements

end StateSpec
