/-
  PROGRAMS THAT READ TOKENS — recursive-descent parsers whose loops need not end, for any type of tokens,
  of reports and of loops.

  A `Reading` program looks at a list of tokens through a cursor and reports what it does not like.
  Its loops are those of the source: nothing makes them advance.  Each gets as many iterations as there
  is `fuel`, and a program that needs more is unfinished; so it RETURNS on some tokens when it has a
  result with enough fuel.  Every iteration that comes to its end is kept: its loop, the token it began
  at, and the cursor before and after it.

  Such a program returns when every iteration moves the cursor.  A loop may be `Stuck` at some tokens:
  there an iteration leaves the cursor where it is, and the next one finds what it found.
  * `Sound` says that a program goes forward only, does the same with more fuel, and that its
    iterations move the cursor exactly where their loops are not stuck;
  * `Moves` says that it moves the cursor itself;
  * `Returns m` says that nothing but a stuck loop keeps it from returning, where `m` tokens are left.
  They are classes: a program built with `>>=`, `if` and `loop` has them from its parts.  What they
  give for a whole program is `returns_iff` and `iteration_moves_iff`.
-/
import Mathlib.Data.List.Basic
import Mathlib.Tactic.Push

namespace StateSpec

namespace Reading

/-- Tokens, some of which mark the end. -/
class EndMarked (τ : Type) where
  atEnd : τ → Bool

/-- Loops, some of which are stuck at some tokens. -/
class Sticking (ℓ τ : Type) where
  Stuck : ℓ → τ → Prop

export Sticking (Stuck)

/-- What a program reads, and how many iterations each of its loops gets. -/
structure Input (τ : Type) where
  fuel : Nat
  tokens : List τ

/-- How far a program has come, and what it has reported. -/
structure Cursor (ρ : Type) where
  current : Nat
  reports : List ρ

/-- An iteration of a loop, from its beginning to its end. -/
structure Iteration (ℓ τ : Type) where
  loop : ℓ
  token : τ
  before : Nat
  after : Nat
deriving DecidableEq

/-- The iterations that came to their end, and the result, if there is one. -/
structure Outcome (τ ρ ℓ α : Type) where
  iterations : List (Iteration ℓ τ)
  result : Option (α × Cursor ρ)

end Reading

open Reading

/-- A program that reads tokens `τ` and reports `ρ`, in loops `ℓ`. -/
def Reading (τ ρ ℓ α : Type) := Input τ → Cursor ρ → Outcome τ ρ ℓ α

namespace Reading

variable {τ ρ ℓ α β γ : Type}

/-- One program after another. -/
def andThen (p : Reading τ ρ ℓ α) (q : α → Reading τ ρ ℓ β) : Reading τ ρ ℓ β := fun i c =>
  match (p i c).result with
  | none => ⟨(p i c).iterations, none⟩
  | some (a, c') => ⟨(p i c).iterations ++ (q a i c').iterations, (q a i c').result⟩

instance : Monad (Reading τ ρ ℓ) where
  pure a := fun _ c => ⟨[], some (a, c)⟩
  bind := andThen

/-- No result, whatever the fuel. -/
def unfinished : Reading τ ρ ℓ α := fun _ _ => ⟨[], none⟩

/-! ## Programs -/

section

variable [Inhabited τ]

/-- The token at an offset from the cursor; behind the last token there is the last token. -/
def peek (offset : Nat) (tokens : List τ) (current : Nat) : τ :=
  tokens.getD (current + offset) (tokens.getLastD default)

/-- The token before the cursor. -/
def previous (tokens : List τ) (current : Nat) : τ :=
  tokens.getD (current - 1) (tokens.getLastD default)

variable [EndMarked τ]

def isAtEnd (tokens : List τ) (current : Nat) : Bool := EndMarked.atEnd (peek 0 tokens current)

/-- What there is to see at the cursor. -/
def view (f : List τ → Nat → α) : Reading τ ρ ℓ α := fun i c => ⟨[], some (f i.tokens c.current, c)⟩

/-- The cursor moves on, but not past the end. -/
def advance : Reading τ ρ ℓ τ := fun i c =>
  if isAtEnd i.tokens c.current then ⟨[], some (previous i.tokens c.current, c)⟩
  else ⟨[], some (previous i.tokens (c.current + 1), { c with current := c.current + 1 })⟩

/-- Where `advance` leads. -/
def afterToken (tokens : List τ) (current : Nat) : Nat :=
  if isAtEnd tokens current then current else current + 1

theorem advance_eq (i : Input τ) (c : Cursor ρ) :
    (advance : Reading τ ρ ℓ τ) i c = ⟨[], some (previous i.tokens (afterToken i.tokens c.current),
      { c with current := afterToken i.tokens c.current })⟩ := by
  unfold advance afterToken
  split <;> rfl

/-- A report on what there is to see. -/
def report (f : List τ → Nat → ρ) : Reading τ ρ ℓ Unit := fun i c =>
  ⟨[], some ((), { c with reports := c.reports ++ [f i.tokens c.current] })⟩

/-- At most `n` iterations. -/
def iterate (l : ℓ) (cond : β → List τ → Nat → Bool) (body : β → Reading τ ρ ℓ β) (i : Input τ) :
    Nat → β → Cursor ρ → Outcome τ ρ ℓ β
  | 0, b, c =>
    if cond b i.tokens c.current && !isAtEnd i.tokens c.current then ⟨[], none⟩ else ⟨[], some (b, c)⟩
  | n + 1, b, c =>
    if cond b i.tokens c.current && !isAtEnd i.tokens c.current then
      match (body b i c).result with
      | none => ⟨(body b i c).iterations, none⟩
      | some (b', c') =>
        ⟨(body b i c).iterations ++ ⟨l, peek 0 i.tokens c.current, c.current, c'.current⟩ ::
            (iterate l cond body i n b' c').iterations,
          (iterate l cond body i n b' c').result⟩
    else ⟨[], some (b, c)⟩

/-- `while (cond && !is_at_end()) body`, on what the body has built so far. -/
def loop (l : ℓ) (cond : β → List τ → Nat → Bool) (body : β → Reading τ ρ ℓ β) (b : β) :
    Reading τ ρ ℓ β :=
  fun i c => iterate l cond body i i.fuel b c

end

/-! ## Where a program can be -/

section

variable [EndMarked τ]

/-- The place of the first end marker. -/
def last (tokens : List τ) : Nat := tokens.findIdx EndMarked.atEnd

/-- There is an end marker, and the cursor is not behind it. -/
structure Within (tokens : List τ) (current : Nat) : Prop where
  ended : last tokens < tokens.length
  le : current ≤ last tokens

variable [Inhabited τ] {tokens : List τ} {current : Nat}

theorem isAtEnd_last (h : last tokens < tokens.length) : isAtEnd tokens (last tokens) = true := by
  rw [isAtEnd, peek, Nat.add_zero, List.getD_eq_getElem?_getD, List.getElem?_eq_getElem h]
  exact List.findIdx_getElem

/-- Before the end there is something to read. -/
theorem Within.lt_last (h : Within tokens current) (hmore : isAtEnd tokens current = false) :
    current < last tokens := by
  rcases Nat.lt_or_eq_of_le h.le with hlt | heq
  · exact hlt
  · rw [heq, isAtEnd_last h.ended] at hmore
    cases hmore

/-- The cursor is at the end only in front of the first end marker. -/
theorem Within.eq_last (h : Within tokens current) (hend : isAtEnd tokens current = true) :
    current = last tokens := by
  rcases Nat.lt_or_eq_of_le h.le with hlt | heq
  · have hlen : current < tokens.length := Nat.lt_trans hlt h.ended
    rw [isAtEnd, peek, Nat.add_zero, List.getD_eq_getElem?_getD, List.getElem?_eq_getElem hlen] at hend
    have hbefore : EndMarked.atEnd tokens[current] = false := List.not_of_lt_findIdx hlt
    rw [Option.getD_some, hbefore] at hend
    cases hend
  · exact heq

theorem le_afterToken (tokens : List τ) (current : Nat) : current ≤ afterToken tokens current := by
  unfold afterToken
  split <;> omega

theorem afterToken_le_last {tokens : List τ} {current : Nat} (h : Within tokens current) :
    afterToken tokens current ≤ last tokens := by
  unfold afterToken
  split
  · exact h.le
  · rename_i hmore
    exact h.lt_last (Bool.eq_false_iff.mpr hmore)

/-- What is left to read behind a token. -/
theorem left_advance {m : Nat} {i : Input τ} {c c' : Cursor ρ} {token : τ}
    (hwithin : Within i.tokens c.current) (hm : last i.tokens - c.current ≤ m + 1)
    (h : ((advance : Reading τ ρ ℓ τ) i c).result = some (token, c')) :
    last i.tokens - c'.current ≤ m := by
  rw [advance_eq, Option.some.injEq, Prod.mk.injEq, afterToken] at h
  rw [← h.2]
  split
  · rename_i hend
    show last i.tokens - c.current ≤ m
    have heq := hwithin.eq_last hend
    omega
  · show last i.tokens - (c.current + 1) ≤ m
    omega

end

/-! ## What programs do, in parts -/

section

variable {p : Reading τ ρ ℓ α} {q : α → Reading τ ρ ℓ β} {i : Input τ} {c c' : Cursor ρ} {a : α}

theorem bind_unfinished (h : (p i c).result = none) : (p >>= q) i c = ⟨(p i c).iterations, none⟩ := by
  show andThen p q i c = _
  rw [andThen]
  split
  · rfl
  · rename_i heq
    rw [h] at heq
    cases heq

theorem bind_finished (h : (p i c).result = some (a, c')) :
    (p >>= q) i c = ⟨(p i c).iterations ++ (q a i c').iterations, (q a i c').result⟩ := by
  show andThen p q i c = _
  rw [andThen]
  split
  · rename_i heq
    rw [h] at heq
    cases heq
  · rename_i heq
    rw [h] at heq
    cases heq
    rfl

/-- What has a result behind a program has one in it. -/
theorem bind_result {b : β} {c'' : Cursor ρ} (h : ((p >>= q) i c).result = some (b, c'')) :
    ∃ a c', (p i c).result = some (a, c') ∧ (q a i c').result = some (b, c'') ∧
      (p >>= q) i c = ⟨(p i c).iterations ++ (q a i c').iterations, (q a i c').result⟩ := by
  rcases hp : (p i c).result with _ | ⟨a, c'⟩
  · rw [bind_unfinished hp] at h
    cases h
  · have hbind := bind_finished (q := q) hp
    rw [hbind] at h
    exact ⟨a, c', rfl, h, hbind⟩

end

section

variable [Inhabited τ] [EndMarked τ] {l : ℓ} {cond : β → List τ → Nat → Bool}
  {body : β → Reading τ ρ ℓ β} {i : Input τ} {n : Nat} {b b' : β} {c c' : Cursor ρ}

/-- Whether one more iteration begins. -/
def goesOn (cond : β → List τ → Nat → Bool) (b : β) (tokens : List τ) (current : Nat) : Prop :=
  cond b tokens current = true ∧ isAtEnd tokens current = false

theorem iterate_done (h : ¬ goesOn cond b i.tokens c.current) :
    iterate l cond body i n b c = ⟨[], some (b, c)⟩ := by
  have hstop : ¬ (cond b i.tokens c.current && !isAtEnd i.tokens c.current) = true := by
    intro hgo
    rw [Bool.and_eq_true, Bool.not_eq_true'] at hgo
    exact h hgo
  cases n with
  | zero => rw [iterate, if_neg hstop]
  | succ n => rw [iterate, if_neg hstop]

theorem iterate_zero (h : goesOn cond b i.tokens c.current) :
    iterate l cond body i 0 b c = ⟨[], none⟩ := by
  rw [iterate, if_pos]
  rw [h.1, h.2]
  rfl

theorem iterate_unfinished (h : goesOn cond b i.tokens c.current) (hb : (body b i c).result = none) :
    iterate l cond body i (n + 1) b c = ⟨(body b i c).iterations, none⟩ := by
  rw [iterate, if_pos (by rw [h.1, h.2]; rfl)]
  split
  · rfl
  · rename_i heq
    rw [hb] at heq
    cases heq

theorem iterate_finished (h : goesOn cond b i.tokens c.current)
    (hb : (body b i c).result = some (b', c')) :
    iterate l cond body i (n + 1) b c =
      ⟨(body b i c).iterations ++ ⟨l, peek 0 i.tokens c.current, c.current, c'.current⟩ ::
          (iterate l cond body i n b' c').iterations,
        (iterate l cond body i n b' c').result⟩ := by
  rw [iterate, if_pos (by rw [h.1, h.2]; rfl)]
  split
  · rename_i heq
    rw [hb] at heq
    cases heq
  · rename_i heq
    rw [hb] at heq
    cases heq
    rfl

end

/-! ## The classes -/

section

variable [EndMarked τ] [Sticking ℓ τ]

/-- **A sound program**: it goes forward, it does the same with more fuel, and its iterations move the
    cursor exactly where their loops are not stuck. -/
class Sound (p : Reading τ ρ ℓ α) : Prop where
  forward : ∀ {i c a c'}, (p i c).result = some (a, c') → c.current ≤ c'.current
  stops : ∀ {i c a c'}, Within i.tokens c.current → (p i c).result = some (a, c') →
    c'.current ≤ last i.tokens
  extends' : ∀ {tokens c fuel fuel'}, fuel ≤ fuel' → (p ⟨fuel, tokens⟩ c).result ≠ none →
    p ⟨fuel', tokens⟩ c = p ⟨fuel, tokens⟩ c
  grows : ∀ {tokens c fuel fuel'}, fuel ≤ fuel' →
    (p ⟨fuel, tokens⟩ c).iterations ⊆ (p ⟨fuel', tokens⟩ c).iterations
  iterates : ∀ {i c}, Within i.tokens c.current → ∀ it ∈ (p i c).iterations,
    (it.before < it.after ↔ ¬ Stuck it.loop it.token)
  passes : ∀ {i c r}, Within i.tokens c.current → (p i c).result = some r →
    ∀ it ∈ (p i c).iterations, ¬ Stuck it.loop it.token

/-- Where `m` tokens are left and there is fuel for all of them, only a stuck loop keeps the program
    from returning. -/
class Returns (m : Nat) (p : Reading τ ρ ℓ α) : Prop where
  returns : ∀ {i c}, Within i.tokens c.current → last i.tokens ≤ i.fuel →
    last i.tokens - c.current ≤ m → (p i c).result = none →
    ∃ it ∈ (p i c).iterations, Stuck it.loop it.token

/-- A loop that is never stuck. -/
class Calm (τ : Type) {ℓ : Type} [Sticking ℓ τ] (l : ℓ) : Prop where
  never : ∀ t : τ, ¬ Stuck l t

variable {p : Reading τ ρ ℓ α} {q : α → Reading τ ρ ℓ β}

theorem Sound.within [Sound p] {i : Input τ} {c c' : Cursor ρ} {a : α}
    (h : Within i.tokens c.current) (hp : (p i c).result = some (a, c')) :
    Within i.tokens c'.current :=
  ⟨h.ended, Sound.stops h hp⟩

/-- A program that makes no iteration and always has a result. -/
theorem Sound.of_still (f : Input τ → Cursor ρ → α × Cursor ρ)
    (hp : ∀ i c, p i c = ⟨[], some (f i c)⟩)
    (hfuel : ∀ fuel fuel' tokens c, f ⟨fuel, tokens⟩ c = f ⟨fuel', tokens⟩ c)
    (hforward : ∀ i c, c.current ≤ (f i c).2.current)
    (hstops : ∀ i c, Within i.tokens c.current → (f i c).2.current ≤ last i.tokens) : Sound p where
  forward := by
    intro i c a c' h
    rw [hp, Option.some.injEq] at h
    have hle := hforward i c
    rwa [h] at hle
  stops := by
    intro i c a c' hwithin h
    rw [hp, Option.some.injEq] at h
    have hle := hstops i c hwithin
    rwa [h] at hle
  extends' := by
    intro tokens c fuel fuel' hle h
    rw [hp, hp, hfuel]
  grows := by
    intro tokens c fuel fuel' hle
    rw [hp]
    exact List.nil_subset _
  iterates := by
    intro i c hwithin it hit
    rw [hp] at hit
    cases hit
  passes := by
    intro i c r hwithin h it hit
    rw [hp] at hit
    cases hit

theorem Returns.of_result {m : Nat} (h : ∀ i c, (p i c).result ≠ none) : Returns m p where
  returns := by
    intro i c hwithin hfuel hm hnone
    exact absurd hnone (h i c)

end

section

variable [Inhabited τ] [EndMarked τ]

/-- The program moves the cursor where there is something to read and the test succeeds. -/
class MovesIf (test : List τ → Nat → Bool) (p : Reading τ ρ ℓ α) : Prop where
  moves : ∀ {i c a c'}, Within i.tokens c.current → isAtEnd i.tokens c.current = false →
    test i.tokens c.current = true → (p i c).result = some (a, c') → c.current < c'.current

/-- The program moves the cursor where there is something to read. -/
class Moves (p : Reading τ ρ ℓ α) : Prop where
  moves : ∀ {i c a c'}, Within i.tokens c.current → isAtEnd i.tokens c.current = false →
    (p i c).result = some (a, c') → c.current < c'.current

/-- A loop whose iterations move the cursor, except those that are stuck. -/
class Progress [Sticking ℓ τ] (l : ℓ) (cond : β → List τ → Nat → Bool)
    (body : β → Reading τ ρ ℓ β) : Prop where
  moves : ∀ {i c b b' c'}, Within i.tokens c.current → goesOn cond b i.tokens c.current →
    ¬ Stuck l (peek 0 i.tokens c.current) → (body b i c).result = some (b', c') →
    c.current < c'.current
  sticks : ∀ {i b} {c : Cursor ρ}, Within i.tokens c.current → goesOn cond b i.tokens c.current →
    Stuck l (peek 0 i.tokens c.current) →
    ∃ b' reports, body b i c = ⟨[], some (b', ⟨c.current, reports⟩)⟩ ∧
      cond b' i.tokens c.current = true

end

/-! ## Programs without loops -/

section

variable [EndMarked τ] [Sticking ℓ τ]

instance (a : α) : Sound (pure a : Reading τ ρ ℓ α) :=
  Sound.of_still (fun _ c => (a, c)) (fun _ _ => rfl) (fun _ _ _ _ => rfl) (fun _ _ => Nat.le_refl _)
    (fun _ _ h => h.le)

instance (m : Nat) (a : α) : Returns m (pure a : Reading τ ρ ℓ α) :=
  Returns.of_result fun _ _ => nofun

instance (f : List τ → Nat → α) : Sound (view f : Reading τ ρ ℓ α) :=
  Sound.of_still (fun i c => (f i.tokens c.current, c)) (fun _ _ => rfl) (fun _ _ _ _ => rfl)
    (fun _ _ => Nat.le_refl _) (fun _ _ h => h.le)

instance (m : Nat) (f : List τ → Nat → α) : Returns m (view f : Reading τ ρ ℓ α) :=
  Returns.of_result fun _ _ => nofun

instance (f : List τ → Nat → ρ) : Sound (report f : Reading τ ρ ℓ Unit) :=
  Sound.of_still (fun i c => ((), { c with reports := c.reports ++ [f i.tokens c.current] }))
    (fun _ _ => rfl) (fun _ _ _ _ => rfl) (fun _ _ => Nat.le_refl _) (fun _ _ h => h.le)

instance (m : Nat) (f : List τ → Nat → ρ) : Returns m (report f : Reading τ ρ ℓ Unit) :=
  Returns.of_result fun _ _ => nofun

instance : Sound (unfinished : Reading τ ρ ℓ α) where
  forward := nofun
  stops := nofun
  extends' := fun _ h => absurd rfl h
  grows := fun _ => List.nil_subset _
  iterates := nofun
  passes := nofun

variable [Inhabited τ]

instance : Sound (advance : Reading τ ρ ℓ τ) :=
  Sound.of_still _ advance_eq (fun _ _ _ _ => rfl) (fun i c => le_afterToken i.tokens c.current)
    (fun _ _ h => afterToken_le_last h)

instance (m : Nat) : Returns m (advance : Reading τ ρ ℓ τ) :=
  Returns.of_result fun i c => by rw [advance_eq]; nofun

instance : Moves (advance : Reading τ ρ ℓ τ) where
  moves := by
    intro i c a c' hwithin hmore h
    rw [advance_eq, Option.some.injEq, Prod.mk.injEq, afterToken, hmore] at h
    rw [← h.2]
    exact Nat.lt_succ_self _

end

/-! ## One program after another -/

section

variable [EndMarked τ] [Sticking ℓ τ] {p : Reading τ ρ ℓ α} {q : α → Reading τ ρ ℓ β}

instance Sound.bind [Sound p] [∀ a, Sound (q a)] : Sound (p >>= q) where
  forward := by
    intro i c b c'' h
    obtain ⟨a, c', hp, hq, -⟩ := bind_result h
    exact Nat.le_trans (Sound.forward hp) (Sound.forward hq)
  stops := by
    intro i c b c'' hwithin h
    obtain ⟨a, c', hp, hq, -⟩ := bind_result h
    exact Sound.stops (Sound.within hwithin hp) hq
  extends' := by
    intro tokens c fuel fuel' hle h
    obtain ⟨⟨b, c''⟩, hr⟩ := Option.ne_none_iff_exists'.mp h
    obtain ⟨a, c', hp, hq, heq⟩ := bind_result hr
    have hp' : p ⟨fuel', tokens⟩ c = p ⟨fuel, tokens⟩ c :=
      Sound.extends' hle (by rw [hp]; exact Option.some_ne_none _)
    have hq' : q a ⟨fuel', tokens⟩ c' = q a ⟨fuel, tokens⟩ c' :=
      Sound.extends' hle (by rw [hq]; exact Option.some_ne_none _)
    rw [heq, bind_finished (by rw [hp']; exact hp), hp', hq']
  grows := by
    intro tokens c fuel fuel' hle
    have hsub : (p ⟨fuel, tokens⟩ c).iterations ⊆ (p ⟨fuel', tokens⟩ c).iterations :=
      Sound.grows hle
    rcases hp : (p ⟨fuel, tokens⟩ c).result with _ | ⟨a, c'⟩
    · rw [bind_unfinished hp]
      -- the longer run makes these iterations, whatever comes behind them
      rcases hp' : (p ⟨fuel', tokens⟩ c).result with _ | ⟨a', c''⟩
      · rw [bind_unfinished hp']
        exact hsub
      · rw [bind_finished hp']
        exact List.subset_append_of_subset_left _ hsub
    · have hsame : p ⟨fuel', tokens⟩ c = p ⟨fuel, tokens⟩ c :=
        Sound.extends' hle (by rw [hp]; exact Option.some_ne_none _)
      rw [bind_finished hp, bind_finished (by rw [hsame]; exact hp), hsame]
      have hq : (q a ⟨fuel, tokens⟩ c').iterations ⊆ (q a ⟨fuel', tokens⟩ c').iterations :=
        Sound.grows hle
      exact List.append_subset.mpr ⟨List.subset_append_left _ _,
        List.subset_append_of_subset_right _ hq⟩
  iterates := by
    intro i c hwithin it hit
    rcases hp : (p i c).result with _ | ⟨a, c'⟩
    · rw [bind_unfinished hp] at hit
      exact Sound.iterates hwithin it hit
    · rw [bind_finished hp] at hit
      rcases List.mem_append.mp hit with hit | hit
      · exact Sound.iterates hwithin it hit
      · exact Sound.iterates (Sound.within hwithin hp) it hit
  passes := by
    intro i c r hwithin h it hit
    obtain ⟨a, c', hp, hq, heq⟩ := bind_result h
    rw [heq] at hit
    rcases List.mem_append.mp hit with hit | hit
    · exact Sound.passes hwithin hp it hit
    · exact Sound.passes (Sound.within hwithin hp) hq it hit

/-- What a program returns after another, when that leaves at most as much to read as it may. -/
theorem Returns.bind_of [Sound p] {m k : Nat} (hp : Returns m p) (hq : ∀ a, Returns k (q a))
    (hleft : ∀ {i c a c'}, Within i.tokens c.current → last i.tokens - c.current ≤ m →
      (p i c).result = some (a, c') → last i.tokens - c'.current ≤ k) : Returns m (p >>= q) where
  returns := by
    intro i c hwithin hfuel hm hnone
    rcases hr : (p i c).result with _ | ⟨a, c'⟩
    · rw [bind_unfinished hr]
      exact hp.returns hwithin hfuel hm hr
    · rw [bind_finished hr] at hnone ⊢
      obtain ⟨it, hit, hstuck⟩ :=
        (hq a).returns (Sound.within hwithin hr) hfuel (hleft hwithin hm hr) hnone
      exact ⟨it, List.mem_append_right _ hit, hstuck⟩

instance Returns.bind {m : Nat} [Sound p] [hp : Returns m p] [hq : ∀ a, Returns m (q a)] :
    Returns m (p >>= q) :=
  Returns.bind_of hp hq fun _ hm h => by
    have hforward := Sound.forward h
    omega

instance {cond : Prop} [Decidable cond] {p' : Reading τ ρ ℓ α} [Sound p] [Sound p'] :
    Sound (if cond then p else p') := by
  split <;> infer_instance

instance {m : Nat} {cond : Prop} [Decidable cond] {p' : Reading τ ρ ℓ α} [Returns m p]
    [Returns m p'] : Returns m (if cond then p else p') := by
  split <;> infer_instance

end

/-! ## Programs that move the cursor -/

section

variable [Inhabited τ] [EndMarked τ] {p : Reading τ ρ ℓ α} {q : α → Reading τ ρ ℓ β}
  {test : List τ → Nat → Bool}

theorem MovesIf.mono {test' : List τ → Nat → Bool} (h : MovesIf test' p)
    (himp : ∀ {tokens current}, test tokens current = true → test' tokens current = true) :
    MovesIf test p where
  moves := by
    intro i c a c' hwithin hmore htest hr
    exact h.moves hwithin hmore (himp htest) hr

instance (priority := low) MovesIf.of_moves [Moves p] : MovesIf test p where
  moves := by
    intro i c a c' hwithin hmore _ h
    exact Moves.moves hwithin hmore h

variable [Sticking ℓ τ]

instance : Moves (unfinished : Reading τ ρ ℓ α) := ⟨nofun⟩

/-- The first program moves it. -/
instance MovesIf.bind_left [MovesIf test p] [∀ a, Sound (q a)] : MovesIf test (p >>= q) where
  moves := by
    intro i c b c'' hwithin hmore htest h
    obtain ⟨a, c', hp, hq, -⟩ := bind_result h
    exact Nat.lt_of_lt_of_le (MovesIf.moves hwithin hmore htest hp) (Sound.forward hq)

/-- The second program moves it, or the first one has done. -/
instance MovesIf.bind_right [Sound p] [∀ a, Sound (q a)] [∀ a, MovesIf test (q a)] :
    MovesIf test (p >>= q) where
  moves := by
    intro i c b c'' hwithin hmore htest h
    obtain ⟨a, c', hp, hq, -⟩ := bind_result h
    have hforward := Sound.forward hp
    rcases Nat.lt_or_eq_of_le hforward with hlt | heq
    · exact Nat.lt_of_lt_of_le hlt (Sound.forward hq)
    · rw [heq] at hmore htest ⊢
      exact MovesIf.moves (Sound.within hwithin hp) hmore htest hq

/-- One of the programs moves it, each under a test of its own. -/
theorem MovesIf.bind_cases {test' test'' : List τ → Nat → Bool} [Sound p] [∀ a, Sound (q a)]
    (hp : MovesIf test' p) (hq : ∀ a, MovesIf test'' (q a))
    (hcases : ∀ {tokens current}, test tokens current = true →
      test' tokens current = true ∨ test'' tokens current = true) : MovesIf test (p >>= q) where
  moves := by
    intro i c b c'' hwithin hmore htest h
    rcases hcases htest with htest' | htest''
    · exact (inferInstance : MovesIf test' (p >>= q)).moves hwithin hmore htest' h
    · exact (inferInstance : MovesIf test'' (p >>= q)).moves hwithin hmore htest'' h

instance Moves.bind_left [Moves p] [∀ a, Sound (q a)] : Moves (p >>= q) where
  moves := by
    intro i c b c'' hwithin hmore h
    obtain ⟨a, c', hp, hq, -⟩ := bind_result h
    exact Nat.lt_of_lt_of_le (Moves.moves hwithin hmore hp) (Sound.forward hq)

instance Moves.bind_right [Sound p] [∀ a, Sound (q a)] [∀ a, Moves (q a)] : Moves (p >>= q) where
  moves := by
    intro i c b c'' hwithin hmore h
    obtain ⟨a, c', hp, hq, -⟩ := bind_result h
    have hforward := Sound.forward hp
    rcases Nat.lt_or_eq_of_le hforward with hlt | heq
    · exact Nat.lt_of_lt_of_le hlt (Sound.forward hq)
    · rw [heq] at hmore ⊢
      exact Moves.moves (Sound.within hwithin hp) hmore hq

end

/-! ## Loops -/

section

variable [Inhabited τ] [EndMarked τ] {l : ℓ} {cond : β → List τ → Nat → Bool}
  {body : β → Reading τ ρ ℓ β} {i : Input τ}

/-- The runs of a loop: it is done, it is cut off in front of an iteration or within one, or it makes
    one and goes on. -/
inductive LoopRun (l : ℓ) (cond : β → List τ → Nat → Bool) (body : β → Reading τ ρ ℓ β) (i : Input τ) :
    Nat → β → Cursor ρ → Outcome τ ρ ℓ β → Prop where
  | done {n b c} (hgo : ¬ goesOn cond b i.tokens c.current) :
    LoopRun l cond body i n b c ⟨[], some (b, c)⟩
  | cut {b c} (hgo : goesOn cond b i.tokens c.current) : LoopRun l cond body i 0 b c ⟨[], none⟩
  | within {n b c} (hgo : goesOn cond b i.tokens c.current) (hbody : (body b i c).result = none) :
    LoopRun l cond body i (n + 1) b c ⟨(body b i c).iterations, none⟩
  | step {n b c b' c' o} (hgo : goesOn cond b i.tokens c.current)
    (hbody : (body b i c).result = some (b', c')) (hrest : LoopRun l cond body i n b' c' o) :
    LoopRun l cond body i (n + 1) b c
      ⟨(body b i c).iterations ++ ⟨l, peek 0 i.tokens c.current, c.current, c'.current⟩ :: o.iterations,
        o.result⟩

theorem loopRun_iterate (n : Nat) (b : β) (c : Cursor ρ) :
    LoopRun l cond body i n b c (iterate l cond body i n b c) := by
  induction n generalizing b c with
  | zero =>
    by_cases hgo : goesOn cond b i.tokens c.current
    · rw [iterate_zero hgo]
      exact .cut hgo
    · rw [iterate_done hgo]
      exact .done hgo
  | succ n ih =>
    by_cases hgo : goesOn cond b i.tokens c.current
    · rcases hbody : (body b i c).result with _ | ⟨b', c'⟩
      · rw [iterate_unfinished hgo hbody]
        exact .within hgo hbody
      · rw [iterate_finished hgo hbody]
        exact .step hgo hbody (ih b' c')
    · rw [iterate_done hgo]
      exact .done hgo

/-- What every iteration keeps, the loop keeps. -/
theorem LoopRun.keeps {n : Nat} {b b' : β} {c c' : Cursor ρ} {o : Outcome τ ρ ℓ β}
    {P : Cursor ρ → Prop} (h : LoopRun l cond body i n b c o)
    (hbody : ∀ {b c b' c'}, (body b i c).result = some (b', c') → P c → P c')
    (hr : o.result = some (b', c')) (hc : P c) : P c' := by
  induction h with
  | done hgo =>
    cases hr
    exact hc
  | cut hgo => cases hr
  | within hgo hcut => cases hr
  | step hgo hstep hrest ih => exact ih hr (hbody hstep hc)

variable [Sticking ℓ τ] {n : Nat} {b : β} {c : Cursor ρ} {o : Outcome τ ρ ℓ β}

theorem LoopRun.forward [∀ b, Sound (body b)] (h : LoopRun l cond body i n b c o) {b' : β}
    {c' : Cursor ρ} (hr : o.result = some (b', c')) : c.current ≤ c'.current := by
  induction h with
  | done hgo =>
    cases hr
    exact Nat.le_refl _
  | cut hgo => cases hr
  | within hgo hbody => cases hr
  | step hgo hbody hrest ih => exact Nat.le_trans (Sound.forward hbody) (ih hr)

theorem LoopRun.stops [∀ b, Sound (body b)] (h : LoopRun l cond body i n b c o) {b' : β}
    {c' : Cursor ρ} (hwithin : Within i.tokens c.current) (hr : o.result = some (b', c')) :
    c'.current ≤ last i.tokens := by
  induction h with
  | done hgo =>
    cases hr
    exact hwithin.le
  | cut hgo => cases hr
  | within hgo hbody => cases hr
  | step hgo hbody hrest ih => exact ih (Sound.within hwithin hbody) hr

/-- At a token where the loop is stuck it goes on as long as there is fuel. -/
theorem LoopRun.unending [progress : Progress l cond body] (h : LoopRun l cond body i n b c o)
    (hwithin : Within i.tokens c.current) (hgo : goesOn cond b i.tokens c.current)
    (hstuck : Stuck l (peek 0 i.tokens c.current)) : o.result = none := by
  induction h with
  | done hstop => exact absurd hgo hstop
  | cut _ => rfl
  | within _ hbody => rfl
  | step _ hbody hrest ih =>
    obtain ⟨b1, reports, hsame, hcond⟩ := progress.sticks hwithin hgo hstuck
    rw [hsame] at hbody
    cases hbody
    exact ih hwithin ⟨hcond, hgo.2⟩ hstuck

variable [∀ b, Sound (body b)] [progress : Progress l cond body]

theorem LoopRun.iterates (h : LoopRun l cond body i n b c o) (hwithin : Within i.tokens c.current) :
    ∀ it ∈ o.iterations, (it.before < it.after ↔ ¬ Stuck it.loop it.token) := by
  induction h with
  | done hgo => exact nofun
  | cut hgo => exact nofun
  | within hgo hbody => exact Sound.iterates hwithin
  | @step n b c b' c' o hgo hbody hrest ih =>
    intro it hit
    rcases List.mem_append.mp hit with hit | hit
    · exact Sound.iterates hwithin it hit
    · rcases List.mem_cons.mp hit with rfl | hit
      · constructor
        · intro hmoved hstuck
          -- a stuck iteration ends where it began
          obtain ⟨b1, reports, hsame, -⟩ := progress.sticks hwithin hgo hstuck
          rw [hsame] at hbody
          cases hbody
          exact absurd hmoved (Nat.lt_irrefl _)
        · intro hstuck
          exact progress.moves hwithin hgo hstuck hbody
      · exact ih (Sound.within hwithin hbody) it hit

theorem LoopRun.passes (h : LoopRun l cond body i n b c o) (hwithin : Within i.tokens c.current)
    (hr : o.result ≠ none) : ∀ it ∈ o.iterations, ¬ Stuck it.loop it.token := by
  induction h with
  | done hgo => exact nofun
  | cut hgo => exact absurd rfl hr
  | within hgo hbody => exact absurd rfl hr
  | @step n b c b' c' o hgo hbody hrest ih =>
    intro it hit
    rcases List.mem_append.mp hit with hit | hit
    · exact Sound.passes hwithin hbody it hit
    · rcases List.mem_cons.mp hit with rfl | hit
      · intro hstuck
        exact hr (LoopRun.unending (.step hgo hbody hrest) hwithin hgo hstuck)
      · exact ih (Sound.within hwithin hbody) hr it hit

/-- With fuel for what is left to read, only a stuck iteration keeps the loop from ending. -/
theorem LoopRun.returns {m : Nat} [∀ b, Returns m (body b)] (h : LoopRun l cond body i n b c o)
    (hwithin : Within i.tokens c.current) (hfuel : last i.tokens ≤ i.fuel)
    (hm : last i.tokens - c.current ≤ m) (hn : last i.tokens - c.current ≤ n)
    (hr : o.result = none) : ∃ it ∈ o.iterations, Stuck it.loop it.token := by
  induction h with
  | done hgo => cases hr
  | cut hgo =>
    have hlt := hwithin.lt_last hgo.2
    omega
  | within hgo hbody => exact Returns.returns hwithin hfuel hm hbody
  | @step n b c b' c' o hgo hbody hrest ih =>
    by_cases hstuck : Stuck l (peek 0 i.tokens c.current)
    · exact ⟨_, List.mem_append_right _ List.mem_cons_self, hstuck⟩
    · have hmoved : c.current < c'.current := progress.moves hwithin hgo hstuck hbody
      have hlt := hwithin.lt_last hgo.2
      obtain ⟨it, hit, hit'⟩ := ih (Sound.within hwithin hbody) (by omega) (by omega) hr
      exact ⟨it, List.mem_append_right _ (List.mem_cons_of_mem _ hit), hit'⟩

end

section

variable [Inhabited τ] [EndMarked τ] [Sticking ℓ τ] {l : ℓ} {cond : β → List τ → Nat → Bool}
  {body : β → Reading τ ρ ℓ β} {tokens : List τ} {fuel fuel' n n' : Nat} {b : β} {c : Cursor ρ}
  {o : Outcome τ ρ ℓ β}

/-- A loop that has ended does the same with more fuel. -/
theorem LoopRun.extends' [∀ b, Sound (body b)] (h : LoopRun l cond body ⟨fuel, tokens⟩ n b c o)
    (hfuel : fuel ≤ fuel') (hn : n ≤ n') (hr : o.result ≠ none) :
    iterate l cond body ⟨fuel', tokens⟩ n' b c = o := by
  induction h generalizing n' with
  | done hgo => exact iterate_done hgo
  | cut hgo => exact absurd rfl hr
  | within hgo hbody => exact absurd rfl hr
  | @step n b c b' c' o hgo hbody hrest ih =>
    obtain ⟨k, rfl⟩ : ∃ k, n' = k + 1 := ⟨n' - 1, by omega⟩
    have hsame : body b ⟨fuel', tokens⟩ c = body b ⟨fuel, tokens⟩ c :=
      Sound.extends' hfuel (by rw [hbody]; exact Option.some_ne_none _)
    have hbody' : (body b ⟨fuel', tokens⟩ c).result = some (b', c') := by rw [hsame]; exact hbody
    rw [iterate_finished (i := ⟨fuel', tokens⟩) hgo hbody', hsame, ih (by omega) hr]

/-- With more fuel a loop makes the iterations it has made, and perhaps more. -/
theorem LoopRun.grows [∀ b, Sound (body b)] (h : LoopRun l cond body ⟨fuel, tokens⟩ n b c o)
    (hfuel : fuel ≤ fuel') (hn : n ≤ n') :
    o.iterations ⊆ (iterate l cond body ⟨fuel', tokens⟩ n' b c).iterations := by
  induction h generalizing n' with
  | done hgo => exact List.nil_subset _
  | cut hgo => exact List.nil_subset _
  | @within n b c hgo hbody =>
    obtain ⟨k, rfl⟩ : ∃ k, n' = k + 1 := ⟨n' - 1, by omega⟩
    have hsub : (body b ⟨fuel, tokens⟩ c).iterations ⊆ (body b ⟨fuel', tokens⟩ c).iterations :=
      Sound.grows hfuel
    rcases hbody' : (body b ⟨fuel', tokens⟩ c).result with _ | ⟨b', c'⟩
    · rw [iterate_unfinished (i := ⟨fuel', tokens⟩) hgo hbody']
      exact hsub
    · rw [iterate_finished (i := ⟨fuel', tokens⟩) hgo hbody']
      exact List.subset_append_of_subset_left _ hsub
  | @step n b c b' c' o hgo hbody hrest ih =>
    obtain ⟨k, rfl⟩ : ∃ k, n' = k + 1 := ⟨n' - 1, by omega⟩
    have hsame : body b ⟨fuel', tokens⟩ c = body b ⟨fuel, tokens⟩ c :=
      Sound.extends' hfuel (by rw [hbody]; exact Option.some_ne_none _)
    have hbody' : (body b ⟨fuel', tokens⟩ c).result = some (b', c') := by rw [hsame]; exact hbody
    rw [iterate_finished (i := ⟨fuel', tokens⟩) hgo hbody', hsame]
    exact List.append_subset.mpr ⟨List.subset_append_left _ _,
      List.subset_append_of_subset_right _ (List.cons_subset_cons _ (ih (by omega)))⟩

instance Sound.of_loop [∀ b, Sound (body b)] [Progress l cond body] (b : β) :
    Sound (loop l cond body b) where
  forward h := (loopRun_iterate _ _ _).forward h
  stops hwithin h := (loopRun_iterate _ _ _).stops hwithin h
  extends' hle h := (loopRun_iterate _ _ _).extends' hle hle h
  grows hle := (loopRun_iterate _ _ _).grows hle hle
  iterates hwithin := (loopRun_iterate _ _ _).iterates hwithin
  passes hwithin h := (loopRun_iterate _ _ _).passes hwithin (by
    show (loop l cond body b _ _).result ≠ none
    rw [h]
    exact Option.some_ne_none _)

instance Returns.of_loop {m : Nat} [∀ b, Sound (body b)] [Progress l cond body]
    [∀ b, Returns m (body b)] (b : β) : Returns m (loop l cond body b) where
  returns hwithin hfuel hm h :=
    (loopRun_iterate _ _ _).returns hwithin hfuel hm (by omega) h

/-- Where nothing is left to read, no loop makes an iteration. -/
instance Returns.of_loop_at_end (b : β) : Returns 0 (loop l cond body b) where
  returns := by
    intro i c hwithin hfuel hm h
    have hstop : ¬ goesOn cond b i.tokens c.current := by
      intro hgo
      have hlt := hwithin.lt_last hgo.2
      omega
    rw [loop, iterate_done hstop] at h
    cases h

/-- A loop that is never stuck makes progress when its body moves the cursor. -/
instance Progress.of_moves [hcalm : Calm τ l] [hmoves : ∀ b, MovesIf (cond b) (body b)] :
    Progress l cond body where
  moves := by
    intro i c b b' c' hwithin hgo _ h
    exact (hmoves b).moves hwithin hgo.2 hgo.1 h
  sticks := by
    intro i b c _ _ hstuck
    exact absurd hstuck (hcalm.never _)

/-- A loop that makes an iteration moves the cursor. -/
theorem MovesIf.of_loop {test : List τ → Nat → Bool} {b : β} [∀ b, Sound (body b)]
    [hmoves : ∀ b, MovesIf (cond b) (body b)]
    (htest : ∀ {tokens current}, test tokens current = true → cond b tokens current = true) :
    MovesIf test (loop l cond body b) where
  moves := by
    intro i c b' c' hwithin hmore hin h
    have hgo : goesOn cond b i.tokens c.current := ⟨htest hin, hmore⟩
    rw [loop] at h
    rcases hfuel : i.fuel with _ | n
    · rw [hfuel, iterate_zero hgo] at h
      cases h
    · rcases hbody : (body b i c).result with _ | ⟨b1, c1⟩
      · rw [hfuel, iterate_unfinished hgo hbody] at h
        cases h
      · rw [hfuel, iterate_finished hgo hbody] at h
        exact Nat.lt_of_lt_of_le ((hmoves b).moves hwithin hgo.2 hgo.1 hbody)
          ((loopRun_iterate n b1 c1).forward h)

instance MovesIf.of_while {test : List τ → Nat → Bool} (b : β) [∀ b, Sound (body b)]
    [∀ b, MovesIf test (body b)] : MovesIf test (loop l (fun _ => test) body b) :=
  MovesIf.of_loop fun htest => htest

end

/-! ## Choices -/

section

variable {p p' : Reading τ ρ ℓ α} {test : List τ → Nat → Bool}

/-- A program where the test succeeds, and another one where it fails. -/
def choose (test : List τ → Nat → Bool) (p p' : Reading τ ρ ℓ α) : Reading τ ρ ℓ α :=
  view test >>= fun b => if b = true then p else p'

theorem choose_true {i : Input τ} {c : Cursor ρ} (h : test i.tokens c.current = true) :
    choose test p p' i c = p i c := by
  have hview : ((view test : Reading τ ρ ℓ Bool) i c).result = some (true, c) := by rw [view, h]
  rw [choose, bind_finished hview]
  rfl

theorem choose_false {i : Input τ} {c : Cursor ρ} (h : test i.tokens c.current = false) :
    choose test p p' i c = p' i c := by
  have hview : ((view test : Reading τ ρ ℓ Bool) i c).result = some (false, c) := by rw [view, h]
  rw [choose, bind_finished hview]
  rfl

variable [EndMarked τ]

instance [Sticking ℓ τ] [Sound p] [Sound p'] : Sound (choose test p p') := by
  unfold choose
  infer_instance

instance [Sticking ℓ τ] {m : Nat} [Returns m p] [Returns m p'] : Returns m (choose test p p') := by
  unfold choose
  infer_instance

variable [Inhabited τ]

instance Moves.of_choose [hp : MovesIf test p] [hp' : Moves p'] : Moves (choose test p p') where
  moves := by
    intro i c a c' hwithin hmore h
    rcases htest : test i.tokens c.current with _ | _
    · rw [choose_false htest] at h
      exact hp'.moves hwithin hmore h
    · rw [choose_true htest] at h
      exact hp.moves hwithin hmore htest h

/-- Under the test only the first program matters. -/
instance MovesIf.of_choose [hp : MovesIf test p] : MovesIf test (choose test p p') where
  moves := by
    intro i c a c' hwithin hmore htest h
    rw [choose_true htest] at h
    exact hp.moves hwithin hmore htest h

instance (priority := low) MovesIf.of_choose_else {test' : List τ → Nat → Bool} [hp : MovesIf test' p]
    [hp' : MovesIf test p'] : MovesIf test (choose test' p p') where
  moves := by
    intro i c a c' hwithin hmore htest h
    rcases htest' : test' i.tokens c.current with _ | _
    · rw [choose_false htest'] at h
      exact hp'.moves hwithin hmore htest h
    · rw [choose_true htest'] at h
      exact hp.moves hwithin hmore htest' h

end

/-! ## Where a loop is stuck -/

section

variable {test test' : List τ → Nat → Bool} {p p' : Reading τ ρ ℓ α}

/-- The tests do not both succeed. -/
class Excludes (test test' : List τ → Nat → Bool) : Prop where
  excludes : ∀ {tokens current}, test tokens current = true → test' tokens current = false

/-- Where the test succeeds the program makes no iteration, has a result and leaves the cursor. -/
class StaysIf (test : List τ → Nat → Bool) (p : Reading τ ρ ℓ α) : Prop where
  stays : ∀ {i} {c : Cursor ρ}, test i.tokens c.current = true →
    ∃ a reports, p i c = ⟨[], some (a, ⟨c.current, reports⟩)⟩

instance (a : α) : StaysIf test (pure a : Reading τ ρ ℓ α) := ⟨fun _ => ⟨a, _, rfl⟩⟩

instance (f : List τ → Nat → α) : StaysIf test (view f : Reading τ ρ ℓ α) := ⟨fun _ => ⟨_, _, rfl⟩⟩

instance (f : List τ → Nat → ρ) : StaysIf test (report f : Reading τ ρ ℓ Unit) :=
  ⟨fun _ => ⟨_, _, rfl⟩⟩

instance StaysIf.bind {q : α → Reading τ ρ ℓ β} [hp : StaysIf test p] [hq : ∀ a, StaysIf test (q a)] :
    StaysIf test (p >>= q) where
  stays := by
    intro i c htest
    obtain ⟨a, reports, hpc⟩ := hp.stays htest
    obtain ⟨b, reports', hqc⟩ := (hq a).stays (i := i) (c := ⟨c.current, reports⟩) htest
    refine ⟨b, reports', ?_⟩
    rw [bind_finished (by rw [hpc]), hpc, hqc]
    rfl

instance {cond : Prop} [Decidable cond] [StaysIf test p] [StaysIf test p'] :
    StaysIf test (if cond then p else p') := by
  split <;> infer_instance

instance StaysIf.of_choose [hex : Excludes test test'] [hp' : StaysIf test p'] :
    StaysIf test (choose test' p p') where
  stays := by
    intro i c htest
    rw [choose_false (hex.excludes htest)]
    exact hp'.stays htest

variable [Inhabited τ] [EndMarked τ] {l : ℓ} {cond : β → List τ → Nat → Bool}
  {body : β → Reading τ ρ ℓ β}

instance StaysIf.of_loop (b : β) [hex : Excludes test (cond b)] : StaysIf test (loop l cond body b) where
  stays := by
    intro i c htest
    have hstop : ¬ goesOn cond b i.tokens c.current := by
      intro hgo
      rw [goesOn, hex.excludes htest] at hgo
      exact Bool.false_ne_true hgo.1
    exact ⟨b, c.reports, iterate_done hstop⟩

end

/-! ## A whole program -/

section

variable [EndMarked τ] {p : Reading τ ρ ℓ α} {tokens : List τ}

/-- At the first token, with nothing reported. -/
def start : Cursor ρ := ⟨0, []⟩

/-- The program has a result on these tokens. -/
def ReturnsOn (p : Reading τ ρ ℓ α) (tokens : List τ) : Prop :=
  ∃ fuel, (p ⟨fuel, tokens⟩ start).result ≠ none

/-- The iterations of the program on these tokens. -/
def IterationOf (p : Reading τ ρ ℓ α) (tokens : List τ) (it : Iteration ℓ τ) : Prop :=
  ∃ fuel, it ∈ (p ⟨fuel, tokens⟩ start).iterations

theorem within_start (h : last tokens < tokens.length) : Within tokens (start : Cursor ρ).current :=
  ⟨h, Nat.zero_le _⟩

variable [Sticking ℓ τ] [Sound p]

/-- Every iteration, whatever becomes of the program, moves the cursor unless its loop is stuck. -/
theorem iteration_moves_iff (h : last tokens < tokens.length) {it : Iteration ℓ τ}
    (hit : IterationOf p tokens it) : it.before < it.after ↔ ¬ Stuck it.loop it.token := by
  obtain ⟨fuel, hit⟩ := hit
  exact Sound.iterates (within_start h) it hit

/-- **A program returns** exactly when none of its iterations is stuck. -/
theorem returns_iff [hreturns : Returns (last tokens) p] (h : last tokens < tokens.length) :
    ReturnsOn p tokens ↔ ∀ it, IterationOf p tokens it → ¬ Stuck it.loop it.token := by
  constructor
  · rintro ⟨fuel, hr⟩ it ⟨fuel', hit⟩
    obtain ⟨r, hr⟩ := Option.ne_none_iff_exists'.mp hr
    -- with the larger of the two fuels the program returns, and the iteration is among its own
    have hmore : p ⟨max fuel fuel', tokens⟩ start = p ⟨fuel, tokens⟩ start :=
      Sound.extends' (Nat.le_max_left _ _) (by rw [hr]; exact Option.some_ne_none r)
    have hit' := Sound.grows (Nat.le_max_right fuel fuel') hit
    rw [hmore] at hit'
    exact Sound.passes (within_start h) hr it hit'
  · intro hcalm
    refine ⟨last tokens, fun hnone => ?_⟩
    obtain ⟨it, hit, hstuck⟩ :=
      hreturns.returns (within_start h) (Nat.le_refl _) (Nat.sub_le _ _) hnone
    exact hcalm it ⟨last tokens, hit⟩ hstuck

end

end Reading

end StateSpec
