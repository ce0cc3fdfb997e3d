/-
  TRANSACTION PROGRAMS — what a client does with one transaction of a document store, for any types
  of collections, keys, documents and errors.

  A `Program` gets documents, scans collections, puts and erases, and ends with a result or an
  error; it is a monad.  `Documents` is all that a program can see: which document is at which key
  of which collection.

  `Runs p d a d'` is what a program means on its own: started on the documents `d` it ends with the
  result `a` and leaves the documents `d'`.  A scan answers documents that are there, each key once,
  but not necessarily all of them: that is what a store still guarantees that validates the records
  a scan answered and no others.

  The rules, one for each way to build a program (`runs_ret`, `runs_get`, ...) and one for sequencing
  (`runs_bind`), are all a proof about a program needs.

  A collection that a program `Leaves` is as it was before.

  A `History` is a run of programs one after another: what a store is to its clients when it is
  correct.
-/
import Mathlib.Data.List.Basic

namespace StateSpec

/-- A program of one transaction, over collections `C`, keys `K` and documents `D`. -/
inductive Program (C K D ε α : Type) where
  | ret (a : α)
  | throw (e : ε)
  | get (c : C) (k : K) (next : Option D → Program C K D ε α)
  | all (c : C) (next : List (K × D) → Program C K D ε α)
  | put (c : C) (k : K) (document : D) (next : Program C K D ε α)
  | erase (c : C) (k : K) (next : Program C K D ε α)

/-- The documents of a store. -/
abbrev Documents (C K D : Type) := C → K → Option D

/-- The documents after a write. -/
def Documents.set {C K D : Type} [DecidableEq C] [DecidableEq K] (d : Documents C K D) (c : C) (k : K)
    (document : Option D) : Documents C K D :=
  fun c' k' => if c' = c ∧ k' = k then document else d c' k'

section

variable {C K D : Type} [DecidableEq C] [DecidableEq K] {d : Documents C K D} {c c' : C} {k k' : K}
  {document : Option D}

@[simp] theorem Documents.set_self : d.set c k document c k = document := if_pos ⟨rfl, rfl⟩

theorem Documents.set_of_key_ne (h : k' ≠ k) : d.set c k document c' k' = d c' k' :=
  if_neg fun heq => h heq.2

theorem Documents.set_of_ne (h : c' ≠ c) : d.set c k document c' = d c' :=
  funext fun _ => if_neg fun heq => h heq.1

end

namespace Program

variable {C K D ε α β : Type}

/-- Sequencing: an error ends the whole program. -/
def bind : Program C K D ε α → (α → Program C K D ε β) → Program C K D ε β
  | .ret a, f => f a
  | .throw e, _ => .throw e
  | .get c k next, f => .get c k fun r => (next r).bind f
  | .all c next, f => .all c fun l => (next l).bind f
  | .put c k document next, f => .put c k document (next.bind f)
  | .erase c k next, f => .erase c k (next.bind f)

instance : Monad (Program C K D ε) where
  pure := .ret
  bind := bind

/-- A step that may fail, without a call on the transaction. -/
def ofExcept : Except ε α → Program C K D ε α
  | .ok a => .ret a
  | .error e => .throw e

/-- What a list of steps that may fail computes, one by one. -/
theorem forall₂_of_mapM {f : α → Except ε β} {l : List α} {l' : List β} (h : l.mapM f = .ok l') :
    List.Forall₂ (fun a b => f a = .ok b) l l' := by
  induction l generalizing l' with
  | nil =>
    cases h
    exact .nil
  | cons a l ih =>
    rw [List.mapM_cons] at h
    cases ha : f a with
    | error e =>
      rw [ha] at h
      cases h
    | ok b =>
      cases hl : l.mapM f with
      | error e =>
        rw [ha, hl] at h
        cases h
      | ok bs =>
        rw [ha, hl] at h
        cases h
        exact .cons ha (ih hl)

/-! ## Single calls -/

def read (c : C) (k : K) : Program C K D ε (Option D) := .get c k .ret

def scan (c : C) : Program C K D ε (List (K × D)) := .all c .ret

def write (c : C) (k : K) (document : D) : Program C K D ε Unit := .put c k document (.ret ())

def remove (c : C) (k : K) : Program C K D ε Unit := .erase c k (.ret ())

/-! ## Collections a program leaves alone -/

/-- The program neither puts into the collection nor erases from it. -/
def Leaves (c : C) : Program C K D ε α → Prop
  | .ret _ => True
  | .throw _ => True
  | .get _ _ next => ∀ r, (next r).Leaves c
  | .all _ next => ∀ l, (next l).Leaves c
  | .put c' _ _ next => c' ≠ c ∧ next.Leaves c
  | .erase c' _ next => c' ≠ c ∧ next.Leaves c

theorem leaves_do {c : C} {p : Program C K D ε α} {f : α → Program C K D ε β} (hp : p.Leaves c)
    (hf : ∀ a, (f a).Leaves c) : (p >>= f).Leaves c := by
  show (p.bind f).Leaves c
  induction p with
  | ret a => exact hf a
  | throw e => trivial
  | get c' k next ih => exact fun r => ih r (hp r)
  | all c' next ih => exact fun l => ih l (hp l)
  | put c' k document next ih => exact ⟨hp.1, ih hp.2⟩
  | erase c' k next ih => exact ⟨hp.1, ih hp.2⟩

theorem leaves_map {c : C} {p : Program C K D ε α} {f : α → β} (hp : p.Leaves c) :
    (f <$> p).Leaves c :=
  leaves_do hp fun _ => trivial

@[simp] theorem leaves_read (c c' : C) (k : K) :
    (read c' k : Program C K D ε (Option D)).Leaves c := fun _ => trivial

@[simp] theorem leaves_scan (c c' : C) : (scan c' : Program C K D ε (List (K × D))).Leaves c :=
  fun _ => trivial

@[simp] theorem leaves_ofExcept (c : C) (x : Except ε α) :
    (ofExcept x : Program C K D ε α).Leaves c := by
  cases x <;> trivial

/-- Reading a record leaves everything alone. -/
theorem leaves_decoded {c c' : C} {k : K} {decode : D → Except ε α}
    {next : Option D → Program C K D ε (Option α)} (hnone : next none = pure none)
    (hsome : ∀ document, next (some document) = ofExcept ((decode document).map some)) :
    (read c' k >>= next).Leaves c := by
  refine leaves_do (leaves_read c c' k) fun document => ?_
  cases document with
  | none =>
    rw [hnone]
    trivial
  | some document =>
    rw [hsome]
    exact leaves_ofExcept c _

theorem leaves_write {c c' : C} (hc : c' ≠ c) (k : K) (document : D) :
    (write c' k document : Program C K D ε Unit).Leaves c := ⟨hc, trivial⟩

theorem leaves_remove {c c' : C} (hc : c' ≠ c) (k : K) :
    (remove c' k : Program C K D ε Unit).Leaves c := ⟨hc, trivial⟩

/-! ## The meaning of a program -/

variable [DecidableEq C] [DecidableEq K]

/-- The program, started on the documents `d`, ends with the result `a` and leaves `d'`. -/
inductive Runs : Program C K D ε α → Documents C K D → α → Documents C K D → Prop where
  | ret {a : α} {d : Documents C K D} : Runs (.ret a) d a d
  | get {c : C} {k : K} {next : Option D → Program C K D ε α} {d d' : Documents C K D} {a : α} :
      Runs (next (d c k)) d a d' → Runs (.get c k next) d a d'
  | all {c : C} {next : List (K × D) → Program C K D ε α} {d d' : Documents C K D} {a : α}
      {l : List (K × D)} : (∀ p ∈ l, d c p.1 = some p.2) → (l.map Prod.fst).Nodup →
      Runs (next l) d a d' → Runs (.all c next) d a d'
  | put {c : C} {k : K} {document : D} {next : Program C K D ε α} {d d' : Documents C K D} {a : α} :
      Runs next (d.set c k (some document)) a d' → Runs (.put c k document next) d a d'
  | erase {c : C} {k : K} {next : Program C K D ε α} {d d' : Documents C K D} {a : α} :
      Runs next (d.set c k none) a d' → Runs (.erase c k next) d a d'

variable {d d' : Documents C K D} {a : α}

@[simp] theorem runs_ret {b : α} :
    Runs (.ret b : Program C K D ε α) d a d' ↔ a = b ∧ d' = d := by
  constructor
  · rintro ⟨⟩
    exact ⟨rfl, rfl⟩
  · rintro ⟨rfl, rfl⟩
    exact .ret

@[simp] theorem runs_throw {e : ε} : ¬ Runs (.throw e : Program C K D ε α) d a d' := by
  rintro ⟨⟩

@[simp] theorem runs_get {c : C} {k : K} {next : Option D → Program C K D ε α} :
    Runs (.get c k next) d a d' ↔ Runs (next (d c k)) d a d' := by
  constructor
  · rintro ⟨⟩
    assumption
  · exact .get

theorem runs_all {c : C} {next : List (K × D) → Program C K D ε α} :
    Runs (.all c next) d a d' ↔ ∃ l, (∀ p ∈ l, d c p.1 = some p.2) ∧ (l.map Prod.fst).Nodup ∧
      Runs (next l) d a d' := by
  constructor
  · intro h
    cases h with
    | all hl hnodup h => exact ⟨_, hl, hnodup, h⟩
  · rintro ⟨l, hl, hnodup, h⟩
    exact .all hl hnodup h

@[simp] theorem runs_put {c : C} {k : K} {document : D} {next : Program C K D ε α} :
    Runs (.put c k document next) d a d' ↔ Runs next (d.set c k (some document)) a d' := by
  constructor
  · rintro ⟨⟩
    assumption
  · exact .put

@[simp] theorem runs_erase {c : C} {k : K} {next : Program C K D ε α} :
    Runs (.erase c k next) d a d' ↔ Runs next (d.set c k none) a d' := by
  constructor
  · rintro ⟨⟩
    assumption
  · exact .erase

@[simp] theorem runs_read {c : C} {k : K} {r : Option D} :
    Runs (read c k : Program C K D ε (Option D)) d r d' ↔ r = d c k ∧ d' = d := by
  rw [read, runs_get, runs_ret]

@[simp] theorem runs_scan {c : C} {l : List (K × D)} :
    Runs (scan c : Program C K D ε (List (K × D))) d l d' ↔
      (∀ p ∈ l, d c p.1 = some p.2) ∧ (l.map Prod.fst).Nodup ∧ d' = d := by
  rw [scan, runs_all]
  constructor
  · rintro ⟨l', hl, hnodup, h⟩
    obtain ⟨rfl, rfl⟩ := runs_ret.mp h
    exact ⟨hl, hnodup, rfl⟩
  · rintro ⟨hl, hnodup, rfl⟩
    exact ⟨l, hl, hnodup, .ret⟩

@[simp] theorem runs_write {c : C} {k : K} {document : D} {u : Unit} :
    Runs (write c k document : Program C K D ε Unit) d u d' ↔ d' = d.set c k (some document) := by
  rw [write, runs_put, runs_ret]
  simp

@[simp] theorem runs_remove {c : C} {k : K} {u : Unit} :
    Runs (remove c k : Program C K D ε Unit) d u d' ↔ d' = d.set c k none := by
  rw [remove, runs_erase, runs_ret]
  simp

@[simp] theorem runs_ofExcept {x : Except ε α} :
    Runs (ofExcept x : Program C K D ε α) d a d' ↔ x = .ok a ∧ d' = d := by
  cases x with
  | error e => simp [ofExcept]
  | ok b => simp [ofExcept, eq_comm]

/-- **Sequencing**: one program runs, and then the other on what it left. -/
theorem runs_bind {p : Program C K D ε α} {f : α → Program C K D ε β} {b : β} :
    Runs (p.bind f) d b d' ↔ ∃ a mid, Runs p d a mid ∧ Runs (f a) mid b d' := by
  induction p generalizing d with
  | ret a =>
    constructor
    · exact fun h => ⟨a, d, .ret, h⟩
    · rintro ⟨a', mid, hp, h⟩
      obtain ⟨rfl, rfl⟩ := runs_ret.mp hp
      exact h
  | throw e =>
    constructor
    · exact fun h => absurd h runs_throw
    · rintro ⟨a, mid, hp, -⟩
      exact absurd hp runs_throw
  | get c k next ih => simp only [bind, runs_get, ih]
  | all c next ih =>
    simp only [bind, runs_all, ih]
    constructor
    · rintro ⟨l, hl, hnodup, a, mid, hp, h⟩
      exact ⟨a, mid, ⟨l, hl, hnodup, hp⟩, h⟩
    · rintro ⟨a, mid, ⟨l, hl, hnodup, hp⟩, h⟩
      exact ⟨l, hl, hnodup, a, mid, hp, h⟩
  | put c k document next ih => simp only [bind, runs_put, ih]
  | erase c k next ih => simp only [bind, runs_erase, ih]

/-- The same in the notation of the monad. -/
theorem runs_do {p : Program C K D ε α} {f : α → Program C K D ε β} {b : β} :
    Runs (p >>= f) d b d' ↔ ∃ a mid, Runs p d a mid ∧ Runs (f a) mid b d' := runs_bind

theorem runs_map {p : Program C K D ε α} {f : α → β} {b : β} :
    Runs (f <$> p) d b d' ↔ ∃ a, Runs p d a d' ∧ b = f a := by
  rw [show f <$> p = p.bind fun a => .ret (f a) from rfl, runs_bind]
  constructor
  · rintro ⟨a, mid, hp, h⟩
    obtain ⟨rfl, rfl⟩ := runs_ret.mp h
    exact ⟨a, hp, rfl⟩
  · rintro ⟨a, hp, rfl⟩
    exact ⟨a, d', hp, .ret⟩

@[simp] theorem runs_pure {b : α} :
    Runs (pure b : Program C K D ε α) d a d' ↔ a = b ∧ d' = d := runs_ret

/-- The document at a key, decoded: `none` when there is none or it cannot be decoded. -/
def decodedAt (decode : D → Except ε α) (d : Documents C K D) (c : C) (k : K) : Option α :=
  (d c k).bind fun document => (decode document).toOption

/-- **Reading a record**: a program that gets a document and decodes it. -/
theorem runs_decoded {c : C} {k : K} {decode : D → Except ε α}
    {next : Option D → Program C K D ε (Option α)} {r : Option α}
    (h : (read c k >>= next).Runs d r d') (hnone : next none = pure none)
    (hsome : ∀ document, next (some document) = ofExcept ((decode document).map some)) :
    d' = d ∧ r = decodedAt decode d c k := by
  obtain ⟨document, mid, hread, hrest⟩ := runs_do.mp h
  obtain ⟨rfl, rfl⟩ := runs_read.mp hread
  rw [decodedAt]
  cases hdocument : mid c k with
  | none =>
    rw [hdocument, hnone] at hrest
    obtain ⟨rfl, rfl⟩ := runs_pure.mp hrest
    exact ⟨rfl, rfl⟩
  | some document =>
    rw [hdocument, hsome] at hrest
    obtain ⟨hdecode, rfl⟩ := runs_ofExcept.mp hrest
    refine ⟨rfl, ?_⟩
    cases hfrom : decode document with
    | error e =>
      rw [hfrom] at hdecode
      cases hdecode
    | ok record =>
      rw [hfrom] at hdecode
      cases hdecode
      rw [Option.bind_some, hfrom]
      rfl

omit [DecidableEq C] [DecidableEq K] in
theorem decodedAt_congr {decode : D → Except ε α} {c : C} {k : K} (h : d' c k = d c k) :
    decodedAt decode d' c k = decodedAt decode d c k := by
  rw [decodedAt, h, decodedAt]

/-- What is read back after a document has been put: what it decodes to. -/
theorem decodedAt_set {decode : D → Except ε α} {document : D} {record : α}
    (hdecode : decode document = .ok record) (d : Documents C K D) (c : C) (k k' : K) :
    decodedAt decode (d.set c k (some document)) c k' =
      if k' = k then some record else decodedAt decode d c k' := by
  by_cases hk : k' = k
  · rw [if_pos hk, decodedAt, Documents.set, if_pos ⟨rfl, hk⟩, Option.bind_some, hdecode]
    rfl
  · rw [if_neg hk, decodedAt, Documents.set, if_neg fun h => hk h.2, decodedAt]

/-- What is read back after a document has been erased. -/
theorem decodedAt_erase {decode : D → Except ε α} (d : Documents C K D) (c : C) (k k' : K) :
    decodedAt decode (d.set c k none) c k' =
      if k' = k then none else decodedAt decode d c k' := by
  by_cases hk : k' = k
  · rw [if_pos hk, decodedAt, Documents.set, if_pos ⟨rfl, hk⟩, Option.bind_none]
  · rw [if_neg hk, decodedAt, Documents.set, if_neg fun h => hk h.2, decodedAt]

/-! ## Records -/

omit [DecidableEq C] [DecidableEq K] in
/-- Documents that are there, decoded: each record is the one under its own key. -/
theorem keys_of_decoded {c : C} {decode : D → Except ε α} {key : α → K} {records : List (K × D)}
    {l : List α} (hkeyed : ∀ k record, decodedAt decode d c k = some record → key record = k)
    (hrecords : ∀ entry ∈ records, d c entry.1 = some entry.2)
    (hdecode : List.Forall₂ (fun entry record => decode entry.2 = .ok record) records l) :
    l.map key = records.map Prod.fst ∧
      ∀ record ∈ l, decodedAt decode d c (key record) = some record := by
  induction hdecode with
  | nil => exact ⟨rfl, List.forall_mem_nil _⟩
  | @cons entry record records l hfrom _ ih =>
    obtain ⟨hkeys, hl⟩ := ih fun r hr => hrecords r (List.mem_cons_of_mem _ hr)
    have hat : decodedAt decode d c entry.1 = some record := by
      rw [decodedAt, hrecords entry List.mem_cons_self, Option.bind_some, hfrom]
      rfl
    have hkey := hkeyed _ _ hat
    refine ⟨by rw [List.map_cons, List.map_cons, hkeys, hkey], fun r hr => ?_⟩
    rcases List.mem_cons.mp hr with rfl | hr
    · rw [hkey, hat]
    · exact hl r hr

/-- **Scanning records**: each is the one under its own key, and each key is there once. -/
theorem runs_scanDecoded {c : C} {decode : D → Except ε α} {key : α → K} {l : List α}
    (hkeyed : ∀ k record, decodedAt decode d c k = some record → key record = k)
    (h : (scan c >>= fun records => ofExcept (records.mapM fun record => decode record.2)).Runs
      d l d') :
    d' = d ∧ (l.map key).Nodup ∧ ∀ record ∈ l, decodedAt decode d c (key record) = some record := by
  obtain ⟨records, mid, hscan, hrest⟩ := runs_do.mp h
  obtain ⟨hrecords, hnodup, rfl⟩ := runs_scan.mp hscan
  obtain ⟨hdecode, rfl⟩ := runs_ofExcept.mp hrest
  obtain ⟨hkeys, hl⟩ := keys_of_decoded hkeyed hrecords (forall₂_of_mapM hdecode)
  exact ⟨rfl, hkeys ▸ hnodup, hl⟩

/-- **A loop over records**, each round of which ends the loop, skips a record or changes it under its
    own key.  Induction on the records still to look at: their keys differ, so one that has been
    changed is not met again. -/
theorem runs_sweep [BEq K] [LawfulBEq K] {ρ : Type} (loop : List ρ → List ρ → Program C K D ε (List ρ))
    (key : ρ → K) (change kept : ρ → ρ) (wanted : ρ → Prop)
    (recordAt : Documents C K D → K → Option ρ) (hnil : ∀ done, loop [] done = pure done)
    (hcons : ∀ {d d' : Documents C K D} {record : ρ} {rest done l : List ρ},
      (loop (record :: rest) done).Runs d l d' →
      (l = done ∧ d' = d) ∨ (loop rest done).Runs d l d' ∨
      wanted record ∧ ∃ mid,
        (∀ k, recordAt mid k =
          if k = key record then some (kept (change record)) else recordAt d k) ∧
        (loop rest (done ++ [change record])).Runs mid l d')
    (hkey : ∀ record, key (change record) = key record) {records done l : List ρ}
    (hnodup : (records.map key).Nodup) (h : (loop records done).Runs d l d') :
    ∃ new, l = done ++ new ∧ ∀ k,
      (new.find? (fun record => key record == k) = none ∧ recordAt d' k = recordAt d k) ∨
      ∃ record ∈ records, key record = k ∧ wanted record ∧
        new.find? (fun record => key record == k) = some (change record) ∧
        recordAt d' k = some (kept (change record)) := by
  induction records generalizing d done with
  | nil =>
    rw [hnil] at h
    obtain ⟨rfl, rfl⟩ := runs_pure.mp h
    exact ⟨[], (List.append_nil _).symm, fun k => Or.inl ⟨rfl, rfl⟩⟩
  | cons record rest ih =>
    rw [List.map_cons, List.nodup_cons] at hnodup
    rcases hcons h with ⟨rfl, rfl⟩ | hskip | ⟨hwanted, mid, hmid, hlast⟩
    · exact ⟨[], (List.append_nil _).symm, fun k => Or.inl ⟨rfl, rfl⟩⟩
    · obtain ⟨new, hl, hnew⟩ := ih hnodup.2 hskip
      refine ⟨new, hl, fun k => (hnew k).imp (fun hsame => hsame) ?_⟩
      rintro ⟨r, hr, hchanged⟩
      exact ⟨r, List.mem_cons_of_mem _ hr, hchanged⟩
    -- the record is changed, and the loop goes on
    obtain ⟨new, rfl, hnew⟩ := ih hnodup.2 hlast
    refine ⟨change record :: new, by rw [List.append_assoc]; rfl, fun k => ?_⟩
    rw [List.find?_cons, hkey]
    by_cases hk : k = key record
    · subst hk
      rw [beq_self_eq_true]
      refine Or.inr ⟨record, List.mem_cons_self, rfl, hwanted, rfl, ?_⟩
      rcases hnew (key record) with ⟨-, hsame⟩ | ⟨r, hr, hkr, -⟩
      · rw [hsame, hmid, if_pos rfl]
      · exact absurd (List.mem_map.mpr ⟨r, hr, hkr⟩) hnodup.1
    · rw [beq_eq_false_iff_ne.mpr (Ne.symm hk)]
      rcases hnew k with ⟨hnone, hsame⟩ | ⟨r, hr, hchanged⟩
      · exact Or.inl ⟨hnone, by rw [hsame, hmid, if_neg hk]⟩
      · exact Or.inr ⟨r, List.mem_cons_of_mem _ hr, hchanged⟩

/-- **What a program leaves alone is as it was.** -/
theorem Leaves.runs {c : C} {p : Program C K D ε α} (hp : p.Leaves c) (h : p.Runs d a d') :
    d' c = d c := by
  induction h with
  | ret => rfl
  | get _ ih => exact ih (hp _)
  | all _ _ _ ih => exact ih (hp _)
  | put _ ih => rw [ih hp.2, Documents.set_of_ne hp.1.symm]
  | erase _ ih => rw [ih hp.2, Documents.set_of_ne hp.1.symm]

/-! ## Evaluation -/

/-- The program, alone on the documents `d`, where `scan` says what a scan answers. -/
def eval (scan : Documents C K D → C → List (K × D)) :
    Program C K D ε α → Documents C K D → Except ε (α × Documents C K D)
  | .ret a, d => .ok (a, d)
  | .throw e, _ => .error e
  | .get c k next, d => (next (d c k)).eval scan d
  | .all c next, d => (next (scan d c)).eval scan d
  | .put c k document next, d => next.eval scan (d.set c k (some document))
  | .erase c k next, d => next.eval scan (d.set c k none)

/-- **Sequencing**: what the first program leaves is what the second one finds. -/
theorem eval_bind (scan : Documents C K D → C → List (K × D)) (p : Program C K D ε α)
    (f : α → Program C K D ε β) (d : Documents C K D) :
    (p.bind f).eval scan d = match p.eval scan d with
      | .ok (a, mid) => (f a).eval scan mid
      | .error e => .error e := by
  induction p generalizing d with
  | ret a => rfl
  | throw e => rfl
  | get c k next ih => exact ih _ d
  | all c next ih => exact ih _ d
  | put c k document next ih => exact ih _
  | erase c k next ih => exact ih _

theorem eval_do {scan : Documents C K D → C → List (K × D)} {p : Program C K D ε α}
    {f : α → Program C K D ε β} (h : p.eval scan d = .ok (a, d')) :
    (p >>= f).eval scan d = (f a).eval scan d' := by
  show (p.bind f).eval scan d = _
  rw [eval_bind, h]

theorem eval_do_error {scan : Documents C K D → C → List (K × D)} {p : Program C K D ε α}
    {f : α → Program C K D ε β} {e : ε} (h : p.eval scan d = .error e) :
    (p >>= f).eval scan d = .error e := by
  show (p.bind f).eval scan d = _
  rw [eval_bind, h]

theorem eval_map {scan : Documents C K D → C → List (K × D)} {p : Program C K D ε α} {f : α → β}
    (h : p.eval scan d = .ok (a, d')) : (f <$> p).eval scan d = .ok (f a, d') :=
  eval_do h

theorem eval_map_error {scan : Documents C K D → C → List (K × D)} {p : Program C K D ε α}
    {f : α → β} {e : ε} (h : p.eval scan d = .error e) : (f <$> p).eval scan d = .error e :=
  eval_do_error h

theorem eval_read {scan : Documents C K D → C → List (K × D)} {c : C} {k : K}
    {next : Option D → Program C K D ε α} {document : Option D} (h : d c k = document) :
    (read c k >>= next).eval scan d = (next document).eval scan d := by
  show (next (d c k)).eval scan d = _
  rw [h]

/-- Reading a record that can be decoded, if it is there. -/
theorem eval_decoded {scan : Documents C K D → C → List (K × D)} {c : C} {k : K}
    {decode : D → Except ε α} {next : Option D → Program C K D ε (Option α)}
    (hnone : next none = pure none)
    (hsome : ∀ document, next (some document) = ofExcept ((decode document).map some))
    (hdecode : ∀ document, d c k = some document → ∃ record, decode document = .ok record) :
    (read c k >>= next).eval scan d = .ok (decodedAt decode d c k, d) := by
  show (next (d c k)).eval scan d = _
  rw [decodedAt]
  cases hdocument : d c k with
  | none =>
    rw [hnone]
    rfl
  | some document =>
    obtain ⟨record, hrecord⟩ := hdecode document hdocument
    rw [hsome, Option.bind_some, hrecord]
    rfl

/-- The documents after a program: one that fails changes nothing. -/
def after (scan : Documents C K D → C → List (K × D)) (p : Program C K D ε α)
    (d : Documents C K D) : Documents C K D :=
  match p.eval scan d with
  | .ok (_, d') => d'
  | .error _ => d

/-- Scans answer documents that are there, each key once. -/
def ScanSound (scan : Documents C K D → C → List (K × D)) : Prop :=
  ∀ d c, (∀ p ∈ scan d c, d c p.1 = some p.2) ∧ ((scan d c).map Prod.fst).Nodup

omit [DecidableEq C] [DecidableEq K] in
/-- A scan that answers nothing is sound: there may be nothing it has to answer. -/
theorem scanSound_nil : ScanSound fun (_ : Documents C K D) (_ : C) => ([] : List (K × D)) :=
  fun _ _ => ⟨nofun, List.nodup_nil⟩

/-- What a program evaluates to is one of its runs. -/
theorem runs_of_eval {scan : Documents C K D → C → List (K × D)} (hscan : ScanSound scan)
    {p : Program C K D ε α} (h : p.eval scan d = .ok (a, d')) : p.Runs d a d' := by
  induction p generalizing d with
  | ret b =>
    cases h
    exact .ret
  | throw e => cases h
  | get c k next ih => exact .get (ih _ h)
  | all c next ih => exact .all (hscan d c).1 (hscan d c).2 (ih _ h)
  | put c k document next ih => exact .put (ih h)
  | erase c k next ih => exact .erase (ih h)

end Program

/-! ## Histories -/

section

variable {C K D ε ι ρ : Type} [DecidableEq C] [DecidableEq K]

/-- What a correct store lets its clients do: started on the documents `d₀`, the requests of the list
    have been carried out one after another, each by its program and each with the response beside
    it, and have left the documents `d`.  Each request met the condition `P` on the requests before
    it and on the documents it found. -/
inductive History (program : ι → Program C K D ε ρ)
    (P : List (ι × ρ) → Documents C K D → ι → Prop) (d₀ : Documents C K D) :
    List (ι × ρ) → Documents C K D → Prop where
  | nil : History program P d₀ [] d₀
  | snoc {log : List (ι × ρ)} {d d' : Documents C K D} {request : ι} {response : ρ} :
      History program P d₀ log d → P log d request → (program request).Runs d response d' →
      History program P d₀ (log ++ [(request, response)]) d'

/-- One request after another, each alone on the documents; one that fails changes nothing. -/
def carryOut (program : ι → Program C K D ε ρ) (scan : Documents C K D → C → List (K × D))
    (s : List (ι × ρ) × Documents C K D) (request : ι) : List (ι × ρ) × Documents C K D :=
  match (program request).eval scan s.2 with
  | .ok (response, d) => (s.1 ++ [(request, response)], d)
  | .error _ => s

def carryOutAll (program : ι → Program C K D ε ρ) (scan : Documents C K D → C → List (K × D))
    (d₀ : Documents C K D) (requests : List ι) : List (ι × ρ) × Documents C K D :=
  requests.foldl (carryOut program scan) ([], d₀)

/-- Requests that are carried out one after another are a history. -/
theorem history_carryOutAll (program : ι → Program C K D ε ρ)
    {scan : Documents C K D → C → List (K × D)} (hscan : Program.ScanSound scan)
    (d₀ : Documents C K D) (requests : List ι) :
    History program (fun _ _ _ => True) d₀ (carryOutAll program scan d₀ requests).1
      (carryOutAll program scan d₀ requests).2 := by
  have hfold (s : List (ι × ρ) × Documents C K D)
      (hs : History program (fun _ _ _ => True) d₀ s.1 s.2) :
      History program (fun _ _ _ => True) d₀ (requests.foldl (carryOut program scan) s).1
        (requests.foldl (carryOut program scan) s).2 := by
    induction requests generalizing s with
    | nil => exact hs
    | cons request requests ih =>
      refine ih _ ?_
      rw [carryOut]
      cases heval : (program request).eval scan s.2 with
      | error e => exact hs
      | ok result => exact .snoc hs trivial (Program.runs_of_eval hscan heval)
  exact hfold ([], d₀) .nil

/-- Where an entry of a longer log is: it is the last one, or it is in the log before. -/
theorem snoc_eq_append_cons {log before after : List ι} {last entry : ι}
    (h : log ++ [last] = before ++ entry :: after) :
    (after = [] ∧ log = before ∧ last = entry) ∨
      ∃ rest, after = rest ++ [last] ∧ log = before ++ entry :: rest := by
  rcases List.eq_nil_or_concat after with rfl | ⟨rest, x, rfl⟩
  · obtain ⟨hlog, hlast⟩ := List.append_inj' h rfl
    exact Or.inl ⟨rfl, hlog, List.singleton_inj.mp hlast⟩
  · rw [List.concat_eq_append] at h ⊢
    rw [← List.cons_append, ← List.append_assoc] at h
    obtain ⟨hlog, hlast⟩ := List.append_inj' h rfl
    exact Or.inr ⟨rest, by rw [List.singleton_inj.mp hlast], hlog⟩

/-- Where two entries of a longer log are: the second is the last one, or both are in the log
    before. -/
theorem snoc_eq_append_pair {log before middle rest : List ι} {last first second : ι}
    (h : log ++ [last] = before ++ first :: (middle ++ second :: rest)) :
    (rest = [] ∧ log = before ++ first :: middle ∧ last = second) ∨
      ∃ rest', rest = rest' ++ [last] ∧ log = before ++ first :: (middle ++ second :: rest') := by
  rw [← List.cons_append, ← List.append_assoc] at h
  rcases snoc_eq_append_cons h with hlast | ⟨rest', hrest, hlog⟩
  · exact Or.inl hlast
  · refine Or.inr ⟨rest', hrest, ?_⟩
    rw [hlog, List.append_assoc, List.cons_append]

end

end StateSpec
