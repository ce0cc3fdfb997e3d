/-
  CLIENTS of the C++ in-memory backend — code that is written against `ITransaction`, over any
  collections.

  A `Script` is what is left of such code: its next call on the transaction, and what it does with the
  answer.  A client is a transaction with its script; one step of it is one call, so that the calls of
  any number of clients interleave (`clients`).  A client commits when its script has returned; one
  whose script has thrown cannot.

  * `Script.eval`       — the script with nobody else around: every call finds the same state;
  * `clientDiscipline`  — clients obey optimistic concurrency control;
  * `eval_of_commit`    — the script of a client that commits, and makes no query, could have run from
                          beginning to end on the state of its commit, with the same result.
-/
import StateSpec.Cpp.Serializability

set_option linter.unusedSectionVars false

namespace StateSpec.Cpp

open Memory Memory.InMemoryTransaction Interleaving

/-! ## Scripts -/

/-- Code that runs in one transaction. -/
inductive Script (δ ρ : Type) where
  | ret (a : ρ)
  | throw (e : Error)
  | get (c : CollectionName) (k : Key) (next : Option (VersionedRecord δ) → Script δ ρ)
  | query (c : CollectionName) (query : Query δ) (next : List (VersionedRecord δ) → Script δ ρ)
  | put (c : CollectionName) (k : Key) (document : Json δ) (next : Script δ ρ)
  | erase (c : CollectionName) (k : Key) (next : Script δ ρ)

namespace Script

variable {δ ρ α β : Type}

/-- Sequencing: an error ends the whole script. -/
def bind : Script δ α → (α → Script δ β) → Script δ β
  | .ret a, f => f a
  | .throw e, _ => .throw e
  | .get c k next, f => .get c k fun r => (next r).bind f
  | .query c q next, f => .query c q fun l => (next l).bind f
  | .put c k document next, f => .put c k document (next.bind f)
  | .erase c k next, f => .erase c k (next.bind f)

instance : Monad (Script δ) where
  pure := .ret
  bind := bind

/-- A step that may fail, without a call on the transaction. -/
def ofExcept : Except Error α → Script δ α
  | .ok a => .ret a
  | .error e => .throw e

/-- The script makes no query. -/
def Point : Script δ ρ → Prop
  | .ret _ => True
  | .throw _ => True
  | .get _ _ next => ∀ r, (next r).Point
  | .query _ _ _ => False
  | .put _ _ _ next => next.Point
  | .erase _ _ next => next.Point

theorem point_do {p : Script δ α} {f : α → Script δ β} (hp : p.Point) (hf : ∀ a, (f a).Point) :
    (p >>= f).Point := by
  show (p.bind f).Point
  induction p with
  | ret a => exact hf a
  | throw e => trivial
  | get c k next ih => exact fun r => ih r (hp r)
  | query c q next ih => exact hp.elim
  | put c k document next ih => exact ih hp
  | erase c k next ih => exact ih hp

theorem point_ofExcept (x : Except Error α) : (ofExcept x : Script δ α).Point := by
  cases x <;> trivial

variable [Decimal δ]

/-- The script on the state `s`, with nobody else around. -/
def eval (s : State δ) : Script δ ρ → Tx δ → Except Error ρ × Tx δ
  | .ret a, t => (.ok a, t)
  | .throw e, t => (.error e, t)
  | .get c k next, t =>
    match (InMemoryTransaction.get .first s t c k).1 with
    | .ok record => (next record).eval s (InMemoryTransaction.get .first s t c k).2
    | .error fault => (.error (thrown fault), (InMemoryTransaction.get .first s t c k).2)
  | .query c q next, t =>
    match (Cpp.query s t c q).1 with
    | .ok records => (next records).eval s (Cpp.query s t c q).2
    | .error e => (.error e, (Cpp.query s t c q).2)
  | .put c k document next, t =>
    match (InMemoryTransaction.put .first s t c k document).1 with
    | .ok _ => next.eval s (InMemoryTransaction.put .first s t c k document).2
    | .error fault => (.error (thrown fault), (InMemoryTransaction.put .first s t c k document).2)
  | .erase c k next, t =>
    match (InMemoryTransaction.erase .first s t c k).1 with
    | .ok _ => next.eval s (InMemoryTransaction.erase .first s t c k).2
    | .error fault => (.error (thrown fault), (InMemoryTransaction.erase .first s t c k).2)

/-- **Sequencing**: what the first script leaves is what the second one finds. -/
theorem eval_bind (s : State δ) (p : Script δ α) (f : α → Script δ β) (t : Tx δ) :
    (p.bind f).eval s t = match p.eval s t with
      | (.ok a, mid) => (f a).eval s mid
      | (.error e, mid) => (.error e, mid) := by
  induction p generalizing t with
  | ret a => rfl
  | throw e => rfl
  | get c k next ih =>
    simp only [bind, eval]
    cases (InMemoryTransaction.get .first s t c k).1 with
    | ok record => exact ih record _
    | error fault => rfl
  | query c q next ih =>
    simp only [bind, eval]
    cases (Cpp.query s t c q).1 with
    | ok records => exact ih records _
    | error e => rfl
  | put c k document next ih =>
    simp only [bind, eval]
    cases (InMemoryTransaction.put .first s t c k document).1 with
    | ok _ => exact ih _
    | error fault => rfl
  | erase c k next ih =>
    simp only [bind, eval]
    cases (InMemoryTransaction.erase .first s t c k).1 with
    | ok _ => exact ih _
    | error fault => rfl

theorem eval_do {s : State δ} {p : Script δ α} {f : α → Script δ β} {t mid : Tx δ} {a : α}
    (h : p.eval s t = (.ok a, mid)) : (p >>= f).eval s t = (f a).eval s mid := by
  show (p.bind f).eval s t = _
  rw [eval_bind, h]

/-- A script that returns has gone through its first part. -/
theorem of_eval_do {s : State δ} {p : Script δ α} {f : α → Script δ β} {t t' : Tx δ} {b : β}
    (h : (p >>= f).eval s t = (.ok b, t')) :
    ∃ a mid, p.eval s t = (.ok a, mid) ∧ (f a).eval s mid = (.ok b, t') := by
  change (p.bind f).eval s t = _ at h
  rw [eval_bind] at h
  split at h
  · rename_i a mid hp
    exact ⟨a, mid, hp, h⟩
  · cases h

theorem of_eval_ofExcept {s : State δ} {x : Except Error α} {t t' : Tx δ} {a : α}
    (h : (ofExcept x : Script δ α).eval s t = (.ok a, t')) : x = .ok a ∧ t' = t := by
  cases x with
  | error e => cases h
  | ok b =>
    obtain ⟨hb, ht⟩ := Prod.mk.inj h
    exact ⟨hb, ht.symm⟩

/-- The script and its commit, with nobody else around. -/
def transact (s : State δ) (p : Script δ ρ) : Except Error (ρ × State δ) :=
  match p.eval s begin with
  | (.error e, _) => .error e
  | (.ok a, t) => (commit s t).map fun r => (a, r.1)

end Script

variable {δ : Type} [Decimal δ] in
/-- A script that commits has returned. -/
theorem of_transact {ρ : Type} {s s' : State δ} {p : Script δ ρ} {a : ρ}
    (h : p.transact s = .ok (a, s')) :
    ∃ t, p.eval s begin = (.ok a, t) ∧ ∃ r, commit s t = .ok r ∧ r.1 = s' := by
  rw [Script.transact] at h
  split at h
  · cases h
  rename_i b t heval
  cases hcommit : commit s t with
  | error e =>
    rw [hcommit] at h
    cases h
  | ok r =>
    rw [hcommit] at h
    obtain ⟨rfl, hs⟩ := Prod.mk.inj (Except.ok.inj h)
    exact ⟨t, heval, r, hcommit, hs⟩

/-! ## Listing a collection -/

section

variable {δ : Type} [Decimal δ]

/-- The records of a collection, in key order. -/
def recordsOf (s : State δ) (c : CollectionName) : List (VersionedRecord δ) :=
  match s.records[c]? with
  | none => []
  | some records => records.toList.map Prod.snd

theorem mem_recordsOf {s : State δ} {c : CollectionName} {r : VersionedRecord δ} :
    r ∈ recordsOf s c ↔ s.recordAt c r.key = some r := by
  rw [recordsOf]
  cases hrecords : s.records[c]? with
  | none => simp [InMemoryState.recordAt, OrderedMap.find₂, hrecords]
  | some records => exact InMemoryState.mem_collection hrecords

theorem committedRecords_all_begin (s : State δ) (c : CollectionName) :
    committedRecords s begin c (selector .all) = .ok (recordsOf s c) := by
  have hindex : (selector (Query.all (δ := δ))).isIndex = false := rfl
  rw [committedRecords, hindex, if_neg Bool.false_ne_true, recordsOf]
  cases s.records[c]? with
  | none => rfl
  | some records => simp [begin]

/-- A transaction that has done nothing yet lists the whole collection. -/
theorem query_all_begin (s : State δ) (c : CollectionName) :
    Cpp.query s begin c .all =
      (.ok (recordsOf s c), begin.recordReads .first (recordsOf s c)) := by
  have hcommitted := committedRecords_all_begin s c
  have hstaged : Cpp.stagedPart s begin c (selector .all) = .ok [] := by
    have hempty : (begin : Tx δ).stagedRecords = [] := by
      simp [stagedRecords, begin]
    rw [Cpp.stagedPart, hempty]
    rfl
  have hall : ∀ r ∈ recordsOf s c, (!superseded (begin : Tx δ) r) = true := by
    intro r _
    simp [superseded, begin]
  rw [Cpp.query, if_neg (by simp [begin]), Cpp.queryRecords, hcommitted, hstaged]
  have hmatch : (recordsOf s c).filter (selector Query.all).matchesRecord = recordsOf s c :=
    List.filter_eq_self.mpr fun r _ => rfl
  simp only [List.append_nil, List.filter_eq_self.mpr hall, hmatch]

end

/-! ## Clients -/

variable {δ : Type} [Decimal δ]

/-- A transaction, and what is left of its script. -/
structure Client (δ ρ : Type) where
  tx : Tx δ
  script : Script δ ρ

/-- One call of a script on its transaction. -/
def Client.call {ρ : Type} (s : State δ) (client : Client δ ρ) : Client δ ρ :=
  match client.script with
  | .ret a => ⟨client.tx, .ret a⟩
  | .throw e => ⟨client.tx, .throw e⟩
  | .get c k next =>
    let r := get .first s client.tx c k
    ⟨r.2, match r.1 with
      | .ok record => next record
      | .error fault => .throw (thrown fault)⟩
  | .query c q next =>
    let r := query s client.tx c q
    ⟨r.2, match r.1 with
      | .ok records => next records
      | .error e => .throw e⟩
  | .put c k document next =>
    let r := put .first s client.tx c k document
    ⟨r.2, match r.1 with
      | .ok _ => next
      | .error fault => .throw (thrown fault)⟩
  | .erase c k next =>
    let r := erase .first s client.tx c k
    ⟨r.2, match r.1 with
      | .ok _ => next
      | .error fault => .throw (thrown fault)⟩

/-- A call leaves the transaction alone or is one of its operations. -/
theorem client_call_tx {ρ : Type} (s : State δ) (client : Client δ ρ) :
    (client.call s).tx = client.tx ∨
    ∃ o : Operation δ (Query δ), (client.call s).tx = (exec query o s client.tx).2 := by
  rw [Client.call]
  cases client.script with
  | ret a => exact Or.inl rfl
  | throw e => exact Or.inl rfl
  | get c k next => exact Or.inr ⟨.get c k, rfl⟩
  | query c q next => exact Or.inr ⟨.query c q, rfl⟩
  | put c k document next => exact Or.inr ⟨.put c k document, rfl⟩
  | erase c k next => exact Or.inr ⟨.erase c k, rfl⟩

section

variable {ι ρ γ α : Type} (γ) (program : ι → Script δ ρ) (admin : α → State δ → State δ)

/-- Clients of the backend: each request opens one, a commit waits for its script to return.  A commit
    may be labelled. -/
def clients : Store ι (State δ) (Client δ ρ) Unit Unit γ (Option Error) α where
  begin request := ⟨begin, program request⟩
  exec _ s client := ((), client.call s)
  commit _ s client :=
    match client.script with
    | .ret _ =>
      match commit s client.tx with
      | .error e => .error (some e)
      | .ok r => .ok (r.1, { client with tx := r.2 })
    | _ => .error none
  abort client := { client with tx := abort client.tx }
  admin := admin

variable {γ}

theorem commit_clients {g : γ} {s : State δ} {client : Client δ ρ} {r : State δ × Client δ ρ}
    (h : (clients γ program admin).commit g s client = .ok r) :
    (∃ a, client.script = .ret a) ∧ commit s client.tx = .ok (r.1, r.2.tx) := by
  simp only [clients] at h
  cases hscript : client.script with
  | ret a =>
    simp only [hscript] at h
    cases hcommit : commit s client.tx with
    | error e =>
      simp only [hcommit] at h
      cases h
    | ok r' =>
      simp only [hcommit, Except.ok.injEq] at h
      subst h
      exact ⟨⟨a, rfl⟩, rfl⟩
  | _ =>
    simp only [hscript] at h
    cases h

theorem script_of_commit {g : γ} {s : State δ} {client : Client δ ρ} {r : State δ × Client δ ρ}
    (h : (clients γ program admin).commit g s client = .ok r) : r.2.script = client.script := by
  simp only [clients] at h
  cases hscript : client.script with
  | ret a =>
    simp only [hscript] at h
    split at h
    · cases h
    · obtain rfl := Except.ok.inj h
      rfl
  | _ =>
    simp only [hscript] at h
    cases h

variable (γ)

/-- **Clients obey optimistic concurrency control**, as the calls of their transactions do. -/
def clientDiscipline (hadmin : ∀ s a, Later s (admin a s)) :
    Discipline (clients γ program admin) where
  live client := client.tx.isOpen = true
  later := Later
  good s client := Good s client.tx
  valid s client := Valid s client.tx
  allowed _ _ _ := True
  later_refl := State.later_refl
  later_trans := State.later_trans
  begin_good s _ := State.good_begin s
  good_later := good_later
  exec_live {_ s client} h := by
    rcases client_call_tx s client with heq | ⟨o, heq⟩
    · exact heq ▸ h
    · exact (isOpen_exec lawful_query o s client.tx).symm.trans (heq ▸ h)
  exec_good {_ s client} _ _ hgood := by
    show Good s (client.call s).tx
    rcases client_call_tx s client with heq | ⟨o, heq⟩ <;> rw [heq]
    · exact hgood
    · exact good_exec lawful_query o s client.tx hgood
  exec_valid {_ s s' client} _ _ _ _ hvalid := by
    have hvalid' : Valid s' (client.call s).tx := hvalid
    rcases client_call_tx s client with heq | ⟨o, heq⟩ <;> rw [heq] at hvalid'
    · exact hvalid'
    · exact fun vk v hv => hvalid' vk v (observation_exec lawful_query o s client.tx hv)
  commit_live h := (commit_ok (commit_ok_iff.mp (commit_clients program admin h).2)).1
  commit_valid h := valid_of_commit (commit_ok_iff.mp (commit_clients program admin h).2)
  commit_spent h := by
    obtain ⟨-, -, _, _, hr⟩ := commit_ok (commit_ok_iff.mp (commit_clients program admin h).2)
    rw [(Prod.mk.inj hr).2]
    simp [abort]
  commit_later h := later_commit (commit_ok_iff.mp (commit_clients program admin h).2)
  abort_spent client := by simp [clients, abort]
  admin_later := hadmin

end

/-! ## A committed client at the instant of its commit -/

section

variable {ι ρ γ α : Type} {program : ι → Script δ ρ} {admin : α → State δ → State δ}
  {hadmin : ∀ s a, Later s (admin a s)} {s s' : State δ} {client : Client δ ρ}

/-- A call makes no query that was not there before. -/
theorem point_call (h : client.script.Point) : (client.call s).script.Point := by
  rw [Client.call]
  cases hscript : client.script with
  | ret a => trivial
  | throw e => trivial
  | get c k next =>
    rw [hscript] at h
    simp only
    split
    · exact h _
    · trivial
  | query c q next =>
    rw [hscript] at h
    exact h.elim
  | put c k document next =>
    rw [hscript] at h
    simp only
    split
    · exact h
    · trivial
  | erase c k next =>
    rw [hscript] at h
    simp only
    split
    · exact h
    · trivial

/-- **One call back**: a script evaluates, at a later instant at which what its client has observed is
    still valid, to what is left after the call evaluates to. -/
theorem eval_call (hs : Later s s') (hopen : client.tx.isOpen = true) (hgood : Good s client.tx)
    (hpoint : client.script.Point) (hvalid : Valid s' (client.call s).tx) :
    client.script.eval s' client.tx = (client.call s).script.eval s' (client.call s).tx := by
  rw [Client.call] at hvalid ⊢
  cases hscript : client.script with
  | ret a => rfl
  | throw e => rfl
  | get c k next =>
    simp only [hscript] at hvalid ⊢
    rw [Script.eval, get_congr .first client.tx (get_redo hs hopen hgood hvalid)]
    cases (get .first s client.tx c k).1 <;> rfl
  | query c q next =>
    rw [hscript] at hpoint
    exact hpoint.elim
  | put c k document next =>
    simp only [hscript] at hvalid ⊢
    have hsame := get_redo hs hopen hgood
      ((valid_congr (readVersions_put .first s client.tx c k document)).mp hvalid)
    rw [Script.eval, put_congr .first client.tx document hsame]
    cases (put .first s client.tx c k document).1 <;> rfl
  | erase c k next =>
    simp only [hscript] at hvalid ⊢
    have hsame := get_redo hs hopen hgood
      ((valid_congr (readVersions_erase .first s client.tx c k)).mp hvalid)
    rw [Script.eval, erase_congr .first client.tx hsame]
    cases (erase .first s client.tx c k).1 <;> rfl

theorem eval_of_replay {request : ι} {script : List (Unit × Unit)}
    (hpoint : (program request).Point)
    (h : (clientDiscipline γ program admin hadmin).Replay s request script client) :
    client.script.Point ∧
      (program request).eval s begin = client.script.eval s client.tx := by
  induction h with
  | nil => exact ⟨hpoint, rfl⟩
  | snoc _ hredo ih =>
    obtain ⟨s₀, hs, hopen, hgood, -, hvalid, rfl⟩ := hredo
    exact ⟨point_call ih.1, ih.2.trans (eval_call hs hopen hgood ih.1 hvalid)⟩

/-- **The script of a committed client runs at the instant of the commit**, when it makes no query. -/
theorem eval_of_commit {g : γ} {request : ι} {script : List (Unit × Unit)}
    {r : State δ × Client δ ρ} (hpoint : (program request).Point)
    (h : (clientDiscipline γ program admin hadmin).Replay s request script client)
    (hcommit : (clients γ program admin).commit g s client = .ok r) :
    ∃ a, client.script = .ret a ∧ (program request).transact s = .ok (a, r.1) := by
  obtain ⟨⟨a, ha⟩, hok⟩ := commit_clients program admin hcommit
  refine ⟨a, ha, ?_⟩
  rw [Script.transact, (eval_of_replay hpoint h).2, ha, Script.eval]
  simp only [hok]
  rfl

end

/-! ## Runs of clients -/

/-- The events and worlds of clients. -/
abbrev ClientEvent (ι γ α : Type) := Event ι Unit γ α
abbrev ClientWorld (δ : Type) [Decimal δ] (ι ρ γ : Type) :=
  World ι (State δ) (Client δ ρ) Unit Unit γ

section

variable {ι ρ γ α : Type} {program : ι → Script δ ρ} {admin : α → State δ → State δ}

theorem allowed_clients (hadmin : ∀ s a, Later s (admin a s)) (w : ClientWorld δ ι ρ γ)
    (es : List (ClientEvent ι γ α)) :
    RunMeets (clients γ program admin) (clientDiscipline γ program admin hadmin).Allowed w es := by
  refine runMeets_of_forall _ (fun w e => ?_) w es
  cases e with
  | op n o => exact fun _ _ _ => trivial
  | _ => trivial

/-- **A transaction that commits in a run runs at the instant of its commit**, when it makes no query. -/
theorem transact_of_commit (hadmin : ∀ s a, Later s (admin a s)) {s₀ : State δ}
    {es : List (ClientEvent ι γ α)} {w : ClientWorld δ ι ρ γ}
    (hw : run (clients γ program admin) (World.init s₀) es = w) {n : Nat} {g : γ}
    {slot : Slot ι (Client δ ρ) Unit Unit} {r : State δ × Client δ ρ}
    (hn : w.slots[n]? = some slot) (hpoint : (program slot.init).Point)
    (hc : (clients γ program admin).commit g w.shared slot.tx = .ok r) :
    ∃ a, slot.tx.script = .ret a ∧ (program slot.init).transact w.shared = .ok (a, r.1) := by
  have hinv := (clientDiscipline γ program admin hadmin).run_inv
    (allowed_clients hadmin (World.init s₀) es)
  rw [hw] at hinv
  have hslot := hinv.slots slot (List.mem_of_getElem? hn)
    ((clientDiscipline γ program admin hadmin).commit_live hc)
  have hreplay := hslot.2 _ (Later.refl _)
    ((clientDiscipline γ program admin hadmin).commit_valid hc)
  exact eval_of_commit hpoint hreplay hc

end

end StateSpec.Cpp
