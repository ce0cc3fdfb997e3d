/-
  SERIALIZABILITY of the C++ in-memory backend.

  The C++ transaction keeps the version it observed FIRST, so it can never lose an observation: the
  backend obeys the discipline of `StateSpec.Lib.Optimistic` without any condition on its clients
  (`discipline`), whatever calls on the backend itself go on next to the transactions.

  For transactions of `get`, `put` and `erase` an answer that is still true is THE answer
  (`redo_point`), so the discipline's serial history is an equation: the committed transactions,
  replayed one after another in the order of their commits, give every answer again and end in the
  same state (`serializable_in_commit_order`).
-/
import StateSpec.Lib.Optimistic
import StateSpec.Cpp.Backend

set_option linter.unusedSectionVars false

namespace StateSpec.Cpp

open StateSpec.Memory StateSpec.Memory.InMemoryTransaction Interleaving

variable {δ : Type} [Decimal δ] {Q α : Type}

/-! ## What an operation does to the observations -/

/-- A `query` as the discipline needs it: it keeps the transaction open or closed, observes no
    version that is ahead of its counter, and loses no observation. -/
structure LawfulQuery (query : QueryCall δ Q) : Prop where
  isOpen : ∀ s t c q, (query s t c q).2.isOpen = t.isOpen
  good : ∀ s t c q, Good s t → Good s (query s t c q).2
  kept : ∀ s t c q vk v, t.observation vk = some v → (query s t c q).2.observation vk = some v

/-- What a query answers is not ahead of its counter. -/
theorem version_le_of_mem_query {s : State δ} {t : Tx δ} {c : CollectionName}
    {q : Selector δ InMemoryIndexKey} {records : List (VersionedRecord δ)}
    (h : queryRecords s t c q = .ok records) {r : VersionedRecord δ} (hr : r ∈ records) :
    r.version ≤ s.counter (versionKeyOf r) := by
  rcases (mem_query h r).mp hr with ⟨hat, -⟩ | ⟨⟨hstaged, -⟩, -⟩
  · rw [versionKeyOf, (InMemoryState.recordAt_keyed hat).1]
    exact (s.counted c r.key r hat).2
  · rw [(t.staged _ _ (mem_stagedRecords.mp hstaged)).2]
    exact Nat.zero_le _

/-- What a query does to the transaction: nothing, or it reads what it answers. -/
theorem query_cases (s : State δ) (t : Tx δ) (c : CollectionName) (q : Query δ) :
    (∃ fault, query s t c q = (.error fault, t)) ∨
    (t.isOpen = true ∧ ∃ records, queryRecords s t c (selector q) = .ok records ∧
      query s t c q = (.ok records, t.recordReads .first records)) := by
  rw [query]
  by_cases hopen : t.isOpen = false
  · exact Or.inl ⟨_, by rw [if_pos hopen]⟩
  · rw [if_neg hopen]
    cases hrecords : queryRecords s t c (selector q) with
    | error e => exact Or.inl ⟨e, rfl⟩
    | ok records => exact Or.inr ⟨by simpa using hopen, records, rfl, rfl⟩

theorem lawful_query : LawfulQuery (query : QueryCall δ (Query δ)) where
  isOpen s t c q := by
    rcases query_cases s t c q with ⟨_, h⟩ | ⟨_, _, _, h⟩ <;> rw [h]
    exact (t.recordReads_frame .first _).1
  good s t c q hgood := by
    rcases query_cases s t c q with ⟨_, h⟩ | ⟨_, records, hrecords, h⟩ <;> rw [h]
    · exact hgood
    · exact good_recordReads hgood fun r hr => version_le_of_mem_query hrecords hr
  kept s t c q vk v hv := by
    rcases query_cases s t c q with ⟨_, h⟩ | ⟨_, _, _, h⟩ <;> rw [h]
    · exact hv
    · exact observation_first_recordReads hv _

/-- A store without queries. -/
theorem lawful_noQuery : LawfulQuery (fun _ _ _ q => q.elim : QueryCall δ Empty) where
  isOpen _ _ _ q := q.elim
  good _ _ _ q := q.elim
  kept _ _ _ q := q.elim

section

variable {query : QueryCall δ Q} (hquery : LawfulQuery query) (o : Operation δ Q) (s : State δ)
  (t : Tx δ)

include hquery

theorem isOpen_exec : (exec query o s t).2.isOpen = t.isOpen := by
  cases o with
  | get c k => exact (get_frame .first s t c k).1
  | query c q => exact hquery.isOpen s t c q
  | put c k document => exact isOpen_put .first s t c k document
  | erase c k => exact isOpen_erase .first s t c k

theorem good_exec (hgood : Good s t) : Good s (exec query o s t).2 := by
  cases o with
  | get c k => exact good_get hgood c k
  | query c q => exact hquery.good s t c q hgood
  | put c k document =>
    exact (good_congr (readVersions_put .first s t c k document)).mpr (good_get hgood c k)
  | erase c k => exact (good_congr (readVersions_erase .first s t c k)).mpr (good_get hgood c k)

/-- **No operation loses an observation.** -/
theorem observation_exec {vk : Bytes} {v : Version} (h : t.observation vk = some v) :
    (exec query o s t).2.observation vk = some v := by
  cases o with
  | get c k => exact observation_first_get h c k
  | query c q => exact hquery.kept s t c q vk v h
  | put c k document =>
    have hget : (get .first s t c k).2.observation vk = some v := observation_first_get h c k
    rw [observation, ← readVersions_put .first s t c k document] at hget
    exact hget
  | erase c k =>
    have hget : (get .first s t c k).2.observation vk = some v := observation_first_get h c k
    rw [observation, ← readVersions_erase .first s t c k] at hget
    exact hget

end

/-! ## The discipline -/

theorem State.later_refl (s : State δ) : Later s s := Later.refl s

theorem State.later_trans {s s' s'' : State δ} (h : Later s s') (h' : Later s' s'') : Later s s'' := h.trans h'

theorem State.good_begin (s : State δ) : Good s begin := Memory.good_begin s

/-- **The C++ backend obeys optimistic concurrency control**, next to any calls on the backend that
    only move on. -/
def discipline {query : QueryCall δ Q} {admin : α → State δ → State δ}
    (hquery : LawfulQuery query) (hadmin : ∀ s a, Later s (admin a s)) :
    Discipline (storeWith query admin) where
  live t := t.isOpen = true
  later := Later
  good := Good
  valid := Valid
  allowed _ _ _ := True
  later_refl := State.later_refl
  later_trans := State.later_trans
  begin_good s _ := State.good_begin s
  good_later := good_later
  exec_live {o s t} h := (isOpen_exec hquery o s t).symm.trans h
  exec_good {o s t} _ _ hgood := good_exec hquery o s t hgood
  exec_valid {o s _ t} _ _ _ _ hvalid := fun vk v hv => hvalid vk v (observation_exec hquery o s t hv)
  commit_live h := (commit_ok (commit_ok_iff.mp h)).1
  commit_valid h := valid_of_commit (commit_ok_iff.mp h)
  commit_spent h := by
    obtain ⟨-, -, _, _, rfl⟩ := commit_ok (commit_ok_iff.mp h)
    simp [abort]
  commit_later h := later_commit (commit_ok_iff.mp h)
  abort_spent t := by simp [storeWith, abort]
  admin_later := hadmin

/-- The discipline of the whole backend. -/
abbrev storeDiscipline : Discipline (store (δ := δ)) := discipline lawful_query later_register

/-- The discipline of transactions alone. -/
abbrev txDiscipline : Discipline (txStore (δ := δ)) :=
  discipline lawful_query fun _ a => a.elim

/-- The discipline of transactions of `get`, `put` and `erase`. -/
abbrev pointDiscipline : Discipline (pointStore (δ := δ)) :=
  discipline lawful_noQuery fun _ a => a.elim

/-- No step of the C++ backend needs permission. -/
theorem allowed_all {query : QueryCall δ Q} {admin : α → State δ → State δ}
    {hquery : LawfulQuery query} {hadmin : ∀ s a, Later s (admin a s)}
    (w : TxWorld δ Q)
    (es : List (TxEvent δ Q α)) :
    RunMeets (storeWith query admin) (discipline hquery hadmin).Allowed w es := by
  refine runMeets_of_forall _ (fun w e => ?_) w es
  cases e with
  | op n o => exact fun _ _ _ => trivial
  | _ => trivial

/-! ## Serializability -/

/-- An answer of `get`, `put` or `erase` that is still true is the answer one gets now. -/
theorem redo_point {o : Operation δ Empty} {s' : State δ} {t : Tx δ}
    {r : Except Error (Answer δ) × Tx δ} (h : (pointDiscipline (δ := δ)).Redo o s' t r) :
    r = (pointStore (δ := δ)).exec o s' t := by
  obtain ⟨s, hs, hlive, hgood, -, hvalid, rfl⟩ := h
  cases o with
  | get c k =>
    have hsame := get_redo hs hlive hgood hvalid
    simp only [storeWith, exec, Memory.exec, get_congr .first t hsame]
  | query c q => exact q.elim
  | put c k document =>
    have hsame := get_redo hs hlive hgood
      ((valid_congr (readVersions_put .first s t c k document)).mp hvalid)
    simp only [storeWith, exec, Memory.exec, put_congr .first t document hsame]
  | erase c k =>
    have hsame := get_redo hs hlive hgood
      ((valid_congr (readVersions_erase .first s t c k)).mp hvalid)
    simp only [storeWith, exec, Memory.exec, erase_congr .first t hsame]

/-- **Serializability in commit order.**  However any number of transactions of `get`, `put` and
    `erase` interleave over a state of the backend, replaying the committed ones one after another,
    in the order of their commits, commits every one of them again, gives every operation the answer
    it had, and ends in the same state. -/
theorem serializable_in_commit_order (s : State δ)
    (es : List (TxEvent δ Empty Empty)) :
    replay pointStore s ((run pointStore (World.init s) es).log.map fun e =>
        (e.init, e.script.map Prod.fst, e.choice)) =
      some ((run pointStore (World.init s) es).log.map fun e => e.script.map Prod.snd,
        (run pointStore (World.init s) es).shared) :=
  Discipline.Serial.replay redo_point
    (pointDiscipline.run_serial (allowed_all (World.init s) es))

end StateSpec.Cpp
