/-
  ERASED PLACES — what an erased document does to the sessions that come after it.

  `get` reports version 0 for a document that is not there, and `commit` compares that 0 with a counter
  that an erase has moved and nothing ever moves back.  So an erased place is closed for good:

  1. `Touches c k` is a program that gets, puts or erases the place (c, k) whenever it returns.
  2. `Settled`: a session that commits has observed versions that are those of the records AND those of
     the counters at that moment (`settled_of_replay`).
  3. `Forgotten` is a place that had a document and has none.  The session of a touching program never
     commits there (`not_forgotten_of_commit`), and no commit brings the place back (`forgotten_commit`).
  4. `forgotten_run` says so of every interleaving; with `forgotten_of_gone`, a place that had a
     document is closed once a run has left it empty (`erased_closed`).
-/
import StateSpec.Runtime.Session

set_option linter.unusedSectionVars false

namespace StateSpec

namespace Program

variable {C K D ε α β : Type}

/-- Whenever the program returns it has got, put or erased the document at the place. -/
def Touches (c : C) (k : K) : Program C K D ε α → Prop
  | .ret _ => False
  | .throw _ => True
  | .get c' k' next => (c' = c ∧ k' = k) ∨ ∀ r, (next r).Touches c k
  | .all _ next => ∀ l, (next l).Touches c k
  | .put c' k' _ next => (c' = c ∧ k' = k) ∨ next.Touches c k
  | .erase c' k' next => (c' = c ∧ k' = k) ∨ next.Touches c k

variable {c : C} {k : K}

/-- A program that touches the place touches it whatever comes after. -/
theorem Touches.bind {p : Program C K D ε α} (h : p.Touches c k) (f : α → Program C K D ε β) :
    (p.bind f).Touches c k := by
  induction p with
  | ret a => exact h.elim
  | throw e => trivial
  | get c' k' next ih => exact h.imp_right fun hnext r => ih r (hnext r)
  | all c' next ih => exact fun l => ih l (h l)
  | put c' k' document next ih => exact h.imp_right ih
  | erase c' k' next ih => exact h.imp_right ih

/-- What comes after touches the place, whatever has come before. -/
theorem touches_bind {p : Program C K D ε α} {f : α → Program C K D ε β}
    (h : ∀ a, (f a).Touches c k) : (p.bind f).Touches c k := by
  induction p with
  | ret a => exact h a
  | throw e => trivial
  | get c' k' next ih => exact Or.inr ih
  | all c' next ih => exact ih
  | put c' k' document next ih => exact Or.inr ih
  | erase c' k' next ih => exact Or.inr ih

theorem touches_map {p : Program C K D ε α} {f : α → β} (h : p.Touches c k) :
    (f <$> p).Touches c k := h.bind _

end Program

namespace Runtime

open Memory Memory.InMemoryTransaction Interleaving Program

variable {δ : Type} [Decimal δ] {s s' : Cpp.State δ} {t : Cpp.Tx δ} {c : RuntimeCollection} {k : Key}

/-! ## What a session that commits has observed -/

/-- Of every place that the transaction has observed, the record has the version of its counter. -/
def Settled (s : Cpp.State δ) (t : Cpp.Tx δ) : Prop :=
  ∀ (c : RuntimeCollection) k, recordVersionKey c.name k ∈ t.readVersions →
    s.counter (recordVersionKey c.name k) = s.recordVersion c.name k

theorem settled_congr {t' : Cpp.Tx δ} (h : t'.readVersions = t.readVersions) :
    Settled s t' ↔ Settled s t := by
  simp only [Settled, h]

/-- An observation that is new after a `get` is of the place that was got, and is valid. -/
theorem settled_get (hs : Later s s') (hopen : t.isOpen = true) (hgood : Good s t)
    (hvalid : Valid s' (get .first s t c.name k).2) (h : Settled s' t) :
    Settled s' (get .first s t c.name k).2 := by
  have hsame := get_redo hs hopen hgood hvalid
  intro c' k' hread
  by_cases hold : recordVersionKey c'.name k' ∈ t.readVersions
  · exact h c' k' hold
  rcases get_cases .first s t c.name k with ⟨-, heq⟩ | ⟨-, -, heq⟩ | ⟨-, -, heq⟩ <;>
    rw [heq] at hread hvalid
  · exact absurd hread hold
  · exact absurd hread hold
  obtain ⟨v, hv⟩ := mem_readVersions.mp hread
  rcases observation_recordRead hv with ⟨hkey, hversion⟩ | hbefore
  · obtain ⟨rfl, rfl⟩ := RuntimeCollection.recordVersionKey_name.mp hkey
    rw [hvalid _ v hv, hversion, InMemoryState.recordVersion, InMemoryState.recordVersion, hsame]
  · exact absurd (mem_readVersions.mpr ⟨v, hbefore⟩) hold

/-- An observation that is new after a scan is of a record that is still there. -/
theorem settled_scan {records : List (VersionedRecord δ)} (hs : Later s s') (hgood : Good s t)
    (hrecords : Cpp.queryRecords s t c.name (Cpp.selector .all) = .ok records)
    (hvalid : Valid s' (t.recordReads .first records)) (h : Settled s' t) :
    Settled s' (t.recordReads .first records) := by
  intro c' k' hread
  by_cases hold : recordVersionKey c'.name k' ∈ t.readVersions
  · exact h c' k' hold
  obtain ⟨v, hv⟩ := mem_readVersions.mp hread
  rcases observation_recordReads hv with ⟨r, hr, hkey, rfl⟩ | hbefore
  · have hcounter := hvalid _ _ hv
    rcases (Cpp.mem_query hrecords r).mp hr with hanswer | ⟨⟨hstaged, -⟩, -⟩
    · obtain ⟨hat, -⟩ := Cpp.query_kept hs hgood hrecords hvalid hr hanswer
      rw [versionKeyOf, (InMemoryState.recordAt_keyed hat).1] at hkey
      obtain ⟨rfl, rfl⟩ := RuntimeCollection.recordVersionKey_name.mp hkey
      rw [hcounter, InMemoryState.recordVersion_of_some hat]
    · -- what is staged has been observed before
      have hput : versionKeyOf r ∈ t.puts :=
        Std.ExtTreeMap.mem_iff_isSome_getElem?.mpr (by rw [mem_stagedRecords.mp hstaged]; rfl)
      exact absurd (hkey ▸ t.observed _ (Or.inr hput)) hold
  · exact absurd (mem_readVersions.mpr ⟨v, hbefore⟩) hold

section

variable {ρ : Type} {session : Session δ ρ}

theorem settled_call (hs : Later s s') (hopen : session.tx.isOpen = true) (hgood : Good s session.tx)
    (hvalid : Valid s' (session.call s).tx) (h : Settled s' session.tx) :
    Settled s' (session.call s).tx := by
  obtain ⟨t, p⟩ := session
  cases p with
  | ret a => exact h
  | throw e => exact h
  | get c k next => exact settled_get hs hopen hgood hvalid h
  | all c next =>
    simp only [Session.call] at hvalid ⊢
    rcases Cpp.query_cases s t c.name .all with ⟨_, heq⟩ | ⟨_, records, hrecords, heq⟩ <;>
      rw [heq] at hvalid ⊢
    · exact h
    · exact settled_scan hs hgood hrecords hvalid h
  | put c k document next =>
    have hread := readVersions_put .first s t c.name k document
    exact (settled_congr hread).mpr (settled_get hs hopen hgood ((valid_congr hread).mp hvalid) h)
  | erase c k next =>
    have hread := readVersions_erase .first s t c.name k
    exact (settled_congr hread).mpr (settled_get hs hopen hgood ((valid_congr hread).mp hvalid) h)

/-- What has been observed stays observed. -/
theorem readVersions_call {vk : Bytes} (h : vk ∈ session.tx.readVersions) :
    vk ∈ (session.call s).tx.readVersions := by
  obtain ⟨v, hv⟩ := mem_readVersions.mp h
  rcases call_tx s session with heq | ⟨o, heq⟩ <;> rw [heq]
  · exact h
  · exact mem_readVersions.mpr ⟨v, Cpp.observation_exec Cpp.lawful_query o s session.tx hv⟩

/-- A call touches the place, or what is left of the program does. -/
theorem touches_call (hopen : session.tx.isOpen = true) (h : session.program.Touches c k) :
    (session.call s).program.Touches c k ∨
      recordVersionKey c.name k ∈ (session.call s).tx.readVersions := by
  obtain ⟨t, p⟩ := session
  have hget {c' : RuntimeCollection} {k' : Key} (hplace : c' = c ∧ k' = k) :
      recordVersionKey c.name k ∈ (get .first s t c'.name k').2.readVersions := by
    obtain ⟨rfl, rfl⟩ := hplace
    exact mem_readVersions_get .first s hopen c'.name k'
  cases p with
  | ret a => exact h.elim
  | throw e => exact Or.inl trivial
  | get c' k' next =>
    rcases h with hplace | hnext
    · exact Or.inr (hget hplace)
    · refine Or.inl ?_
      simp only [Session.call]
      cases (get .first s t c'.name k').1 with
      | ok record => exact hnext _
      | error fault => trivial
  | all c' next =>
    refine Or.inl ?_
    simp only [Session.call]
    cases (Cpp.query s t c'.name .all).1 with
    | ok records => exact h _
    | error e => trivial
  | put c' k' document next =>
    rcases h with hplace | hnext
    · refine Or.inr ?_
      show _ ∈ (put .first s t c'.name k' document).2.readVersions
      rw [readVersions_put]
      exact hget hplace
    · refine Or.inl ?_
      simp only [Session.call]
      cases (put .first s t c'.name k' document).1 with
      | ok u => exact hnext
      | error fault => trivial
  | erase c' k' next =>
    rcases h with hplace | hnext
    · refine Or.inr ?_
      show _ ∈ (erase .first s t c'.name k').2.readVersions
      rw [readVersions_erase]
      exact hget hplace
    · refine Or.inl ?_
      simp only [Session.call]
      cases (erase .first s t c'.name k').1 with
      | ok u => exact hnext
      | error fault => trivial

end

/-! ## Forgotten places -/

/-- The place holds no document, although its counter has moved. -/
def Forgotten (s : Cpp.State δ) (c : RuntimeCollection) (k : Key) : Prop :=
  s.recordAt c.name k = none ∧ s.counter (recordVersionKey c.name k) ≠ 0

/-- A counter that has moved never comes back to 0. -/
theorem counter_moved (hs : Later s s') {vk : Bytes} (h : s.counter vk ≠ 0) : s'.counter vk ≠ 0 := by
  intro hzero
  have hle := hs.counter vk
  rw [hzero] at hle
  exact h (Nat.le_zero.mp hle)

/-- A document that is there has moved its counter. -/
theorem counter_of_document (h : docs s c k ≠ none) : s.counter (recordVersionKey c.name k) ≠ 0 := by
  intro hzero
  cases hat : s.recordAt c.name k with
  | none =>
    rw [docs, hat] at h
    exact h rfl
  | some record =>
    obtain ⟨hpositive, hle⟩ := s.counted c.name k record hat
    have hle' : record.version ≤ s.counter (recordVersionKey c.name k) := hle
    rw [hzero] at hle'
    exact absurd (Nat.le_zero.mp hle') (Nat.ne_of_gt hpositive)

/-- A settled transaction has not observed a forgotten place. -/
theorem Forgotten.not_observed (h : Forgotten s c k) (ht : Settled s t) :
    recordVersionKey c.name k ∉ t.readVersions := by
  intro hread
  have hversion := ht c k hread
  rw [InMemoryState.recordVersion_of_none h.1] at hversion
  exact h.2 hversion

/-- What a commit leaves at a place it has not observed. -/
theorem commit_of_not_observed {r : Cpp.State δ × Cpp.Tx δ} (hstages : StagesRuntime t)
    (h : Cpp.commit s t = .ok r) (hread : recordVersionKey c.name k ∉ t.readVersions) :
    r.1.recordAt c.name k = s.recordAt c.name k ∧
      r.1.counter (recordVersionKey c.name k) = s.counter (recordVersionKey c.name k) := by
  obtain ⟨-, -, indexes, hst, rfl⟩ := commit_ok (Cpp.commit_ok_iff.mp h)
  have hover : ¬ t.Overlays (recordVersionKey c.name k) := fun hover => hread (t.observed _ hover)
  have hput : t.puts[recordVersionKey c.name k]? = none :=
    Std.ExtTreeMap.getElem?_eq_none fun hmem => hover (Or.inr hmem)
  constructor
  · rw [recordAt_committed_name hstages hst, if_neg fun hmem => hover (Or.inl hmem), hput]
  · rw [counter_committed t s hst, if_neg hover, Nat.add_zero]

/-- **A document that has gone is forgotten.** -/
theorem forgotten_of_gone (hs : Later s s') (hbefore : docs s c k ≠ none) (hafter : docs s' c k = none) :
    Forgotten s' c k :=
  ⟨Option.map_eq_none_iff.mp hafter, counter_moved hs (counter_of_document hbefore)⟩

/-- Nothing that leaves the documents and moves on brings a place back. -/
theorem Forgotten.later (h : Forgotten s c k) (hs : Later s s') (hdocs : docs s' = docs s) :
    Forgotten s' c k := by
  have hat : docs s' c k = none := by
    rw [hdocs, docs, h.1]
    rfl
  exact ⟨Option.map_eq_none_iff.mp hat, counter_moved hs h.2⟩

/-! ## Sessions that commit -/

section

variable {ι ρ α : Type} {program : ι → TxProgram δ ρ} {admin : α → Cpp.State δ → Cpp.State δ}
  {hadmin : ∀ s a, Later s (admin a s)} {request : ι} {script : List (Unit × Unit)}
  {session : Session δ ρ}

/-- **A session at the instant of its commit** is settled, and has touched what its program touches. -/
theorem settled_of_replay (h : (sessionDiscipline program admin hadmin).Replay s request script session) :
    Settled s session.tx ∧ ∀ c k, (program request).Touches c k →
      session.program.Touches c k ∨ recordVersionKey c.name k ∈ session.tx.readVersions := by
  induction h with
  | nil =>
    refine ⟨fun c k hread => ?_, fun c k htouches => Or.inl htouches⟩
    obtain ⟨v, hv⟩ := mem_readVersions.mp hread
    simp [sessions, observation, begin] at hv
  | snoc _ hredo ih =>
    obtain ⟨s₀, hs, hopen, hgood, -, hvalid, rfl⟩ := hredo
    refine ⟨settled_call hs hopen hgood hvalid ih.1, fun c k htouches => ?_⟩
    rcases ih.2 c k htouches with hprogram | hread
    · exact touches_call hopen hprogram
    · exact Or.inr (readVersions_call hread)

/-- A session that commits has observed what its program touches. -/
theorem observed_of_commit {r : Cpp.State δ × Session δ ρ}
    (h : (sessionDiscipline program admin hadmin).Replay s request script session)
    (hcommit : (sessions program admin).commit () s session = .ok r)
    (htouches : (program request).Touches c k) :
    recordVersionKey c.name k ∈ session.tx.readVersions := by
  obtain ⟨⟨a, ha⟩, -⟩ := commit_sessions program admin hcommit
  rcases (settled_of_replay h).2 c k htouches with hprogram | hread
  · rw [ha] at hprogram
    exact hprogram.elim
  · exact hread

/-- **A program that touches a forgotten place does not commit.** -/
theorem not_forgotten_of_commit {r : Cpp.State δ × Session δ ρ}
    (h : (sessionDiscipline program admin hadmin).Replay s request script session)
    (hcommit : (sessions program admin).commit () s session = .ok r)
    (htouches : (program request).Touches c k) : ¬ Forgotten s c k := by
  intro hforgotten
  exact hforgotten.not_observed (settled_of_replay h).1 (observed_of_commit h hcommit htouches)

/-- **A commit leaves a forgotten place forgotten.** -/
theorem forgotten_commit {r : Cpp.State δ × Session δ ρ}
    (h : (sessionDiscipline program admin hadmin).Replay s request script session)
    (hcommit : (sessions program admin).commit () s session = .ok r) (hforgotten : Forgotten s c k) :
    Forgotten r.1 c k := by
  have hread := hforgotten.not_observed (settled_of_replay h).1
  obtain ⟨-, hok⟩ := commit_sessions program admin hcommit
  obtain ⟨hat, hcounter⟩ := commit_of_not_observed (runs_of_replay h).1 hok hread
  exact ⟨hat.trans hforgotten.1, hcounter.symm ▸ hforgotten.2⟩

/-! ## Runs -/

variable {w : SessionWorld δ ι ρ} {s₀ : Cpp.State δ} {es : List (SessionEvent ι α)}

/-- **A forgotten place is closed**: whatever interleaves, it stays forgotten, and no session whose
    program touches it ever commits. -/
theorem forgotten_run (hdocs : ∀ s a, docs (admin a s) = docs s)
    (hinv : (sessionDiscipline program admin hadmin).Inv s₀ w) (hw : Forgotten w.shared c k) :
    Forgotten (run (sessions program admin) w es).shared c k ∧
      ∀ entry ∈ commits (sessions program admin) w es, ¬ (program entry.init).Touches c k := by
  have hlog : ∃ log, (run (sessions program admin) w es).log = w.log ++ log ∧
      Forgotten (run (sessions program admin) w es).shared c k ∧
      ∀ entry ∈ log, ¬ (program entry.init).Touches c k := by
    refine (sessionDiscipline program admin hadmin).run_commits (C := fun _ _ => True)
      (P := fun l s => ∃ log, l = w.log ++ log ∧ Forgotten s c k ∧
        ∀ entry ∈ log, ¬ (program entry.init).Touches c k) ?_ ?_
      (runMeets_and _ (runMeets_allowed hadmin w es) (runMeets_of_forall _ (fun _ _ => trivial) w es))
      hinv ⟨[], (List.append_nil _).symm, hw, nofun⟩
    · rintro v n g slot r _ _ hreplay hcommit ⟨log, hlog, hforgotten, hclosed⟩
      refine ⟨log ++ [⟨n, slot.init, slot.tx, slot.script, g⟩], ?_,
        forgotten_commit hreplay hcommit hforgotten, fun entry hentry htouches => ?_⟩
      · rw [hlog, List.append_assoc]
      · rcases List.mem_append.mp hentry with hold | hlast
        · exact hclosed entry hold htouches
        · obtain rfl := List.mem_singleton.mp hlast
          exact not_forgotten_of_commit hreplay hcommit htouches hforgotten
    · rintro l s a ⟨log, hlog, hforgotten, hclosed⟩
      exact ⟨log, hlog, hforgotten.later (hadmin s a) (hdocs s a), hclosed⟩
  obtain ⟨log, hlog, hforgotten, hclosed⟩ := hlog
  rw [log_run, List.append_cancel_left_eq] at hlog
  exact ⟨hforgotten, hlog ▸ hclosed⟩

variable (program) in
/-- **An erased place is closed for good**, in every store of sessions on the C++ backend: where a run
    had a document and then has none, no session whose program gets, puts or erases it commits later. -/
theorem erased_closed (hadmin : ∀ s a, Later s (admin a s)) (hdocs : ∀ s a, docs (admin a s) = docs s)
    (es es' es'' : List (SessionEvent ι α))
    (hbefore : docs (run (sessions program admin) (.init InMemoryState.empty) es).shared c k ≠ none)
    (hafter : docs (run (sessions program admin) (.init InMemoryState.empty) (es ++ es')).shared c k =
      none) :
    ∀ entry ∈ commits (sessions program admin)
      (run (sessions program admin) (.init InMemoryState.empty) (es ++ es')) es'',
      ¬ (program entry.init).Touches c k := by
  have hinv (es : List (SessionEvent ι α)) :
      (sessionDiscipline program admin hadmin).Inv (InMemoryState.empty : Cpp.State δ)
        (run (sessions program admin) (.init InMemoryState.empty) es) :=
    Discipline.run_inv _ (runMeets_allowed hadmin _ es)
  have hlater : Later (run (sessions program admin) (.init (InMemoryState.empty : Cpp.State δ)) es).shared
      (run (sessions program admin) (.init InMemoryState.empty) (es ++ es')).shared := by
    rw [run_append]
    exact (sessionDiscipline program admin hadmin).run_later _ es'
  exact (forgotten_run hdocs (hinv _) (forgotten_of_gone hlater hbefore hafter)).2

end

/-- Requests that put one document, or erase it. -/
def switchProgram : Bool → TxProgram Empty Unit
  | true => .write .leases [] .null
  | false => .remove .leases []

/-- The store of these requests; nothing is registered. -/
abbrev switchStore : Store Bool (Cpp.State Empty) (Session Empty Unit) Unit Unit Unit (Option Error)
    Empty :=
  sessions switchProgram fun _ s => s

/-- The document is put and erased, and then somebody tries to put it again. -/
theorem erased_closed_switch :
    docs (run switchStore (.init InMemoryState.empty)
      (soloSession 0 true 1 ++ soloSession 1 false 1)).shared .leases [] = none ∧
    ∀ entry ∈ commits switchStore (run switchStore (.init InMemoryState.empty)
        (soloSession 0 true 1 ++ soloSession 1 false 1)) (soloSession 2 true 1),
      ¬ (switchProgram entry.init).Touches .leases [] := by
  refine ⟨rfl, erased_closed switchProgram (fun s _ => Later.refl s) (fun _ _ => rfl) (soloSession 0 true 1)
    (soloSession 1 false 1) (soloSession 2 true 1) ?_ rfl⟩
  intro hnone
  cases hnone

end Runtime

end StateSpec
