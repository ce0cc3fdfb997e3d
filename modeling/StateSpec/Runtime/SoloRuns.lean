/-
  SOLO RUNS — that a store carries out what its programs can do, as long as nobody interferes.

  `history_run` says that every run is a history.  The other way round: a history of programs that only
  get and put is what some run of the store has committed, with one session after another
  (`history_realized`).  What a session needs for its commit is `Undisturbed`: no index is in the way,
  and each counter is the version of the record under it.  Erasing a record would break that: its
  counter goes on, while a `get` of the missing record observes version 0.
-/
import StateSpec.Runtime.Session

set_option linter.unusedSectionVars false

namespace StateSpec

/-- The program gets and puts, and does nothing else. -/
def Program.GetsAndPuts {C K D ε α : Type} : Program C K D ε α → Prop
  | .ret _ => True
  | .throw _ => True
  | .get _ _ next => ∀ r, (next r).GetsAndPuts
  | .all _ _ => False
  | .put _ _ _ next => next.GetsAndPuts
  | .erase _ _ _ => False

theorem Program.getsAndPuts_do {C K D ε α β : Type} {p : Program C K D ε α}
    {f : α → Program C K D ε β} (hp : p.GetsAndPuts) (hf : ∀ a, (f a).GetsAndPuts) :
    (p >>= f).GetsAndPuts := by
  show (p.bind f).GetsAndPuts
  induction p with
  | ret a => exact hf a
  | throw e => trivial
  | get c k next ih => exact fun r => ih r (hp r)
  | all c next ih => exact hp.elim
  | put c k document next ih => exact ih hp
  | erase c k next ih => exact hp.elim

namespace Runtime

open Memory Memory.InMemoryTransaction Interleaving

variable {δ : Type} [Decimal δ]

/-! ## One session on its own -/

/-- No index is in the way, and each counter is the version of the record under it. -/
structure Undisturbed (s : Cpp.State δ) : Prop where
  plain : Plain s.indexes
  counted : ∀ (c : RuntimeCollection) k,
    s.recordVersion c.name k = s.counter (recordVersionKey c.name k)

theorem undisturbed_empty : Undisturbed (InMemoryState.empty : Cpp.State δ) := by
  refine ⟨fun c name => ?_, fun c k => ?_⟩
  · simp [descriptorOf, InMemoryState.empty, OrderedMap.find₂]
  · simp [InMemoryState.recordVersion, InMemoryState.recordAt, InMemoryState.empty,
      OrderedMap.find₂, InMemoryState.counter, versionOrZero]

/-- A session that can commit: open, up to date, with nothing erased. -/
structure Ready (s : Cpp.State δ) (t : Cpp.Tx δ) : Prop where
  isOpen : t.isOpen = true
  valid : Valid s t
  stages : StagesRuntime t
  erases : ∀ vk, vk ∉ t.erases

theorem ready_begin (s : Cpp.State δ) : Ready s begin where
  isOpen := rfl
  valid vk v h := by simp [observation, begin] at h
  stages vk r h := by simp [begin] at h
  erases vk h := by simp [begin] at h

variable {s : Cpp.State δ} {t : Cpp.Tx δ}

theorem Ready.get (h : Ready s t) (hs : Undisturbed s) (c : RuntimeCollection) (k : Key) :
    Ready s (get .first s t c.name k).2 := by
  obtain ⟨hopen, hputs, herases⟩ := get_frame .first s t c.name k
  refine ⟨hopen.trans h.isOpen, ?_, fun vk r hr => h.stages vk r (hputs ▸ hr),
    fun vk hvk => h.erases vk (herases ▸ hvk)⟩
  by_cases hover : t.Overlays (recordVersionKey c.name k)
  · rw [get_of_overlays .first s h.isOpen hover]
    exact h.valid
  · rw [get_of_not_overlays .first s h.isOpen hover]
    intro vk v hv
    -- what is observed now is the version of the record, and that is its counter
    rcases observation_recordRead hv with ⟨rfl, rfl⟩ | hold
    · exact (hs.counted c k).symm
    · exact h.valid vk v hold

theorem Ready.stage (h : Ready s t) (c : RuntimeCollection) (k : Key) (document : Json δ)
    (hread : recordVersionKey c.name k ∈ t.readVersions) :
    Ready s (t.stage c.name k document hread) := by
  refine ⟨h.isOpen, h.valid, fun vk r hr => ?_, fun vk hvk => ?_⟩
  · simp only [InMemoryTransaction.stage, OrderedMap.find_insert] at hr
    by_cases hvk : vk = recordVersionKey c.name k
    · rw [if_pos hvk, Option.some_inj] at hr
      exact ⟨c, hr ▸ rfl⟩
    · rw [if_neg hvk] at hr
      exact h.stages vk r hr
  · simp only [InMemoryTransaction.stage, Std.ExtTreeSet.mem_erase] at hvk
    exact h.erases vk hvk.2

/-- So many calls of a session. -/
def Session.calls {ρ : Type} (s : Cpp.State δ) : Nat → Session δ ρ → Session δ ρ
  | 0, session => session
  | n + 1, session => (session.call s).calls s n

/-- **A program that runs returns**, when its session is alone: induction on the run. -/
theorem calls_of_runs {ρ : Type} {p : TxProgram δ ρ} {d d' : Docs δ} {a : ρ} (hs : Undisturbed s)
    (h : p.Runs d a d') (hp : p.GetsAndPuts) (ht : Ready s t) (hview : view s t = d) :
    ∃ n t', (⟨t, p⟩ : Session δ ρ).calls s n = ⟨t', .ret a⟩ ∧ Ready s t' ∧ view s t' = d' := by
  induction h generalizing t with
  | ret => exact ⟨0, t, rfl, ht, hview⟩
  | @get c k next d d' a hrun ih =>
    have ht' := ht.get hs c k
    have hframe := get_frame .first s t c.name k
    have hview' := (view_congr s hframe.2.1 hframe.2.2).trans hview
    obtain ⟨n, t', hcalls, hready, hend⟩ := ih (hp (d c k)) ht' hview'
    refine ⟨n + 1, t', ?_, hready, hend⟩
    have hcall : (⟨t, .get c k next⟩ : Session δ ρ).call s =
        ⟨(InMemoryTransaction.get .first s t c.name k).2, next (d c k)⟩ := by
      rw [← hview]
      by_cases hover : t.Overlays (recordVersionKey c.name k)
      · simp only [Session.call, get_of_overlays .first s ht.isOpen hover, view_of_overlays s hover]
      · simp only [Session.call, get_of_not_overlays .first s ht.isOpen hover,
          view_of_not_overlays s hover, docs]
    rw [Session.calls, hcall]
    exact hcalls
  | all hl hnodup hrun ih => exact hp.elim
  | @put c k document next d d' a hrun ih =>
    rcases put_cases .first s t c.name k document with ⟨hclosed, -⟩ | ⟨-, hread, heq⟩
    · rw [ht.isOpen] at hclosed
      cases hclosed
    have ht' := (ht.get hs c k).stage c k document hread
    have hframe := get_frame .first s t c.name k
    have hview' : view s ((InMemoryTransaction.get .first s t c.name k).2.stage c.name k document
        hread) = d.set c k (some document) := by
      rw [view_stage, view_congr s hframe.2.1 hframe.2.2, hview]
    obtain ⟨n, t', hcalls, hready, hend⟩ := ih hp ht' hview'
    refine ⟨n + 1, t', ?_, hready, hend⟩
    have hcall : (⟨t, .put c k document next⟩ : Session δ ρ).call s =
        ⟨(InMemoryTransaction.get .first s t c.name k).2.stage c.name k document hread, next⟩ := by
      simp only [Session.call, heq]
    rw [Session.calls, hcall]
    exact hcalls
  | erase hrun ih => exact hp.elim

/-- **A session that is ready commits**, and leaves the state undisturbed. -/
theorem commit_of_ready (hs : Undisturbed s) (ht : Ready s t) :
    ∃ s', Cpp.commit s t = .ok (s', t.abort) ∧ docs s' = view s t ∧ Undisturbed s' := by
  obtain ⟨indexes, hst⟩ := stageIndexes_total hs.plain [] t
  have hcommit := commit_of_staged ht.isOpen (current_iff.mpr ht.valid) hst
  have hcommit' := Cpp.commit_ok_iff.mpr hcommit
  refine ⟨_, hcommit', docs_committed ht.stages hcommit', fun c name => ?_, fun c k => ?_⟩
  · exact ((staging hst).descriptors c name).trans (hs.plain c name)
  · rw [InMemoryState.recordVersion, recordAt_committed_name ht.stages hst, if_neg (ht.erases _)]
    cases hput : t.puts[recordVersionKey c.name k]? with
    | some r => rfl
    | none =>
      have hover : ¬ t.Overlays (recordVersionKey c.name k) := by
        rintro (herase | hmem)
        · exact ht.erases _ herase
        · rw [Std.ExtTreeMap.mem_iff_isSome_getElem?, hput] at hmem
          cases hmem
      rw [counter_committed t s hst, if_neg hover, Nat.add_zero]
      exact hs.counted c k

/-! ## Runs -/

section

variable {ι ρ α : Type} {program : ι → TxProgram δ ρ} {admin : α → Cpp.State δ → Cpp.State δ}

variable (program admin) in
/-- The calls of one session change that session only. -/
theorem run_calls (w : SessionWorld δ ι ρ) {m : Nat}
    {slot : Slot ι (Session δ ρ) Unit Unit} (hslot : w.slots[m]? = some slot) (n : Nat) :
    ∃ slot', (run (sessions program admin) w (List.replicate n (.op m ()))).slots[m]? = some slot' ∧
      slot'.init = slot.init ∧ slot'.tx = slot.tx.calls w.shared n ∧
      (run (sessions program admin) w (List.replicate n (.op m ()))).shared = w.shared ∧
      (run (sessions program admin) w (List.replicate n (.op m ()))).log = w.log := by
  induction n generalizing w slot with
  | zero => exact ⟨slot, hslot, rfl, rfl, rfl, rfl⟩
  | succ n ih =>
    have hstep : step (sessions program admin) w (.op m ()) =
        w.executed m slot () ((sessions program admin).exec () w.shared slot.tx) := by
      simp only [step, hslot]
    have hslot' : (step (sessions program admin) w (.op m ())).slots[m]? =
        some ⟨slot.init, slot.tx.call w.shared, slot.script ++ [((), ())]⟩ := by
      rw [hstep]
      exact List.getElem?_set_self (List.getElem?_eq_some_iff.mp hslot).1
    obtain ⟨slot'', hend, hinit, htx, hshared, hlog⟩ := ih _ hslot'
    rw [List.replicate_succ, run_cons]
    refine ⟨slot'', hend, hinit, ?_, ?_, ?_⟩
    · rw [htx, hstep]
      rfl
    · rw [hshared, hstep]
      rfl
    · rw [hlog, hstep]
      rfl

variable (admin) in
/-- **A program that runs is carried out**, by a session that nobody interrupts. -/
theorem run_soloSession {w : SessionWorld δ ι ρ} (hs : Undisturbed w.shared) {request : ι} {a : ρ}
    {d : Docs δ} (hp : (program request).GetsAndPuts)
    (h : (program request).Runs (docs w.shared) a d) :
    ∃ calls, ∀ w', w' = run (sessions program admin) w (soloSession w.slots.length request calls) →
      docs w'.shared = d ∧ Undisturbed w'.shared ∧ answers w'.log = answers w.log ++ [(request, a)] := by
  obtain ⟨calls, t, hcalls, hready, hview⟩ := calls_of_runs hs h hp (ready_begin _) (view_begin _)
  obtain ⟨s', hcommit, hdocs, hs'⟩ := commit_of_ready hs hready
  refine ⟨calls, ?_⟩
  rintro w' rfl
  have hslot : (step (sessions program admin) w (.begin request)).slots[w.slots.length]? =
      some ⟨request, (sessions program admin).begin request, []⟩ := List.getElem?_concat_length
  obtain ⟨slot, hend, hinit, htx, hshared, hlog⟩ := run_calls program admin
    _ hslot calls
  rw [soloSession, run_append, run_cons]
  -- the session has returned, and its commit is accepted
  have htx' : slot.tx = ⟨t, .ret a⟩ := htx.trans hcalls
  have hok : (sessions program admin).commit () w.shared slot.tx =
      .ok (s', { slot.tx with tx := t.abort }) := by
    rw [htx']
    simp only [sessions, hcommit]
  have hlast (w₁ : SessionWorld δ ι ρ) (hslot₁ : w₁.slots[w.slots.length]? = some slot)
      (hshared₁ : w₁.shared = w.shared) :
      step (sessions program admin) w₁ (.commit w.slots.length ()) =
        w₁.committed w.slots.length slot () (s', { slot.tx with tx := t.abort }) := by
    simp only [step, hslot₁, hshared₁, hok]
  rw [run_cons, run_nil, hlast _ hend hshared]
  refine ⟨hdocs.trans hview, hs', ?_⟩
  show answers (_ ++ [_]) = _
  rw [answers_append, hlog]
  simp [answers, htx', hinit, step]

variable (admin) in
/-- **Every history is a run**, when its programs only get and put. -/
theorem history_realized {s₀ : Cpp.State δ} (hs : Undisturbed s₀)
    (hp : ∀ request, (program request).GetsAndPuts) {log : List (ι × ρ)} {d : Docs δ}
    (h : History program (fun _ _ _ => True) (docs s₀) log d) :
    ∃ es : List (SessionEvent ι α),
      docs (run (sessions program admin) (.init s₀) es).shared = d ∧
      answers (run (sessions program admin) (.init s₀) es).log = log := by
  suffices hall : ∃ es : List (SessionEvent ι α), ∀ w, w = run (sessions program admin) (.init s₀) es →
      docs w.shared = d ∧ Undisturbed w.shared ∧ answers w.log = log by
    obtain ⟨es, hes⟩ := hall
    exact ⟨es, (hes _ rfl).1, (hes _ rfl).2.2⟩
  induction h with
  | nil => exact ⟨[], by rintro w rfl; exact ⟨rfl, hs, rfl⟩⟩
  | @snoc log d d' request response _ _ hruns ih =>
    obtain ⟨es, hes⟩ := ih
    obtain ⟨hdocs, hundisturbed, hlog⟩ := hes _ rfl
    obtain ⟨calls, hcalls⟩ := run_soloSession admin hundisturbed (hp request)
      (hdocs.symm ▸ hruns)
    refine ⟨es ++ soloSession
      (run (sessions program admin) (.init s₀) es).slots.length request calls, ?_⟩
    rintro w rfl
    obtain ⟨hdocs', hundisturbed', hlog'⟩ := hcalls _ rfl
    rw [run_append]
    exact ⟨hdocs', hundisturbed', hlog'.trans (by rw [hlog])⟩

end

end Runtime

end StateSpec
