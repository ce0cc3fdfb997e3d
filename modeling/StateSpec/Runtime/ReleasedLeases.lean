/-
  RELEASED LEASES — a lease that has been released is gone for good on the C++ in-memory backend.

  A release erases the lease, and every call about a lease gets its document; so nothing about a released
  lease ever commits again (`released_for_good`): not the next acquisition, and not even an inspection.

  That is why the fencing tokens of this backend never repeat although a release forgets the counter
  (`stored_tokens_increase`): the acquisition that would start again at 1 does not commit.
-/
import StateSpec.Lib.Refinement
import StateSpec.Runtime.ErasedPlaces
import StateSpec.Runtime.FencingTokens

namespace StateSpec.Runtime

open Program Interleaving Memory

variable {δ : Type}

/-! ## What a request touches -/

/-- The storage key of the lease that a request is about. -/
def LeaseRequest.key : LeaseRequest → Option Key
  | .registerDefinition _ | .inspectDefinition _ => none
  | .acquire request => some (leaseKey request.definitionId request.resource)
  | .renew request => some (leaseKey request.definitionId request.resource)
  | .release request => some (leaseKey request.definitionId request.resource)
  | .inspect request => some (leaseKey request.definitionId request.resource)

/-- Inspecting a lease gets its document. -/
theorem touches_inspectLeaseTx (request : LeaseInspectRequest) :
    (inspectLeaseTx request : TxProgram δ _).Touches .leases
      (leaseKey request.definitionId request.resource) :=
  Or.inl ⟨rfl, rfl⟩

theorem touches_requireLease (id : LeaseDefinitionId) (resource : Bytes) :
    (requireLease id resource : TxProgram δ _).Touches .leases (leaseKey id resource) :=
  (touches_inspectLeaseTx { definitionId := id, resource }).bind _

/-- Every request about a lease gets its document. -/
theorem touches_leaseProgram {request : LeaseRequest} {k : Key} (h : request.key = some k) :
    (leaseProgram request : TxProgram δ _).Touches .leases k := by
  cases request with
  | registerDefinition definition => cases h
  | inspectDefinition id => cases h
  | acquire request =>
    obtain rfl := Option.some_inj.mp h
    exact touches_map (touches_bind fun definition => (touches_inspectLeaseTx
      { definitionId := request.definitionId, resource := request.resource }).bind _)
  | renew request =>
    obtain rfl := Option.some_inj.mp h
    exact touches_map (touches_bind fun definition => (touches_requireLease _ _).bind _)
  | release request =>
    obtain rfl := Option.some_inj.mp h
    exact touches_map ((touches_requireLease _ _).bind _)
  | inspect request =>
    obtain rfl := Option.some_inj.mp h
    exact touches_map (touches_inspectLeaseTx request)

/-! ## Released leases -/

/-- A release of the lease has been committed. -/
def Released (k : Key) (log : LeaseLog) : Prop :=
  ∃ request, (.release request, .released) ∈ log ∧
    leaseKey request.definitionId request.resource = k

/-- After the release of a lease, no request about it is carried out. -/
def ReleasedForGood (log : LeaseLog) : Prop :=
  ∀ before request rest, log = before ++ (.release request, .released) :: rest →
    ∀ entry ∈ rest, entry.1.key ≠ some (leaseKey request.definitionId request.resource)

/-- One more request, which is not about a released lease. -/
theorem ReleasedForGood.snoc {log : LeaseLog} {entry : LeaseRequest × LeaseResponse}
    (h : ReleasedForGood log) (hentry : ∀ k, Released k log → entry.1.key ≠ some k) :
    ReleasedForGood (log ++ [entry]) := by
  intro before request rest hlog other hother
  rcases snoc_eq_append_cons hlog with ⟨rfl, -, -⟩ | ⟨rest, rfl, rfl⟩
  · cases hother
  · rcases List.mem_append.mp hother with hold | hlast
    · exact h before request rest rfl other hold
    · obtain rfl := List.mem_singleton.mp hlast
      exact hentry _ ⟨request, List.mem_append_right before List.mem_cons_self, rfl⟩

/-- A release finds a document and leaves none. -/
theorem runs_release_document {d d' : Docs δ} {request : LeaseReleaseRequest} {u : Unit}
    (h : (releaseTx request).Runs d u d') :
    d .leases (leaseKey request.definitionId request.resource) ≠ none ∧
      d' .leases (leaseKey request.definitionId request.resource) = none := by
  obtain ⟨lease, mid, hfind, hrest⟩ := runs_do.mp h
  obtain ⟨rfl, hlease⟩ := runs_requireLease hfind
  obtain ⟨_, mid', hcheck, hlast⟩ := runs_do.mp hrest
  obtain ⟨rfl, -⟩ := runs_requireHolder hcheck
  constructor
  · intro hnone
    rw [leaseAt, decodedAt, hnone] at hlease
    cases hlease
  · rw [runs_remove.mp hlast]
    exact Documents.set_self ..

/-- A lease that is not there has not been granted, or it has been released. -/
def Missing (log : LeaseLog) (d : Docs δ) : Prop :=
  ∀ k, leaseAt d k = none → grantedTokens k log = [] ∨ Released k log

theorem Missing.snoc {log : LeaseLog} {d d' : Docs δ} {request : LeaseRequest}
    {response : LeaseResponse} (h : Missing log d)
    (hruns : (leaseProgram request).Runs d response d') :
    Missing (log ++ [(request, response)]) d' := by
  intro k hk
  have hchange := leaseChange_of_runs hruns k
  have hmore (hold : Released k log) : Released k (log ++ [(request, response)]) := by
    obtain ⟨r, hr, hkey⟩ := hold
    exact ⟨r, List.mem_append_left _ hr, hkey⟩
  rw [hk] at hchange
  rw [grantedTokens_snoc]
  generalize hbefore : leaseAt d k = before at hchange
  cases hchange with
  | other _ hevent =>
    have hnone : grantedTokens k [(request, response)] = [] := by
      rw [grantedTokens, List.filterMap_cons, hevent]
      rfl
    rw [hnone, List.append_nil]
    exact (h k hbefore).imp_right hmore
  | release release lease hevent hkey hheld =>
    exact Or.inr ⟨release, List.mem_append_right log (List.mem_singleton_self _), hkey⟩

/-! ## The backend -/

variable [Decimal δ]

/-- What holds of the requests and the state: released leases are forgotten. -/
structure ReleasesKept (log : LeaseLog) (s : Cpp.State δ) : Prop where
  forgotten : ∀ k, Released k log → Forgotten s .leases k
  released : ReleasedForGood log

/-- The session of one more request that commits. -/
theorem ReleasesKept.commit {log : LeaseLog} {s : Cpp.State δ} (h : ReleasesKept log s)
    {request : LeaseRequest} {script : List (Unit × Unit)} {session : Session δ LeaseResponse}
    {r : Cpp.State δ × Session δ LeaseResponse} {response : LeaseResponse}
    (hreplay : (sessionDiscipline leaseProgram ensureLeaseCollections
      later_ensureLeaseCollections).Replay s request script session)
    (hcommit : (leaseStore (δ := δ)).commit () s session = .ok r)
    (hruns : (leaseProgram request).Runs (docs s) response (docs r.1)) :
    ReleasesKept (log ++ [(request, response)]) r.1 := by
  obtain ⟨-, hok⟩ := commit_sessions _ _ hcommit
  refine ⟨fun k hk => ?_, h.released.snoc ?_⟩
  · obtain ⟨release, hmem, hkey⟩ := hk
    rcases List.mem_append.mp hmem with hold | hlast
    · exact forgotten_commit hreplay hcommit (h.forgotten k ⟨release, hold, hkey⟩)
    · -- the request is the release: its lease was there, and is gone
      cases List.mem_singleton.mp hlast
      obtain ⟨_, hrelease, -⟩ := runs_map.mp hruns
      obtain ⟨hbefore, hafter⟩ := runs_release_document hrelease
      rw [hkey] at hbefore hafter
      exact forgotten_of_gone (later_commit (Cpp.commit_ok_iff.mp hok)) hbefore hafter
  · intro k hk hkey
    exact not_forgotten_of_commit hreplay hcommit (touches_leaseProgram hkey) (h.forgotten k hk)

/-- Of what a request finds that is granted, the counter of the stored lease can still go up. -/
def CounterBelow (_ : LeaseLog) (d : Docs δ) : LeaseRequest → Prop
  | .acquire request => ∀ existing,
      leaseAt d (leaseKey request.definitionId request.resource) = some existing →
      ¬ Unexpired existing request.now → existing.fencingToken.toNat + 1 < 2 ^ 64
  | _ => True

/-- An acquisition that commits does not start again at 1. -/
theorem counterKept_of_commit {log : LeaseLog} {s : Cpp.State δ} (h : ReleasesKept log s)
    (hmissing : Missing log (docs s)) {request : LeaseRequest} {script : List (Unit × Unit)}
    {session : Session δ LeaseResponse} {r : Cpp.State δ × Session δ LeaseResponse}
    (hreplay : (sessionDiscipline leaseProgram ensureLeaseCollections
      later_ensureLeaseCollections).Replay s request script session)
    (hcommit : (leaseStore (δ := δ)).commit () s session = .ok r)
    (hbelow : CounterBelow log (docs s) request) : CounterKept log (docs s) request := by
  cases request with
  | acquire request =>
    refine ⟨fun hnone => ?_, hbelow⟩
    rcases hmissing _ hnone with hfresh | hreleased
    · exact hfresh
    · exact absurd (h.forgotten _ hreleased)
        (not_forgotten_of_commit hreplay hcommit (touches_leaseProgram rfl))
  | _ => trivial

/-- The requests that a run commits are a history in which no acquisition starts again at 1, and its
    releases are kept: induction over the commits. -/
theorem releases_run {P : LeaseLog → Docs δ → LeaseRequest → Prop}
    {es : List (SessionEvent LeaseRequest Unit)}
    (hes : RunMeets leaseStore (Committing P) (World.init InMemoryState.empty) es) :
    ReleasedForGood (leaseLog δ es) ∧
      History leaseProgram
        (fun log d request => P log d request ∧ (CounterBelow log d request → CounterKept log d request))
        (docs (InMemoryState.empty : Cpp.State δ)) (leaseLog δ es) (leaseDocs es) := by
  have hinv : ReleasesKept (leaseLog δ es)
        (run (leaseStore (δ := δ)) (World.init InMemoryState.empty) es).shared ∧
      Missing (leaseLog δ es) (leaseDocs (δ := δ) es) ∧ History leaseProgram
        (fun log d request => P log d request ∧ (CounterBelow log d request → CounterKept log d request))
        (docs (InMemoryState.empty : Cpp.State δ)) (leaseLog δ es) (leaseDocs es) := by
    refine (sessionDiscipline leaseProgram ensureLeaseCollections
      later_ensureLeaseCollections).run_commits (C := Committing P)
      (P := fun l s => ReleasesKept (answers l) s ∧ Missing (answers l) (docs s) ∧
        History leaseProgram (fun log d request =>
          P log d request ∧ (CounterBelow log d request → CounterKept log d request))
          (docs (InMemoryState.empty : Cpp.State δ)) (answers l) (docs s)) ?_ ?_
      (runMeets_and _ (runMeets_allowed _ _ es) hes) (Discipline.inv_init _ _) ?_
    · rintro w n g slot r hP hn hreplay hcommit ⟨hkept, hmissing, hhistory⟩
      obtain ⟨a, ha, hruns⟩ := runs_of_commit hreplay hcommit
      have hlog : answers (w.log ++ [⟨n, slot.init, slot.tx, slot.script, g⟩]) =
          answers w.log ++ [(slot.init, a)] := by
        rw [answers_append]
        simp [answers, ha]
      rw [hlog]
      refine ⟨hkept.commit hreplay hcommit hruns, hmissing.snoc hruns, .snoc hhistory ⟨?_, ?_⟩ hruns⟩
      · exact hP n slot rfl hn
      · exact counterKept_of_commit hkept hmissing hreplay hcommit
    · rintro l s u ⟨hkept, hmissing, hhistory⟩
      have hdocs := docs_ensureLeaseCollections s u
      have hlater := later_ensureLeaseCollections s u
      refine ⟨⟨fun k hk => ?_, hkept.released⟩, ?_, ?_⟩
      · exact (hkept.forgotten k hk).later hlater hdocs
      · exact hdocs.symm ▸ hmissing
      · exact hdocs.symm ▸ hhistory
    · refine ⟨⟨?_, ?_⟩, fun _ _ => Or.inl rfl, .nil⟩
      · rintro k ⟨_, hmem, -⟩
        cases hmem
      · intro before request rest hlog
        simp [answers, World.init] at hlog
  exact ⟨hinv.1.released, hinv.2.2⟩

/-- **A released lease is gone for good**: whatever interleaves on the C++ backend, once a release has
    been committed, no acquisition, renewal, release or inspection of the lease ever is. -/
theorem released_for_good (es : List (SessionEvent LeaseRequest Unit)) :
    ReleasedForGood (leaseLog δ es) :=
  (releases_run (P := fun _ _ _ => True)
    (runMeets_of_forall _ (fun _ _ _ _ _ _ => trivial) _ es)).1

/-- **The tokens of the C++ backend grow** in every run whose acquisitions find counters that can still
    go up, released leases or not. -/
theorem stored_tokens_increase {es : List (SessionEvent LeaseRequest Unit)}
    (hes : RunMeets (leaseStore (δ := δ)) (Committing CounterBelow) (World.init InMemoryState.empty) es) :
    TokensIncrease (leaseLog δ es) := by
  obtain ⟨-, hhistory⟩ := releases_run hes
  have hkept := hhistory.mono fun log d request h => h.2 h.1
  exact (tokens_history hkept).2

/-- Holder `a` acquires the lease and releases it, and holder `b` tries to acquire it. -/
def releasingRun : List (SessionEvent LeaseRequest Unit) :=
  soloSession 0 (LeaseRequest.registerDefinition tenSeconds) 2 ++
  soloSession 1 (LeaseRequest.acquire (acquiring (ascii "a") 0)) 3 ++
  soloSession 2 (LeaseRequest.release
    { definitionId := { name := ascii "l" }, resource := ascii "r", holder := ascii "a" }) 2 ++
  soloSession 3 (LeaseRequest.acquire (acquiring (ascii "b") 0)) 3

theorem stored_tokens_increase_releasing : TokensIncrease (leaseLog Empty releasingRun) := by
  refine stored_tokens_increase ?_
  simp only [releasingRun, runMeets_append]
  refine ⟨⟨⟨?_, ?_⟩, ?_⟩, ?_⟩ <;>
    refine runMeets_soloSession (by simp [length_slots_run, World.init]) ?_ _
  · trivial
  · intro existing h
    cases h
  · trivial
  · intro existing h
    cases h

end StateSpec.Runtime
