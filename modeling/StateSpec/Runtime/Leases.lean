/-
  LEASES — what the operations of the lease store do to one lease.

  `leaseAt` reads the lease under a storage key back from the documents.  Each operation has one rule
  that says what its program returns and leaves; `leaseChange_of_runs` lists, for one key, everything
  a request can do to the lease there (`LeaseChange`).  A granted lease is one whose predecessor, if
  there is one, has expired; a renewal and a release are by the holder.
-/
import StateSpec.Runtime.LeaseStore

namespace StateSpec.Runtime

open Program Interleaving Memory

variable {δ : Type} {d d' : Docs δ}

/-! ## Reading back -/

/-- The definition that is stored under an id. -/
def leaseDefinitionAt (d : Docs δ) (id : LeaseDefinitionId) : Option LeaseDefinition :=
  decodedAt LeaseDefinition.fromJson d .leaseDefinitions (leaseDefinitionKey id)

/-- The lease that is stored under a key. -/
def leaseAt (d : Docs δ) (k : Key) : Option LeaseRecord :=
  decodedAt LeaseRecord.fromJson d .leases k

theorem leaseAt_congr (h : d' .leases = d .leases) (k : Key) : leaseAt d' k = leaseAt d k :=
  decodedAt_congr (congrFun h k)

theorem leaseDefinitionAt_congr (h : d' .leaseDefinitions = d .leaseDefinitions)
    (id : LeaseDefinitionId) : leaseDefinitionAt d' id = leaseDefinitionAt d id :=
  decodedAt_congr (congrFun h _)

/-- What is read back after a lease has been put. -/
theorem leaseAt_set (d : Docs δ) (lease : LeaseRecord) (k k' : Key) :
    leaseAt (d.set .leases k (some lease.toJson)) k' =
      if k' = k then some lease.stored else leaseAt d k' :=
  decodedAt_set lease.fromJson_toJson d _ k k'

/-! ## The rules of the programs -/

theorem runs_inspectLeaseDefinitionTx {id : LeaseDefinitionId} {r : Option LeaseDefinition}
    (h : (inspectLeaseDefinitionTx id).Runs d r d') : d' = d ∧ r = leaseDefinitionAt d id :=
  runs_decoded h rfl fun _ => rfl

theorem runs_inspectLeaseTx {request : LeaseInspectRequest} {r : Option LeaseRecord}
    (h : (inspectLeaseTx request).Runs d r d') :
    d' = d ∧ r = leaseAt d (leaseKey request.definitionId request.resource) :=
  runs_decoded h rfl fun _ => rfl

theorem runs_requireDefinition {id : LeaseDefinitionId} {definition : LeaseDefinition}
    (h : (requireDefinition id).Runs d definition d') :
    d' = d ∧ leaseDefinitionAt d id = some definition := by
  obtain ⟨r, mid, hinspect, hrest⟩ := runs_do.mp h
  obtain ⟨rfl, rfl⟩ := runs_inspectLeaseDefinitionTx hinspect
  cases hdefinition : leaseDefinitionAt mid id with
  | none =>
    rw [hdefinition] at hrest
    exact absurd hrest runs_throw
  | some definition =>
    rw [hdefinition] at hrest
    obtain ⟨rfl, rfl⟩ := runs_pure.mp hrest
    exact ⟨rfl, rfl⟩

theorem runs_requireLease {id : LeaseDefinitionId} {resource : Bytes} {lease : LeaseRecord}
    (h : (requireLease id resource).Runs d lease d') :
    d' = d ∧ leaseAt d (leaseKey id resource) = some lease := by
  obtain ⟨r, mid, hinspect, hrest⟩ := runs_do.mp h
  obtain ⟨rfl, rfl⟩ := runs_inspectLeaseTx hinspect
  cases hlease : leaseAt mid (leaseKey id resource) with
  | none =>
    rw [hlease] at hrest
    exact absurd hrest runs_throw
  | some lease =>
    rw [hlease] at hrest
    obtain ⟨rfl, rfl⟩ := runs_pure.mp hrest
    exact ⟨rfl, rfl⟩

theorem runs_requireHolder {lease : LeaseRecord} {holder : Bytes} {token : UInt64} {u : Unit}
    (h : (requireHolder lease holder token).Runs d u d') : d' = d ∧ HeldBy lease holder token := by
  rw [requireHolder] at h
  split at h
  · exact ⟨(runs_pure.mp h).2, ‹_›⟩
  · exact absurd h runs_throw

theorem runs_grantTx {request : LeaseAcquireRequest} {definition : LeaseDefinition}
    {existing : Option LeaseRecord} {r : LeaseAcquireResult}
    (h : (grantTx request definition existing).Runs d r d') :
    r = { acquired := true, lease := some (granted request definition existing) } ∧
    ∀ k, leaseAt d' k =
      if k = leaseKey request.definitionId request.resource then
        some (granted request definition existing).stored
      else leaseAt d k := by
  obtain ⟨_, mid, hwrite, hrest⟩ := runs_do.mp h
  obtain ⟨rfl, rfl⟩ := runs_pure.mp hrest
  refine ⟨rfl, fun k => ?_⟩
  rw [runs_write.mp hwrite, leaseAt_set]

/-- An acquisition is refused and changes nothing, or it is granted. -/
theorem runs_acquireTx {request : LeaseAcquireRequest} {r : LeaseAcquireResult}
    (h : (acquireTx request).Runs d r d') :
    ∃ definition, leaseDefinitionAt d request.definitionId = some definition ∧
      (r.acquired = false ∧ d' = d ∨
        (∀ lease, leaseAt d (leaseKey request.definitionId request.resource) = some lease →
          ¬ Unexpired lease request.now) ∧
        (grantTx request definition
          (leaseAt d (leaseKey request.definitionId request.resource))).Runs d r d') := by
  obtain ⟨definition, mid, hrequire, hrest⟩ := runs_do.mp h
  obtain ⟨rfl, hdefinition⟩ := runs_requireDefinition hrequire
  obtain ⟨existing, mid', hinspect, hlast⟩ := runs_do.mp hrest
  obtain ⟨rfl, rfl⟩ := runs_inspectLeaseTx hinspect
  refine ⟨definition, hdefinition, ?_⟩
  cases hexisting : leaseAt mid' (leaseKey request.definitionId request.resource) with
  | none =>
    rw [hexisting] at hlast
    exact Or.inr ⟨nofun, hlast⟩
  | some existing =>
    rw [hexisting] at hlast
    by_cases hunexpired : Unexpired existing request.now
    · replace hlast : Runs (if Unexpired existing request.now then _ else _) mid' r d' := hlast
      rw [if_pos hunexpired] at hlast
      obtain ⟨rfl, rfl⟩ := runs_pure.mp hlast
      exact Or.inl ⟨rfl, rfl⟩
    · replace hlast : Runs (if Unexpired existing request.now then _ else _) mid' r d' := hlast
      rw [if_neg hunexpired] at hlast
      refine Or.inr ⟨?_, hlast⟩
      rintro _ ⟨rfl⟩
      exact hunexpired

theorem runs_renewTx {request : LeaseRenewRequest} {r : LeaseRecord}
    (h : (renewTx request).Runs d r d') :
    ∃ definition lease, leaseDefinitionAt d request.definitionId = some definition ∧
      leaseAt d (leaseKey request.definitionId request.resource) = some lease ∧
      HeldBy lease request.holder request.fencingToken ∧ r = renewed request definition lease ∧
      ∀ k, leaseAt d' k =
        if k = leaseKey request.definitionId request.resource then
          some (renewed request definition lease).stored
        else leaseAt d k := by
  obtain ⟨definition, mid, hrequire, hrest⟩ := runs_do.mp h
  obtain ⟨rfl, hdefinition⟩ := runs_requireDefinition hrequire
  obtain ⟨lease, mid', hfind, hafter⟩ := runs_do.mp hrest
  obtain ⟨rfl, hlease⟩ := runs_requireLease hfind
  obtain ⟨_, mid'', hcheck, hlast⟩ := runs_do.mp hafter
  obtain ⟨rfl, hholder⟩ := runs_requireHolder hcheck
  obtain ⟨_, mid, hwrite, hend⟩ := runs_do.mp hlast
  obtain ⟨rfl, rfl⟩ := runs_pure.mp hend
  refine ⟨definition, lease, hdefinition, hlease, hholder, rfl, fun k => ?_⟩
  rw [runs_write.mp hwrite, leaseAt_set]

theorem runs_releaseTx {request : LeaseReleaseRequest} {u : Unit}
    (h : (releaseTx request).Runs d u d') :
    ∃ lease, leaseAt d (leaseKey request.definitionId request.resource) = some lease ∧
      HeldBy lease request.holder request.fencingToken ∧
      ∀ k, leaseAt d' k =
        if k = leaseKey request.definitionId request.resource then none else leaseAt d k := by
  obtain ⟨lease, mid, hfind, hrest⟩ := runs_do.mp h
  obtain ⟨rfl, hlease⟩ := runs_requireLease hfind
  obtain ⟨_, mid', hcheck, hlast⟩ := runs_do.mp hrest
  obtain ⟨rfl, hholder⟩ := runs_requireHolder hcheck
  refine ⟨lease, hlease, hholder, fun k => ?_⟩
  rw [runs_remove.mp hlast]
  exact decodedAt_erase _ _ _ k

/-! ## The collections the programs leave alone -/

theorem leaves_inspectLeaseDefinitionTx (c : RuntimeCollection) (id : LeaseDefinitionId) :
    (inspectLeaseDefinitionTx id : TxProgram δ _).Leaves c :=
  leaves_decoded rfl fun _ => rfl

theorem leaves_requireDefinition (c : RuntimeCollection) (id : LeaseDefinitionId) :
    (requireDefinition id : TxProgram δ _).Leaves c := by
  refine leaves_do (leaves_inspectLeaseDefinitionTx c id) fun definition => ?_
  cases definition with
  | none => trivial
  | some definition => trivial

theorem leaves_inspectLeaseTx (c : RuntimeCollection) (request : LeaseInspectRequest) :
    (inspectLeaseTx request : TxProgram δ _).Leaves c :=
  leaves_decoded rfl fun _ => rfl

theorem leaves_requireLease (c : RuntimeCollection) (id : LeaseDefinitionId) (resource : Bytes) :
    (requireLease id resource : TxProgram δ _).Leaves c := by
  refine leaves_do (leaves_inspectLeaseTx c _) fun lease => ?_
  cases lease with
  | none => trivial
  | some lease => trivial

theorem leaves_requireHolder (c : RuntimeCollection) (lease : LeaseRecord) (holder : Bytes)
    (token : UInt64) : (requireHolder lease holder token : TxProgram δ _).Leaves c := by
  rw [requireHolder]
  split <;> trivial

theorem leaves_registerLeaseDefinitionTx {c : RuntimeCollection}
    (hc : RuntimeCollection.leaseDefinitions ≠ c) (definition : LeaseDefinition) :
    (registerLeaseDefinitionTx definition : TxProgram δ _).Leaves c := by
  refine leaves_do (leaves_inspectLeaseDefinitionTx c _) fun existing => ?_
  exact leaves_do (leaves_write hc _ _) fun _ => trivial

/-- Only a registration writes the definitions. -/
theorem leaves_leaseProgram {request : LeaseRequest}
    (h : ∀ definition, request ≠ .registerDefinition definition) :
    (leaseProgram request : TxProgram δ _).Leaves .leaseDefinitions := by
  have hgrant (r : LeaseAcquireRequest) (definition : LeaseDefinition)
      (existing : Option LeaseRecord) :
      (grantTx r definition existing : TxProgram δ _).Leaves .leaseDefinitions :=
    leaves_do (leaves_write (by decide) _ _) fun _ => trivial
  cases request with
  | registerDefinition definition => exact absurd rfl (h definition)
  | inspectDefinition id => exact leaves_map (leaves_inspectLeaseDefinitionTx _ id)
  | acquire request =>
    refine leaves_map (leaves_do (leaves_requireDefinition _ _) fun definition => ?_)
    refine leaves_do (leaves_inspectLeaseTx _ _) fun existing => ?_
    cases existing with
    | none => exact hgrant request definition none
    | some existing =>
      show Leaves _ (if Unexpired existing request.now then _ else _)
      split
      · trivial
      · exact hgrant request definition (some existing)
  | renew request =>
    refine leaves_map (leaves_do (leaves_requireDefinition _ _) fun definition => ?_)
    refine leaves_do (leaves_requireLease _ _ _) fun lease => ?_
    refine leaves_do (leaves_requireHolder _ _ _ _) fun _ => ?_
    exact leaves_do (leaves_write (by decide) _ _) fun _ => trivial
  | release request =>
    refine leaves_map (leaves_do (leaves_requireLease _ _ _) fun lease => ?_)
    exact leaves_do (leaves_requireHolder _ _ _ _) fun _ => leaves_remove (by decide) _
  | inspect request => exact leaves_map (leaves_inspectLeaseTx _ request)

/-! ## What a request can do to one lease -/

/-- What a committed request has done to the lease under a key. -/
inductive LeaseEvent where
  | granted (request : LeaseAcquireRequest) (lease : LeaseRecord)
  | renewed (request : LeaseRenewRequest) (lease : LeaseRecord)
  | released (request : LeaseReleaseRequest)
  | other

def leaseEvent (k : Key) : LeaseRequest × LeaseResponse → LeaseEvent
  | (.acquire request, .acquired { acquired := true, lease := some lease }) =>
    if leaseKey request.definitionId request.resource = k then .granted request lease else .other
  | (.renew request, .renewed lease) =>
    if leaseKey request.definitionId request.resource = k then .renewed request lease else .other
  | (.release request, _) =>
    if leaseKey request.definitionId request.resource = k then .released request else .other
  | _ => .other

/-- **Everything a request can do to the lease under `k`**, with the lease before and after. -/
inductive LeaseChange (d : Docs δ) (k : Key) : LeaseRequest → LeaseResponse →
    Option LeaseRecord → Option LeaseRecord → Prop where
  | other {request : LeaseRequest} {response : LeaseResponse} (lease : Option LeaseRecord) :
      leaseEvent k (request, response) = .other → LeaseChange d k request response lease lease
  | grant (request : LeaseAcquireRequest) (definition : LeaseDefinition)
      (existing : Option LeaseRecord) :
      leaseEvent k (.acquire request, .acquired
        { acquired := true, lease := some (granted request definition existing) }) =
        .granted request (granted request definition existing) →
      leaseKey request.definitionId request.resource = k →
      leaseDefinitionAt d request.definitionId = some definition →
      (∀ lease, existing = some lease → ¬ Unexpired lease request.now) →
      LeaseChange d k (.acquire request)
        (.acquired { acquired := true, lease := some (granted request definition existing) })
        existing (some (granted request definition existing).stored)
  | renew (request : LeaseRenewRequest) (definition : LeaseDefinition) (lease : LeaseRecord) :
      leaseEvent k (.renew request, .renewed (renewed request definition lease)) =
        .renewed request (renewed request definition lease) →
      leaseKey request.definitionId request.resource = k →
      leaseDefinitionAt d request.definitionId = some definition →
      HeldBy lease request.holder request.fencingToken →
      LeaseChange d k (.renew request) (.renewed (renewed request definition lease)) (some lease)
        (some (renewed request definition lease).stored)
  | release (request : LeaseReleaseRequest) (lease : LeaseRecord) :
      leaseEvent k (.release request, .released) = .released request →
      leaseKey request.definitionId request.resource = k →
      HeldBy lease request.holder request.fencingToken →
      LeaseChange d k (.release request) .released (some lease) none

/-- **The step**: a request changes a lease in one of the listed ways. -/
theorem leaseChange_of_runs {request : LeaseRequest} {response : LeaseResponse}
    (h : (leaseProgram request).Runs d response d') (k : Key) :
    LeaseChange d k request response (leaseAt d k) (leaseAt d' k) := by
  cases request with
  | registerDefinition definition =>
    obtain ⟨r, hr, rfl⟩ := runs_map.mp h
    have hleases : d' .leases = d .leases :=
      (leaves_registerLeaseDefinitionTx (by decide) definition).runs hr
    rw [leaseAt_congr hleases]
    exact .other _ rfl
  | inspectDefinition id =>
    obtain ⟨r, hr, rfl⟩ := runs_map.mp h
    obtain ⟨rfl, -⟩ := runs_inspectLeaseDefinitionTx hr
    exact .other _ rfl
  | acquire request =>
    obtain ⟨r, hr, rfl⟩ := runs_map.mp h
    obtain ⟨definition, hdefinition, ⟨hrefused, rfl⟩ | ⟨hexpired, hgrant⟩⟩ := runs_acquireTx hr
    · obtain ⟨acquired, lease⟩ := r
      obtain rfl : acquired = false := hrefused
      exact .other _ rfl
    · obtain ⟨rfl, hd⟩ := runs_grantTx hgrant
      rw [hd]
      by_cases hk : leaseKey request.definitionId request.resource = k
      · subst hk
        rw [if_pos rfl]
        exact .grant request definition _ (if_pos rfl) rfl hdefinition hexpired
      · rw [if_neg (Ne.symm hk)]
        exact .other _ (if_neg hk)
  | renew request =>
    obtain ⟨r, hr, rfl⟩ := runs_map.mp h
    obtain ⟨definition, lease, hdefinition, hlease, hholder, rfl, hd⟩ := runs_renewTx hr
    rw [hd]
    by_cases hk : leaseKey request.definitionId request.resource = k
    · subst hk
      rw [if_pos rfl, hlease]
      exact .renew request definition lease (if_pos rfl) rfl hdefinition hholder
    · rw [if_neg (Ne.symm hk)]
      exact .other _ (if_neg hk)
  | release request =>
    obtain ⟨r, hr, rfl⟩ := runs_map.mp h
    obtain ⟨lease, hlease, hholder, hd⟩ := runs_releaseTx hr
    rw [hd]
    by_cases hk : leaseKey request.definitionId request.resource = k
    · subst hk
      rw [if_pos rfl, hlease]
      exact .release request lease (if_pos rfl) rfl hholder
    · rw [if_neg (Ne.symm hk)]
      exact .other _ (if_neg hk)
  | inspect request =>
    obtain ⟨r, hr, rfl⟩ := runs_map.mp h
    obtain ⟨rfl, -⟩ := runs_inspectLeaseTx hr
    exact .other _ rfl

/-! ## The store on the C++ backend -/

/-- The requests of a history, with their responses. -/
abbrev LeaseLog := List (LeaseRequest × LeaseResponse)

variable [Decimal δ]

theorem later_ensureLeaseCollections (s : Cpp.State δ) (u : Unit) :
    Later s (ensureLeaseCollections u s) :=
  Cpp.later_register s leaseCollections

theorem docs_ensureLeaseCollections (s : Cpp.State δ) (u : Unit) :
    docs (ensureLeaseCollections u s) = docs s :=
  docs_register s leaseCollections

/-- The documents after a run of the store. -/
def leaseDocs (es : List (SessionEvent LeaseRequest Unit)) : Docs δ :=
  docs (run leaseStore (World.init InMemoryState.empty) es).shared

/-- The requests a run of the store has carried out, with their responses. -/
def leaseLog (δ : Type) [Decimal δ] (es : List (SessionEvent LeaseRequest Unit)) : LeaseLog :=
  answers (run (leaseStore (δ := δ)) (World.init InMemoryState.empty) es).log

/-- **The runs of the store are histories**, from the empty backend. -/
theorem history_leaseStore {P : LeaseLog → Docs δ → LeaseRequest → Prop}
    {es : List (SessionEvent LeaseRequest Unit)}
    (hes : RunMeets leaseStore (Committing P) (World.init InMemoryState.empty) es) :
    History leaseProgram P (docs (InMemoryState.empty : Cpp.State δ)) (leaseLog δ es)
      (leaseDocs es) := by
  have h := history_run later_ensureLeaseCollections docs_ensureLeaseCollections
    (Discipline.inv_init _ _) hes
  rw [leaseLog, log_run]
  exact h

end StateSpec.Runtime
