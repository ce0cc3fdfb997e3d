/-
  THE LIFETIME OF A LEASE — whether `max_ttl` bounds it.

  An acquisition and a renewal both set the expiry to `now + ttl`, and neither reads `max_ttl`: a
  lease that is renewed in time lives for ever (`lifetime_exceeded`).  So the lifetime of a lease is
  bounded exactly when its holder asks for no more: its definition has a `ttl` within `max_ttl`, and
  each renewal comes at most `max_ttl - ttl` after the acquisition (`lifetime_bounded_iff`).
-/
import StateSpec.Runtime.FencingTokens

namespace StateSpec.Runtime

open Program Interleaving Memory

variable {δ : Type} {d d' : Docs δ}

/-- Since the acquisition the lease has only been renewed, by the same holder under the same token. -/
def KeptByHolder (request : LeaseAcquireRequest) (lease : LeaseRecord) (since : LeaseLog) : Prop :=
  ∀ entry ∈ since,
    leaseEvent (leaseKey request.definitionId request.resource) entry = .other ∨
    ∃ renewal after,
      leaseEvent (leaseKey request.definitionId request.resource) entry = .renewed renewal after ∧
      renewal.holder = request.holder ∧ renewal.fencingToken = lease.fencingToken

/-- `Q t now lease` for each lease under the definition that is handed out at the time `now`, where
    `t` is the time of its acquisition: by the acquisition itself, or by a renewal that keeps it. -/
def EachLease (definition : LeaseDefinition) (log : LeaseLog)
    (Q : Timestamp → Timestamp → LeaseRecord → Prop) : Prop :=
  ∀ before request lease after,
    log = before ++ (.acquire request, .acquired { acquired := true, lease := some lease }) :: after →
    request.definitionId = definition.id →
    Q request.now request.now lease ∧
    ∀ middle renewal kept rest, after = middle ++ (.renew renewal, .renewed kept) :: rest →
      renewal.definitionId = request.definitionId → renewal.resource = request.resource →
      KeptByHolder request lease (middle ++ [(.renew renewal, .renewed kept)]) →
      Q request.now renewal.now kept

/-- **The lifetime is bounded**: no lease under the definition expires later than `max_ttl` after its
    acquisition. -/
def LifetimeBounded (definition : LeaseDefinition) (log : LeaseLog) : Prop :=
  ∀ maxTtl, definition.maxTtl = some maxTtl →
    EachLease definition log fun t _ lease => lease.expiresAt ≤ t.plus maxTtl

/-- The holders ask for no more than that: with the `ttl` of the definition, no acquisition and no
    renewal goes beyond `max_ttl`. -/
def RenewedInTime (definition : LeaseDefinition) (log : LeaseLog) : Prop :=
  ∀ maxTtl, definition.maxTtl = some maxTtl →
    EachLease definition log fun t now _ => now.plus definition.ttl ≤ t.plus maxTtl

/-- No other definition is registered under the id. -/
def RegistersOnly (definition : LeaseDefinition) : LeaseRequest → Prop
  | .registerDefinition definition' => definition'.id = definition.id → definition' = definition
  | _ => True

/-! ## The definition that is stored -/

theorem leaseDefinitionKey_inj {id id' : LeaseDefinitionId}
    (h : leaseDefinitionKey id = leaseDefinitionKey id') : id = id' := by
  obtain ⟨hname, hversion⟩ := Bytes.glue_inj_right (Bytes.colon_not_mem_decimal _)
    (Bytes.colon_not_mem_decimal _) h
  have hversion' : id.version = id'.version := UInt64.toNat_inj.mp (Bytes.decimal_injective hversion)
  obtain ⟨name, version⟩ := id
  obtain ⟨name', version'⟩ := id'
  cases hname
  cases hversion'
  rfl

/-- The definition is the only one that can be found under its id. -/
def OnlyDefinition (definition : LeaseDefinition) (d : Docs δ) : Prop :=
  ∀ found, leaseDefinitionAt d definition.id = some found → found = definition

theorem OnlyDefinition.runs {definition : LeaseDefinition} {request : LeaseRequest}
    {response : LeaseResponse} (h : OnlyDefinition definition d)
    (honly : RegistersOnly definition request) (hruns : (leaseProgram request).Runs d response d') :
    OnlyDefinition definition d' := by
  intro found hfound
  by_cases hregisters : ∃ definition', request = .registerDefinition definition'
  · obtain ⟨definition', rfl⟩ := hregisters
    obtain ⟨r, hr, -⟩ := runs_map.mp hruns
    obtain ⟨existing, mid, hinspect, hrest⟩ := runs_do.mp hr
    obtain ⟨rfl, -⟩ := runs_inspectLeaseDefinitionTx hinspect
    obtain ⟨_, mid', hwrite, hlast⟩ := runs_do.mp hrest
    obtain ⟨-, rfl⟩ := runs_pure.mp hlast
    have hset := decodedAt_set (definition'.fromJson_toJson (δ := δ)) mid .leaseDefinitions
      (leaseDefinitionKey definition'.id) (leaseDefinitionKey definition.id)
    rw [leaseDefinitionAt, runs_write.mp hwrite, hset] at hfound
    by_cases hkey : leaseDefinitionKey definition.id = leaseDefinitionKey definition'.id
    · rw [if_pos hkey, Option.some_inj] at hfound
      exact hfound.symm.trans (honly (leaseDefinitionKey_inj hkey).symm)
    · rw [if_neg hkey] at hfound
      exact h found hfound
  · have hother : ∀ definition', request ≠ .registerDefinition definition' :=
      fun definition' heq => hregisters ⟨definition', heq⟩
    rw [leaseDefinitionAt_congr ((leaves_leaseProgram hother).runs hruns)] at hfound
    exact h found hfound

/-! ## What is handed out -/

/-- The expiries that have been handed out under the definition. -/
structure HandedOut (definition : LeaseDefinition) (log : LeaseLog) : Prop where
  acquired : ∀ request lease,
    (.acquire request, .acquired { acquired := true, lease := some lease }) ∈ log →
    request.definitionId = definition.id → lease.expiresAt = request.now.plus definition.ttl
  renewed : ∀ request lease, (.renew request, .renewed lease) ∈ log →
    request.definitionId = definition.id → lease.expiresAt = request.now.plus definition.ttl

/-- Each request hands out `now + ttl`. -/
theorem HandedOut.snoc {definition : LeaseDefinition} {log : LeaseLog} {request : LeaseRequest}
    {response : LeaseResponse} (h : HandedOut definition log) (honly : OnlyDefinition definition d)
    (hruns : (leaseProgram request).Runs d response d') :
    HandedOut definition (log ++ [(request, response)]) := by
  refine ⟨?_, ?_⟩
  · intro r lease hmem hid
    rcases List.mem_append.mp hmem with hold | hnew
    · exact h.acquired r lease hold hid
    · cases List.mem_singleton.mp hnew
      obtain ⟨result, hr, hresult⟩ := runs_map.mp hruns
      cases hresult
      obtain ⟨found, hfound, ⟨hrefused, -⟩ | ⟨-, hgrant⟩⟩ := runs_acquireTx hr
      · cases hrefused
      · have hlease := (runs_grantTx hgrant).1
        cases hlease
        rw [hid] at hfound
        obtain rfl := honly found hfound
        rfl
  · intro r lease hmem hid
    rcases List.mem_append.mp hmem with hold | hnew
    · exact h.renewed r lease hold hid
    · cases List.mem_singleton.mp hnew
      obtain ⟨result, hr, hresult⟩ := runs_map.mp hruns
      cases hresult
      obtain ⟨found, stored, hfound, -, -, rfl, -⟩ := runs_renewTx hr
      rw [hid] at hfound
      rw [honly found hfound]
      rfl

theorem handedOut_history {definition : LeaseDefinition} {d₀ : Docs δ} {log : LeaseLog}
    (h : History leaseProgram (fun _ _ request => RegistersOnly definition request) d₀ log d)
    (hinit : OnlyDefinition definition d₀) :
    OnlyDefinition definition d ∧ HandedOut definition log := by
  induction h with
  | nil => exact ⟨hinit, nofun, nofun⟩
  | snoc _ honly hruns ih =>
    obtain ⟨hdefinition, hhanded⟩ := ih
    exact ⟨hdefinition.runs honly hruns, hhanded.snoc hdefinition hruns⟩

/-- What holds of each lease, when it follows from what it holds of the expiry `now + ttl`. -/
theorem EachLease.imp {definition : LeaseDefinition} {log : LeaseLog}
    {Q Q' : Timestamp → Timestamp → LeaseRecord → Prop} (hhanded : HandedOut definition log)
    (h : EachLease definition log Q)
    (himp : ∀ t now lease, lease.expiresAt = now.plus definition.ttl → Q t now lease →
      Q' t now lease) : EachLease definition log Q' := by
  intro before request lease after hlog hid
  obtain ⟨hfirst, hrest⟩ := h before request lease after hlog hid
  have hmem : (LeaseRequest.acquire request,
      LeaseResponse.acquired { acquired := true, lease := some lease }) ∈ log := by
    rw [hlog]
    exact List.mem_append_right _ List.mem_cons_self
  refine ⟨himp _ _ _ (hhanded.acquired request lease hmem hid) hfirst, ?_⟩
  intro middle renewal kept rest hafter hid' hresource hkept
  have hmem' : (LeaseRequest.renew renewal, LeaseResponse.renewed kept) ∈ log := by
    rw [hlog, hafter]
    exact List.mem_append_right _ (List.mem_cons_of_mem _
      (List.mem_append_right _ List.mem_cons_self))
  exact himp _ _ _ (hhanded.renewed renewal kept hmem' (hid'.trans hid))
    (hrest middle renewal kept rest hafter hid' hresource hkept)

theorem bounded_iff_of_handedOut {definition : LeaseDefinition} {log : LeaseLog}
    (hhanded : HandedOut definition log) :
    LifetimeBounded definition log ↔ RenewedInTime definition log := by
  constructor
  · intro h maxTtl hmax
    refine (h maxTtl hmax).imp hhanded fun t now lease hexpires hle => ?_
    exact hexpires ▸ hle
  · intro h maxTtl hmax
    refine (h maxTtl hmax).imp hhanded fun t now lease hexpires hle => ?_
    exact hexpires.symm ▸ hle

/-! ## Runs -/

variable [Decimal δ]

/-- **The lifetime of the leases under a definition is bounded exactly when no acquisition and no
    renewal asks for more than `max_ttl`**, in every history and every run that registers no other
    definition under its id. -/
theorem lifetime_bounded_iff (definition : LeaseDefinition) :
    (∀ (d₀ d : Docs δ) (log : LeaseLog), OnlyDefinition definition d₀ →
      History leaseProgram (fun _ _ request => RegistersOnly definition request) d₀ log d →
      (LifetimeBounded definition log ↔ RenewedInTime definition log)) ∧
    ∀ es : List (SessionEvent LeaseRequest Unit),
      RunMeets (leaseStore (δ := δ)) (Committing fun _ _ request => RegistersOnly definition request)
        (World.init InMemoryState.empty) es →
      (LifetimeBounded definition (leaseLog δ es) ↔ RenewedInTime definition (leaseLog δ es)) := by
  refine ⟨?_, ?_⟩
  · intro d₀ d log hinit h
    exact bounded_iff_of_handedOut (handedOut_history h hinit).2
  · intro es hes
    have hinit : OnlyDefinition definition (docs (InMemoryState.empty : Cpp.State δ)) := by
      intro found hfound
      cases hfound
    exact bounded_iff_of_handedOut (handedOut_history (history_leaseStore hes) hinit).2

/-- Holder `a` acquires a lease of ten seconds, ten of them at most, and renews it at that time. -/
def renewingRun (now : Timestamp) : List (SessionEvent LeaseRequest Unit) :=
  soloSession 0 (LeaseRequest.registerDefinition tenSeconds) 2 ++
  soloSession 1 (LeaseRequest.acquire (acquiring (ascii "a") 0)) 3 ++
  soloSession 2 (LeaseRequest.renew
    { definitionId := { name := ascii "l" }, resource := ascii "r", holder := ascii "a",
      fencingToken := 1, now }) 3

theorem registersOnly_renewingRun (now : Timestamp) :
    RunMeets (leaseStore (δ := Empty))
      (Committing fun _ _ request => RegistersOnly tenSeconds request)
      (World.init InMemoryState.empty) (renewingRun now) := by
  simp only [renewingRun, runMeets_append]
  refine ⟨⟨?_, ?_⟩, ?_⟩ <;>
    refine runMeets_soloSession (by simp [length_slots_run, World.init]) ?_ _
  · exact fun _ => rfl
  · trivial
  · trivial

theorem lifetime_bounded_iff_renewing :
    LifetimeBounded tenSeconds (leaseLog Empty (renewingRun 0)) ↔
      RenewedInTime tenSeconds (leaseLog Empty (renewingRun 0)) :=
  (lifetime_bounded_iff tenSeconds).2 (renewingRun 0) (registersOnly_renewingRun 0)

/-- **A renewal goes beyond `max_ttl`**: at five seconds, the lease is renewed until fifteen. -/
theorem lifetime_exceeded :
    ¬ LifetimeBounded tenSeconds (leaseLog Empty (renewingRun 5000000000)) := by
  intro hbounded
  have heach := (hbounded 10 rfl [_] (acquiring (ascii "a") 0) _ [_] rfl rfl).2
  have hle := heach [] _ _ [] rfl rfl rfl ?_
  · revert hle
    decide
  · intro entry hmem
    obtain rfl := List.mem_singleton.mp hmem
    exact Or.inr ⟨_, _, rfl, rfl, rfl⟩

end StateSpec.Runtime
