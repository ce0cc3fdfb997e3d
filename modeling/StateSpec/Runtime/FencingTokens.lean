/-
  FENCING TOKENS — whether the tokens of successive leases grow.

  The next token is computed from the stored lease, and a release erases it: the next lease starts at
  1 again, under a token a former holder has had (`token_repeated`).  As long as a lease that is
  granted where none is stored is the first one there, and the counter does not wrap around, the
  tokens grow: `tokens_increase`.

  The invariant is `Outranks`: the stored token is at least every token granted before.
-/
import Mathlib.Algebra.Group.Nat.Defs
import StateSpec.Runtime.Leases

namespace StateSpec.Runtime

open Program Interleaving Memory

variable {δ : Type}

/-- **Fencing tokens grow**: of two acquisitions of the same lease, the later one has the greater
    token. -/
def TokensIncrease (log : LeaseLog) : Prop :=
  ∀ before first lease middle second lease' rest,
    log = before ++ (.acquire first, .acquired { acquired := true, lease := some lease }) ::
      (middle ++ (.acquire second, .acquired { acquired := true, lease := some lease' }) :: rest) →
    second.definitionId = first.definitionId → second.resource = first.resource →
    lease.fencingToken < lease'.fencingToken

/-- The tokens granted under a key, in order. -/
def grantedTokens (k : Key) (log : LeaseLog) : List UInt64 :=
  log.filterMap fun entry =>
    match leaseEvent k entry with
    | .granted _ lease => some lease.fencingToken
    | _ => none

/-- What an acquisition finds that is granted: a lease whose counter can still go up, or no lease and
    none granted there before. -/
def CounterKept (log : LeaseLog) (d : Docs δ) : LeaseRequest → Prop
  | .acquire request =>
    (leaseAt d (leaseKey request.definitionId request.resource) = none →
      grantedTokens (leaseKey request.definitionId request.resource) log = []) ∧
    ∀ existing, leaseAt d (leaseKey request.definitionId request.resource) = some existing →
      ¬ Unexpired existing request.now → existing.fencingToken.toNat + 1 < 2 ^ 64
  | _ => True

/-! ## The invariant -/

/-- The stored token is at least every token granted before. -/
def Outranks (k : Key) (log : LeaseLog) (lease : Option LeaseRecord) : Prop :=
  ∀ token ∈ grantedTokens k log, ∀ existing, lease = some existing →
    token ≤ existing.fencingToken

theorem grantedTokens_snoc (k : Key) (log : LeaseLog) (entry : LeaseRequest × LeaseResponse) :
    grantedTokens k (log ++ [entry]) = grantedTokens k log ++ grantedTokens k [entry] := by
  rw [grantedTokens, List.filterMap_append]
  rfl

theorem mem_grantedTokens {k : Key} {log : LeaseLog} {request : LeaseAcquireRequest}
    {lease : LeaseRecord}
    (hmem : (.acquire request, .acquired { acquired := true, lease := some lease }) ∈ log)
    (hk : leaseKey request.definitionId request.resource = k) :
    lease.fencingToken ∈ grantedTokens k log := by
  refine List.mem_filterMap.mpr ⟨_, hmem, ?_⟩
  have hevent : leaseEvent k (.acquire request,
      .acquired { acquired := true, lease := some lease }) = .granted request lease := if_pos hk
  rw [hevent]

/-- The next token is greater than every token granted before. -/
theorem Outranks.lt_nextToken {k : Key} {log : LeaseLog} {d : Docs δ}
    {request : LeaseAcquireRequest} (h : Outranks k log (leaseAt d k))
    (hkept : CounterKept log d (.acquire request))
    (hk : leaseKey request.definitionId request.resource = k)
    (hexpired : ∀ lease, leaseAt d k = some lease → ¬ Unexpired lease request.now) :
    ∀ token ∈ grantedTokens k log, token < nextToken (leaseAt d k) := by
  subst hk
  obtain ⟨hfirst, hcounter⟩ := hkept
  intro token htoken
  cases hexisting : leaseAt d (leaseKey request.definitionId request.resource) with
  | none =>
    rw [hfirst hexisting] at htoken
    cases htoken
  | some existing =>
    have hle : token ≤ existing.fencingToken := h token htoken existing hexisting
    have hbound := hcounter existing hexisting (hexpired existing hexisting)
    have hnext : (existing.fencingToken + 1).toNat = existing.fencingToken.toNat + 1 := by
      rw [UInt64.toNat_add]
      show (existing.fencingToken.toNat + 1) % 2 ^ 64 = _
      omega
    show token < existing.fencingToken + 1
    rw [UInt64.le_iff_toNat_le] at hle
    rw [UInt64.lt_iff_toNat_lt, hnext]
    omega

/-- Each change keeps the invariant. -/
theorem Outranks.change {k : Key} {log : LeaseLog} {d : Docs δ} {request : LeaseRequest}
    {response : LeaseResponse} {after : Option LeaseRecord} (h : Outranks k log (leaseAt d k))
    (hkept : CounterKept log d request)
    (hchange : LeaseChange d k request response (leaseAt d k) after) :
    Outranks k (log ++ [(request, response)]) after := by
  intro token htoken
  rw [grantedTokens_snoc, List.mem_append] at htoken
  have hnext : ∀ r, request = .acquire r → leaseKey r.definitionId r.resource = k →
      (∀ lease, leaseAt d k = some lease → ¬ Unexpired lease r.now) →
      ∀ token ∈ grantedTokens k log, token < nextToken (leaseAt d k) := by
    rintro r rfl hk hexpired
    exact h.lt_nextToken hkept hk hexpired
  generalize hbefore : leaseAt d k = before at h hchange hnext
  cases hchange with
  | other lease hevent =>
    have hnone : grantedTokens k [(request, response)] = [] := by
      rw [grantedTokens, List.filterMap_cons, hevent]
      rfl
    rw [hnone] at htoken
    exact h token (htoken.resolve_right List.not_mem_nil)
  | grant request definition existing hevent hk hdefinition hexpired =>
    rintro _ ⟨rfl⟩
    have hlast : grantedTokens k [(.acquire request, .acquired
        { acquired := true, lease := some (granted request definition before) })] =
        [nextToken before] := by
      rw [grantedTokens, List.filterMap_cons, hevent]
      rfl
    rw [hlast, List.mem_singleton] at htoken
    rcases htoken with hold | rfl
    · exact UInt64.le_of_lt (hnext request rfl hk hexpired token hold)
    · exact UInt64.le_refl _
  | renew request definition lease hevent hk hdefinition hheld =>
    have hnone : grantedTokens k [(.renew request, .renewed (renewed request definition lease))] =
        [] := by
      rw [grantedTokens, List.filterMap_cons, hevent]
      rfl
    rintro _ ⟨rfl⟩
    rw [hnone] at htoken
    exact h token (htoken.resolve_right List.not_mem_nil) lease rfl
  | release request lease hevent hk hheld => exact nofun

theorem TokensIncrease.snoc {log : LeaseLog} {d d' : Docs δ} {request : LeaseRequest}
    {response : LeaseResponse} (h : TokensIncrease log) (houtranks : ∀ k, Outranks k log (leaseAt d k))
    (hkept : CounterKept log d request) (hruns : (leaseProgram request).Runs d response d') :
    TokensIncrease (log ++ [(request, response)]) := by
  intro before first lease middle second lease' rest hlog hid hresource
  rcases snoc_eq_append_pair hlog with ⟨rfl, rfl, heq⟩ | ⟨rest, rfl, hlog'⟩
  · cases heq
    have hsame : leaseKey first.definitionId first.resource =
        leaseKey second.definitionId second.resource := by
      rw [hid, hresource]
    have hmem : lease.fencingToken ∈ grantedTokens (leaseKey second.definitionId second.resource)
        (before ++ (.acquire first, .acquired { acquired := true, lease := some lease }) :: middle) :=
      mem_grantedTokens (List.mem_append_right before List.mem_cons_self) hsame
    have hnext := (houtranks _).lt_nextToken hkept rfl
    have hchange := leaseChange_of_runs hruns (leaseKey second.definitionId second.resource)
    generalize hbefore : leaseAt d (leaseKey second.definitionId second.resource) = existing
      at hchange hnext
    generalize leaseAt d' _ = after at hchange
    cases hchange with
    | other _ hevent =>
      have hgranted : leaseEvent (leaseKey second.definitionId second.resource)
          (.acquire second, .acquired { acquired := true, lease := some lease' }) =
          .granted second lease' := if_pos rfl
      rw [hgranted] at hevent
      cases hevent
    | grant _ definition _ hevent hk hdefinition hexpired =>
      exact hnext hexpired lease.fencingToken hmem
  · exact h before first lease middle second lease' rest hlog' hid hresource

theorem tokens_history {d₀ d : Docs δ} {log : LeaseLog}
    (h : History leaseProgram CounterKept d₀ log d) :
    (∀ k, Outranks k log (leaseAt d k)) ∧ TokensIncrease log := by
  induction h with
  | nil =>
    refine ⟨fun k token htoken => absurd htoken List.not_mem_nil, ?_⟩
    intro before first lease middle second lease' rest hlog
    simp at hlog
  | snoc _ hkept hruns ih =>
    obtain ⟨houtranks, hincrease⟩ := ih
    exact ⟨fun k => (houtranks k).change hkept (leaseChange_of_runs hruns k),
      hincrease.snoc houtranks hkept hruns⟩

/-! ## Runs -/

variable [Decimal δ]

/-- **Fencing tokens grow** in every history and every run in which each acquisition finds a lease
    whose counter can go up, or no lease and none granted there before. -/
theorem tokens_increase :
    (∀ (d₀ d : Docs δ) (log : LeaseLog), History leaseProgram CounterKept d₀ log d →
      TokensIncrease log) ∧
    ∀ es : List (SessionEvent LeaseRequest Unit),
      RunMeets (leaseStore (δ := δ)) (Committing CounterKept) (World.init InMemoryState.empty) es →
      TokensIncrease (leaseLog δ es) := by
  refine ⟨?_, ?_⟩
  · intro d₀ d log h
    exact (tokens_history h).2
  · intro es hes
    exact (tokens_history (history_leaseStore hes)).2

/-- The lease definition `l`, version 1, with leases of ten seconds. -/
def tenSeconds : LeaseDefinition where
  id := { name := ascii "l" }
  resourcePattern := ascii "r"
  ttl := 10
  renewEvery := 1
  maxTtl := some 10

/-- `holder` acquires the lease on `r` at that time. -/
def acquiring (holder : Bytes) (now : Timestamp) : LeaseAcquireRequest where
  definitionId := { name := ascii "l" }
  resource := ascii "r"
  holder := holder
  now := now

/-- Holder `a` acquires the lease, and holder `b` after it has expired. -/
def expiringRun : List (SessionEvent LeaseRequest Unit) :=
  soloSession 0 (LeaseRequest.registerDefinition tenSeconds) 2 ++
  soloSession 1 (LeaseRequest.acquire (acquiring (ascii "a") 0)) 3 ++
  soloSession 2 (LeaseRequest.acquire (acquiring (ascii "b") 10000000000)) 3

theorem tokens_increase_expiring :
    TokensIncrease (leaseLog Empty expiringRun) := by
  refine tokens_increase.2 _ ?_
  simp only [expiringRun, runMeets_append]
  refine ⟨⟨?_, ?_⟩, ?_⟩ <;>
    refine runMeets_soloSession (by simp [length_slots_run, World.init]) ?_ _
  · trivial
  · refine ⟨fun _ => rfl, ?_⟩
    intro existing h
    cases h
  · refine ⟨?_, ?_⟩
    · intro h
      cases h
    · intro existing h _
      cases h
      decide

/-- Holder `a` acquires the lease and releases it, and holder `b` acquires it. -/
def releasing : List LeaseRequest :=
  [.registerDefinition tenSeconds, .acquire (acquiring (ascii "a") 0),
    .release { definitionId := { name := ascii "l" }, resource := ascii "r", holder := ascii "a" },
    .acquire (acquiring (ascii "b") 0)]

/-- **The token of a former holder is issued again** after a release: both have the token 1. -/
theorem token_repeated :
    ∃ (d : Docs Empty) (log : LeaseLog),
      History leaseProgram (fun _ _ _ => True) (fun _ _ => none) log d ∧ ¬ TokensIncrease log := by
  have hhistory := history_carryOutAll (leaseProgram (δ := Empty)) scanSound_nil
    (fun _ _ => none) releasing
  refine ⟨_, _, hhistory, ?_⟩
  intro hincrease
  have hlt := hincrease [_] (acquiring (ascii "a") 0) _ [_] (acquiring (ascii "b") 0) _ [] rfl rfl rfl
  revert hlt
  decide

end StateSpec.Runtime
