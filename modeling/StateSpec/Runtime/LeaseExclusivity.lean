/-
  LEASES ARE EXCLUSIVE — as far as their holders can tell.

  A holder is handed the expiry as it was computed; the store compares with the expiry it has stored,
  which the codec has cut off to whole milliseconds.  Between the two another holder gets the lease
  (`lease_lost`).  Outside of that part of a millisecond nobody does: `lease_exclusive`.

  The runs are about one lease: acquisitions, renewals and releases under one definition for one
  resource, with times that do not run backwards.  The invariant is `Exclusivity`: as long as a
  holder has not released the lease, either the last lease was handed to it, and reaches at least as
  far, or time has reached the expiry it was promised.
-/
import StateSpec.Runtime.FencingTokens

namespace StateSpec.Runtime

open Program Interleaving Memory

variable {δ : Type} {d d' : Docs δ}

/-! ## What the holders see -/

/-- The holder and the expiry of a lease that was handed out. -/
def handedTo (k : Key) (entry : LeaseRequest × LeaseResponse) : Option (Bytes × Timestamp) :=
  match leaseEvent k entry with
  | .granted request lease => some (request.holder, lease.expiresAt)
  | .renewed request lease => some (request.holder, lease.expiresAt)
  | _ => none

/-- Who has released the lease. -/
def releasedBy (k : Key) (entry : LeaseRequest × LeaseResponse) : Option Bytes :=
  match leaseEvent k entry with
  | .released request => some request.holder
  | _ => none

/-- The holder has been handed the lease with that expiry, and has not released it since. -/
def Promised (k : Key) (log : LeaseLog) (holder : Bytes) (expiry : Timestamp) : Prop :=
  ∃ before entry after, log = before ++ entry :: after ∧ handedTo k entry = some (holder, expiry) ∧
    ∀ later ∈ after, releasedBy k later ≠ some holder

/-- **Leases are exclusive**: no holder acquires the lease before the expiry another one has been
    promised. -/
def LeaseExclusive (k : Key) (log : LeaseLog) : Prop :=
  ∀ before request lease rest,
    log = before ++ (.acquire request, .acquired { acquired := true, lease := some lease }) :: rest →
    leaseKey request.definitionId request.resource = k →
    ∀ holder expiry, Promised k before holder expiry → holder ≠ request.holder →
      expiry ≤ request.now

/-! ## The runs -/

/-- The request is about the lease. -/
def ConcernsLease (id : LeaseDefinitionId) (resource : Bytes) : LeaseRequest → Prop
  | .acquire request => request.definitionId = id ∧ request.resource = resource
  | .renew request => request.definitionId = id ∧ request.resource = resource
  | .release request => request.definitionId = id ∧ request.resource = resource
  | _ => False

/-- The time of a request. -/
def LeaseRequest.time : LeaseRequest → Option Timestamp
  | .acquire request => some request.now
  | .renew request => some request.now
  | _ => none

/-- Times do not run backwards. -/
def InOrder (log : LeaseLog) (request : LeaseRequest) : Prop :=
  ∀ entry ∈ log, ∀ t now, entry.1.time = some t → request.time = some now → t ≤ now

/-- The holder and the expiry of the last lease that was handed out, until it is released. -/
def lastHanded (k : Key) (log : LeaseLog) : Option (Bytes × Timestamp) :=
  log.foldl
    (fun last entry =>
      match leaseEvent k entry with
      | .granted request lease => some (request.holder, lease.expiresAt)
      | .renewed request lease => some (request.holder, lease.expiresAt)
      | .released _ => none
      | .other => last)
    none

/-- No acquisition by another holder comes in the part of a millisecond that the codec has cut off
    from the expiry of the last lease. -/
def OutsideCut (k : Key) (log : LeaseLog) : LeaseRequest → Prop
  | .acquire request =>
    ∀ holder expiry, lastHanded k log = some (holder, expiry) → holder ≠ request.holder →
      ¬ (Timestamp.stored expiry ≤ request.now ∧ request.now < expiry)
  | _ => True

/-- The runs of one lease, and when it is exclusive in them. -/
def LeaseRun (id : LeaseDefinitionId) (resource : Bytes) (log : LeaseLog) (request : LeaseRequest) :
    Prop :=
  ConcernsLease id resource request ∧ InOrder log request ∧
    OutsideCut (leaseKey id resource) log request

/-! ## The invariant -/

theorem lastHanded_snoc (k : Key) (log : LeaseLog) (entry : LeaseRequest × LeaseResponse) :
    lastHanded k (log ++ [entry]) =
      match leaseEvent k entry with
      | .granted request lease => some (request.holder, lease.expiresAt)
      | .renewed request lease => some (request.holder, lease.expiresAt)
      | .released _ => none
      | .other => lastHanded k log := by
  rw [lastHanded, List.foldl_append]
  rfl

/-- A promise is the last entry, or it is older and the last entry does not release it. -/
theorem promised_snoc {k : Key} {log : LeaseLog} {entry : LeaseRequest × LeaseResponse}
    {holder : Bytes} {expiry : Timestamp} (h : Promised k (log ++ [entry]) holder expiry) :
    handedTo k entry = some (holder, expiry) ∨
      Promised k log holder expiry ∧ releasedBy k entry ≠ some holder := by
  obtain ⟨before, handed, after, hlog, hhanded, hkept⟩ := h
  rcases snoc_eq_append_cons hlog with ⟨-, -, rfl⟩ | ⟨rest, rfl, rfl⟩
  · exact Or.inl hhanded
  · have hlast := hkept entry (List.mem_append_right _ (List.mem_singleton_self _))
    refine Or.inr ⟨⟨before, handed, rest, rfl, hhanded, ?_⟩, hlast⟩
    intro later hlater
    exact hkept later (List.mem_append_left _ hlater)

/-- Time has reached `expiry` in the requests. -/
def Reached (log : LeaseLog) (expiry : Timestamp) : Prop :=
  ∃ entry ∈ log, ∃ t, entry.1.time = some t ∧ expiry ≤ t

theorem Reached.append {log : LeaseLog} {expiry : Timestamp} (h : Reached log expiry)
    (more : LeaseLog) : Reached (log ++ more) expiry := by
  obtain ⟨entry, hmem, t, htime, hle⟩ := h
  exact ⟨entry, List.mem_append_left _ hmem, t, htime, hle⟩

theorem reached_last {request : LeaseRequest} {now expiry : Timestamp}
    (htime : request.time = some now) (hle : expiry ≤ now) (log : LeaseLog)
    (response : LeaseResponse) : Reached (log ++ [(request, response)]) expiry :=
  ⟨_, List.mem_append_right _ (List.mem_singleton_self _), now, htime, hle⟩

theorem Reached.le {log : LeaseLog} {expiry now : Timestamp} (h : Reached log expiry)
    {request : LeaseRequest} (horder : InOrder log request) (htime : request.time = some now) :
    expiry ≤ now := by
  obtain ⟨entry, hmem, t, ht, hle⟩ := h
  exact Int.le_trans hle (horder entry hmem t now ht htime)

/-- The lease, against what has been handed out. -/
structure Exclusivity (ttl : Seconds) (k : Key) (log : LeaseLog) (lease : Option LeaseRecord) :
    Prop where
  /-- The last lease is the one that is stored. -/
  stored : ∀ holder expiry, lastHanded k log = some (holder, expiry) →
    ∃ record, lease = some record ∧ record.holder = some holder ∧
      record.expiresAt = Timestamp.stored expiry
  /-- It was handed out by one of the requests. -/
  handed : ∀ holder expiry, lastHanded k log = some (holder, expiry) →
    ∃ entry ∈ log, ∃ t, entry.1.time = some t ∧ expiry = t.plus ttl
  /-- A promise is covered by the last lease, or is over. -/
  promised : ∀ holder expiry, Promised k log holder expiry →
    (∃ last, lastHanded k log = some (holder, last) ∧ expiry ≤ last) ∨ Reached log expiry

theorem Timestamp.plus_le_plus {s t : Timestamp} (h : s ≤ t) (duration : Seconds) :
    s.plus duration ≤ t.plus duration :=
  Int.add_le_add_right h _

/-- A later lease of the same holder reaches at least as far. -/
theorem Exclusivity.last_le {ttl : Seconds} {k : Key} {log : LeaseLog} {lease : Option LeaseRecord}
    (h : Exclusivity ttl k log lease) {holder : Bytes} {expiry now : Timestamp}
    (hlast : lastHanded k log = some (holder, expiry)) {request : LeaseRequest}
    (horder : InOrder log request) (htime : request.time = some now) : expiry ≤ now.plus ttl := by
  obtain ⟨entry, hmem, t, ht, rfl⟩ := h.handed holder expiry hlast
  exact Timestamp.plus_le_plus (horder entry hmem t now ht htime) ttl

/-- **A holder that is promised the lease keeps it**: when the lease is granted to somebody else, time
    has reached the promise. -/
theorem Exclusivity.le_now {ttl : Seconds} {k : Key} {log : LeaseLog} {lease : Option LeaseRecord}
    (h : Exclusivity ttl k log lease) {request : LeaseAcquireRequest}
    (horder : InOrder log (.acquire request)) (hcut : OutsideCut k log (.acquire request))
    (hexpired : ∀ record, lease = some record → ¬ Unexpired record request.now) {holder : Bytes}
    {expiry : Timestamp} (hpromised : Promised k log holder expiry)
    (hholder : holder ≠ request.holder) : expiry ≤ request.now := by
  rcases h.promised holder expiry hpromised with ⟨last, hlast, hle⟩ | hreached
  · obtain ⟨record, hrecord, hby, hexpires⟩ := h.stored holder last hlast
    have hover : Timestamp.stored last ≤ request.now := by
      by_contra hlater
      refine hexpired record hrecord ⟨?_, ?_⟩
      · rw [hby]
        nofun
      · rw [hexpires]
        exact Int.not_le.mp hlater
    have hreal : last ≤ request.now := by
      by_contra hlater
      exact hcut holder last hlast hholder ⟨hover, Int.not_le.mp hlater⟩
    exact Int.le_trans hle hreal
  · exact hreached.le horder rfl

/-- A lease that is handed out keeps the invariant: the promises of its holder are covered, and those
    of all others are over. -/
theorem Exclusivity.handOut {ttl : Seconds} {k : Key} {log : LeaseLog} {lease : Option LeaseRecord}
    (h : Exclusivity ttl k log lease) {request : LeaseRequest} {response : LeaseResponse}
    {record : LeaseRecord} {holder : Bytes} {now : Timestamp} (horder : InOrder log request)
    (htime : request.time = some now) (hholder : record.holder = some holder)
    (hexpires : record.expiresAt = now.plus ttl)
    (hhanded : handedTo k (request, response) = some (holder, record.expiresAt))
    (hlast : lastHanded k (log ++ [(request, response)]) = some (holder, record.expiresAt))
    (hothers : ∀ holder' expiry, Promised k log holder' expiry → holder' ≠ holder → expiry ≤ now) :
    Exclusivity ttl k (log ++ [(request, response)]) (some record.stored) := by
  refine ⟨?_, ?_, ?_⟩
  · intro holder' expiry hlast'
    rw [hlast] at hlast'
    cases hlast'
    exact ⟨record.stored, rfl, hholder, rfl⟩
  · intro holder' expiry hlast'
    rw [hlast] at hlast'
    cases hlast'
    exact ⟨_, List.mem_append_right _ (List.mem_singleton_self _), now, htime, hexpires⟩
  · intro holder' expiry hpromised
    rcases promised_snoc hpromised with hnew | ⟨hold, -⟩
    · rw [hhanded] at hnew
      cases hnew
      exact Or.inl ⟨record.expiresAt, hlast, Int.le_refl _⟩
    · by_cases hsame : holder' = holder
      · subst hsame
        rcases h.promised holder' expiry hold with ⟨last, hlast', hle⟩ | hreached
        · have hcovered := h.last_le hlast' horder htime
          exact Or.inl ⟨record.expiresAt, hlast, hexpires ▸ Int.le_trans hle hcovered⟩
        · exact Or.inr (hreached.append _)
      · exact Or.inr (reached_last htime (hothers holder' expiry hold hsame) _ _)

/-- Each change keeps the invariant. -/
theorem Exclusivity.change {definition : LeaseDefinition} {id : LeaseDefinitionId}
    {resource : Bytes} {log : LeaseLog} {request : LeaseRequest} {response : LeaseResponse}
    {before after : Option LeaseRecord}
    (h : Exclusivity definition.ttl (leaseKey id resource) log before)
    (hrun : LeaseRun id resource log request)
    (hdefinition : ∀ found, leaseDefinitionAt d id = some found → found = definition)
    (hchange : LeaseChange d (leaseKey id resource) request response before after) :
    Exclusivity definition.ttl (leaseKey id resource) (log ++ [(request, response)]) after := by
  obtain ⟨hconcerns, horder, hcut⟩ := hrun
  cases hchange with
  | other lease hevent =>
    have hlast : lastHanded (leaseKey id resource) (log ++ [(request, response)]) =
        lastHanded (leaseKey id resource) log := by
      rw [lastHanded_snoc, hevent]
    refine ⟨?_, ?_, ?_⟩
    · intro holder expiry hhanded
      exact h.stored holder expiry (hlast ▸ hhanded)
    · intro holder expiry hhanded
      obtain ⟨entry, hmem, ht⟩ := h.handed holder expiry (hlast ▸ hhanded)
      exact ⟨entry, List.mem_append_left _ hmem, ht⟩
    · intro holder expiry hpromised
      rcases promised_snoc hpromised with hnew | ⟨hold, -⟩
      · rw [handedTo, hevent] at hnew
        cases hnew
      · rw [hlast]
        exact (h.promised holder expiry hold).imp (fun hcovered => hcovered) fun hreached =>
          hreached.append _
  | grant request found existing hevent hk hfound hexpired =>
    rw [hconcerns.1] at hfound
    obtain rfl := hdefinition found hfound
    refine h.handOut horder rfl rfl rfl ?_ ?_ ?_
    · rw [handedTo, hevent]
    · rw [lastHanded_snoc, hevent]
    · intro holder expiry hpromised hholder
      exact h.le_now horder hcut hexpired hpromised hholder
  | renew request found lease hevent hk hfound hheld =>
    rw [hconcerns.1] at hfound
    obtain rfl := hdefinition found hfound
    refine h.handOut horder rfl hheld.1 rfl ?_ ?_ ?_
    · rw [handedTo, hevent]
    · rw [lastHanded_snoc, hevent]
    · -- the stored lease is that of the caller, so nobody else has the last one
      intro holder expiry hpromised hholder
      rcases h.promised holder expiry hpromised with ⟨last, hlast, -⟩ | hreached
      · obtain ⟨record, hrecord, hby, -⟩ := h.stored holder last hlast
        cases hrecord
        exact absurd (Option.some_inj.mp (hby.symm.trans hheld.1)) hholder
      · exact hreached.le horder rfl
  | release request lease hevent hk hheld =>
    have hlast : lastHanded (leaseKey id resource) (log ++ [(.release request, .released)]) =
        none := by
      rw [lastHanded_snoc, hevent]
    refine ⟨?_, ?_, ?_⟩
    · intro holder expiry hhanded
      rw [hlast] at hhanded
      cases hhanded
    · intro holder expiry hhanded
      rw [hlast] at hhanded
      cases hhanded
    · intro holder expiry hpromised
      rcases promised_snoc hpromised with hnew | ⟨hold, hkept⟩
      · rw [handedTo, hevent] at hnew
        cases hnew
      · rcases h.promised holder expiry hold with ⟨last, hlast', -⟩ | hreached
        · obtain ⟨record, hrecord, hby, -⟩ := h.stored holder last hlast'
          cases hrecord
          rw [releasedBy, hevent] at hkept
          have hholder : request.holder = holder :=
            Option.some_inj.mp (hheld.1.symm.trans hby)
          exact absurd (congrArg some hholder) hkept
        · exact Or.inr (hreached.append _)

theorem LeaseExclusive.snoc {id : LeaseDefinitionId} {resource : Bytes} {ttl : Seconds}
    {log : LeaseLog} {request : LeaseRequest} {response : LeaseResponse}
    {before after : Option LeaseRecord} (h : LeaseExclusive (leaseKey id resource) log)
    (hexclusivity : Exclusivity ttl (leaseKey id resource) log before)
    (hrun : LeaseRun id resource log request)
    (hchange : LeaseChange d (leaseKey id resource) request response before after) :
    LeaseExclusive (leaseKey id resource) (log ++ [(request, response)]) := by
  intro earlier acquisition lease rest hlog hk holder expiry hpromised hholder
  rcases snoc_eq_append_cons hlog with ⟨rfl, rfl, heq⟩ | ⟨rest, rfl, hlog'⟩
  · cases heq
    obtain ⟨-, horder, hcut⟩ := hrun
    cases hchange with
    | other _ hevent =>
      have hgranted : leaseEvent (leaseKey id resource)
          (.acquire acquisition, .acquired { acquired := true, lease := some lease }) =
          .granted acquisition lease := if_pos hk
      rw [hgranted] at hevent
      cases hevent
    | grant _ found _ hevent hk hfound hexpired =>
      exact hexclusivity.le_now horder hcut hexpired hpromised hholder
  · exact h earlier acquisition lease rest hlog' hk holder expiry hpromised hholder

/-- In a run of one lease the definition stays. -/
theorem leaseDefinitionAt_runs {id : LeaseDefinitionId} {resource : Bytes} {request : LeaseRequest}
    {response : LeaseResponse} (hconcerns : ConcernsLease id resource request)
    (h : (leaseProgram request).Runs d response d') :
    leaseDefinitionAt d' id = leaseDefinitionAt d id := by
  refine leaseDefinitionAt_congr ((leaves_leaseProgram ?_).runs h) id
  rintro definition rfl
  exact hconcerns

theorem exclusive_history {id : LeaseDefinitionId} {resource : Bytes} {d₀ : Docs δ}
    {log : LeaseLog} (definition : LeaseDefinition)
    (hdefinition : ∀ found, leaseDefinitionAt d₀ id = some found → found = definition)
    (h : History leaseProgram (fun log _ request => LeaseRun id resource log request) d₀ log d) :
    leaseDefinitionAt d id = leaseDefinitionAt d₀ id ∧
      Exclusivity definition.ttl (leaseKey id resource) log (leaseAt d (leaseKey id resource)) ∧
      LeaseExclusive (leaseKey id resource) log := by
  induction h with
  | nil =>
    refine ⟨rfl, ⟨nofun, nofun, ?_⟩, ?_⟩
    · rintro holder expiry ⟨before, entry, after, hlog, -⟩
      simp at hlog
    · intro before request lease rest hlog
      simp at hlog
  | snoc _ hrun hruns ih =>
    obtain ⟨hsame, hexclusivity, hexclusive⟩ := ih
    have hchange := leaseChange_of_runs hruns (leaseKey id resource)
    have hfound := fun found hfound => hdefinition found (hsame ▸ hfound)
    exact ⟨(leaseDefinitionAt_runs hrun.1 hruns).trans hsame,
      hexclusivity.change hrun hfound hchange, hexclusive.snoc hexclusivity hrun hchange⟩

theorem leaseExclusive_history {id : LeaseDefinitionId} {resource : Bytes} {d₀ : Docs δ}
    {log : LeaseLog}
    (h : History leaseProgram (fun log _ request => LeaseRun id resource log request) d₀ log d) :
    LeaseExclusive (leaseKey id resource) log := by
  cases hdefinition : leaseDefinitionAt d₀ id with
  | some definition =>
    refine (exclusive_history definition ?_ h).2.2
    intro found hfound
    exact Option.some_inj.mp (hfound.symm.trans hdefinition)
  | none =>
    refine (exclusive_history tenSeconds ?_ h).2.2
    intro found hfound
    rw [hdefinition] at hfound
    cases hfound

/-! ## Runs -/

variable [Decimal δ]

/-- **Leases are exclusive** in every history and every run of acquisitions, renewals and releases of
    one lease, from any state that can be reached, in which no acquisition by another holder comes
    between the stored and the real expiry of the last lease. -/
theorem lease_exclusive (id : LeaseDefinitionId) (resource : Bytes) :
    (∀ (d₀ d : Docs δ) (log : LeaseLog),
      History leaseProgram (fun log _ request => LeaseRun id resource log request) d₀ log d →
      LeaseExclusive (leaseKey id resource) log) ∧
    ∀ es es' : List (SessionEvent LeaseRequest Unit),
      RunMeets (leaseStore (δ := δ))
        (Committing fun log _ request =>
          LeaseRun id resource (log.drop (leaseLog δ es).length) request)
        (run leaseStore (World.init InMemoryState.empty) es) es' →
      LeaseExclusive (leaseKey id resource)
        (answers (commits (leaseStore (δ := δ))
          (run leaseStore (World.init InMemoryState.empty) es) es')) := by
  refine ⟨?_, ?_⟩
  · intro d₀ d log h
    exact leaseExclusive_history h
  · intro es es' hes
    exact leaseExclusive_history (history_since
      (P := fun log _ request => LeaseRun id resource log request) later_ensureLeaseCollections
      docs_ensureLeaseCollections _ es es' hes)

/-- The definition is registered. -/
def tenSecondsRun : List (SessionEvent LeaseRequest Unit) :=
  soloSession 0 (LeaseRequest.registerDefinition tenSeconds) 2

/-- Holder `a` acquires the lease of ten seconds at `now`, and holder `b` at `later`. -/
def takeoverRun (now later : Timestamp) : List (SessionEvent LeaseRequest Unit) :=
  soloSession 1 (LeaseRequest.acquire (acquiring (ascii "a") now)) 3 ++
  soloSession 2 (LeaseRequest.acquire (acquiring (ascii "b") later)) 3

theorem lease_exclusive_takeover :
    LeaseExclusive (leaseKey { name := ascii "l" } (ascii "r"))
      (answers (commits (leaseStore (δ := Empty))
        (run leaseStore (World.init InMemoryState.empty) tenSecondsRun)
        (takeoverRun 0 10000000000))) := by
  refine (lease_exclusive { name := ascii "l" } (ascii "r")).2 tenSecondsRun
    (takeoverRun 0 10000000000) ?_
  rw [takeoverRun, runMeets_append]
  refine ⟨?_, ?_⟩ <;>
    refine runMeets_soloSession (by simp [tenSecondsRun, length_slots_run, World.init]) ?_ _
  · refine ⟨⟨rfl, rfl⟩, List.forall_mem_nil _, ?_⟩
    intro holder expiry hlast
    cases hlast
  · refine ⟨⟨rfl, rfl⟩, ?_, ?_⟩
    · intro entry hmem t now ht hnow
      obtain rfl := List.mem_singleton.mp hmem
      cases ht
      cases hnow
      decide
    · intro holder expiry hlast _
      cases hlast
      decide

/-- **A lease is lost in the part of a millisecond that the codec has cut off**: holder `a` has it
    until half a microsecond after ten seconds, and `b` gets it at ten seconds. -/
theorem lease_lost :
    RunMeets (leaseStore (δ := Empty))
      (Committing fun log _ request =>
        ConcernsLease { name := ascii "l" } (ascii "r") request ∧
          InOrder (log.drop (leaseLog Empty tenSecondsRun).length) request)
      (run leaseStore (World.init InMemoryState.empty) tenSecondsRun)
      (takeoverRun 500 10000000000) ∧
    ¬ LeaseExclusive (leaseKey { name := ascii "l" } (ascii "r"))
      (answers (commits (leaseStore (δ := Empty))
        (run leaseStore (World.init InMemoryState.empty) tenSecondsRun)
        (takeoverRun 500 10000000000))) := by
  refine ⟨?_, ?_⟩
  · rw [takeoverRun, runMeets_append]
    refine ⟨?_, ?_⟩ <;>
      refine runMeets_soloSession (by simp [tenSecondsRun, length_slots_run, World.init]) ?_ _
    · exact ⟨⟨rfl, rfl⟩, List.forall_mem_nil _⟩
    · refine ⟨⟨rfl, rfl⟩, ?_⟩
      intro entry hmem t now ht hnow
      obtain rfl := List.mem_singleton.mp hmem
      cases ht
      cases hnow
      decide
  · intro hexclusive
    have hpromised : Promised (leaseKey { name := ascii "l" } (ascii "r"))
        [(.acquire (acquiring (ascii "a") 500), .acquired
          { acquired := true, lease := some (granted (acquiring (ascii "a") 500) tenSeconds none) })]
        (ascii "a") 10000000500 :=
      ⟨[], _, [], rfl, rfl, List.forall_mem_nil _⟩
    have hle := hexclusive [_] (acquiring (ascii "b") 10000000000) _ [] rfl rfl (ascii "a")
      10000000500 hpromised (by decide)
    revert hle
    decide

end StateSpec.Runtime
