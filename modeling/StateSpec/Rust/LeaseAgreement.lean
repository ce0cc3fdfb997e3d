/-
  THE LEASE STORES OF C++ AND RUST — whether they agree, started on the same records.

  They do not always: a holder that asks for its own lease again is refused by C++ and granted it by
  Rust; an unexpired lease without a holder is free to C++ only; without `fencing_token` in the
  definition the token stays as it is in Rust; 0 is any token to C++ only; and Rust stores
  nanoseconds, C++ milliseconds.  `Alike` is the exact condition, request by request;
  `lease_stores_agree` says that along a run of requests the stores agree if and only if every
  request meets it.
-/
import StateSpec.Rust.LeaseRecords

namespace StateSpec.Rust

open Program StateSpec.Runtime

variable {δ : Type} {d e : Docs δ}

/-! ## Agreement -/

/-- Both requests have been answered alike. -/
def SameResponse : LeaseResponse → LeaseResponse → Prop
  | .acquired result, .acquired result' =>
    result.acquired = result'.acquired ∧ result.lease.map tenure = result'.lease.map tenure
  | .renewed lease, .renewed lease' => tenure lease = tenure lease'
  | .released, .released => True
  | _, _ => False

/-- **The stores agree on a request**: both fail, with the same conflict kind if any, or both succeed,
    return the same holder, expiry and token, and leave the same records. -/
def Agree (request : HolderRequest) (d e : Docs δ) : Prop :=
  SameOutcome (fun error error' => error.conflictKind = error'.conflictKind) SameResponse SameRecords
    (request.cpp.eval noScan d) (request.rust.eval noScan e)

/-- A time that both codecs keep alike: whole milliseconds, from the epoch to 2^63 nanoseconds (or
    less than a millisecond before the epoch, where both make it 0). -/
def KeptAlike (time : Int) : Prop :=
  (0 ≤ time ∧ time < 2 ^ 63 ∧ time % 1000000 = 0) ∨ (-1000000 < time ∧ time < 0)

theorem storedTime_eq_stored_iff (time : Int) :
    storedTime time = Timestamp.stored time ↔ KeptAlike time := by
  show _ = time.tdiv 1000000 * 1000000 ↔ _
  rcases Int.lt_or_le time 0 with hneg | hpos
  -- before the epoch Rust stores 0
  · obtain ⟨n, rfl⟩ : ∃ n, time = -n := ⟨-time, (Int.neg_neg time).symm⟩
    rw [storedTime_eq, Int.max_eq_right (Int.le_of_lt hneg), Int.zero_bmod, Int.neg_tdiv,
      Int.tdiv_eq_ediv_of_nonneg (by omega), KeptAlike]
    omega
  rw [Int.tdiv_eq_ediv_of_nonneg hpos]
  rcases Int.lt_or_le time (2 ^ 63) with hlt | hle
  · rw [storedTime_of_lt hpos hlt, KeptAlike]
    omega
  -- what Rust stores is below 2^63
  · have hbmod : (max time 0).bmod (2 ^ 64) < (2 ^ 64 + 1) / 2 := Int.bmod_lt (by decide)
    rw [storedTime_eq, KeptAlike]
    rw [Int.max_eq_left hpos, Int.bmod_def] at hbmod ⊢
    omega

theorem storedU64_eq_self_iff (token : UInt64) : storedU64 token = token ↔ token.toNat < 2 ^ 63 := by
  rw [storedU64_eq]
  constructor
  · intro h
    split at h
    · assumption
    · rw [← h]
      decide
  · exact fun h => if_pos h

/-- What both stores grant is the same. -/
def GrantedAlike (request : LeaseAcquireRequest) (definition : Runtime.LeaseDefinition)
    (existing : Option LeaseRecord) : Prop :=
  definition.fencingToken = true ∧ KeptAlike (request.now + definition.ttl * 1000000000) ∧
    ∀ lease, existing = some lease → lease.fencingToken.toNat + 1 < 2 ^ 63

/-- **What a request must find for the stores to agree.** -/
def Alike (d : Docs δ) : HolderRequest → Prop
  | .acquire request => ∀ definition,
    Runtime.leaseDefinitionAt d request.definitionId = some definition →
    (∀ lease,
      Runtime.leaseAt d (Runtime.leaseKey request.definitionId request.resource) = some lease →
      lease.expiresAt > request.now → lease.holder ≠ none ∧ lease.holder ≠ some request.holder) ∧
    ((∀ lease,
      Runtime.leaseAt d (Runtime.leaseKey request.definitionId request.resource) = some lease →
      ¬ lease.expiresAt > request.now) →
      GrantedAlike request definition
        (Runtime.leaseAt d (Runtime.leaseKey request.definitionId request.resource)))
  | .renew request => ∀ definition lease,
    Runtime.leaseDefinitionAt d request.definitionId = some definition →
    Runtime.leaseAt d (Runtime.leaseKey request.definitionId request.resource) = some lease →
    lease.holder = some request.holder →
    (request.fencingToken = 0 → lease.fencingToken = 0) ∧
    (request.fencingToken = lease.fencingToken →
      KeptAlike (request.now + definition.ttl * 1000000000))
  | .release request => ∀ lease,
    Runtime.leaseAt d (Runtime.leaseKey request.definitionId request.resource) = some lease →
    lease.holder = some request.holder → request.fencingToken = 0 → lease.fencingToken = 0

/-! ## Acquisitions -/

theorem nextToken_eq_iff (definition : LeaseDefinition) {definition' : Runtime.LeaseDefinition}
    {existing existing' : Option LeaseRecord}
    (hfencing : definition.fencingToken = definition'.fencingToken)
    (hexisting : existing.map tenure = existing'.map tenure) :
    Runtime.nextToken existing' = nextToken definition existing ↔ definition'.fencingToken = true := by
  have hsucc (token : UInt64) : token + 1 ≠ token := by
    intro h
    have hnat := congrArg UInt64.toNat h
    rw [UInt64.toNat_add] at hnat
    have hlt := token.toNat_lt
    simp at hnat
    omega
  simp only [nextToken, hfencing]
  cases existing with
  | none =>
    cases existing' with
    | some lease => cases hexisting
    | none => cases definition'.fencingToken <;> simp [Runtime.nextToken]
  | some lease =>
    cases existing' with
    | none => cases hexisting
    | some lease' =>
      have htoken : lease.fencingToken = lease'.fencingToken :=
        congrArg (fun t => t.2.2) (Option.some_inj.mp hexisting)
      cases definition'.fencingToken <;> simp [Runtime.nextToken, htoken, hsucc]

/-- **Both stores grant the lease.** -/
theorem agree_granted (h : SameRecords d e) {request : LeaseAcquireRequest} {k : Key}
    {definition : Runtime.LeaseDefinition} {definition' : LeaseDefinition}
    (httl : (definition'.ttl : Int) = definition.ttl * 1000000000)
    (hfencing : definition'.fencingToken = definition.fencingToken) :
    SameOutcome (fun (error : Error) (error' : StoreError) => error.conflictKind = error'.conflictKind)
      SameResponse SameRecords
      (.ok (.acquired { acquired := true,
                        lease := some (Runtime.granted request definition (Runtime.leaseAt d k)) },
        d.set .leases k (some (Runtime.granted request definition (Runtime.leaseAt d k)).toJson)))
      (.ok (.acquired { acquired := true,
                        lease := some (granted request definition' (leaseAt e k)) },
        e.set .leases k (some (leaseRecordToJson (granted request definition' (leaseAt e k)))))) ↔
      GrantedAlike request definition (Runtime.leaseAt d k) := by
  have htoken := nextToken_eq_iff definition' hfencing (h.leases k).symm
  have hlt : (Runtime.nextToken (Runtime.leaseAt d k)).toNat < 2 ^ 63 ↔
      ∀ lease, Runtime.leaseAt d k = some lease → lease.fencingToken.toNat + 1 < 2 ^ 63 := by
    cases hlease : Runtime.leaseAt d k with
    | none => simp [Runtime.nextToken]
    | some lease =>
      have hbound := h.token_lt hlease
      have hsucc : (lease.fencingToken + 1).toNat = lease.fencingToken.toNat + 1 := by
        rw [UInt64.toNat_add, Nat.mod_eq_of_lt]
        · rfl
        · show lease.fencingToken.toNat + 1 < 2 ^ 64
          omega
      simp [Runtime.nextToken, hsucc]
  have hexpires : plus request.now definition'.ttl = Timestamp.plus request.now definition.ttl := by
    rw [Timestamp.plus, plus, httl]
  have hkept := storedTime_eq_stored_iff (Timestamp.plus request.now definition.ttl)
  show (true = true ∧ some (tenure _) = some (tenure _)) ∧ _ ↔ _
  rw [h.put_iff, Option.some_inj]
  simp only [tenure, Runtime.granted, granted, LeaseRecord.stored, storedLease, Prod.mk.injEq,
    true_and, hexpires]
  constructor
  · rintro ⟨hsame, hexpiry, hstored⟩
    rw [← hsame] at hstored
    exact ⟨htoken.mp hsame, hkept.mp hexpiry.symm,
      hlt.mp ((storedU64_eq_self_iff _).mp hstored.symm)⟩
  · rintro ⟨hflag, hexpiry, hbound⟩
    have hsame := htoken.mpr hflag
    rw [← hsame]
    exact ⟨rfl, (hkept.mpr hexpiry).symm, ((storedU64_eq_self_iff _).mpr (hlt.mpr hbound)).symm⟩

section

variable {request : LeaseAcquireRequest}

theorem eval_acquire_refused (h : SameRecords d e) {definition : Runtime.LeaseDefinition}
    {lease : LeaseRecord}
    (hdefinition : Runtime.leaseDefinitionAt d request.definitionId = some definition)
    (hlease : Runtime.leaseAt d (Runtime.leaseKey request.definitionId request.resource) = some lease)
    (hunexpired : Unexpired lease request.now) :
    (HolderRequest.acquire request).cpp.eval noScan d =
      .ok (.acquired { acquired := false, lease := some lease }, d) := by
  refine eval_map ?_
  have hrequire := eval_requireDefinition h request.definitionId
  rw [hdefinition] at hrequire
  rw [Runtime.acquireTx, eval_do hrequire, eval_do (eval_inspectLeaseTx h _), hlease]
  show Program.eval noScan (if Unexpired lease request.now then _ else _) d = _
  rw [if_pos hunexpired]
  rfl

theorem eval_acquire_granted (h : SameRecords d e) {definition : Runtime.LeaseDefinition}
    (hdefinition : Runtime.leaseDefinitionAt d request.definitionId = some definition)
    (hfree : ∀ lease,
      Runtime.leaseAt d (Runtime.leaseKey request.definitionId request.resource) = some lease →
      ¬ Unexpired lease request.now) :
    (HolderRequest.acquire request).cpp.eval noScan d =
      .ok (.acquired { acquired := true,
                       lease := some (Runtime.granted request definition (Runtime.leaseAt d
                         (Runtime.leaseKey request.definitionId request.resource))) },
        d.set .leases (Runtime.leaseKey request.definitionId request.resource)
          (some (Runtime.granted request definition (Runtime.leaseAt d
            (Runtime.leaseKey request.definitionId request.resource))).toJson)) := by
  refine eval_map ?_
  have hrequire := eval_requireDefinition h request.definitionId
  rw [hdefinition] at hrequire
  rw [Runtime.acquireTx, eval_do hrequire, eval_do (eval_inspectLeaseTx h _)]
  cases hlease : Runtime.leaseAt d (Runtime.leaseKey request.definitionId request.resource) with
  | none => rfl
  | some lease =>
    show Program.eval noScan (if Unexpired lease request.now then _ else _) d = _
    rw [if_neg (hfree lease hlease)]
    rfl

theorem eval_acquire_refused_rust {definition : LeaseDefinition} {lease : LeaseRecord}
    (hdefinition : leaseDefinitionAt e request.definitionId = some definition)
    (hlease : leaseAt e (Runtime.leaseKey request.definitionId request.resource) = some lease)
    (hheld : HeldByOther lease request.holder request.now) :
    (HolderRequest.acquire request).rust.eval noScan e =
      .ok (.acquired { acquired := false, lease := some lease }, e) := by
  refine eval_map ?_
  have hrequire := eval_requireDefinition_rust e request.definitionId
  rw [hdefinition] at hrequire
  rw [acquireTx, eval_do hrequire, eval_do (eval_inspectLeaseTx_rust e _), hlease]
  show Program.eval noScan (if HeldByOther lease request.holder request.now then _ else _) e = _
  rw [if_pos hheld]
  rfl

theorem eval_acquire_granted_rust {definition : LeaseDefinition}
    (hdefinition : leaseDefinitionAt e request.definitionId = some definition)
    (hfree : ∀ lease,
      leaseAt e (Runtime.leaseKey request.definitionId request.resource) = some lease →
      ¬ HeldByOther lease request.holder request.now) :
    (HolderRequest.acquire request).rust.eval noScan e =
      .ok (.acquired { acquired := true,
                       lease := some (granted request definition (leaseAt e
                         (Runtime.leaseKey request.definitionId request.resource))) },
        e.set .leases (Runtime.leaseKey request.definitionId request.resource)
          (some (leaseRecordToJson (granted request definition (leaseAt e
            (Runtime.leaseKey request.definitionId request.resource)))))) := by
  refine eval_map ?_
  have hrequire := eval_requireDefinition_rust e request.definitionId
  rw [hdefinition] at hrequire
  rw [acquireTx, eval_do hrequire, eval_do (eval_inspectLeaseTx_rust e _)]
  simp only [← leaseKey_eq]
  cases hlease : leaseAt e (leaseKey request.definitionId request.resource) with
  | none => rfl
  | some lease =>
    rw [leaseKey_eq] at hlease
    show Program.eval noScan (if HeldByOther lease request.holder request.now then _ else _) e = _
    rw [if_neg (hfree lease hlease)]
    rfl

end

/-- An unexpired lease keeps both stores from granting it when somebody else has it, and one of them
    only otherwise. -/
theorem agree_unexpired_iff (h : SameRecords d e) {request : LeaseAcquireRequest}
    {definition : Runtime.LeaseDefinition} {lease : LeaseRecord}
    (hat : Runtime.leaseDefinitionAt d request.definitionId = some definition)
    (hlease : Runtime.leaseAt d (Runtime.leaseKey request.definitionId request.resource) = some lease)
    (hunexpired : lease.expiresAt > request.now) :
    Agree (.acquire request) d e ↔ lease.holder ≠ none ∧ lease.holder ≠ some request.holder := by
  obtain ⟨definition', hat', -, -⟩ := h.definition_some hat
  obtain ⟨lease', hlease', hholder, hexpires, htoken⟩ := h.lease_some hlease
  have hlater : lease'.expiresAt > request.now := hexpires ▸ hunexpired
  rw [Agree]
  by_cases hnone : lease.holder = none
  -- C++ takes the lease for free
  · rw [eval_acquire_granted h hat, eval_acquire_refused_rust hat' hlease'
      ⟨by simp [hholder, hnone], hlater⟩]
    · exact ⟨fun hsame => absurd hsame.1.1 nofun, fun hne => absurd hnone hne.1⟩
    · intro lease₂ hlease₂ hun
      obtain rfl := Option.some_inj.mp (hlease.symm.trans hlease₂)
      exact hun.1 hnone
  rw [eval_acquire_refused h hat hlease ⟨hnone, hunexpired⟩]
  by_cases hcaller : lease.holder = some request.holder
  -- Rust grants the lease to its holder
  · rw [eval_acquire_granted_rust hat']
    · exact ⟨fun hsame => absurd hsame.1.1 nofun, fun hne => absurd hcaller hne.2⟩
    · intro lease₂ hlease₂ hheld
      obtain rfl := Option.some_inj.mp (hlease'.symm.trans hlease₂)
      exact hheld.1 (hholder.trans hcaller)
  · rw [eval_acquire_refused_rust hat' hlease' ⟨by rwa [hholder], hlater⟩]
    refine ⟨fun _ => ⟨hnone, hcaller⟩, fun _ => ⟨⟨rfl, ?_⟩, h⟩⟩
    exact congrArg some (by rw [tenure, tenure, hholder, hexpires, htoken])

/-- **An acquisition** is answered alike exactly when it finds what it must. -/
theorem agree_acquire_iff (h : SameRecords d e) (request : LeaseAcquireRequest) :
    Agree (.acquire request) d e ↔ Alike d (.acquire request) := by
  cases hat : Runtime.leaseDefinitionAt d request.definitionId with
  | none =>
    have hdefinition := eval_requireDefinition h request.definitionId
    have hdefinition' := eval_requireDefinition_rust e request.definitionId
    rw [hat] at hdefinition
    rw [h.definition_none hat] at hdefinition'
    have hcpp : (HolderRequest.acquire request).cpp.eval noScan d = _ :=
      eval_map_error (eval_do_error hdefinition)
    have hrust : (HolderRequest.acquire request).rust.eval noScan e = _ :=
      eval_map_error (eval_do_error hdefinition')
    rw [Agree, hcpp, hrust]
    simp only [Alike, hat]
    exact ⟨fun _ => nofun, fun _ => rfl⟩
  | some definition =>
    obtain ⟨definition', hat', httl, hfencing⟩ := h.definition_some hat
    -- both stores grant what has expired, and what nobody has
    have hgrant (hfree : ∀ lease,
        Runtime.leaseAt d (Runtime.leaseKey request.definitionId request.resource) = some lease →
        ¬ lease.expiresAt > request.now) :
        Agree (.acquire request) d e ↔ GrantedAlike request definition
          (Runtime.leaseAt d (Runtime.leaseKey request.definitionId request.resource)) := by
      rw [Agree, eval_acquire_granted h hat fun lease hlease hun => hfree lease hlease hun.2,
        eval_acquire_granted_rust hat' ?_]
      · exact agree_granted h httl hfencing
      · intro lease' hlease' hheld
        have hsame := h.leases (Runtime.leaseKey request.definitionId request.resource)
        rw [hlease'] at hsame
        obtain ⟨lease, hlease, htenure⟩ := Option.map_eq_some_iff.mp hsame
        refine hfree lease hlease ?_
        have hexpires : lease.expiresAt = lease'.expiresAt := congrArg (fun t => t.2.1) htenure
        rw [hexpires]
        exact hheld.2
    simp only [Alike, hat, Option.some_inj, forall_eq']
    cases hlease : Runtime.leaseAt d (Runtime.leaseKey request.definitionId request.resource) with
    | none =>
      rw [hlease] at hgrant
      rw [hgrant nofun]
      exact ⟨fun hg => ⟨nofun, fun _ => hg⟩, fun hall => hall.2 nofun⟩
    | some lease =>
      rw [hlease] at hgrant
      simp only [Option.some_inj, forall_eq'] at hgrant ⊢
      by_cases hunexpired : lease.expiresAt > request.now
      · rw [agree_unexpired_iff h hat hlease hunexpired]
        exact ⟨fun hne => ⟨fun _ => hne, fun hexpired => absurd hunexpired hexpired⟩,
          fun hall => hall.1 hunexpired⟩
      · rw [hgrant hunexpired]
        exact ⟨fun hg => ⟨fun hlater => absurd hlater hunexpired, fun _ => hg⟩,
          fun hall => hall.2 hunexpired⟩

/-! ## Renewals and releases -/

/-- What the C++ store goes on with after the check of the holder. -/
theorem eval_held {α : Type} {lease : LeaseRecord} {holder : Bytes} {token : UInt64}
    {next : Unit → Runtime.TxProgram δ α} (hheld : HeldBy lease holder token) :
    (Runtime.requireHolder lease holder token >>= next).eval noScan d = (next ()).eval noScan d := by
  refine eval_do ?_
  rw [eval_requireHolder, if_pos hheld]

theorem eval_not_held {α : Type} {lease : LeaseRecord} {holder : Bytes} {token : UInt64}
    {next : Unit → Runtime.TxProgram δ α} (hheld : ¬ HeldBy lease holder token) :
    (Runtime.requireHolder lease holder token >>= next).eval noScan d =
      .error (.conflictError .leaseConflict leaseConflictMessage) := by
  refine eval_do_error ?_
  rw [eval_requireHolder, if_neg hheld]

/-- What the Rust store goes on with after the check of the holder. -/
theorem eval_held_rust {α : Type} {lease : LeaseRecord} {holder : Bytes} {token : UInt64}
    {next : Unit → TxProgram δ α} (hholder : lease.holder = some holder)
    (htoken : lease.fencingToken = token) :
    (requireHolder lease holder token >>= next).eval noScan e = (next ()).eval noScan e := by
  refine eval_do ?_
  rw [eval_requireHolder_rust, if_neg (by simp [hholder, htoken])]

theorem eval_not_held_rust {α : Type} {lease : LeaseRecord} {holder : Bytes} {token : UInt64}
    {next : Unit → TxProgram δ α}
    (hheld : lease.holder ≠ some holder ∨ lease.fencingToken ≠ token) :
    (requireHolder lease holder token >>= next).eval noScan e =
      .error (.conflict .leaseConflict (ascii "lease is not held by caller")) := by
  refine eval_do_error ?_
  rw [eval_requireHolder_rust, if_pos hheld]

/-- **The check of the holder**: both stores refuse, or both go on, unless the token 0 stands for
    another one. -/
theorem agree_held_iff {α β : Type} {same : α → β → Prop} {lease lease' : LeaseRecord}
    {holder : Bytes} {token : UInt64} {next : Unit → Runtime.TxProgram δ α}
    {next' : Unit → TxProgram δ β} (ends : Prop) (hholder : lease'.holder = lease.holder)
    (htoken : lease'.fencingToken = lease.fencingToken)
    (hnext : ∃ r, (next ()).eval noScan d = .ok r)
    (hends : SameOutcome
      (fun (error : Error) (error' : StoreError) => error.conflictKind = error'.conflictKind) same
      SameRecords ((next ()).eval noScan d) ((next' ()).eval noScan e) ↔ ends) :
    SameOutcome
      (fun (error : Error) (error' : StoreError) => error.conflictKind = error'.conflictKind) same
      SameRecords ((Runtime.requireHolder lease holder token >>= next).eval noScan d)
      ((requireHolder lease' holder token >>= next').eval noScan e) ↔
      (lease.holder = some holder →
        (token = 0 → lease.fencingToken = 0) ∧ (token = lease.fencingToken → ends)) := by
  by_cases hcaller : lease.holder = some holder
  · by_cases hsame : lease.fencingToken = token
    · rw [eval_held ⟨hcaller, Or.inr hsame⟩, eval_held_rust (hholder.trans hcaller)
        (htoken.trans hsame), hends]
      exact ⟨fun he _ => ⟨fun h0 => hsame.trans h0, fun _ => he⟩,
        fun hall => (hall hcaller).2 hsame.symm⟩
    rw [eval_not_held_rust (Or.inr (htoken ▸ hsame))]
    by_cases hzero : token = 0
    -- C++ goes on with any token
    · obtain ⟨r, hr⟩ := hnext
      rw [eval_held ⟨hcaller, Or.inl hzero⟩, hr]
      exact ⟨False.elim, fun hall => hsame (((hall hcaller).1 hzero).trans hzero.symm)⟩
    · rw [eval_not_held fun hheld => hheld.2.elim hzero hsame]
      exact ⟨fun _ _ => ⟨fun h0 => absurd h0 hzero, fun heq => absurd heq.symm hsame⟩, fun _ => rfl⟩
  · rw [eval_not_held fun hheld => hcaller hheld.1, eval_not_held_rust (Or.inl (hholder ▸ hcaller))]
    exact ⟨fun _ h => absurd h hcaller, fun _ => rfl⟩

/-- **A release.** -/
theorem agree_release_iff (h : SameRecords d e) (request : LeaseReleaseRequest) :
    Agree (.release request) d e ↔ Alike d (.release request) := by
  have hlease := eval_requireLease h request.definitionId request.resource
  have hlease' := eval_requireLease_rust e request.definitionId request.resource
  refine sameOutcome_map_iff.trans ?_
  simp only [Alike]
  cases hat : Runtime.leaseAt d (Runtime.leaseKey request.definitionId request.resource) with
  | none =>
    rw [hat] at hlease
    rw [h.lease_none hat] at hlease'
    rw [Runtime.releaseTx, releaseTx, eval_do_error hlease, eval_do_error hlease']
    exact ⟨fun _ => nofun, fun _ => rfl⟩
  | some lease =>
    obtain ⟨lease', hat', hholder, -, htoken⟩ := h.lease_some hat
    rw [hat] at hlease
    rw [hat'] at hlease'
    rw [Runtime.releaseTx, releaseTx, eval_do hlease, eval_do hlease']
    refine (agree_held_iff True hholder htoken ⟨_, rfl⟩ ?_).trans ?_
    · rw [leaseKey_eq]
      exact ⟨fun _ => trivial, fun _ => ⟨trivial, h.erase _⟩⟩
    · simp

/-- **A renewal.** -/
theorem agree_renew_iff (h : SameRecords d e) (request : LeaseRenewRequest) :
    Agree (.renew request) d e ↔ Alike d (.renew request) := by
  have hdefinition := eval_requireDefinition h request.definitionId
  have hdefinition' := eval_requireDefinition_rust e request.definitionId
  have hlease := eval_requireLease h request.definitionId request.resource
  have hlease' := eval_requireLease_rust e request.definitionId request.resource
  refine sameOutcome_map_iff.trans ?_
  simp only [Alike]
  cases hdef : Runtime.leaseDefinitionAt d request.definitionId with
  | none =>
    rw [hdef] at hdefinition
    rw [h.definition_none hdef] at hdefinition'
    rw [Runtime.renewTx, renewTx, eval_do_error hdefinition, eval_do_error hdefinition']
    exact ⟨fun _ _ _ => nofun, fun _ => rfl⟩
  | some definition =>
  obtain ⟨definition', hdef', httl, -⟩ := h.definition_some hdef
  rw [hdef] at hdefinition
  rw [hdef'] at hdefinition'
  cases hat : Runtime.leaseAt d (Runtime.leaseKey request.definitionId request.resource) with
  | none =>
    rw [hat] at hlease
    rw [h.lease_none hat] at hlease'
    rw [Runtime.renewTx, renewTx, eval_do hdefinition, eval_do hdefinition', eval_do_error hlease,
      eval_do_error hlease']
    exact ⟨fun _ _ _ _ => nofun, fun _ => rfl⟩
  | some lease =>
  obtain ⟨lease', hat', hholder, -, htoken⟩ := h.lease_some hat
  rw [hat] at hlease
  rw [hat'] at hlease'
  rw [Runtime.renewTx, renewTx, eval_do hdefinition, eval_do hdefinition', eval_do hlease,
    eval_do hlease']
  have hexpires : plus request.now definition'.ttl = Timestamp.plus request.now definition.ttl := by
    rw [Timestamp.plus, plus, httl]
  have hkept := storedTime_eq_stored_iff (Timestamp.plus request.now definition.ttl)
  refine (agree_held_iff (KeptAlike (request.now + definition.ttl * 1000000000)) hholder htoken
    ⟨_, rfl⟩ ?_).trans ?_
  · rw [leaseKey_eq]
    show tenure (Runtime.renewed request definition lease) =
      tenure (renewed request definition' lease') ∧ SameRecords _ _ ↔ _
    rw [h.put_iff]
    have hstored : storedU64 lease.fencingToken = lease.fencingToken :=
      (storedU64_eq_self_iff _).mpr (h.token_lt hat)
    simp only [tenure, Runtime.renewed, renewed, LeaseRecord.stored, storedLease, Prod.mk.injEq,
      hexpires, hholder, htoken, hstored, true_and, and_true]
    exact eq_comm.trans hkept
  · simp

/-! ## Runs -/

/-- **The step**: what a request must find is exactly what makes the stores agree on it. -/
theorem agree_iff (h : SameRecords d e) (request : HolderRequest) :
    Agree request d e ↔ Alike d request := by
  cases request with
  | acquire request => exact agree_acquire_iff h request
  | renew request => exact agree_renew_iff h request
  | release request => exact agree_release_iff h request

/-- Stores that agree on a request are left with the same records. -/
theorem sameRecords_after (h : SameRecords d e) {request : HolderRequest}
    (hagree : Agree request d e) :
    SameRecords (after noScan request.cpp d) (after noScan request.rust e) := by
  rw [Agree] at hagree
  rw [after, after]
  cases hcpp : request.cpp.eval noScan d with
  | error x =>
    cases hrust : request.rust.eval noScan e with
    | error y => exact h
    | ok r =>
      rw [hcpp, hrust] at hagree
      exact hagree.elim
  | ok r =>
    cases hrust : request.rust.eval noScan e with
    | error y =>
      rw [hcpp, hrust] at hagree
      exact hagree.elim
    | ok r' =>
      rw [hcpp, hrust] at hagree
      exact hagree.2

/-- **The stores agree along a run**: on each request, and on the records after it. -/
def AgreeAlong (d e : Docs δ) : List HolderRequest → Prop
  | [] => True
  | request :: rest => Agree request d e ∧
    SameRecords (after noScan request.cpp d) (after noScan request.rust e) ∧
    AgreeAlong (after noScan request.cpp d) (after noScan request.rust e) rest

/-- Each request of a run finds what it must. -/
def AlikeAlong (d : Docs δ) : List HolderRequest → Prop
  | [] => True
  | request :: rest => Alike d request ∧ AlikeAlong (after noScan request.cpp d) rest

/-- **The stores agree along a run exactly when each request finds what it must**, whatever records
    both are started on. -/
theorem lease_stores_agree {d e : Docs δ} (h : SameRecords d e) (requests : List HolderRequest) :
    AgreeAlong d e requests ↔ AlikeAlong d requests := by
  induction requests generalizing d e with
  | nil => exact Iff.rfl
  | cons request rest ih =>
    rw [AgreeAlong, AlikeAlong, agree_iff h]
    refine and_congr_right fun halike => ?_
    have hafter := sameRecords_after h ((agree_iff h request).mpr halike)
    rw [ih hafter]
    exact ⟨fun hrest => hrest.2, fun hrest => ⟨hafter, hrest⟩⟩

/-- The C++ store with the definition `l`, whose leases are for ten seconds and fenced. -/
def cppRegistered : Docs Empty :=
  after noScan (Runtime.registerLeaseDefinitionTx
    { id := { name := ascii "l" }, resourcePattern := ascii "r", ttl := 10, renewEvery := 1 })
    fun _ _ => none

/-- The Rust store with the same definition. -/
def rustRegistered : Docs Empty :=
  after noScan (registerLeaseDefinitionTx
    { id := { name := ascii "l" }, resourcePattern := ascii "r", ttl := 10000000000,
      renewEvery := 1000000000, maxTtl := none, fencingToken := true })
    fun _ _ => none

theorem sameRecords_registered : SameRecords cppRegistered rustRegistered :=
  SameRecords.empty.register rfl (by decide) _

/-- `holder` asks for the lease at that time. -/
def asking (holder : Bytes) (now : Timestamp) : HolderRequest :=
  .acquire { definitionId := { name := ascii "l" }, resource := ascii "r", holder, now }

theorem lease_stores_agree_fenced :
    AgreeAlong cppRegistered rustRegistered
      [asking (ascii "a") 0, asking (ascii "b") 5000000000, asking (ascii "b") 10000000000] := by
  refine (lease_stores_agree sameRecords_registered _).mpr ⟨?_, ?_, ?_, trivial⟩
  · rintro definition ⟨⟩
    exact ⟨nofun, fun _ => ⟨rfl, Or.inl (by decide), nofun⟩⟩
  · rintro definition ⟨⟩
    refine ⟨?_, fun hexpired => absurd ?_ (hexpired _ rfl)⟩
    · rintro lease ⟨⟩ -
      exact ⟨by decide, by decide⟩
    · decide
  · rintro definition ⟨⟩
    refine ⟨?_, fun _ => ⟨rfl, Or.inl (by decide), ?_⟩⟩
    · rintro lease ⟨⟩ hlater
      exact absurd hlater (by decide)
    · rintro lease ⟨⟩
      decide

/-- **A holder that asks again** is refused by C++ and granted a new lease by Rust. -/
theorem lease_stores_disagree :
    ¬ ∀ (d e : Docs Empty) (requests : List HolderRequest), SameRecords d e →
      AgreeAlong d e requests := by
  intro hall
  have hagree := hall _ _ [asking (ascii "a") 0, asking (ascii "a") 5000000000]
    sameRecords_registered
  have hacquired : false = true := hagree.2.2.1.1.1
  exact absurd hacquired (by decide)

end StateSpec.Rust
