/-
  THE SAME LEASES in the documents of the C++ and of the Rust store, and what the calls of the two
  stores read from them.

  `SameRecords` is what "the same stored records" means: the same leases, as far as holder, expiry and
  token go, under definitions that grant the same.  It is kept by what both stores write, if what is
  read back is the same (`SameRecords.put_iff`).
-/
import StateSpec.Lib.Lockstep
import StateSpec.Runtime.Leases
import StateSpec.Rust.LeaseStore

namespace StateSpec.Rust

open Program StateSpec.Runtime

variable {δ : Type} {d e : Docs δ}

/-! ## The same records -/

/-- The definition that the Rust store has under an id. -/
def leaseDefinitionAt (e : Docs δ) (id : LeaseDefinitionId) : Option LeaseDefinition :=
  (e .leaseDefinitions (Runtime.leaseDefinitionKey id)).map leaseDefinitionFromJson

/-- The lease that the Rust store has under a key. -/
def leaseAt (e : Docs δ) (k : Key) : Option LeaseRecord := (e .leases k).map leaseRecordFromJson

/-- How a definition grants leases: for how many nanoseconds, and whether with a new token. -/
def LeaseDefinition.terms (definition : LeaseDefinition) : Int × Bool :=
  ((definition.ttl : Int), definition.fencingToken)

/-- The same of a C++ definition. -/
def termsOf (definition : Runtime.LeaseDefinition) : Int × Bool :=
  (definition.ttl * 1000000000, definition.fencingToken)

/-- Who has a lease, until when and under which token. -/
def tenure (lease : LeaseRecord) : Option Bytes × Int × UInt64 :=
  (lease.holder, lease.expiresAt, lease.fencingToken)

/-- The C++ documents can be read, and the Rust documents say the same. -/
structure SameRecords (d e : Docs δ) : Prop where
  readableDefinitions : ∀ k document, d .leaseDefinitions k = some document →
    ∃ definition, Runtime.LeaseDefinition.fromJson document = .ok definition
  readableLeases : ∀ k document, d .leases k = some document →
    ∃ lease, LeaseRecord.fromJson document = .ok lease
  definitions : ∀ id, (Runtime.leaseDefinitionAt d id).map termsOf =
    (leaseDefinitionAt e id).map LeaseDefinition.terms
  leases : ∀ k, (Runtime.leaseAt d k).map tenure = (leaseAt e k).map tenure

namespace SameRecords

theorem definition_none (h : SameRecords d e) {id : LeaseDefinitionId}
    (hat : Runtime.leaseDefinitionAt d id = none) : leaseDefinitionAt e id = none := by
  have hsame := h.definitions id
  rw [hat] at hsame
  exact Option.map_eq_none_iff.mp hsame.symm

theorem definition_some (h : SameRecords d e) {id : LeaseDefinitionId}
    {definition : Runtime.LeaseDefinition}
    (hat : Runtime.leaseDefinitionAt d id = some definition) :
    ∃ definition', leaseDefinitionAt e id = some definition' ∧
      (definition'.ttl : Int) = definition.ttl * 1000000000 ∧
      definition'.fencingToken = definition.fencingToken := by
  have hsame := h.definitions id
  rw [hat] at hsame
  obtain ⟨definition', hat', hterms⟩ := Option.map_eq_some_iff.mp hsame.symm
  exact ⟨definition', hat', congrArg Prod.fst hterms, congrArg Prod.snd hterms⟩

theorem lease_none (h : SameRecords d e) {k : Key} (hat : Runtime.leaseAt d k = none) :
    leaseAt e k = none := by
  have hsame := h.leases k
  rw [hat] at hsame
  exact Option.map_eq_none_iff.mp hsame.symm

theorem lease_some (h : SameRecords d e) {k : Key} {lease : LeaseRecord}
    (hat : Runtime.leaseAt d k = some lease) :
    ∃ lease', leaseAt e k = some lease' ∧ lease'.holder = lease.holder ∧
      lease'.expiresAt = lease.expiresAt ∧ lease'.fencingToken = lease.fencingToken := by
  have hsame := h.leases k
  rw [hat] at hsame
  obtain ⟨lease', hat', htenure⟩ := Option.map_eq_some_iff.mp hsame.symm
  simp only [tenure, Prod.mk.injEq] at htenure
  exact ⟨lease', hat', htenure⟩

/-- A token that Rust has read fits an `i64`. -/
theorem token_lt (h : SameRecords d e) {k : Key} {lease : LeaseRecord}
    (hat : Runtime.leaseAt d k = some lease) : lease.fencingToken.toNat < 2 ^ 63 := by
  obtain ⟨lease', hat', -, -, htoken⟩ := h.lease_some hat
  obtain ⟨document, -, rfl⟩ := Option.map_eq_some_iff.mp hat'
  rw [← htoken]
  exact u64FromJson_lt _

/-- Both stores write under the same key. -/
theorem set (h : SameRecords d e) {k : Key} {document document' : Option (Json δ)}
    (hread : ∀ json, document = some json → ∃ lease, LeaseRecord.fromJson json = .ok lease)
    (hsame : (document.bind fun json => (LeaseRecord.fromJson json).toOption).map tenure =
      (document'.map leaseRecordFromJson).map tenure) :
    SameRecords (d.set .leases k document) (e.set .leases k document') where
  readableDefinitions k' json hat := by
    rw [Documents.set_of_ne (by decide)] at hat
    exact h.readableDefinitions k' json hat
  readableLeases k' json hat := by
    by_cases hk : k' = k
    · subst hk
      rw [Documents.set_self] at hat
      exact hread json hat
    · rw [Documents.set_of_key_ne hk] at hat
      exact h.readableLeases k' json hat
  definitions id := by
    have hdefinitions := h.definitions id
    rw [leaseDefinitionAt] at hdefinitions
    rw [leaseDefinitionAt, leaseDefinitionAt_congr (Documents.set_of_ne (by decide)),
      Documents.set_of_ne (by decide), hdefinitions]
  leases k' := by
    by_cases hk : k' = k
    · subst hk
      rw [Runtime.leaseAt, leaseAt, decodedAt, Documents.set_self, Documents.set_self, hsame]
    · have hleases := h.leases k'
      rw [Runtime.leaseAt, leaseAt, decodedAt] at hleases
      rw [Runtime.leaseAt, leaseAt, decodedAt, Documents.set_of_key_ne hk,
        Documents.set_of_key_ne hk, hleases]

/-- A lease both stores write is the same if it is the same read back. -/
theorem put_iff (h : SameRecords d e) (k : Key) (lease lease' : LeaseRecord) :
    SameRecords (d.set .leases k (some lease.toJson))
        (e.set .leases k (some (leaseRecordToJson lease'))) ↔
      tenure lease.stored = tenure (storedLease lease') := by
  constructor
  · intro hset
    have hleases := hset.leases k
    rw [leaseAt_set, if_pos rfl, leaseAt, Documents.set_self, Option.map_some, Option.map_some,
      Option.map_some, leaseRecordFromJson_toJson] at hleases
    exact Option.some_inj.mp hleases
  · intro htenure
    refine h.set ?_ ?_
    · rintro _ ⟨rfl⟩
      exact ⟨_, lease.fromJson_toJson⟩
    · rw [Option.bind_some, lease.fromJson_toJson, Option.map_some, leaseRecordFromJson_toJson]
      exact congrArg some htenure

theorem erase (h : SameRecords d e) (k : Key) :
    SameRecords (d.set .leases k none) (e.set .leases k none) :=
  h.set nofun rfl

/-- Nothing is stored. -/
theorem empty : SameRecords (δ := δ) (fun _ _ => none) fun _ _ => none where
  readableDefinitions _ _ := nofun
  readableLeases _ _ := nofun
  definitions _ := rfl
  leases _ := rfl

/-- A definition that is registered with both stores. -/
theorem register (h : SameRecords d e) {definition : Runtime.LeaseDefinition}
    {definition' : LeaseDefinition} (hterms : termsOf definition = definition'.terms)
    (httl : definition'.ttl < 2 ^ 63) (k : Key) :
    SameRecords (d.set .leaseDefinitions k (some definition.toJson))
      (e.set .leaseDefinitions k (some (leaseDefinitionToJson definition'))) where
  readableDefinitions k' json hat := by
    by_cases hk : k' = k
    · subst hk
      rw [Documents.set_self] at hat
      obtain rfl := Option.some_inj.mp hat
      exact ⟨_, definition.fromJson_toJson⟩
    · rw [Documents.set_of_key_ne hk] at hat
      exact h.readableDefinitions k' json hat
  readableLeases k' json hat := by
    rw [Documents.set_of_ne (by decide)] at hat
    exact h.readableLeases k' json hat
  definitions id := by
    by_cases hk : Runtime.leaseDefinitionKey id = k
    · subst hk
      have hread : (leaseDefinitionFromJson (leaseDefinitionToJson definition' : Json δ)).terms =
          definition'.terms := by
        have hstored : durationFromJson (durationToJson definition'.ttl : Json δ) = definition'.ttl :=
          durationFromJson_durationToJson httl
        show ((durationFromJson (durationToJson definition'.ttl : Json δ) : Int), _) = _
        rw [hstored]
        rfl
      rw [Runtime.leaseDefinitionAt, leaseDefinitionAt, decodedAt, Documents.set_self,
        Documents.set_self, Option.bind_some, definition.fromJson_toJson, Option.map_some,
        Option.map_some, hread, ← hterms]
      rfl
    · have hdefinitions := h.definitions id
      rw [Runtime.leaseDefinitionAt, leaseDefinitionAt, decodedAt] at hdefinitions
      rw [Runtime.leaseDefinitionAt, leaseDefinitionAt, decodedAt, Documents.set_of_key_ne hk,
        Documents.set_of_key_ne hk, hdefinitions]
  leases k' := by
    have hleases := h.leases k'
    rw [leaseAt] at hleases
    rw [leaseAt, leaseAt_congr (Documents.set_of_ne (by decide)), Documents.set_of_ne (by decide),
      hleases]

end SameRecords

/-! ## The requests of holders, on both sides -/

/-- A request about one lease. -/
inductive HolderRequest where
  | acquire (request : LeaseAcquireRequest)
  | renew (request : LeaseRenewRequest)
  | release (request : LeaseReleaseRequest)

/-- The transaction of the C++ store. -/
def HolderRequest.cpp : HolderRequest → Runtime.TxProgram δ LeaseResponse
  | .acquire request => leaseProgram (.acquire request)
  | .renew request => leaseProgram (.renew request)
  | .release request => leaseProgram (.release request)

/-- The transaction of the Rust store. -/
def HolderRequest.rust : HolderRequest → TxProgram δ LeaseResponse
  | .acquire request => .acquired <$> acquireTx request
  | .renew request => .renewed <$> renewTx request
  | .release request => (fun _ => .released) <$> releaseTx request

/-- The transactions of the lease stores scan nothing. -/
def noScan (_ : Docs δ) (_ : RuntimeCollection) : List (Key × Json δ) := []

/-! ### C++ -/

theorem eval_inspectLeaseTx (h : SameRecords d e) (request : LeaseInspectRequest) :
    (Runtime.inspectLeaseTx request).eval noScan d =
      .ok (Runtime.leaseAt d (Runtime.leaseKey request.definitionId request.resource), d) :=
  eval_decoded rfl (fun _ => rfl) fun document => h.readableLeases _ document

theorem eval_requireDefinition (h : SameRecords d e) (id : LeaseDefinitionId) :
    (Runtime.requireDefinition id).eval noScan d =
      match Runtime.leaseDefinitionAt d id with
      | some definition => .ok (definition, d)
      | none => .error (.backendError (unknownLeaseDefinitionMessage id)) := by
  have hinspect : (Runtime.inspectLeaseDefinitionTx id).eval noScan d =
      .ok (Runtime.leaseDefinitionAt d id, d) :=
    eval_decoded rfl (fun _ => rfl) fun document => h.readableDefinitions _ document
  rw [Runtime.requireDefinition, eval_do hinspect]
  cases Runtime.leaseDefinitionAt d id <;> rfl

theorem eval_requireLease (h : SameRecords d e) (id : LeaseDefinitionId) (resource : Bytes) :
    (Runtime.requireLease id resource).eval noScan d =
      match Runtime.leaseAt d (Runtime.leaseKey id resource) with
      | some lease => .ok (lease, d)
      | none => .error (.backendError (unknownLeaseMessage resource)) := by
  rw [Runtime.requireLease, eval_do (eval_inspectLeaseTx h _)]
  cases Runtime.leaseAt d (Runtime.leaseKey id resource) <;> rfl

theorem eval_requireHolder (d : Docs δ) (lease : LeaseRecord) (holder : Bytes) (token : UInt64) :
    (Runtime.requireHolder lease holder token).eval noScan d =
      if HeldBy lease holder token then .ok ((), d)
      else .error (.conflictError .leaseConflict leaseConflictMessage) := by
  rw [Runtime.requireHolder]
  split <;> rfl

/-! ### Rust -/

theorem eval_inspectLeaseTx_rust (e : Docs δ) (request : LeaseInspectRequest) :
    (inspectLeaseTx request).eval noScan e =
      .ok (leaseAt e (Runtime.leaseKey request.definitionId request.resource), e) := by
  rw [← leaseKey_eq, leaseAt]
  rw [inspectLeaseTx, Program.eval_read rfl]
  cases e .leases (leaseKey request.definitionId request.resource) <;> rfl

theorem eval_requireDefinition_rust (e : Docs δ) (id : LeaseDefinitionId) :
    (requireDefinition id).eval noScan e =
      match leaseDefinitionAt e id with
      | some definition => .ok (definition, e)
      | none => .error (.notFound (ascii "unknown lease definition")) := by
  have hinspect : (inspectLeaseDefinitionTx id).eval noScan e = .ok (leaseDefinitionAt e id, e) := by
    rw [leaseDefinitionAt, ← leaseDefinitionKey_eq]
    rw [inspectLeaseDefinitionTx, Program.eval_read rfl]
    cases e .leaseDefinitions (leaseDefinitionKey id) <;> rfl
  rw [requireDefinition, eval_do hinspect]
  cases leaseDefinitionAt e id <;> rfl

theorem eval_requireLease_rust (e : Docs δ) (id : LeaseDefinitionId) (resource : Bytes) :
    (requireLease id resource).eval noScan e =
      match leaseAt e (Runtime.leaseKey id resource) with
      | some lease => .ok (lease, e)
      | none => .error (.notFound (ascii "unknown lease")) := by
  rw [requireLease, eval_do (eval_inspectLeaseTx_rust e _)]
  cases leaseAt e (Runtime.leaseKey id resource) <;> rfl

theorem eval_requireHolder_rust (e : Docs δ) (lease : LeaseRecord) (holder : Bytes)
    (token : UInt64) :
    (requireHolder lease holder token).eval noScan e =
      if lease.holder ≠ some holder ∨ lease.fencingToken ≠ token then
        .error (.conflict .leaseConflict (ascii "lease is not held by caller"))
      else .ok ((), e) := by
  rw [requireHolder]
  split <;> rfl

end StateSpec.Rust
