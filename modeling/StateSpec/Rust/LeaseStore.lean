/-
  THE RUST LEASE STORE — `bindings/rust/runtime/leases.rs`, `RuntimeLeaseStore`, with its documents
  (`codec_leases.rs`).

  Its requests and leases are those of the C++ store; a definition has durations in nanoseconds.  Next
  to the C++ store it refuses whoever is not the holder, but never the holder; it counts a token up
  only under a definition that asks for fencing tokens; and no token of a request stands for any
  token.
-/
import StateSpec.Rust.Codec
import StateSpec.Runtime.LeaseStore

namespace StateSpec.Rust

open StateSpec.Runtime (LeaseDefinitionId LeaseRecord LeaseAcquireRequest LeaseRenewRequest
  LeaseReleaseRequest LeaseInspectRequest LeaseAcquireResult)

variable {δ : Type}

/-! ## `lease.rs` -/

structure LeaseDefinition where
  id : LeaseDefinitionId
  resourcePattern : Bytes
  ttl : Duration
  renewEvery : Duration
  maxTtl : Option Duration
  fencingToken : Bool

structure LeaseRegisterDefinitionResult where
  registeredNew : Bool
  definition : LeaseDefinition

/-! ## `codec_leases.rs` -/

def leaseDefinitionIdToJson (id : LeaseDefinitionId) : Json δ :=
  object [(ascii "name", .string id.name), (ascii "version", u64ToJson id.version)]

def leaseDefinitionIdFromJson (value : Json δ) : LeaseDefinitionId where
  name := stringFromJson (member value (ascii "name"))
  version := u64FromJson (member value (ascii "version"))

def leaseDefinitionToJson (definition : LeaseDefinition) : Json δ :=
  object [
    (ascii "id", leaseDefinitionIdToJson definition.id),
    (ascii "resource_pattern", .string definition.resourcePattern),
    (ascii "ttl", durationToJson definition.ttl),
    (ascii "renew_every", durationToJson definition.renewEvery),
    (ascii "max_ttl", optionalDuration definition.maxTtl),
    (ascii "fencing_token", .bool definition.fencingToken)]

def leaseDefinitionFromJson (value : Json δ) : LeaseDefinition where
  id := leaseDefinitionIdFromJson (member value (ascii "id"))
  resourcePattern := stringFromJson (member value (ascii "resource_pattern"))
  ttl := durationFromJson (member value (ascii "ttl"))
  renewEvery := durationFromJson (member value (ascii "renew_every"))
  maxTtl := optionalDurationFromJson (member value (ascii "max_ttl"))
  fencingToken := boolFromJson (member value (ascii "fencing_token"))

def leaseRecordToJson (record : LeaseRecord) : Json δ :=
  object [
    (ascii "definition_id", leaseDefinitionIdToJson record.definitionId),
    (ascii "resource", .string record.resource),
    (ascii "holder", optionalString record.holder),
    (ascii "expires_at", timeToJson record.expiresAt),
    (ascii "fencing_token", u64ToJson record.fencingToken)]

def leaseRecordFromJson (value : Json δ) : LeaseRecord where
  definitionId := leaseDefinitionIdFromJson (member value (ascii "definition_id"))
  resource := stringFromJson (member value (ascii "resource"))
  holder := optionalStringFromJson (member value (ascii "holder"))
  expiresAt := timeFromJson (member value (ascii "expires_at"))
  fencingToken := u64FromJson (member value (ascii "fencing_token"))

/-- A lease after it has been stored. -/
def storedLease (record : LeaseRecord) : LeaseRecord where
  definitionId := { record.definitionId with version := storedU64 record.definitionId.version }
  resource := record.resource
  holder := record.holder
  expiresAt := storedTime record.expiresAt
  fencingToken := storedU64 record.fencingToken

/-- **What is read back of a lease.** -/
theorem leaseRecordFromJson_toJson (record : LeaseRecord) :
    leaseRecordFromJson (leaseRecordToJson record : Json δ) = storedLease record := by
  have hholder : member (leaseRecordToJson record : Json δ) (ascii "holder") =
    optionalString record.holder := rfl
  rw [leaseRecordFromJson, hholder, optionalStringFromJson_optionalString]
  rfl

/-! ## Keys -/

def leaseDefinitionKey (id : LeaseDefinitionId) : Key :=
  definitionKey [id.name, Bytes.decimal id.version.toNat]

def leaseKey (id : LeaseDefinitionId) (resource : Bytes) : Key :=
  definitionKey [id.name, Bytes.decimal id.version.toNat, resource]

/-- The keys are those of the C++ store. -/
theorem leaseDefinitionKey_eq (id : LeaseDefinitionId) :
    leaseDefinitionKey id = Runtime.leaseDefinitionKey id := by
  simp [leaseDefinitionKey, definitionKey, Runtime.leaseDefinitionKey, List.intercalate,
    List.intersperse]

theorem leaseKey_eq (id : LeaseDefinitionId) (resource : Bytes) :
    leaseKey id resource = Runtime.leaseKey id resource := by
  simp [leaseKey, definitionKey, Runtime.leaseKey, Runtime.leaseDefinitionKey, List.intercalate,
    List.intersperse]

/-! ## `leases.rs` -/

def inspectLeaseDefinitionTx (id : LeaseDefinitionId) : TxProgram δ (Option LeaseDefinition) := do
  match ← .read .leaseDefinitions (leaseDefinitionKey id) with
  | none => pure none
  | some document => pure (some (leaseDefinitionFromJson document))

def registerLeaseDefinitionTx (definition : LeaseDefinition) :
    TxProgram δ LeaseRegisterDefinitionResult := do
  let existing ← inspectLeaseDefinitionTx definition.id
  .write .leaseDefinitions (leaseDefinitionKey definition.id) (leaseDefinitionToJson definition)
  pure { registeredNew := existing.isNone, definition }

def inspectLeaseTx (request : LeaseInspectRequest) : TxProgram δ (Option LeaseRecord) := do
  match ← .read .leases (leaseKey request.definitionId request.resource) with
  | none => pure none
  | some document => pure (some (leaseRecordFromJson document))

/-- `inspect_definition_tx(..)?.ok_or_else(..)`. -/
def requireDefinition (id : LeaseDefinitionId) : TxProgram δ LeaseDefinition := do
  match ← inspectLeaseDefinitionTx id with
  | some definition => pure definition
  | none => .throw (.notFound (ascii "unknown lease definition"))

def requireLease (id : LeaseDefinitionId) (resource : Bytes) : TxProgram δ LeaseRecord := do
  match ← inspectLeaseTx { definitionId := id, resource } with
  | some record => pure record
  | none => .throw (.notFound (ascii "unknown lease"))

def requireHolder (record : LeaseRecord) (holder : Bytes) (fencingToken : UInt64) :
    TxProgram δ Unit :=
  if record.holder ≠ some holder ∨ record.fencingToken ≠ fencingToken then
    .throw (.conflict .leaseConflict (ascii "lease is not held by caller"))
  else pure ()

/-- The token of the next lease. -/
def nextToken (definition : LeaseDefinition) (existing : Option LeaseRecord) : UInt64 :=
  let token := match existing with
    | some lease => lease.fencingToken
    | none => 0
  if definition.fencingToken then token + 1 else token

/-- The lease a request is granted. -/
def granted (request : LeaseAcquireRequest) (definition : LeaseDefinition)
    (existing : Option LeaseRecord) : LeaseRecord where
  definitionId := request.definitionId
  resource := request.resource
  holder := some request.holder
  expiresAt := plus request.now definition.ttl
  fencingToken := nextToken definition existing

/-- The second half of `acquire_tx`: the lease is granted. -/
def grantTx (request : LeaseAcquireRequest) (definition : LeaseDefinition)
    (existing : Option LeaseRecord) : TxProgram δ LeaseAcquireResult := do
  let record := granted request definition existing
  .write .leases (leaseKey request.definitionId request.resource) (leaseRecordToJson record)
  pure { acquired := true, lease := some record }

/-- Somebody other than the caller has a lease that has not expired. -/
def HeldByOther (lease : LeaseRecord) (holder : Bytes) (now : Runtime.Timestamp) : Prop :=
  lease.holder ≠ some holder ∧ lease.expiresAt > now

instance (lease : LeaseRecord) (holder : Bytes) (now : Runtime.Timestamp) :
    Decidable (HeldByOther lease holder now) :=
  inferInstanceAs (Decidable (_ ∧ _))

def acquireTx (request : LeaseAcquireRequest) : TxProgram δ LeaseAcquireResult := do
  let definition ← requireDefinition request.definitionId
  match ← inspectLeaseTx { definitionId := request.definitionId, resource := request.resource } with
  | some existing =>
    if HeldByOther existing request.holder request.now then
      pure { acquired := false, lease := some existing }
    else grantTx request definition (some existing)
  | none => grantTx request definition none

/-- The lease after a renewal. -/
def renewed (request : LeaseRenewRequest) (definition : LeaseDefinition) (record : LeaseRecord) :
    LeaseRecord :=
  { record with expiresAt := plus request.now definition.ttl }

def renewTx (request : LeaseRenewRequest) : TxProgram δ LeaseRecord := do
  let definition ← requireDefinition request.definitionId
  let record ← requireLease request.definitionId request.resource
  requireHolder record request.holder request.fencingToken
  let record := renewed request definition record
  .write .leases (leaseKey request.definitionId request.resource) (leaseRecordToJson record)
  pure record

def releaseTx (request : LeaseReleaseRequest) : TxProgram δ Unit := do
  let record ← requireLease request.definitionId request.resource
  requireHolder record request.holder request.fencingToken
  .remove .leases (leaseKey request.definitionId request.resource)

end StateSpec.Rust
