/-
  THE LEASE STORE — `bindings/cpp/runtime/lease_store.hpp`, `RuntimeLeaseStore`, with its records
  (`lease.hpp`) and their documents (`codec_leases.hpp`).

  A lease is granted under a definition, for a resource, to a holder, until `now + ttl`.  What the
  holder is handed is the record the store has computed; what is stored, and compared with the times
  of later requests, is that record after the codec, with whole milliseconds
  (`LeaseRecord.fromJson_toJson`).  A release erases the record.
-/
import StateSpec.Runtime.Codec
import StateSpec.Runtime.Session

namespace StateSpec.Runtime

variable {δ : Type}

/-! ## `lease.hpp` -/

structure LeaseDefinitionId where
  name : Bytes
  version : UInt64 := 1
deriving DecidableEq

structure LeaseDefinition where
  id : LeaseDefinitionId
  resourcePattern : Bytes
  ttl : Seconds
  renewEvery : Seconds
  maxTtl : Option Seconds := none
  fencingToken : Bool := true

structure LeaseRecord where
  definitionId : LeaseDefinitionId
  resource : Bytes
  holder : Option Bytes := none
  expiresAt : Timestamp
  fencingToken : UInt64 := 0

structure LeaseAcquireRequest where
  definitionId : LeaseDefinitionId
  resource : Bytes
  holder : Bytes
  now : Timestamp

structure LeaseRenewRequest where
  definitionId : LeaseDefinitionId
  resource : Bytes
  holder : Bytes
  fencingToken : UInt64 := 0
  now : Timestamp

structure LeaseReleaseRequest where
  definitionId : LeaseDefinitionId
  resource : Bytes
  holder : Bytes
  fencingToken : UInt64 := 0

structure LeaseInspectRequest where
  definitionId : LeaseDefinitionId
  resource : Bytes

structure LeaseAcquireResult where
  acquired : Bool := false
  lease : Option LeaseRecord

structure LeaseRegisterDefinitionResult where
  registeredNew : Bool := false
  definition : LeaseDefinition

/-! ## `codec_leases.hpp` -/

/-- `static_cast<std::int64_t>` of an unsigned number, as a document has it. -/
def unsignedJson (n : UInt64) : Json δ := .int64 n.toInt64.toInt

/-- `static_cast<std::uint64_t>` of what `as_int64` answers. -/
def unsignedFrom (json : Json δ) : Except Error UInt64 :=
  json.asInt64.map fun n => (Int64.ofInt n).toUInt64

@[simp] theorem unsignedFrom_unsignedJson (n : UInt64) :
    unsignedFrom (unsignedJson n : Json δ) = .ok n := by
  simp [unsignedFrom, unsignedJson, Json.asInt64, Except.map]

/-- `lease_definition_id_to_json`. -/
def LeaseDefinitionId.toJson (id : LeaseDefinitionId) : Json δ :=
  .ofMembers [(ascii "name", .string id.name), (ascii "version", unsignedJson id.version)]

/-- `lease_definition_id_from_json`. -/
def LeaseDefinitionId.fromJson (json : Json δ) : Except Error LeaseDefinitionId := do
  let name ← (← json.atMember (ascii "name")).asString
  let version ← unsignedFrom (← json.atMember (ascii "version"))
  pure { name, version }

/-- `lease_definition_to_json`, the members. -/
def LeaseDefinition.members (definition : LeaseDefinition) : List (Bytes × Json δ) :=
  [(ascii "id", definition.id.toJson),
    (ascii "resource_pattern", .string definition.resourcePattern),
    (ascii "ttl_seconds", .int64 definition.ttl),
    (ascii "renew_every_seconds", .int64 definition.renewEvery),
    (ascii "fencing_token", .bool definition.fencingToken)] ++
  match definition.maxTtl with
  | some maxTtl => [(ascii "max_ttl_seconds", .int64 maxTtl)]
  | none => []

/-- `lease_definition_to_json`. -/
def LeaseDefinition.toJson (definition : LeaseDefinition) : Json δ := .ofMembers definition.members

/-- `lease_definition_from_json`. -/
def LeaseDefinition.fromJson (json : Json δ) : Except Error LeaseDefinition := do
  let id ← LeaseDefinitionId.fromJson (← json.atMember (ascii "id"))
  let resourcePattern ← (← json.atMember (ascii "resource_pattern")).asString
  let ttl ← (← json.atMember (ascii "ttl_seconds")).asInt64
  let renewEvery ← (← json.atMember (ascii "renew_every_seconds")).asInt64
  let maxTtl ← match json.find (ascii "max_ttl_seconds") with
    | some value => value.asInt64.map some
    | none => .ok none
  let fencingToken ← (← json.atMember (ascii "fencing_token")).asBool
  pure { id, resourcePattern, ttl, renewEvery, maxTtl, fencingToken }

/-- `lease_record_to_json`, the members. -/
def LeaseRecord.members (lease : LeaseRecord) : List (Bytes × Json δ) :=
  [(ascii "definition_id", lease.definitionId.toJson),
    (ascii "resource", .string lease.resource),
    (ascii "expires_at_ms", .int64 (timestampMillis lease.expiresAt)),
    (ascii "fencing_token", unsignedJson lease.fencingToken)] ++
  optionalString (ascii "holder") lease.holder

/-- `lease_record_to_json`. -/
def LeaseRecord.toJson (lease : LeaseRecord) : Json δ := .ofMembers lease.members

/-- `lease_record_from_json`. -/
def LeaseRecord.fromJson (json : Json δ) : Except Error LeaseRecord := do
  let definitionId ← LeaseDefinitionId.fromJson (← json.atMember (ascii "definition_id"))
  let resource ← (← json.atMember (ascii "resource")).asString
  let holder ← optionalStringFrom json (ascii "holder")
  let expiresAt ← timestampFrom (← json.atMember (ascii "expires_at_ms"))
  let fencingToken ← unsignedFrom (← json.atMember (ascii "fencing_token"))
  pure { definitionId, resource, holder, expiresAt, fencingToken }

/-! ## What is read back -/

/-- A lease after it has been stored: its expiry has whole milliseconds. -/
def LeaseRecord.stored (lease : LeaseRecord) : LeaseRecord :=
  { lease with expiresAt := Timestamp.stored lease.expiresAt }

theorem LeaseDefinitionId.fromJson_toJson (id : LeaseDefinitionId) :
    fromJson (id.toJson : Json δ) = .ok id := by
  have hname : (id.toJson : Json δ).atMember (ascii "name") = .ok (.string id.name) := rfl
  have hversion : (id.toJson : Json δ).atMember (ascii "version") =
    .ok (unsignedJson id.version) := rfl
  rw [fromJson, hname, hversion]
  simp only [Json.asString, bind, Except.bind, pure, Except.pure, unsignedFrom_unsignedJson]

/-- **What is read back of a definition** is the definition. -/
theorem LeaseDefinition.fromJson_toJson (definition : LeaseDefinition) :
    fromJson (definition.toJson : Json δ) = .ok definition := by
  obtain ⟨id, resourcePattern, ttl, renewEvery, maxTtl, fencingToken⟩ := definition
  generalize hjson : toJson _ = json
  have hid : json.atMember (ascii "id") = .ok (id.toJson : Json δ) := by
    subst hjson
    cases maxTtl <;> rfl
  have hpattern : json.atMember (ascii "resource_pattern") = .ok (.string resourcePattern) := by
    subst hjson
    cases maxTtl <;> rfl
  have httl : json.atMember (ascii "ttl_seconds") = .ok (.int64 ttl) := by
    subst hjson
    cases maxTtl <;> rfl
  have hrenew : json.atMember (ascii "renew_every_seconds") = .ok (.int64 renewEvery) := by
    subst hjson
    cases maxTtl <;> rfl
  have hmax : json.find (ascii "max_ttl_seconds") = maxTtl.map .int64 := by
    subst hjson
    cases maxTtl <;> rfl
  have hfencing : json.atMember (ascii "fencing_token") = .ok (.bool fencingToken) := by
    subst hjson
    cases maxTtl <;> rfl
  rw [fromJson, hid, hpattern, httl, hrenew, hmax, hfencing]
  simp only [Json.asString, Json.asInt64, Json.asBool, bind, Except.bind, pure, Except.pure,
    LeaseDefinitionId.fromJson_toJson]
  cases maxTtl <;> rfl

/-- **What is read back of a lease.** -/
theorem LeaseRecord.fromJson_toJson (lease : LeaseRecord) :
    fromJson (lease.toJson : Json δ) = .ok lease.stored := by
  obtain ⟨definitionId, resource, holder, expiresAt, fencingToken⟩ := lease
  generalize hjson : toJson _ = json
  have hid : json.atMember (ascii "definition_id") = .ok (definitionId.toJson : Json δ) := by
    subst hjson
    cases holder <;> rfl
  have hresource : json.atMember (ascii "resource") = .ok (.string resource) := by
    subst hjson
    cases holder <;> rfl
  have hholder : optionalStringFrom json (ascii "holder") = .ok holder := by
    subst hjson
    cases holder <;> rfl
  have hexpires : json.atMember (ascii "expires_at_ms") =
      .ok (.int64 (timestampMillis expiresAt)) := by
    subst hjson
    cases holder <;> rfl
  have htoken : json.atMember (ascii "fencing_token") = .ok (unsignedJson fencingToken) := by
    subst hjson
    cases holder <;> rfl
  rw [fromJson, hid, hresource, hholder, hexpires, htoken]
  simp only [Json.asString, Json.asInt64, timestampFrom, bind, Except.bind, pure, Except.pure,
    LeaseDefinitionId.fromJson_toJson, unsignedFrom_unsignedJson]
  rfl

/-! ## Requests and responses -/

/-- A call on the store. -/
inductive LeaseRequest where
  | registerDefinition (definition : LeaseDefinition)
  | inspectDefinition (definitionId : LeaseDefinitionId)
  | acquire (request : LeaseAcquireRequest)
  | renew (request : LeaseRenewRequest)
  | release (request : LeaseReleaseRequest)
  | inspect (request : LeaseInspectRequest)

/-- What a call on the store returns. -/
inductive LeaseResponse where
  | registered (result : LeaseRegisterDefinitionResult)
  | definition (definition : Option LeaseDefinition)
  | acquired (result : LeaseAcquireResult)
  | renewed (lease : LeaseRecord)
  | released
  | inspected (lease : Option LeaseRecord)

/-! ## Keys -/

def leaseDefinitionKey (id : LeaseDefinitionId) : Key :=
  id.name ++ colon :: Bytes.decimal id.version.toNat

def leaseKey (id : LeaseDefinitionId) (resource : Bytes) : Key :=
  leaseDefinitionKey id ++ colon :: resource

/-! ## Definitions -/

def inspectLeaseDefinitionTx (id : LeaseDefinitionId) : TxProgram δ (Option LeaseDefinition) := do
  match ← .read .leaseDefinitions (leaseDefinitionKey id) with
  | none => pure none
  | some document => .ofExcept ((LeaseDefinition.fromJson document).map some)

def registerLeaseDefinitionTx (definition : LeaseDefinition) :
    TxProgram δ LeaseRegisterDefinitionResult := do
  let existing ← inspectLeaseDefinitionTx definition.id
  .write .leaseDefinitions (leaseDefinitionKey definition.id) definition.toJson
  pure { registeredNew := existing.isNone, definition }

def unknownLeaseDefinitionMessage (id : LeaseDefinitionId) : Bytes :=
  ascii "unknown lease definition: " ++ id.name

def requireDefinition (id : LeaseDefinitionId) : TxProgram δ LeaseDefinition := do
  match ← inspectLeaseDefinitionTx id with
  | some definition => pure definition
  | none => .throw (.backendError (unknownLeaseDefinitionMessage id))

/-! ## Leases -/

def inspectLeaseTx (request : LeaseInspectRequest) : TxProgram δ (Option LeaseRecord) := do
  match ← .read .leases (leaseKey request.definitionId request.resource) with
  | none => pure none
  | some document => .ofExcept ((LeaseRecord.fromJson document).map some)

def unknownLeaseMessage (resource : Bytes) : Bytes := ascii "unknown lease: " ++ resource

def requireLease (id : LeaseDefinitionId) (resource : Bytes) : TxProgram δ LeaseRecord := do
  match ← inspectLeaseTx { definitionId := id, resource } with
  | some lease => pure lease
  | none => .throw (.backendError (unknownLeaseMessage resource))

/-- The lease is held by the caller; the token 0 of a request stands for any token. -/
def HeldBy (lease : LeaseRecord) (holder : Bytes) (fencingToken : UInt64) : Prop :=
  lease.holder = some holder ∧ (fencingToken = 0 ∨ lease.fencingToken = fencingToken)

instance (lease : LeaseRecord) (holder : Bytes) (fencingToken : UInt64) :
    Decidable (HeldBy lease holder fencingToken) :=
  inferInstanceAs (Decidable (_ ∧ (_ ∨ _)))

def leaseConflictMessage : Bytes := ascii "lease is not held by caller"

def requireHolder (lease : LeaseRecord) (holder : Bytes) (fencingToken : UInt64) :
    TxProgram δ Unit :=
  if HeldBy lease holder fencingToken then pure ()
  else .throw (.conflictError .leaseConflict leaseConflictMessage)

/-- Somebody holds the lease, and it has not expired. -/
def Unexpired (lease : LeaseRecord) (now : Timestamp) : Prop :=
  lease.holder ≠ none ∧ lease.expiresAt > now

instance (lease : LeaseRecord) (now : Timestamp) : Decidable (Unexpired lease now) :=
  inferInstanceAs (Decidable (_ ∧ _))

/-- The token of the next lease. -/
def nextToken (existing : Option LeaseRecord) : UInt64 :=
  match existing with
  | some lease => lease.fencingToken + 1
  | none => 1

/-- The lease a request is granted. -/
def granted (request : LeaseAcquireRequest) (definition : LeaseDefinition)
    (existing : Option LeaseRecord) : LeaseRecord where
  definitionId := request.definitionId
  resource := request.resource
  holder := some request.holder
  expiresAt := request.now.plus definition.ttl
  fencingToken := nextToken existing

/-- The second half of `acquireTx`: the lease is granted. -/
def grantTx (request : LeaseAcquireRequest) (definition : LeaseDefinition)
    (existing : Option LeaseRecord) : TxProgram δ LeaseAcquireResult := do
  let lease := granted request definition existing
  .write .leases (leaseKey request.definitionId request.resource) lease.toJson
  pure { acquired := true, lease := some lease }

def acquireTx (request : LeaseAcquireRequest) : TxProgram δ LeaseAcquireResult := do
  let definition ← requireDefinition request.definitionId
  match ← inspectLeaseTx { definitionId := request.definitionId, resource := request.resource } with
  | some existing =>
    if Unexpired existing request.now then pure { acquired := false, lease := some existing }
    else grantTx request definition (some existing)
  | none => grantTx request definition none

/-- The lease after a renewal. -/
def renewed (request : LeaseRenewRequest) (definition : LeaseDefinition) (lease : LeaseRecord) :
    LeaseRecord :=
  { lease with expiresAt := request.now.plus definition.ttl }

def renewTx (request : LeaseRenewRequest) : TxProgram δ LeaseRecord := do
  let definition ← requireDefinition request.definitionId
  let lease ← requireLease request.definitionId request.resource
  requireHolder lease request.holder request.fencingToken
  let lease := renewed request definition lease
  .write .leases (leaseKey request.definitionId request.resource) lease.toJson
  pure lease

def releaseTx (request : LeaseReleaseRequest) : TxProgram δ Unit := do
  let lease ← requireLease request.definitionId request.resource
  requireHolder lease request.holder request.fencingToken
  .remove .leases (leaseKey request.definitionId request.resource)

/-! ## The store -/

/-- The transaction of a call. -/
def leaseProgram : LeaseRequest → TxProgram δ LeaseResponse
  | .registerDefinition definition => .registered <$> registerLeaseDefinitionTx definition
  | .inspectDefinition id => .definition <$> inspectLeaseDefinitionTx id
  | .acquire request => .acquired <$> acquireTx request
  | .renew request => .renewed <$> renewTx request
  | .release request => (fun _ => .released) <$> releaseTx request
  | .inspect request => .inspected <$> inspectLeaseTx request

/-- The collections of `ensure_collections`. -/
def leaseCollections : List CollectionDescriptor :=
  [{ name := RuntimeCollection.leaseDefinitions.name, keyFields := [ascii "lease_definition"] },
   { name := RuntimeCollection.leases.name, keyFields := [ascii "lease"] }]

variable [Decimal δ]

/-- `ensure_collections`. -/
def ensureLeaseCollections (_ : Unit) (s : Cpp.State δ) : Cpp.State δ :=
  Cpp.register leaseCollections s

/-- The lease store on the C++ in-memory backend. -/
abbrev leaseStore : Interleaving.Store LeaseRequest (Cpp.State δ) (Session δ LeaseResponse) Unit Unit
    Unit (Option Error) Unit :=
  sessions leaseProgram ensureLeaseCollections

end StateSpec.Runtime
