/-
  THE QUEUE STORE — `bindings/cpp/runtime/queue_store.hpp`, `RuntimeQueueStore`, with its records
  (`queue.hpp`) and their documents (`codec_queues.hpp`).

  A message is enqueued under its id, claimed by a claimant until `now + visibility_timeout`, and
  then acknowledged or failed by whoever the stored record names as its claimant.  An idempotency
  key is remembered with the id of the message it was first used for.

  What a call returns is the record the store has computed; what is stored is that record after the
  codec, with whole milliseconds (`QueueMessageRecord.fromJson_toJson`).
-/
import StateSpec.Runtime.Codec
import StateSpec.Runtime.Session

namespace StateSpec.Runtime

variable {δ : Type}

/-! ## `queue.hpp` -/

structure QueueDefinition (δ : Type) where
  queue : Bytes
  channel : Bytes
  visibilityTimeout : Seconds
  maxAttempts : UInt32 := 1
  deadLetterQueue : Option Bytes := none
  metadata : Json δ

structure QueueDefinitionRegistration (δ : Type) where
  definition : QueueDefinition δ
  created : Bool := false

structure QueueMessageRecord (δ : Type) where
  messageId : Bytes
  queue : Bytes
  channel : Bytes
  status : Bytes
  attempts : UInt64 := 0
  claimedBy : Option Bytes := none
  claimExpiresAt : Option Timestamp := none
  payload : Json δ

structure EnqueueMessageRequest (δ : Type) where
  messageId : Bytes
  queue : Bytes
  channel : Bytes
  idempotencyKey : Option Bytes := none
  payload : Json δ

structure ClaimMessageRequest where
  queue : Bytes
  channel : Bytes
  claimant : Bytes
  now : Timestamp
  visibilityTimeout : Seconds
  maxMessages : UInt32 := 1

structure AckMessageRequest where
  messageId : Bytes
  claimant : Bytes

structure FailMessageRequest where
  messageId : Bytes
  claimant : Bytes
  reason : Bytes
  now : Timestamp
  maxAttempts : UInt32 := 1

/-! ## `codec_queues.hpp` -/

/-- `queue_definition_to_json`. -/
def QueueDefinition.toJson (definition : QueueDefinition δ) : Json δ :=
  .ofMembers ([
    (ascii "queue", .string definition.queue),
    (ascii "channel", .string definition.channel),
    (ascii "visibility_timeout_seconds", .int64 definition.visibilityTimeout),
    (ascii "max_attempts", .int64 definition.maxAttempts.toNat),
    (ascii "metadata", definition.metadata)] ++
    optionalString (ascii "dead_letter_queue") definition.deadLetterQueue)

/-- `queue_definition_from_json`. -/
def QueueDefinition.fromJson (json : Json δ) : Except Error (QueueDefinition δ) := do
  let queue ← (← json.atMember (ascii "queue")).asString
  let channel ← (← json.atMember (ascii "channel")).asString
  let visibilityTimeout ← (← json.atMember (ascii "visibility_timeout_seconds")).asInt64
  let maxAttempts ← (← json.atMember (ascii "max_attempts")).asInt64
  let deadLetterQueue ← optionalStringFrom json (ascii "dead_letter_queue")
  let metadata := (json.find (ascii "metadata")).getD (.object [])
  pure { queue, channel, visibilityTimeout, maxAttempts := .ofInt maxAttempts, deadLetterQueue,
         metadata }

/-- `queue_message_to_json`, the members. -/
def QueueMessageRecord.members (message : QueueMessageRecord δ) : List (Bytes × Json δ) :=
  [(ascii "message_id", .string message.messageId),
    (ascii "queue", .string message.queue),
    (ascii "channel", .string message.channel),
    (ascii "status", .string message.status),
    (ascii "attempts", .int64 message.attempts.toInt64.toInt),
    (ascii "payload", message.payload)] ++
  optionalString (ascii "claimed_by") message.claimedBy ++
  optionalTimestamp (ascii "claim_expires_at_ms") message.claimExpiresAt

/-- `queue_message_to_json`. -/
def QueueMessageRecord.toJson (message : QueueMessageRecord δ) : Json δ :=
  .ofMembers message.members

/-- `queue_message_from_json`. -/
def QueueMessageRecord.fromJson (json : Json δ) : Except Error (QueueMessageRecord δ) := do
  let messageId ← (← json.atMember (ascii "message_id")).asString
  let queue ← (← json.atMember (ascii "queue")).asString
  let channel ← (← json.atMember (ascii "channel")).asString
  let status ← (← json.atMember (ascii "status")).asString
  let attempts ← (← json.atMember (ascii "attempts")).asInt64
  let claimedBy ← optionalStringFrom json (ascii "claimed_by")
  let claimExpiresAt ← optionalTimestampFrom json (ascii "claim_expires_at_ms")
  let payload := (json.find (ascii "payload")).getD (.object [])
  pure { messageId, queue, channel, status, attempts := (Int64.ofInt attempts).toUInt64, claimedBy,
         claimExpiresAt, payload }

/-! ## What is read back -/

/-- A message after it has been stored: the expiry of its claim has whole milliseconds. -/
def QueueMessageRecord.stored (message : QueueMessageRecord δ) : QueueMessageRecord δ :=
  { message with claimExpiresAt := message.claimExpiresAt.map Timestamp.stored }

/-- **What is read back of a message.** -/
theorem QueueMessageRecord.fromJson_toJson (message : QueueMessageRecord δ) :
    fromJson message.toJson = .ok message.stored := by
  have hat {key : Bytes} {value : Json δ} (h : message.members.lookup key = some value) :
      message.toJson.atMember key = .ok value :=
    Json.atMember_ofMembers h
  have hlookup : message.members.lookup (ascii "claimed_by") = message.claimedBy.map .string ∧
      message.members.lookup (ascii "claim_expires_at_ms") =
        message.claimExpiresAt.map fun expiry => .int64 (timestampMillis expiry) := by
    obtain ⟨_, _, _, _, _, claimedBy, claimExpiresAt, _⟩ := message
    cases claimedBy <;> cases claimExpiresAt <;> exact ⟨rfl, rfl⟩
  have hclaimedBy := optionalStringFrom_ofMembers hlookup.1
  have hexpiresAt := optionalTimestampFrom_ofMembers hlookup.2
  rw [← toJson] at hclaimedBy hexpiresAt
  have hid := @hat (ascii "message_id") _ rfl
  have hqueue := @hat (ascii "queue") _ rfl
  have hchannel := @hat (ascii "channel") _ rfl
  have hstatus := @hat (ascii "status") _ rfl
  have hattempts := @hat (ascii "attempts") _ rfl
  have hpayload : message.toJson.find (ascii "payload") = some message.payload :=
    (Json.find_ofMembers message.members _).trans rfl
  rw [fromJson, hid, hqueue, hchannel, hstatus, hattempts, hclaimedBy, hexpiresAt, hpayload]
  -- the counter goes through a signed number and comes back
  simp [Json.asString, Json.asInt64, bind, Except.bind, pure, Except.pure, stored]

/-! ## Requests and responses -/

/-- A call on the store. -/
inductive QueueRequest (δ : Type) where
  | registerDefinition (definition : QueueDefinition δ)
  | inspectDefinition (queue channel : Bytes)
  | enqueue (request : EnqueueMessageRequest δ)
  | claim (request : ClaimMessageRequest)
  | acknowledge (request : AckMessageRequest)
  | fail (request : FailMessageRequest)
  | inspect (messageId : Bytes)

/-- What a call on the store returns. -/
inductive QueueResponse (δ : Type) where
  | registration (registration : QueueDefinitionRegistration δ)
  | definition (definition : Option (QueueDefinition δ))
  | message (message : QueueMessageRecord δ)
  | claimed (messages : List (QueueMessageRecord δ))
  | acknowledged
  | inspected (message : Option (QueueMessageRecord δ))

namespace Queue

/-! ## Statuses -/

def pending : Bytes := ascii "Pending"
def claimed : Bytes := ascii "Claimed"
def acked : Bytes := ascii "Acked"
def deadLettered : Bytes := ascii "DeadLettered"

/-! ## Keys -/

def definitionKey (queue channel : Bytes) : Key := queue ++ colon :: channel

/-- The character '|', ASCII 124. -/
def bar : UInt8 := 124

def idempotencyKey (queue channel key : Bytes) : Key := definitionKey queue channel ++ bar :: key

/-! ## Definitions -/

def inspectDefinitionTx (queue channel : Bytes) : TxProgram δ (Option (QueueDefinition δ)) := do
  match ← .read .queueDefinitions (definitionKey queue channel) with
  | none => pure none
  | some document => .ofExcept ((QueueDefinition.fromJson document).map some)

def registerDefinitionTx (definition : QueueDefinition δ) :
    TxProgram δ (QueueDefinitionRegistration δ) := do
  let existing ← inspectDefinitionTx definition.queue definition.channel
  .write .queueDefinitions (definitionKey definition.queue definition.channel) definition.toJson
  pure { definition, created := existing.isNone }

/-! ## Messages -/

def inspectTx (messageId : Bytes) : TxProgram δ (Option (QueueMessageRecord δ)) := do
  match ← .read .queueMessages messageId with
  | none => pure none
  | some document => .ofExcept ((QueueMessageRecord.fromJson document).map some)

def allMessages : TxProgram δ (List (QueueMessageRecord δ)) := do
  let records ← .scan .queueMessages
  .ofExcept (records.mapM fun record => QueueMessageRecord.fromJson record.2)

def unknownMessageMessage (messageId : Bytes) : Bytes :=
  ascii "unknown queue message: " ++ messageId

def requireMessage (messageId : Bytes) : TxProgram δ (QueueMessageRecord δ) := do
  match ← inspectTx messageId with
  | some message => pure message
  | none => .throw (.backendError (unknownMessageMessage messageId))

def claimConflictMessage : Bytes := ascii "queue message is not claimed by caller"

def requireClaimant (message : QueueMessageRecord δ) (claimant : Bytes) : TxProgram δ Unit :=
  if message.claimedBy = some claimant then pure ()
  else .throw (.conflictError .queueClaimConflict claimConflictMessage)

/-! ## `enqueue` -/

/-- The message a request enqueues. -/
def enqueued (request : EnqueueMessageRequest δ) : QueueMessageRecord δ where
  messageId := request.messageId
  queue := request.queue
  channel := request.channel
  status := pending
  payload := request.payload

/-- The second half of `enqueueTx`: the message is put, whatever is stored under its id. -/
def putEnqueued (request : EnqueueMessageRequest δ) : TxProgram δ (QueueMessageRecord δ) := do
  let record := enqueued request
  .write .queueMessages record.messageId record.toJson
  pure record

/-- The message an idempotency key was first used for.  The source dereferences what it finds; where
    it finds nothing that is undefined, and the program ends here with an error.  It always finds a
    message (`WellFormed.remembered`). -/
def requireRemembered (document : Json δ) : TxProgram δ (QueueMessageRecord δ) := do
  let messageId ← .ofExcept (do (← document.atMember (ascii "message_id")).asString)
  match ← inspectTx messageId with
  | some message => pure message
  | none => .throw .badVariantAccess

def enqueueTx (request : EnqueueMessageRequest δ) : TxProgram δ (QueueMessageRecord δ) :=
  match request.idempotencyKey with
  | some key => do
    match ← .read .queueIdempotency (idempotencyKey request.queue request.channel key) with
    | some existing => requireRemembered existing
    | none =>
      .write .queueIdempotency (idempotencyKey request.queue request.channel key)
        (.ofMembers [(ascii "message_id", .string request.messageId)])
      putEnqueued request
  | none => putEnqueued request

/-! ## `claim` -/

/-- The message is one the request asks for. -/
def Requested (request : ClaimMessageRequest) (message : QueueMessageRecord δ) : Prop :=
  message.queue = request.queue ∧ message.channel = request.channel ∧ message.status ≠ acked ∧
    message.status ≠ deadLettered

instance (request : ClaimMessageRequest) (message : QueueMessageRecord δ) :
    Decidable (Requested request message) :=
  inferInstanceAs (Decidable (_ ∧ _ ∧ _ ∧ _))

/-- The claim of the message has expired. -/
def Expired (message : QueueMessageRecord δ) (now : Timestamp) : Prop :=
  ∃ expiry ∈ message.claimExpiresAt, expiry ≤ now

instance (message : QueueMessageRecord δ) (now : Timestamp) : Decidable (Expired message now) :=
  inferInstanceAs (Decidable (∃ _, _))

def Visible (message : QueueMessageRecord δ) (now : Timestamp) : Prop :=
  message.status = pending ∨ Expired message now

instance (message : QueueMessageRecord δ) (now : Timestamp) : Decidable (Visible message now) :=
  inferInstanceAs (Decidable (_ ∨ _))

/-- The message, claimed. -/
def claim (request : ClaimMessageRequest) (message : QueueMessageRecord δ) : QueueMessageRecord δ :=
  { message with
    status := claimed
    claimedBy := some request.claimant
    claimExpiresAt := some (request.now.plus request.visibilityTimeout)
    attempts := message.attempts + 1 }

/-- The loop of `claimTx`: the messages still to look at, and those claimed so far. -/
def claimLoop (request : ClaimMessageRequest) :
    List (QueueMessageRecord δ) → List (QueueMessageRecord δ) →
      TxProgram δ (List (QueueMessageRecord δ))
  | [], claimed => pure claimed
  | message :: rest, claimed =>
    if claimed.length ≥ request.maxMessages.toNat then pure claimed
    else if ¬ Requested request message then claimLoop request rest claimed
    else if ¬ Visible message request.now then claimLoop request rest claimed
    else do
      let message := claim request message
      .write .queueMessages message.messageId message.toJson
      claimLoop request rest (claimed ++ [message])

def claimTx (request : ClaimMessageRequest) : TxProgram δ (List (QueueMessageRecord δ)) := do
  let messages ← allMessages
  claimLoop request messages []

/-! ## `acknowledge`, `fail` -/

/-- The message after it has been acknowledged; its claimant stays. -/
def acknowledge (message : QueueMessageRecord δ) : QueueMessageRecord δ :=
  { message with status := acked }

def acknowledgeTx (request : AckMessageRequest) : TxProgram δ Unit := do
  let message ← requireMessage request.messageId
  requireClaimant message request.claimant
  let message := acknowledge message
  .write .queueMessages message.messageId message.toJson

/-- The message after it has failed. -/
def fail (request : FailMessageRequest) (message : QueueMessageRecord δ) : QueueMessageRecord δ :=
  { message with
    claimedBy := none
    claimExpiresAt := none
    status := if message.attempts.toNat ≥ request.maxAttempts.toNat then deadLettered else pending }

def failTx (request : FailMessageRequest) : TxProgram δ (QueueMessageRecord δ) := do
  let message ← requireMessage request.messageId
  requireClaimant message request.claimant
  let message := fail request message
  .write .queueMessages message.messageId message.toJson
  pure message

end Queue

/-! ## The store -/

/-- The transaction of a call. -/
def queueProgram : QueueRequest δ → TxProgram δ (QueueResponse δ)
  | .registerDefinition definition => .registration <$> Queue.registerDefinitionTx definition
  | .inspectDefinition queue channel => .definition <$> Queue.inspectDefinitionTx queue channel
  | .enqueue request => .message <$> Queue.enqueueTx request
  | .claim request => .claimed <$> Queue.claimTx request
  | .acknowledge request => (fun _ => .acknowledged) <$> Queue.acknowledgeTx request
  | .fail request => .message <$> Queue.failTx request
  | .inspect messageId => .inspected <$> Queue.inspectTx messageId

/-- The collections of `ensure_collections`. -/
def queueCollections : List CollectionDescriptor :=
  [{ name := RuntimeCollection.queueDefinitions.name, keyFields := [ascii "queue"] },
   { name := RuntimeCollection.queueMessages.name, keyFields := [ascii "message_id"] },
   { name := RuntimeCollection.queueIdempotency.name, keyFields := [ascii "idempotency_key"] }]

variable [Decimal δ]

/-- `ensure_collections`. -/
def ensureQueueCollections (_ : Unit) (s : Cpp.State δ) : Cpp.State δ :=
  Cpp.register queueCollections s

/-- The queue store on the C++ in-memory backend. -/
abbrev queueStore : Interleaving.Store (QueueRequest δ) (Cpp.State δ) (Session δ (QueueResponse δ))
    Unit Unit Unit (Option Error) Unit :=
  sessions queueProgram ensureQueueCollections

end StateSpec.Runtime
