/-
  THE RUST QUEUE STORE — `bindings/rust/runtime/queues.rs`, `RuntimeQueueStore`, with its documents
  (`codec_queues.rs`).

  Its messages and requests are those of the C++ store, but for the duration of a claim, which is in
  nanoseconds.  Its documents are not: times are in nanoseconds, absent values are `null`, and the
  document under an idempotency key is the id of the message, not an object with it.  Next to the C++
  store it registers no collections.
-/
import StateSpec.Rust.Codec
import StateSpec.Runtime.QueueStore

namespace StateSpec.Rust.Queue

open StateSpec.Runtime (QueueMessageRecord EnqueueMessageRequest AckMessageRequest
  FailMessageRequest Timestamp)
open StateSpec.Runtime.Queue (pending claimed acked deadLettered bar)

variable {δ : Type}

/-! ## `queue.rs` -/

structure ClaimMessageRequest where
  queue : Bytes
  channel : Bytes
  claimant : Bytes
  now : Timestamp
  visibilityTimeout : Duration
  maxMessages : UInt32

/-! ## `codec_queues.rs` -/

def queueMessageToJson (message : QueueMessageRecord δ) : Json δ :=
  object [
    (ascii "message_id", .string message.messageId),
    (ascii "queue", .string message.queue),
    (ascii "channel", .string message.channel),
    (ascii "status", .string message.status),
    (ascii "attempts", u64ToJson message.attempts),
    (ascii "claimed_by", optionalString message.claimedBy),
    (ascii "claim_expires_at", optionalTime message.claimExpiresAt),
    (ascii "payload", message.payload)]

def queueMessageFromJson (value : Json δ) : QueueMessageRecord δ where
  messageId := stringFromJson (member value (ascii "message_id"))
  queue := stringFromJson (member value (ascii "queue"))
  channel := stringFromJson (member value (ascii "channel"))
  status := stringFromJson (member value (ascii "status"))
  attempts := u64FromJson (member value (ascii "attempts"))
  claimedBy := optionalStringFromJson (member value (ascii "claimed_by"))
  claimExpiresAt := optionalTimeFromJson (member value (ascii "claim_expires_at"))
  payload := member value (ascii "payload")

/-- A message after it has been stored. -/
def storedMessage (message : QueueMessageRecord δ) : QueueMessageRecord δ :=
  { message with
    attempts := storedU64 message.attempts
    claimExpiresAt := message.claimExpiresAt.map storedTime }

/-- **What is read back of a message.** -/
theorem queueMessageFromJson_toJson (message : QueueMessageRecord δ) :
    queueMessageFromJson (queueMessageToJson message) = storedMessage message := by
  have hclaimedBy : member (queueMessageToJson message) (ascii "claimed_by") =
    optionalString message.claimedBy := rfl
  have hexpires : member (queueMessageToJson message) (ascii "claim_expires_at") =
    optionalTime message.claimExpiresAt := rfl
  rw [queueMessageFromJson, hclaimedBy, hexpires, optionalStringFromJson_optionalString,
    optionalTimeFromJson_optionalTime]
  rfl

/-! ## Keys -/

def queueDefinitionKey (queue channel : Bytes) : Key := definitionKey [queue, channel]

def idempotencyKey (queue channel key : Bytes) : Key := queueDefinitionKey queue channel ++ bar :: key

/-- The keys are those of the C++ store. -/
theorem idempotencyKey_eq (queue channel key : Bytes) :
    idempotencyKey queue channel key = Runtime.Queue.idempotencyKey queue channel key := by
  simp [idempotencyKey, queueDefinitionKey, definitionKey, Runtime.Queue.idempotencyKey,
    Runtime.Queue.definitionKey, List.intercalate, List.intersperse]

/-! ## `queues.rs` -/

def inspectTx (messageId : Bytes) : TxProgram δ (Option (QueueMessageRecord δ)) := do
  match ← .read .queueMessages messageId with
  | none => pure none
  | some document => pure (some (queueMessageFromJson document))

/-- The source reads and decodes as `inspect_tx` does, without calling it. -/
def requireMessage (messageId : Bytes) : TxProgram δ (QueueMessageRecord δ) := do
  match ← inspectTx messageId with
  | some message => pure message
  | none => .throw (.notFound (ascii "unknown queue message " ++ messageId))

def allMessages : TxProgram δ (List (QueueMessageRecord δ)) := do
  let records ← .scan .queueMessages
  pure (records.map fun record => queueMessageFromJson record.2)

def requireClaimant (message : QueueMessageRecord δ) (claimant : Bytes) : TxProgram δ Unit :=
  if message.claimedBy ≠ some claimant then
    .throw (.conflict .queueClaimConflict (ascii "queue message is not claimed by caller"))
  else pure ()

/-- The message a request enqueues. -/
def enqueued (request : EnqueueMessageRequest δ) : QueueMessageRecord δ where
  messageId := request.messageId
  queue := request.queue
  channel := request.channel
  status := pending
  attempts := 0
  claimedBy := none
  claimExpiresAt := none
  payload := request.payload

/-- The second half of `enqueue_tx`: the message is put, whatever is stored under its id. -/
def putEnqueued (request : EnqueueMessageRequest δ) : TxProgram δ (QueueMessageRecord δ) := do
  let record := enqueued request
  .write .queueMessages record.messageId (queueMessageToJson record)
  pure record

def enqueueTx (request : EnqueueMessageRequest δ) : TxProgram δ (QueueMessageRecord δ) :=
  match request.idempotencyKey with
  | some key => do
    match ← .read .queueIdempotency (idempotencyKey request.queue request.channel key) with
    | some document => requireMessage (stringFromJson document)
    | none =>
      .write .queueIdempotency (idempotencyKey request.queue request.channel key)
        (.string request.messageId)
      putEnqueued request
  | none => putEnqueued request

/-- The message is none that the request asks for. -/
def Skipped (request : ClaimMessageRequest) (message : QueueMessageRecord δ) : Prop :=
  message.queue ≠ request.queue ∨ message.channel ≠ request.channel ∨ message.status = acked ∨
    message.status = deadLettered

instance (request : ClaimMessageRequest) (message : QueueMessageRecord δ) :
    Decidable (Skipped request message) :=
  inferInstanceAs (Decidable (_ ∨ _ ∨ _ ∨ _))

def Visible (message : QueueMessageRecord δ) (now : Timestamp) : Prop :=
  message.status = pending ∨
    (message.claimExpiresAt.map fun expires => decide (expires ≤ now)).getD false = true

instance (message : QueueMessageRecord δ) (now : Timestamp) : Decidable (Visible message now) :=
  inferInstanceAs (Decidable (_ ∨ _))

/-- The message, claimed. -/
def claim (request : ClaimMessageRequest) (message : QueueMessageRecord δ) : QueueMessageRecord δ :=
  { message with
    status := claimed
    claimedBy := some request.claimant
    claimExpiresAt := some (plus request.now request.visibilityTimeout)
    attempts := message.attempts + 1 }

/-- The loop of `claim_tx`: the messages still to look at, and those claimed so far. -/
def claimLoop (request : ClaimMessageRequest) :
    List (QueueMessageRecord δ) → List (QueueMessageRecord δ) →
      TxProgram δ (List (QueueMessageRecord δ))
  | [], claimed => pure claimed
  | message :: rest, claimed =>
    if claimed.length ≥ request.maxMessages.toNat then pure claimed
    else if Skipped request message then claimLoop request rest claimed
    else if ¬ Visible message request.now then claimLoop request rest claimed
    else do
      let message := claim request message
      .write .queueMessages message.messageId (queueMessageToJson message)
      claimLoop request rest (claimed ++ [message])

def claimTx (request : ClaimMessageRequest) : TxProgram δ (List (QueueMessageRecord δ)) := do
  let messages ← allMessages
  claimLoop request messages []

def acknowledgeTx (request : AckMessageRequest) : TxProgram δ Unit := do
  let message ← requireMessage request.messageId
  requireClaimant message request.claimant
  let message := { message with status := acked }
  .write .queueMessages message.messageId (queueMessageToJson message)

/-- The message after it has failed. -/
def fail (request : FailMessageRequest) (message : QueueMessageRecord δ) : QueueMessageRecord δ :=
  { message with
    claimedBy := none
    claimExpiresAt := none
    status := if message.attempts.toNat ≥ request.maxAttempts.toNat then deadLettered else pending }

def failTx (request : FailMessageRequest) : TxProgram δ (QueueMessageRecord δ) := do
  let message ← requireMessage request.messageId
  requireClaimant message request.claimant
  let message := fail request message
  .write .queueMessages message.messageId (queueMessageToJson message)
  pure message

end StateSpec.Rust.Queue
