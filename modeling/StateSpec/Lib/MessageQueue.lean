/-
  MESSAGE QUEUES — what a queue with claims, acknowledgements, retries and idempotency keys is for,
  over any identifiers, topics, clients, times and payloads.

  1. A message is in one `Phase`: a claim, an acknowledgement and the client they belong to are one
     value, so there is no claimed message without a client and no pending one with an expiry.
  2. The `State` maps identifiers to messages and idempotency keys to identifiers.
  3. `object` has one rule for each request.  Which messages a claim takes is left open: any of the topic
     that are free, each once, up to the limit.

  Two things differ from queue to queue, and are the `Rules`: what is left of an expiry that has been
  stored, and what a delivery counter shows.
-/
import Mathlib.Logic.Function.Basic
import StateSpec.Lib.Refinement

namespace StateSpec.MessageQueue

variable {Id Topic Client Time Payload Key : Type}

/-! ## Messages -/

/-- Where a message is on its way. -/
inductive Phase (Client Time : Type) where
  | pending
  | claimed (client : Client) (expiry : Time)
  | acknowledged (client : Client) (expiry : Time)
  | deadLettered

/-- Whoever has claimed or acknowledged the message. -/
def Phase.client : Phase Client Time → Option Client
  | .claimed client _ | .acknowledged client _ => some client
  | .pending | .deadLettered => none

def Phase.expiry : Phase Client Time → Option Time
  | .claimed _ expiry | .acknowledged _ expiry => some expiry
  | .pending | .deadLettered => none

/-- The message can be claimed: nobody has it, or the claim has run out. -/
def Phase.Free [LE Time] (now : Time) : Phase Client Time → Prop
  | .pending => True
  | .claimed _ expiry => expiry ≤ now
  | .acknowledged _ _ | .deadLettered => False

structure Message (Topic Client Time Payload : Type) where
  topic : Topic
  payload : Payload
  deliveries : Nat := 0
  phase : Phase Client Time := .pending

/-- What differs from queue to queue. -/
structure Rules (Time : Type) where
  /-- What is left of an expiry that has been stored. -/
  stored : Time → Time
  /-- What the counter shows after so many deliveries. -/
  shown : Nat → Nat

namespace Message

/-- The message, claimed once more. -/
def claim (client : Client) (expiry : Time) (message : Message Topic Client Time Payload) :
    Message Topic Client Time Payload :=
  { message with deliveries := message.deliveries + 1, phase := .claimed client expiry }

/-- The message, acknowledged by the client that has it; its expiry is stored once more. -/
def acknowledge (rules : Rules Time) (message : Message Topic Client Time Payload) :
    Message Topic Client Time Payload :=
  { message with
    phase := match message.phase with
      | .claimed client expiry | .acknowledged client expiry =>
        .acknowledged client (rules.stored expiry)
      | phase => phase }

/-- The message after it has failed: it is retried, or set aside after too many deliveries. -/
def fail (rules : Rules Time) (limit : Nat) (message : Message Topic Client Time Payload) :
    Message Topic Client Time Payload :=
  { message with
    phase := if limit ≤ rules.shown message.deliveries then .deadLettered else .pending }

end Message

/-! ## States -/

/-- Messages under their identifiers, and the first message of each idempotency key. -/
structure State (Id Topic Client Time Payload Key : Type) where
  messages : Id → Option (Message Topic Client Time Payload)
  remembered : Key → Option Id

/-- Nothing has been enqueued. -/
def State.empty : State Id Topic Client Time Payload Key where
  messages _ := none
  remembered _ := none

variable [DecidableEq Id] [DecidableEq Key]

/-- The message is put, whatever was under its identifier. -/
def State.put (s : State Id Topic Client Time Payload Key) (id : Id)
    (message : Message Topic Client Time Payload) : State Id Topic Client Time Payload Key :=
  { s with messages := Function.update s.messages id (some message) }

/-- The key is remembered, if there is one. -/
def State.remember (s : State Id Topic Client Time Payload Key) (id : Id) :
    Option Key → State Id Topic Client Time Payload Key
  | some key => { s with remembered := Function.update s.remembered key (some id) }
  | none => s

/-- A message is claimed. -/
def State.claim (rules : Rules Time) (client : Client) (expiry : Time)
    (s : State Id Topic Client Time Payload Key) (p : Id × Message Topic Client Time Payload) :
    State Id Topic Client Time Payload Key :=
  s.put p.1 (p.2.claim client (rules.stored expiry))

/-! ## The queue -/

inductive Request (Id Topic Client Time Payload Key : Type) where
  | enqueue (id : Id) (topic : Topic) (payload : Payload) (key : Option Key)
  | claim (topic : Topic) (client : Client) (now expiry : Time) (limit : Nat)
  | acknowledge (id : Id) (client : Client)
  | fail (id : Id) (client : Client) (limit : Nat)
  | inspect (id : Id)

inductive Answer (Id Topic Client Time Payload : Type) where
  | message (id : Id) (message : Message Topic Client Time Payload)
  | claimed (messages : List (Id × Message Topic Client Time Payload))
  | acknowledged
  | inspected (message : Option (Id × Message Topic Client Time Payload))

/-- **The queue.** -/
inductive object [LE Time] (rules : Rules Time) : Object (State Id Topic Client Time Payload Key)
    (Request Id Topic Client Time Payload Key) (Answer Id Topic Client Time Payload) where
  | enqueue {s : State Id Topic Client Time Payload Key} {id : Id} {topic : Topic} {payload : Payload}
      {key : Option Key} : key.bind s.remembered = none →
      object rules s (.enqueue id topic payload key) (.message id { topic, payload })
        ((s.put id { topic, payload }).remember id key)
  | enqueueAgain {s : State Id Topic Client Time Payload Key} {id first : Id} {topic : Topic}
      {payload : Payload} {key : Option Key} {message : Message Topic Client Time Payload} :
      key.bind s.remembered = some first → s.messages first = some message →
      object rules s (.enqueue id topic payload key) (.message first message) s
  | claim {s : State Id Topic Client Time Payload Key} {topic : Topic} {client : Client}
      {now expiry : Time} {limit : Nat} {taken : List (Id × Message Topic Client Time Payload)} :
      (taken.map Prod.fst).Nodup → taken.length ≤ limit →
      (∀ p ∈ taken, s.messages p.1 = some p.2 ∧ p.2.topic = topic ∧ p.2.phase.Free now) →
      object rules s (.claim topic client now expiry limit)
        (.claimed (taken.map fun p => (p.1, p.2.claim client expiry)))
        (taken.foldl (State.claim rules client expiry) s)
  | acknowledge {s : State Id Topic Client Time Payload Key} {id : Id} {client : Client}
      {message : Message Topic Client Time Payload} : s.messages id = some message →
      message.phase.client = some client →
      object rules s (.acknowledge id client) .acknowledged (s.put id (message.acknowledge rules))
  | fail {s : State Id Topic Client Time Payload Key} {id : Id} {client : Client} {limit : Nat}
      {message : Message Topic Client Time Payload} : s.messages id = some message →
      message.phase.client = some client →
      object rules s (.fail id client limit) (.message id (message.fail rules limit))
        (s.put id (message.fail rules limit))
  | inspect {s : State Id Topic Client Time Payload Key} {id : Id} :
      object rules s (.inspect id) (.inspected ((s.messages id).map fun message => (id, message))) s

end StateSpec.MessageQueue
