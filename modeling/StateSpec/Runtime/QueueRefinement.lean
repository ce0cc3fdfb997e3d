/-
  THE QUEUE STORE IS A MESSAGE QUEUE — `RuntimeQueueStore` implements the queue of `Lib/MessageQueue`,
  with a registry of definitions beside it.

  1. `record` is how a message of the queue is stored, and `Stands d s` says that the documents `d` are
     those of the state `s`: definitions, messages and idempotency keys.
  2. `implements_queueProgram` is the crux: on documents that stand for a state, what a call comes to is
     what the queue may do in that state.
  3. `queue_refines`: the committed calls of any interleaving of sessions are served by the queue, one
     after another.
-/
import StateSpec.Lib.MessageQueue
import StateSpec.Lib.Registry
import StateSpec.Runtime.QueueMessages

namespace StateSpec.Runtime.Queue

open Program Interleaving Memory

variable {δ : Type} {d d' : Docs δ}

/-! ## Messages and their records -/

abbrev QueuePhase := MessageQueue.Phase Bytes Timestamp

/-- A topic is a queue with a channel. -/
abbrev QueueMessage (δ : Type) := MessageQueue.Message (Bytes × Bytes) Bytes Timestamp (Json δ)

abbrev QueueState (δ : Type) :=
  Registry.State Key (QueueDefinition δ) ×
    MessageQueue.State Key (Bytes × Bytes) Bytes Timestamp (Json δ) Key

/-- Expiries are stored in whole milliseconds, and the counter has 64 bits. -/
def queueRules : MessageQueue.Rules Timestamp where
  stored := Timestamp.stored
  shown deliveries := deliveries % 2 ^ 64

def phaseStatus : QueuePhase → Bytes
  | .pending => pending
  | .claimed _ _ => claimed
  | .acknowledged _ _ => acked
  | .deadLettered => deadLettered

/-- The record of a message. -/
def record (id : Key) (message : QueueMessage δ) : QueueMessageRecord δ where
  messageId := id
  queue := message.topic.1
  channel := message.topic.2
  status := phaseStatus message.phase
  attempts := .ofNat message.deliveries
  claimedBy := message.phase.client
  claimExpiresAt := message.phase.expiry
  payload := message.payload

/-- The message that a request enqueues. -/
def fresh (request : EnqueueMessageRequest δ) : QueueMessage δ where
  topic := (request.queue, request.channel)
  payload := request.payload

theorem record_claim (request : ClaimMessageRequest) (id : Key) (message : QueueMessage δ) :
    claim request (record id message) =
      record id (message.claim request.claimant (request.now.plus request.visibilityTimeout)) := by
  simp [claim, record, MessageQueue.Message.claim, phaseStatus, MessageQueue.Phase.client,
    MessageQueue.Phase.expiry, UInt64.ofNat_add]

theorem stored_record_claim (id : Key) (message : QueueMessage δ) (claimant : Bytes)
    (expiry : Timestamp) :
    (record id (message.claim claimant expiry)).stored =
      record id (message.claim claimant (queueRules.stored expiry)) := rfl

theorem stored_record_acknowledge (id : Key) {message : QueueMessage δ} {claimant : Bytes}
    (h : message.phase.client = some claimant) :
    (acknowledge (record id message)).stored = record id (message.acknowledge queueRules) := by
  obtain ⟨topic, payload, deliveries, phase⟩ := message
  cases phase with
  | pending => cases h
  | claimed => rfl
  | acknowledged => rfl
  | deadLettered => cases h

theorem record_fail (request : FailMessageRequest) (id : Key) (message : QueueMessage δ) :
    fail request (record id message) =
      record id (message.fail queueRules request.maxAttempts.toNat) ∧
    (fail request (record id message)).stored = fail request (record id message) := by
  have hshown : (record id message).attempts.toNat = queueRules.shown message.deliveries :=
    UInt64.toNat_ofNat'
  rw [fail, hshown, MessageQueue.Message.fail]
  by_cases hlimit : request.maxAttempts.toNat ≤ queueRules.shown message.deliveries
  · rw [if_pos hlimit, if_pos hlimit]
    exact ⟨rfl, rfl⟩
  · rw [if_neg hlimit, if_neg hlimit]
    exact ⟨rfl, rfl⟩

/-- What a claim takes is of its topic, and free. -/
theorem free_of_record {request : ClaimMessageRequest} {id : Key} {message : QueueMessage δ}
    (hrequested : Requested request (record id message))
    (hvisible : Visible (record id message) request.now) :
    message.topic = (request.queue, request.channel) ∧ message.phase.Free request.now := by
  obtain ⟨hqueue, hchannel, hacked, hdead⟩ := hrequested
  refine ⟨Prod.ext hqueue hchannel, ?_⟩
  obtain ⟨topic, payload, deliveries, phase⟩ := message
  cases phase with
  | pending => trivial
  | claimed client expiry =>
    rcases hvisible with hpending | ⟨_, ⟨rfl⟩, hexpired⟩
    · exact absurd (show claimed = pending from hpending) (by decide)
    · exact hexpired
  | acknowledged client expiry => exact hacked rfl
  | deadLettered => exact hdead rfl

/-- **What is read back of a definition** is the definition. -/
theorem fromJson_toJson_definition (definition : QueueDefinition δ) :
    QueueDefinition.fromJson definition.toJson = .ok definition := by
  obtain ⟨queue, channel, visibilityTimeout, maxAttempts, deadLetterQueue, metadata⟩ := definition
  generalize hjson : QueueDefinition.toJson _ = json
  have hqueue : json.atMember (ascii "queue") = .ok (.string queue) := by
    subst hjson
    cases deadLetterQueue <;> rfl
  have hchannel : json.atMember (ascii "channel") = .ok (.string channel) := by
    subst hjson
    cases deadLetterQueue <;> rfl
  have htimeout : json.atMember (ascii "visibility_timeout_seconds") =
      .ok (.int64 visibilityTimeout) := by
    subst hjson
    cases deadLetterQueue <;> rfl
  have hattempts : json.atMember (ascii "max_attempts") = .ok (.int64 maxAttempts.toNat) := by
    subst hjson
    cases deadLetterQueue <;> rfl
  have hdead : optionalStringFrom json (ascii "dead_letter_queue") = .ok deadLetterQueue := by
    subst hjson
    cases deadLetterQueue <;> rfl
  have hmetadata : json.find (ascii "metadata") = some metadata := by
    subst hjson
    cases deadLetterQueue <;> rfl
  rw [QueueDefinition.fromJson, hqueue, hchannel, htimeout, hattempts, hdead, hmetadata]
  simp only [Json.asString, Json.asInt64, Bind.bind, Except.bind, pure, Except.pure, ofInt_toNat,
    Option.getD_some]

/-! ## Documents that stand for a state -/

/-- The documents are those of the state. -/
structure Stands (d : Docs δ) (s : QueueState δ) : Prop where
  definitions : Holds QueueDefinition.fromJson (fun _ definition => definition) d .queueDefinitions s.1
  messages : Holds QueueMessageRecord.fromJson record d .queueMessages s.2.messages
  remembered : ∀ k, d .queueIdempotency k = (s.2.remembered k).map rememberedJson

/-- An empty store stands for an empty queue. -/
theorem stands_empty :
    Stands (fun _ _ => none : Docs δ) (fun _ => none, MessageQueue.State.empty) where
  definitions _ := rfl
  messages _ := rfl
  remembered _ := rfl

variable {s : QueueState δ}

/-- Only the three collections matter. -/
theorem Stands.congr (h : Stands d s) (hdefinitions : d' .queueDefinitions = d .queueDefinitions)
    (hmessages : d' .queueMessages = d .queueMessages)
    (hremembered : d' .queueIdempotency = d .queueIdempotency) : Stands d' s where
  definitions := h.definitions.congr hdefinitions
  messages := h.messages.congr hmessages
  remembered k := (congrFun hremembered k).trans (h.remembered k)

/-- A message is put: `after` is what is read back of it. -/
theorem Stands.put (h : Stands d s) (id : Key) {stored : QueueMessageRecord δ} {after : QueueMessage δ}
    (hstored : stored.stored = record id after) :
    Stands (d.set .queueMessages id (some stored.toJson)) (s.1, s.2.put id after) where
  definitions := h.definitions.other (by decide) _ _
  messages := h.messages.put id (hstored ▸ stored.fromJson_toJson)
  remembered k := by
    rw [Documents.set_of_ne (by decide)]
    exact h.remembered k

/-- An idempotency key is remembered. -/
theorem Stands.remember (h : Stands d s) (key id : Key) :
    Stands (d.set .queueIdempotency key (some (rememberedJson id)))
      (s.1, s.2.remember id (some key)) where
  definitions := h.definitions.other (by decide) _ _
  messages := h.messages.other (by decide) _ _
  remembered k := by
    show _ = (Function.update s.2.remembered key (some id) k).map _
    by_cases hk : k = key
    · rw [hk, Documents.set_self, Function.update_self]
      rfl
    · rw [Documents.set_of_key_ne hk, Function.update_of_ne hk]
      exact h.remembered k

/-- What can be read of a message. -/
theorem Stands.found (h : Stands d s) {id : Key} {m : QueueMessageRecord δ}
    (hm : messageAt d id = some m) :
    ∃ message, s.2.messages id = some message ∧ m = record id message := by
  obtain ⟨message, hmessage, rfl⟩ := Option.map_eq_some_iff.mp ((h.messages id).symm.trans hm)
  exact ⟨message, hmessage, rfl⟩

/-! ## The queue of the store -/

/-- What a call asks of the registry or of the queue. -/
def asked : QueueRequest δ → Registry.Request Key (QueueDefinition δ) ⊕
    MessageQueue.Request Key (Bytes × Bytes) Bytes Timestamp (Json δ) Key
  | .registerDefinition definition =>
    .inl (.register (definitionKey definition.queue definition.channel) definition)
  | .inspectDefinition queue channel => .inl (.inspect (definitionKey queue channel))
  | .enqueue request =>
    .inr (.enqueue request.messageId (request.queue, request.channel) request.payload
      (request.idempotencyKey.map (idempotencyKey request.queue request.channel)))
  | .claim request =>
    .inr (.claim (request.queue, request.channel) request.claimant request.now
      (request.now.plus request.visibilityTimeout) request.maxMessages.toNat)
  | .acknowledge request => .inr (.acknowledge request.messageId request.claimant)
  | .fail request => .inr (.fail request.messageId request.claimant request.maxAttempts.toNat)
  | .inspect messageId => .inr (.inspect messageId)

/-- How the store shows an answer. -/
def answered : Registry.Answer (QueueDefinition δ) ⊕
    MessageQueue.Answer Key (Bytes × Bytes) Bytes Timestamp (Json δ) → QueueResponse δ
  | .inl (.registered definition created) => .registration { definition, created }
  | .inl (.found definition) => .definition definition
  | .inr (.message id message) => .message (record id message)
  | .inr (.claimed messages) => .claimed (messages.map fun p => record p.1 p.2)
  | .inr .acknowledged => .acknowledged
  | .inr (.inspected message) => .inspected (message.map fun p => record p.1 p.2)

/-- The queue store as an object. -/
def queueObject : Object (QueueState δ) (QueueRequest δ) (QueueResponse δ) :=
  (Registry.object.beside (MessageQueue.object queueRules)).seen asked answered

/-- A message is enqueued, or the one its key was first used for is shown. -/
theorem Stands.enqueue (h : Stands d s) {request : EnqueueMessageRequest δ} {r : QueueMessageRecord δ}
    (hruns : (enqueueTx request).Runs d r d') :
    ∃ s', queueObject s (.enqueue request) (.message r) s' ∧ Stands d' s' := by
  have hput {d : Docs δ} {s : QueueState δ} (h : Stands d s) :
      Stands (d.set .queueMessages request.messageId (some (enqueued request).toJson))
        (s.1, s.2.put request.messageId (fresh request)) :=
    h.put request.messageId rfl
  rw [enqueueTx] at hruns
  cases hkey : request.idempotencyKey with
  | none =>
    rw [hkey] at hruns
    obtain ⟨rfl, rfl⟩ := runs_putEnqueued hruns
    refine ⟨(s.1, (s.2.put request.messageId (fresh request)).remember request.messageId none),
      ⟨.inr (.message request.messageId (fresh request)), ?_, rfl⟩, hput h⟩
    rw [asked, hkey]
    exact .right (.enqueue rfl)
  | some key =>
    rw [hkey] at hruns
    obtain ⟨existing, mid, hread, hrest⟩ := runs_do.mp hruns
    obtain ⟨rfl, rfl⟩ := runs_read.mp hread
    generalize hk : idempotencyKey request.queue request.channel key = k at hrest
    rw [h.remembered k] at hrest
    cases hfirst : s.2.remembered k with
    | some first =>
      rw [hfirst] at hrest
      obtain ⟨_, mid', hid, hshow⟩ := runs_do.mp hrest
      obtain ⟨⟨rfl⟩, rfl⟩ := runs_ofExcept.mp hid
      obtain ⟨m, mid'', hinspect, hlast⟩ := runs_do.mp hshow
      obtain ⟨rfl, rfl⟩ := runs_inspectTx hinspect
      cases hm : messageAt mid'' first with
      | none =>
        rw [hm] at hlast
        exact absurd hlast runs_throw
      | some m =>
        rw [hm] at hlast
        obtain ⟨rfl, rfl⟩ := runs_pure.mp hlast
        obtain ⟨message, hmessage, rfl⟩ := h.found hm
        refine ⟨s, ⟨.inr (.message first message), ?_, rfl⟩, h⟩
        rw [asked, hkey, Option.map_some, hk]
        exact .right (.enqueueAgain hfirst hmessage)
    | none =>
      rw [hfirst] at hrest
      obtain ⟨_, mid', hwrite, hlast⟩ := runs_do.mp hrest
      obtain ⟨rfl, rfl⟩ := runs_putEnqueued hlast
      rw [runs_write.mp hwrite]
      refine ⟨(s.1, (s.2.put request.messageId (fresh request)).remember request.messageId (some k)),
        ⟨.inr (.message request.messageId (fresh request)), ?_, rfl⟩, hput (h.remember k _)⟩
      rw [asked, hkey, Option.map_some, hk]
      exact .right (.enqueue hfirst)

/-- A claim takes messages that the queue may choose. -/
theorem Stands.claimTx (h : Stands d s) {request : ClaimMessageRequest} {l : List (QueueMessageRecord δ)}
    (hruns : (claimTx request).Runs d l d') :
    ∃ s', queueObject s (.claim request) (.claimed l) s' ∧ Stands d' s' := by
  obtain ⟨records, mid, hall, hloop⟩ := runs_do.mp hruns
  obtain ⟨rfl, seen, hnodup, hseen, rfl⟩ := h.messages.scanned hall
  generalize hexpiry : request.now.plus request.visibilityTimeout = expiry
  -- a round of the loop ends it, skips a message or claims it
  have hround {d d' : Docs δ} {t} {p : Key × QueueMessage δ} {rest : List (Key × QueueMessage δ)}
      {done l : List (QueueMessageRecord δ)} (hstands : Stands d (s.1, t))
      (hloop : (claimLoop request ((p :: rest).map fun p => record p.1 p.2) done).Runs d l d') :
      (l = done ∧ d' = d) ∨ (claimLoop request (rest.map fun p => record p.1 p.2) done).Runs d l d' ∨
      done.length < request.maxMessages.toNat ∧
        (Requested request (record p.1 p.2) ∧ Visible (record p.1 p.2) request.now) ∧
        ∃ mid, Stands mid (s.1, t.claim queueRules request.claimant expiry p) ∧
          (claimLoop request (rest.map fun p => record p.1 p.2)
            (done ++ [record p.1 (p.2.claim request.claimant expiry)])).Runs mid l d' := by
    rw [List.map_cons, claimLoop] at hloop
    split_ifs at hloop with hfull hrequested hvisible
    · exact Or.inl (runs_pure.mp hloop)
    · obtain ⟨_, mid, hwrite, hlast⟩ := runs_do.mp hloop
      rw [record_claim, hexpiry] at hwrite hlast
      refine Or.inr (Or.inr ⟨Nat.lt_of_not_ge hfull, ⟨hrequested, hvisible⟩, mid, ?_, hlast⟩)
      rw [runs_write.mp hwrite]
      exact hstands.put p.1 (stored_record_claim p.1 p.2 request.claimant expiry)
    · exact Or.inr (Or.inl hloop)
    · exact Or.inr (Or.inl hloop)
  obtain ⟨taken, hsub, hwanted, rfl, hlimit, hend⟩ := runs_takes
    (fun ps done => claimLoop request (ps.map fun p => record p.1 p.2) done) request.maxMessages.toNat
    (fun p => Requested request (record p.1 p.2) ∧ Visible (record p.1 p.2) request.now)
    (fun p => record p.1 (p.2.claim request.claimant expiry))
    (MessageQueue.State.claim queueRules request.claimant expiry) (fun d t => Stands d (s.1, t))
    (fun _ => rfl) hround hloop h (Nat.zero_le _)
  rw [List.length_nil, Nat.zero_add] at hlimit
  subst hexpiry
  refine ⟨_, ⟨_, .right (.claim (hnodup.sublist (hsub.map _)) hlimit ?_), ?_⟩, hend⟩
  · intro p hp
    exact ⟨hseen p (hsub.subset hp), free_of_record (hwanted p hp).1 (hwanted p hp).2⟩
  · show QueueResponse.claimed _ = QueueResponse.claimed _
    rw [List.map_map]
    rfl

/-- **The store implements the queue**: one case for each request. -/
theorem implements_queueProgram : Implements (queueProgram (δ := δ)) queueObject Stands := by
  refine ⟨fun {d d' s request response} h hruns => ?_⟩
  cases request with
  | registerDefinition definition =>
    obtain ⟨r, hr, rfl⟩ := runs_map.mp hruns
    obtain ⟨rfl, rfl, hdefinitions⟩ := Registry.runs_register h.definitions hr rfl (fun _ => rfl)
      (fromJson_toJson_definition definition)
    exact ⟨(_, s.2), ⟨_, .left (.register _ _), rfl⟩, hdefinitions, h.messages.other (by decide) _ _,
      fun k => (congrFun (Documents.set_of_ne (by decide)) k).trans (h.remembered k)⟩
  | inspectDefinition queue channel =>
    obtain ⟨r, hr, rfl⟩ := runs_map.mp hruns
    obtain ⟨rfl, rfl⟩ := Registry.runs_inspect h.definitions hr rfl fun _ => rfl
    exact ⟨s, ⟨_, .left (.inspect _), rfl⟩, h⟩
  | enqueue request =>
    obtain ⟨r, hr, rfl⟩ := runs_map.mp hruns
    exact h.enqueue hr
  | claim request =>
    obtain ⟨l, hl, rfl⟩ := runs_map.mp hruns
    exact h.claimTx hl
  | acknowledge request =>
    obtain ⟨r, hr, rfl⟩ := runs_map.mp hruns
    obtain ⟨m, hm, hclient, rfl⟩ := runs_acknowledgeTx hr
    obtain ⟨message, hmessage, rfl⟩ := h.found hm
    exact ⟨_, ⟨_, .right (.acknowledge hmessage hclient), rfl⟩,
      h.put request.messageId (stored_record_acknowledge _ hclient)⟩
  | fail request =>
    obtain ⟨r, hr, rfl⟩ := runs_map.mp hruns
    obtain ⟨m, hm, hclient, hnext⟩ := runs_claimant hr
    obtain ⟨_, mid, hwrite, hlast⟩ := runs_do.mp hnext
    obtain ⟨rfl, rfl⟩ := runs_pure.mp hlast
    obtain ⟨message, hmessage, rfl⟩ := h.found hm
    obtain ⟨hfail, hstored⟩ := record_fail request request.messageId message
    rw [runs_write.mp hwrite]
    exact ⟨_, ⟨_, .right (.fail hmessage hclient), congrArg QueueResponse.message hfail⟩,
      h.put request.messageId (hstored.trans hfail)⟩
  | inspect messageId =>
    obtain ⟨r, hr, rfl⟩ := runs_map.mp hruns
    obtain ⟨rfl, rfl⟩ := runs_inspectTx hr
    refine ⟨s, ⟨_, .right .inspect, ?_⟩, h⟩
    have hat : messageAt d' messageId = (s.2.messages messageId).map (record messageId) :=
      h.messages messageId
    show QueueResponse.inspected _ = QueueResponse.inspected _
    rw [hat, Option.map_map]
    rfl

/-! ## Runs of the store -/

variable [Decimal δ]

/-- **The queue store is a message queue**: whatever calls interleave on the C++ backend, the committed
    ones are served by the queue one after another, each with the answer it was given, and the
    documents they leave are those of the state the queue is in. -/
theorem queue_refines (es : List (SessionEvent (QueueRequest δ) Unit)) :
    ∃ s : QueueState δ, queueObject.Serves (fun _ => none, MessageQueue.State.empty) (queueLog es) s ∧
      Stands (queueDocs es) s := by
  have hhistory : History queueProgram (fun _ _ _ => True) (fun _ _ => none) (queueLog es)
      (queueDocs es) :=
    history_queueStore (runMeets_of_forall _ (fun _ _ _ _ _ _ => trivial) _ es)
  exact implements_queueProgram.serves hhistory stands_empty

end StateSpec.Runtime.Queue
