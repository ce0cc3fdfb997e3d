/-
  MESSAGES — what the operations of the queue store do to one message.

  `messageAt` reads a message back from the documents.  As for the executions of the workflow store,
  each operation has one rule, and `messageChange_of_runs` lists from them everything a request can
  do to one message (`MessageChange`).

  `WellFormed` is the invariant of the messages: each is stored under its own id, its status is one of
  the four, a message has a claimant exactly while it is claimed or acknowledged, and what an
  idempotency key remembers is the id of a message (`wellFormed_history`).
-/
import StateSpec.Runtime.QueueStore

namespace StateSpec.Runtime.Queue

open Program Interleaving Memory

variable {δ : Type} {d d' : Docs δ}

/-! ## Reading back -/

/-- The message that is stored under an id. -/
def messageAt (d : Docs δ) (k : Key) : Option (QueueMessageRecord δ) :=
  decodedAt QueueMessageRecord.fromJson d .queueMessages k

theorem messageAt_congr (h : d' .queueMessages = d .queueMessages) (k : Key) :
    messageAt d' k = messageAt d k :=
  decodedAt_congr (congrFun h k)

/-- What is read back after a message has been put. -/
theorem messageAt_set (d : Docs δ) (message : QueueMessageRecord δ) (k k' : Key) :
    messageAt (d.set .queueMessages k (some message.toJson)) k' =
      if k' = k then some message.stored else messageAt d k' :=
  decodedAt_set message.fromJson_toJson d _ k k'

/-- The idempotency key of the request has been used before. -/
def Remembered (d : Docs δ) (request : EnqueueMessageRequest δ) : Prop :=
  ∃ key, request.idempotencyKey = some key ∧
    d .queueIdempotency (idempotencyKey request.queue request.channel key) ≠ none

/-! ## The rules of the programs -/

theorem runs_inspectTx {k : Key} {r : Option (QueueMessageRecord δ)}
    (h : (inspectTx k).Runs d r d') : d' = d ∧ r = messageAt d k :=
  runs_decoded h rfl fun _ => rfl

theorem runs_requireMessage {k : Key} {message : QueueMessageRecord δ}
    (h : (requireMessage k).Runs d message d') : d' = d ∧ messageAt d k = some message := by
  obtain ⟨r, mid, hinspect, hrest⟩ := runs_do.mp h
  obtain ⟨rfl, rfl⟩ := runs_inspectTx hinspect
  cases hmessage : messageAt mid k with
  | none =>
    rw [hmessage] at hrest
    exact absurd hrest runs_throw
  | some message =>
    rw [hmessage] at hrest
    obtain ⟨rfl, rfl⟩ := runs_pure.mp hrest
    exact ⟨rfl, rfl⟩

theorem runs_requireClaimant {message : QueueMessageRecord δ} {claimant : Bytes} {u : Unit}
    (h : (requireClaimant message claimant).Runs d u d') :
    d' = d ∧ message.claimedBy = some claimant := by
  rw [requireClaimant] at h
  split at h
  · exact ⟨(runs_pure.mp h).2, ‹_›⟩
  · exact absurd h runs_throw

theorem runs_putEnqueued {request : EnqueueMessageRequest δ} {r : QueueMessageRecord δ}
    (h : (putEnqueued request).Runs d r d') :
    r = enqueued request ∧
      d' = d.set .queueMessages request.messageId (some (enqueued request).toJson) := by
  obtain ⟨_, mid, hwrite, hrest⟩ := runs_do.mp h
  obtain ⟨rfl, rfl⟩ := runs_pure.mp hrest
  exact ⟨rfl, runs_write.mp hwrite⟩

theorem runs_requireRemembered {document : Json δ} {r : QueueMessageRecord δ}
    (h : (requireRemembered document).Runs d r d') :
    d' = d ∧ ∃ k, messageAt d k = some r := by
  obtain ⟨k, mid, hid, hrest⟩ := runs_do.mp h
  obtain ⟨-, rfl⟩ := runs_ofExcept.mp hid
  obtain ⟨found, mid', hinspect, hlast⟩ := runs_do.mp hrest
  obtain ⟨rfl, rfl⟩ := runs_inspectTx hinspect
  cases hmessage : messageAt mid' k with
  | none =>
    rw [hmessage] at hlast
    exact absurd hlast runs_throw
  | some message =>
    rw [hmessage] at hlast
    obtain ⟨rfl, rfl⟩ := runs_pure.mp hlast
    exact ⟨rfl, k, hmessage⟩

/-- The document that remembers a message id. -/
def rememberedJson (messageId : Bytes) : Json δ :=
  .ofMembers [(ascii "message_id", .string messageId)]

/-- A request whose idempotency key is known changes nothing; any other puts its message. -/
theorem runs_enqueueTx {request : EnqueueMessageRequest δ} {r : QueueMessageRecord δ}
    (h : (enqueueTx request).Runs d r d') :
    (Remembered d request ∧ d' = d) ∨
    (¬ Remembered d request ∧ r = enqueued request ∧ ∃ mid,
      (mid = d ∨ ∃ k, mid = d.set .queueIdempotency k (some (rememberedJson request.messageId))) ∧
      d' = mid.set .queueMessages request.messageId (some (enqueued request).toJson)) := by
  rw [enqueueTx] at h
  cases hkey : request.idempotencyKey with
  | none =>
    rw [hkey] at h
    obtain ⟨rfl, rfl⟩ := runs_putEnqueued h
    refine Or.inr ⟨?_, rfl, d, Or.inl rfl, rfl⟩
    rintro ⟨key, hsome, -⟩
    rw [hkey] at hsome
    cases hsome
  | some key =>
    rw [hkey] at h
    obtain ⟨existing, mid, hread, hrest⟩ := runs_do.mp h
    obtain ⟨rfl, rfl⟩ := runs_read.mp hread
    cases hexisting : mid .queueIdempotency
        (idempotencyKey request.queue request.channel key) with
    | some existing =>
      rw [hexisting] at hrest
      obtain ⟨rfl, -⟩ := runs_requireRemembered hrest
      refine Or.inl ⟨⟨key, hkey, ?_⟩, rfl⟩
      rw [hexisting]
      nofun
    | none =>
      rw [hexisting] at hrest
      obtain ⟨_, mid', hwrite, hlast⟩ := runs_do.mp hrest
      obtain ⟨rfl, rfl⟩ := runs_putEnqueued hlast
      refine Or.inr ⟨?_, rfl, mid', Or.inr ⟨_, runs_write.mp hwrite⟩, rfl⟩
      rintro ⟨key', hsome, hknown⟩
      obtain rfl := Option.some_inj.mp (hkey.symm.trans hsome)
      exact hknown hexisting

/-! ## The claim loop -/

/-- The message with that id among those a request has claimed. -/
def claimedOf (k : Key) (messages : List (QueueMessageRecord δ)) : Option (QueueMessageRecord δ) :=
  messages.find? fun message => message.messageId == k

/-- One round of the loop: it is over, or it skips the message, or it claims it. -/
theorem runs_claimLoop_round {request : ClaimMessageRequest} {message : QueueMessageRecord δ}
    {rest claimed l : List (QueueMessageRecord δ)}
    (h : (claimLoop request (message :: rest) claimed).Runs d l d') :
    (l = claimed ∧ d' = d) ∨ (claimLoop request rest claimed).Runs d l d' ∨
    (0 < request.maxMessages.toNat ∧ Requested request message ∧ Visible message request.now) ∧
      ∃ mid,
        (∀ k, messageAt mid k =
          if k = message.messageId then some (claim request message).stored else messageAt d k) ∧
        (claimLoop request rest (claimed ++ [claim request message])).Runs mid l d' := by
  rw [claimLoop] at h
  by_cases hmax : claimed.length ≥ request.maxMessages.toNat
  · rw [if_pos hmax] at h
    exact Or.inl (runs_pure.mp h)
  rw [if_neg hmax] at h
  by_cases hrequested : Requested request message
  swap
  · rw [if_pos hrequested] at h
    exact Or.inr (Or.inl h)
  rw [if_neg (not_not_intro hrequested)] at h
  by_cases hvisible : Visible message request.now
  swap
  · rw [if_pos hvisible] at h
    exact Or.inr (Or.inl h)
  rw [if_neg (not_not_intro hvisible)] at h
  obtain ⟨_, mid, hwrite, hlast⟩ := runs_do.mp h
  refine Or.inr (Or.inr ⟨⟨by omega, hrequested, hvisible⟩, mid, fun k => ?_, hlast⟩)
  rw [runs_write.mp hwrite, messageAt_set]
  rfl

/-- Each message is stored under its own id. -/
def Keyed (d : Docs δ) : Prop :=
  ∀ k message, messageAt d k = some message → message.messageId = k

/-- A claim leaves a message alone, or claims it. -/
theorem runs_claimTx {request : ClaimMessageRequest} {l : List (QueueMessageRecord δ)}
    (hkeyed : Keyed d) (h : (claimTx request).Runs d l d') (k : Key) :
    (claimedOf k l = none ∧ messageAt d' k = messageAt d k) ∨
    ∃ message, messageAt d k = some message ∧ 0 < request.maxMessages.toNat ∧
      Requested request message ∧ Visible message request.now ∧
      claimedOf k l = some (claim request message) ∧
      messageAt d' k = some (claim request message).stored := by
  obtain ⟨messages, mid, hall, hrest⟩ := runs_do.mp h
  obtain ⟨rfl, hnodup, hmessages⟩ := runs_scanDecoded hkeyed hall
  obtain ⟨new, rfl, hnew⟩ := runs_sweep (claimLoop request) QueueMessageRecord.messageId
    (claim request) QueueMessageRecord.stored
    (fun message => 0 < request.maxMessages.toNat ∧ Requested request message ∧
      Visible message request.now) messageAt
    (fun _ => rfl) runs_claimLoop_round (fun _ => rfl) hnodup hrest
  refine (hnew k).imp (fun hsame => hsame) ?_
  rintro ⟨message, hmem, rfl, ⟨hmax, hrequested, hvisible⟩, hclaimed⟩
  exact ⟨message, hmessages message hmem, hmax, hrequested, hvisible, hclaimed⟩

/-- What the claimant of a message does goes on with the claimed message. -/
theorem runs_claimant {k claimant : Bytes} {α : Type} {r : α}
    {next : QueueMessageRecord δ → TxProgram δ α}
    (h : (do
      let message ← requireMessage k
      requireClaimant message claimant
      next message : TxProgram δ α).Runs d r d') :
    ∃ message, messageAt d k = some message ∧ message.claimedBy = some claimant ∧
      (next message).Runs d r d' := by
  obtain ⟨message, mid, hrequire, hrest⟩ := runs_do.mp h
  obtain ⟨rfl, hmessage⟩ := runs_requireMessage hrequire
  obtain ⟨_, mid', hcheck, hlast⟩ := runs_do.mp hrest
  obtain ⟨rfl, hclaimant⟩ := runs_requireClaimant hcheck
  exact ⟨message, hmessage, hclaimant, hlast⟩

theorem runs_acknowledgeTx {request : AckMessageRequest} {u : Unit}
    (h : (acknowledgeTx request).Runs d u d') :
    ∃ message, messageAt d request.messageId = some message ∧
      message.claimedBy = some request.claimant ∧
      d' = d.set .queueMessages message.messageId (some (acknowledge message).toJson) := by
  obtain ⟨message, hmessage, hclaimant, hrest⟩ := runs_claimant h
  exact ⟨message, hmessage, hclaimant, runs_write.mp hrest⟩

theorem runs_failTx {request : FailMessageRequest} {r : QueueMessageRecord δ}
    (h : (failTx request).Runs d r d') :
    ∃ message, messageAt d request.messageId = some message ∧
      message.claimedBy = some request.claimant ∧
      d' = d.set .queueMessages message.messageId (some (fail request message).toJson) := by
  obtain ⟨message, hmessage, hclaimant, hrest⟩ := runs_claimant h
  obtain ⟨_, mid, hwrite, hlast⟩ := runs_do.mp hrest
  obtain ⟨-, rfl⟩ := runs_pure.mp hlast
  exact ⟨message, hmessage, hclaimant, runs_write.mp hwrite⟩

theorem runs_inspectDefinitionTx {queue channel : Bytes} {r : Option (QueueDefinition δ)}
    (h : (inspectDefinitionTx queue channel).Runs d r d') : d' = d :=
  (runs_decoded h rfl fun _ => rfl).1

/-! ## What a request can do to one message -/

/-- **Everything a request can do to the message `k`**, with the message before and after. -/
inductive MessageChange (d : Docs δ) (k : Key) : QueueRequest δ → QueueResponse δ →
    Option (QueueMessageRecord δ) → Option (QueueMessageRecord δ) → Prop where
  | other {request : QueueRequest δ} {response : QueueResponse δ}
      (message : Option (QueueMessageRecord δ)) :
      (∀ r messages, request = .claim r → response = .claimed messages →
        claimedOf k messages = none) →
      MessageChange d k request response message message
  | enqueue (request : EnqueueMessageRequest δ) (before : Option (QueueMessageRecord δ)) :
      request.messageId = k → ¬ Remembered d request →
      MessageChange d k (.enqueue request) (.message (enqueued request)) before
        (some (enqueued request).stored)
  | claim (request : ClaimMessageRequest) (messages : List (QueueMessageRecord δ))
      (message : QueueMessageRecord δ) : 0 < request.maxMessages.toNat → Requested request message →
      Visible message request.now → claimedOf k messages = some (claim request message) →
      MessageChange d k (.claim request) (.claimed messages) (some message)
        (some (Queue.claim request message).stored)
  | acknowledge (request : AckMessageRequest) (response : QueueResponse δ)
      (message : QueueMessageRecord δ) : request.messageId = k →
      message.claimedBy = some request.claimant →
      MessageChange d k (.acknowledge request) response (some message)
        (some (Queue.acknowledge message).stored)
  | fail (request : FailMessageRequest) (response : QueueResponse δ)
      (message : QueueMessageRecord δ) : request.messageId = k →
      message.claimedBy = some request.claimant →
      MessageChange d k (.fail request) response (some message)
        (some (Queue.fail request message).stored)

/-- Writing to another collection changes no message. -/
theorem messageAt_set_other {c : RuntimeCollection} (hc : c ≠ .queueMessages) (k k' : Key)
    (document : Option (Json δ)) : messageAt (d.set c k document) k' = messageAt d k' := by
  refine messageAt_congr ?_ k'
  funext k''
  rw [Documents.set, if_neg fun h => hc h.1.symm]

theorem messageChange_put {d₁ : Docs δ} {k : Key} {request : QueueRequest δ}
    {response : QueueResponse δ} {message after : QueueMessageRecord δ} {id : Key}
    (hkeyed : Keyed d) (hmessage : messageAt d id = some message)
    (hd : d₁ = d.set .queueMessages message.messageId (some after.toJson))
    (hthis : id = k → MessageChange d k request response (some message) (some after.stored))
    (hother : ∀ r, request ≠ .claim r) :
    MessageChange d k request response (messageAt d k) (messageAt d₁ k) := by
  rw [hd, messageAt_set, hkeyed _ _ hmessage]
  by_cases hk : id = k
  · rw [if_pos hk.symm, ← hk, hmessage]
    exact hk ▸ hthis hk
  · rw [if_neg (Ne.symm hk)]
    exact .other _ fun r messages hr _ => absurd hr (hother r)

/-- **The step**: a request changes a message in one of the listed ways. -/
theorem messageChange_of_runs (hkeyed : Keyed d) {request : QueueRequest δ}
    {response : QueueResponse δ} (h : (queueProgram request).Runs d response d') (k : Key) :
    MessageChange d k request response (messageAt d k) (messageAt d' k) := by
  cases request with
  | registerDefinition definition =>
    obtain ⟨r, hr, rfl⟩ := runs_map.mp h
    obtain ⟨existing, mid, hinspect, hrest⟩ := runs_do.mp hr
    obtain rfl := runs_inspectDefinitionTx hinspect
    obtain ⟨_, mid', hwrite, hlast⟩ := runs_do.mp hrest
    obtain ⟨-, rfl⟩ := runs_pure.mp hlast
    rw [runs_write.mp hwrite, messageAt_set_other (by decide)]
    exact .other _ nofun
  | inspectDefinition queue channel =>
    obtain ⟨r, hr, rfl⟩ := runs_map.mp h
    obtain rfl := runs_inspectDefinitionTx hr
    exact .other _ nofun
  | enqueue request =>
    obtain ⟨r, hr, rfl⟩ := runs_map.mp h
    rcases runs_enqueueTx hr with ⟨-, rfl⟩ | ⟨hnew, rfl, mid, hmid, rfl⟩
    · exact .other _ nofun
    · have hsame : messageAt mid k = messageAt d k := by
        rcases hmid with rfl | ⟨key, rfl⟩
        · rfl
        · exact messageAt_set_other (by decide) _ _ _
      rw [messageAt_set, hsame]
      by_cases hk : k = request.messageId
      · rw [if_pos hk]
        exact .enqueue request _ hk.symm hnew
      · rw [if_neg hk]
        exact .other _ nofun
  | claim request =>
    obtain ⟨l, hl, rfl⟩ := runs_map.mp h
    rcases runs_claimTx hkeyed hl k with ⟨hnone, hd⟩ | ⟨m, hm, hmax, hreq, hvis, hclaimed, hd⟩
    · rw [hd]
      refine .other _ ?_
      rintro _ _ - ⟨rfl⟩
      exact hnone
    · rw [hd, hm]
      exact .claim request l m hmax hreq hvis hclaimed
  | acknowledge request =>
    obtain ⟨r, hr, rfl⟩ := runs_map.mp h
    obtain ⟨message, hmessage, hclaimant, hd⟩ := runs_acknowledgeTx hr
    exact messageChange_put hkeyed hmessage hd (fun hk => .acknowledge _ _ _ hk hclaimant) nofun
  | fail request =>
    obtain ⟨r, hr, rfl⟩ := runs_map.mp h
    obtain ⟨message, hmessage, hclaimant, hd⟩ := runs_failTx hr
    exact messageChange_put hkeyed hmessage hd (fun hk => .fail _ _ _ hk hclaimant) nofun
  | inspect messageId =>
    obtain ⟨r, hr, rfl⟩ := runs_map.mp h
    obtain ⟨rfl, -⟩ := runs_inspectTx hr
    exact .other _ nofun

/-! ## The invariant of the messages -/

/-- The status is one of the four, and a message has a claimant while it is claimed or acknowledged. -/
structure Sound (message : QueueMessageRecord δ) : Prop where
  status : message.status = pending ∨ message.status = claimed ∨ message.status = acked ∨
    message.status = deadLettered
  claimant : message.claimedBy = none ↔
    message.status = pending ∨ message.status = deadLettered

theorem Sound.stored {message : QueueMessageRecord δ} (h : Sound message) : Sound message.stored :=
  ⟨h.status, h.claimant⟩

/-- Messages are stored under their own ids and sound, and what is remembered is a message. -/
structure WellFormed (d : Docs δ) : Prop where
  message : ∀ k message, messageAt d k = some message → message.messageId = k ∧ Sound message
  remembered : ∀ k document, d .queueIdempotency k = some document →
    ∃ id, document = rememberedJson id ∧ messageAt d id ≠ none

theorem WellFormed.keyed (h : WellFormed d) : Keyed d := fun k m hm => (h.message k m hm).1

/-- A message with a claimant is claimed or acknowledged. -/
theorem Sound.of_claimedBy {message : QueueMessageRecord δ} (h : Sound message) {claimant : Bytes}
    (hby : message.claimedBy = some claimant) :
    message.status = claimed ∨ message.status = acked := by
  have hsome : ¬ (message.status = pending ∨ message.status = deadLettered) := by
    rw [← h.claimant, hby]
    nofun
  rcases h.status with hpending | hclaimed | hacked | hdead
  · exact absurd (Or.inl hpending) hsome
  · exact Or.inl hclaimed
  · exact Or.inr hacked
  · exact absurd (Or.inr hdead) hsome

theorem MessageChange.sound {k : Key} {request : QueueRequest δ} {response : QueueResponse δ}
    {before after : Option (QueueMessageRecord δ)}
    (h : MessageChange d k request response before after)
    (hbefore : ∀ message, before = some message → message.messageId = k ∧ Sound message) :
    ∀ message, after = some message → message.messageId = k ∧ Sound message := by
  cases h with
  | other message hclaim => exact hbefore
  | enqueue request before hk hnew =>
    rintro _ ⟨rfl⟩
    exact ⟨hk, Sound.stored ⟨Or.inl rfl, fun _ => Or.inl rfl, fun _ => rfl⟩⟩
  | claim request messages message hmax hrequested hvisible hclaimed =>
    rintro _ ⟨rfl⟩
    refine ⟨(hbefore message rfl).1, Sound.stored ⟨Or.inr (Or.inl rfl), nofun, ?_⟩⟩
    rintro (hstatus | hstatus)
    · exact absurd (show claimed = pending from hstatus) (by decide)
    · exact absurd (show claimed = deadLettered from hstatus) (by decide)
  | acknowledge request response message hk hclaimant =>
    rintro _ ⟨rfl⟩
    refine ⟨(hbefore message rfl).1, Sound.stored ⟨Or.inr (Or.inr (Or.inl rfl)), ?_, ?_⟩⟩
    · intro hnone
      rw [show (Queue.acknowledge message).claimedBy = message.claimedBy from rfl,
        hclaimant] at hnone
      cases hnone
    · rintro (hstatus | hstatus)
      · exact absurd (show acked = pending from hstatus) (by decide)
      · exact absurd (show acked = deadLettered from hstatus) (by decide)
  | fail request response message hk hclaimant =>
    rintro _ ⟨rfl⟩
    have hstatus : (Queue.fail request message).status = pending ∨
        (Queue.fail request message).status = deadLettered := by
      rw [Queue.fail]
      split
      · exact Or.inr rfl
      · exact Or.inl rfl
    refine ⟨(hbefore message rfl).1, Sound.stored ⟨?_, fun _ => hstatus, fun _ => rfl⟩⟩
    exact hstatus.imp (fun hpending => hpending) fun hdead => Or.inr (Or.inr hdead)

/-- No message is ever erased. -/
theorem MessageChange.ne_none {k : Key} {request : QueueRequest δ} {response : QueueResponse δ}
    {before after : Option (QueueMessageRecord δ)}
    (h : MessageChange d k request response before after) (hbefore : before ≠ none) :
    after ≠ none := by
  cases h with
  | other message hclaim => exact hbefore
  | enqueue request before hk hnew => nofun
  | claim request messages message hmax hrequested hvisible hclaimed => nofun
  | acknowledge request response message hk hclaimant => nofun
  | fail request response message hk hclaimant => nofun

theorem leaves_claimant {c : RuntimeCollection} {k claimant : Bytes} {α : Type}
    {next : QueueMessageRecord δ → TxProgram δ α} (hnext : ∀ message, (next message).Leaves c) :
    (do
      let message ← requireMessage k
      requireClaimant message claimant
      next message : TxProgram δ α).Leaves c := by
  have hinspect : (inspectTx k : TxProgram δ _).Leaves c := leaves_decoded rfl fun _ => rfl
  refine leaves_do (leaves_do hinspect fun message => ?_) fun message => ?_
  · cases message <;> trivial
  · refine leaves_do ?_ fun _ => hnext message
    rw [requireClaimant]
    split <;> trivial

theorem leaves_claimLoop {c : RuntimeCollection} (hc : RuntimeCollection.queueMessages ≠ c)
    (request : ClaimMessageRequest) (messages claimed : List (QueueMessageRecord δ)) :
    (claimLoop request messages claimed).Leaves c := by
  induction messages generalizing claimed with
  | nil => trivial
  | cons message rest ih =>
    rw [claimLoop]
    split_ifs
    · trivial
    · exact leaves_do (leaves_write hc _ _) fun _ => ih _
    · exact ih claimed
    · exact ih claimed

/-- Only enqueueing writes down idempotency keys. -/
theorem leaves_queueProgram {request : QueueRequest δ} (h : ∀ r, request ≠ .enqueue r) :
    (queueProgram request).Leaves .queueIdempotency := by
  cases request with
  | registerDefinition definition =>
    refine leaves_map (leaves_do (leaves_decoded rfl fun _ => rfl) fun existing => ?_)
    exact leaves_do (leaves_write (by decide) _ _) fun _ => trivial
  | inspectDefinition queue channel => exact leaves_map (leaves_decoded rfl fun _ => rfl)
  | enqueue request => exact absurd rfl (h request)
  | claim request =>
    refine leaves_map (leaves_do ?_ fun messages => leaves_claimLoop (by decide) request messages [])
    exact leaves_do (leaves_scan _ _) fun records => leaves_ofExcept _ _
  | acknowledge request => exact leaves_map (leaves_claimant fun _ => leaves_write (by decide) _ _)
  | fail request =>
    refine leaves_map (leaves_claimant fun message => ?_)
    exact leaves_do (leaves_write (by decide) _ _) fun _ => trivial
  | inspect messageId => exact leaves_map (leaves_decoded rfl fun _ => rfl)

/-- Each request keeps the messages well formed. -/
theorem WellFormed.runs {request : QueueRequest δ} {response : QueueResponse δ} (hwf : WellFormed d)
    (h : (queueProgram request).Runs d response d') : WellFormed d' := by
  have hchange := messageChange_of_runs hwf.keyed h
  refine ⟨fun k => (hchange k).sound (hwf.message k), ?_⟩
  -- what was remembered before is still there
  have hold (k : Key) (document : Json δ) (hbefore : d .queueIdempotency k = some document) :
      ∃ id, document = rememberedJson id ∧ messageAt d' id ≠ none := by
    obtain ⟨id, hdocument, hsome⟩ := hwf.remembered k document hbefore
    exact ⟨id, hdocument, (hchange id).ne_none hsome⟩
  intro k document hdocument
  by_cases henqueue : ∃ r, request = .enqueue r
  · obtain ⟨r, rfl⟩ := henqueue
    obtain ⟨message, hr, -⟩ := runs_map.mp h
    rcases runs_enqueueTx hr with ⟨-, rfl⟩ | ⟨-, -, mid, rfl | ⟨key, rfl⟩, rfl⟩
    · exact hwf.remembered k document hdocument
    · exact hold k document hdocument
    · by_cases hk : k = key
      · subst hk
        refine ⟨r.messageId, ?_, ?_⟩
        · rw [Documents.set, if_neg fun h => absurd h.1 (by decide), Documents.set, if_pos ⟨rfl, rfl⟩] at hdocument
          exact (Option.some_inj.mp hdocument).symm
        · rw [messageAt_set, if_pos rfl]
          exact Option.some_ne_none _
      · rw [Documents.set, if_neg fun h => absurd h.1 (by decide), Documents.set, if_neg fun h => hk h.2] at hdocument
        exact hold k document hdocument
  · have hframe := (leaves_queueProgram fun r hr => henqueue ⟨r, hr⟩).runs h
    rw [hframe] at hdocument
    exact hold k document hdocument

/-- **What an idempotency key remembers is there**: looking it up never finds an empty optional. -/
theorem WellFormed.requireRemembered {k : Key} {document : Json δ} (hwf : WellFormed d)
    (h : d .queueIdempotency k = some document) :
    ∃ message, (Queue.requireRemembered document).Runs d message d := by
  obtain ⟨id, rfl, hsome⟩ := hwf.remembered k document h
  obtain ⟨message, hmessage⟩ := Option.ne_none_iff_exists'.mp hsome
  refine ⟨message, runs_do.mpr ⟨id, d, runs_ofExcept.mpr ⟨rfl, rfl⟩, runs_do.mpr ?_⟩⟩
  refine ⟨some message, d, ?_, .ret⟩
  obtain ⟨stored, hstored, hdecode⟩ := Option.bind_eq_some_iff.mp hmessage
  refine runs_do.mpr ⟨some stored, d, runs_read.mpr ⟨hstored.symm, rfl⟩, ?_⟩
  refine runs_ofExcept.mpr ⟨?_, rfl⟩
  cases hfrom : QueueMessageRecord.fromJson stored with
  | error e =>
    rw [hfrom] at hdecode
    cases hdecode
  | ok found =>
    rw [hfrom] at hdecode
    cases hdecode
    rfl

/-! ## Histories -/

/-- The requests of a history, with their responses. -/
abbrev QueueLog (δ : Type) := List (QueueRequest δ × QueueResponse δ)

/-- **Induction over a history, for one message**: what every change of a message preserves holds at
    the end of the history. -/
theorem history_invariant {P : QueueLog δ → Docs δ → QueueRequest δ → Prop}
    {Q : QueueLog δ → Option (QueueMessageRecord δ) → Prop} {d₀ : Docs δ} {log : QueueLog δ}
    (k : Key) (h : History queueProgram P d₀ log d) (hwf : WellFormed d₀)
    (hinit : Q [] (messageAt d₀ k))
    (hstep : ∀ log d request response after, P log d request → WellFormed d →
      Q log (messageAt d k) → MessageChange d k request response (messageAt d k) after →
      Q (log ++ [(request, response)]) after) :
    WellFormed d ∧ Q log (messageAt d k) := by
  induction h with
  | nil => exact ⟨hwf, hinit⟩
  | snoc _ hP hruns ih =>
    obtain ⟨hwf', hQ⟩ := ih
    exact ⟨hwf'.runs hruns,
      hstep _ _ _ _ _ hP hwf' hQ (messageChange_of_runs hwf'.keyed hruns k)⟩

/-- Without documents there are no messages. -/
theorem wellFormed_empty : WellFormed (fun _ _ => none : Docs δ) := by
  refine ⟨?_, ?_⟩
  · intro k message h
    cases h
  · intro k document h
    cases h

/-! ## The store on the C++ backend -/

variable [Decimal δ]

theorem later_ensureQueueCollections (s : Cpp.State δ) (u : Unit) :
    Later s (ensureQueueCollections u s) :=
  Cpp.later_register s queueCollections

theorem docs_ensureQueueCollections (s : Cpp.State δ) (u : Unit) :
    docs (ensureQueueCollections u s) = docs s :=
  docs_register s queueCollections

/-- The documents after a run of the store. -/
def queueDocs (es : List (SessionEvent (QueueRequest δ) Unit)) : Docs δ :=
  docs (run queueStore (World.init InMemoryState.empty) es).shared

/-- The requests a run of the store has carried out, with their responses. -/
def queueLog (es : List (SessionEvent (QueueRequest δ) Unit)) : QueueLog δ :=
  answers (run queueStore (World.init InMemoryState.empty) es).log

/-- **The runs of the store are histories**, from the empty backend. -/
theorem history_queueStore {P : QueueLog δ → Docs δ → QueueRequest δ → Prop}
    {es : List (SessionEvent (QueueRequest δ) Unit)}
    (hes : RunMeets queueStore (Committing P) (World.init InMemoryState.empty) es) :
    History queueProgram P (fun _ _ => none) (queueLog es) (queueDocs es) := by
  have h := history_run later_ensureQueueCollections docs_ensureQueueCollections
    (Discipline.inv_init _ _) hes
  rw [queueLog, log_run]
  exact h

/-- Every state that can be reached is well formed. -/
theorem wellFormed_run (es : List (SessionEvent (QueueRequest δ) Unit)) :
    WellFormed (queueDocs es) :=
  (history_invariant (Q := fun _ _ => True) []
    (history_queueStore (P := fun _ _ _ => True)
      (runMeets_of_forall _ (fun _ _ _ _ _ _ => trivial) _ es))
    wellFormed_empty trivial fun _ _ _ _ _ _ _ _ _ => trivial).1

end StateSpec.Runtime.Queue
