/-
  IDEMPOTENT ENQUEUE — what an enqueue with an idempotency key returns the second time.

  An idempotency key is remembered under queue, channel and key, put together with ':' and '|'.  The
  three can hold these characters themselves, so two different triples can be remembered under the same
  text: then the second message is dropped, and its caller is told of the first one
  (`idempotency_aliased`).  A message is put under its own id, whatever is stored there, so it can also
  replace the message that is remembered for somebody else.  Without these two, a triple always names
  the message it was first used for: `enqueue_idempotent`.

  The invariant is `Linked`: each remembered key belongs to one enqueue of the log, whose message is
  still there.
-/
import StateSpec.Runtime.QueueMessages

namespace StateSpec.Runtime.Queue

open Program Interleaving Memory

variable {δ : Type} {d d' : Docs δ}

/-! ## What is enqueued, and what is remembered -/

/-- The text under which the idempotency key of a request is remembered. -/
def lookupKey (request : EnqueueMessageRequest δ) : Option Key :=
  request.idempotencyKey.map (idempotencyKey request.queue request.channel)

/-- The same queue, channel and idempotency key. -/
def SameTriple (request request' : EnqueueMessageRequest δ) : Prop :=
  request.queue = request'.queue ∧ request.channel = request'.channel ∧
    request.idempotencyKey = request'.idempotencyKey

/-- The same message, which may have been claimed, acknowledged or failed in the meantime. -/
def SameMessage (message message' : QueueMessageRecord δ) : Prop :=
  message.messageId = message'.messageId ∧ message.queue = message'.queue ∧
    message.channel = message'.channel ∧ message.payload = message'.payload

/-- Nothing but enqueues. -/
def OnlyEnqueues (log : QueueLog δ) : Prop := ∀ entry ∈ log, ∃ request, entry.1 = .enqueue request

/-- The same message, and in a log of enqueues the same record. -/
def SameIn (log : QueueLog δ) (message message' : QueueMessageRecord δ) : Prop :=
  SameMessage message message' ∧ (OnlyEnqueues log → message = message')

/-- The request is an enqueue of the log, with an idempotency key, and has returned the message. -/
def Answered (log : QueueLog δ) (request : EnqueueMessageRequest δ)
    (message : QueueMessageRecord δ) : Prop :=
  (.enqueue request, .message message) ∈ log ∧ request.idempotencyKey ≠ none

/-- **Enqueueing is idempotent**: two enqueues return the same message exactly when they have the same
    queue, channel and key.  One that is the first with its triple has stored its own message, which is
    there since.  Every remembered key names a message of the queue and channel it was used for, so
    looking it up finds one. -/
structure Idempotent (log : QueueLog δ) (d : Docs δ) : Prop where
  same : ∀ request message request' message', Answered log request message →
    Answered log request' message' →
    (message.messageId = message'.messageId ↔ SameTriple request request') ∧
      (SameTriple request request' → SameIn log message message')
  fresh : ∀ before request message after,
    log = before ++ (.enqueue request, .message message) :: after → request.idempotencyKey ≠ none →
    (∀ request' message', Answered before request' message' → ¬ SameTriple request' request) →
    message = enqueued request ∧
      ∃ stored, messageAt d request.messageId = some stored ∧ SameIn log message stored
  named : ∀ k document, d .queueIdempotency k = some document →
    ∃ request stored, Answered log request (enqueued request) ∧ lookupKey request = some k ∧
      document = rememberedJson request.messageId ∧
      messageAt d request.messageId = some stored ∧ stored.queue = request.queue ∧
      stored.channel = request.channel
  lookup : ∀ k document, d .queueIdempotency k = some document →
    ∃ message, (requireRemembered document).Runs d message d

/-- An enqueue whose key is remembered for its own triple, if at all, and that puts no message under an
    id that is remembered. -/
def NoAlias (log : QueueLog δ) (d : Docs δ) : QueueRequest δ → Prop
  | .enqueue request =>
    (∀ request' message', Answered log request' message' → request.idempotencyKey ≠ none →
      lookupKey request' = lookupKey request → SameTriple request' request) ∧
    (¬ Remembered d request → ∀ k, d .queueIdempotency k ≠ some (rememberedJson request.messageId))
  | _ => True

/-! ## The rules of an enqueue -/

theorem rememberedJson_inj {id id' : Bytes} (h : rememberedJson (δ := δ) id = rememberedJson id') :
    id = id' := by
  have hmember : (rememberedJson (δ := δ) id).find (ascii "message_id") =
      (rememberedJson id').find (ascii "message_id") := by rw [h]
  exact Json.string.inj (Option.some_inj.mp hmember)

/-- A key that is remembered returns the message it names. -/
theorem runs_remembered {id : Bytes} {r : QueueMessageRecord δ}
    (h : (requireRemembered (rememberedJson id)).Runs d r d') : d' = d ∧ messageAt d id = some r := by
  obtain ⟨k, mid, hid, hrest⟩ := runs_do.mp h
  obtain ⟨hk, rfl⟩ := runs_ofExcept.mp hid
  obtain rfl : id = k := Except.ok.inj hk
  obtain ⟨found, mid', hinspect, hlast⟩ := runs_do.mp hrest
  obtain ⟨rfl, rfl⟩ := runs_inspectTx hinspect
  cases hmessage : messageAt mid' id with
  | none =>
    rw [hmessage] at hlast
    exact absurd hlast runs_throw
  | some message =>
    rw [hmessage] at hlast
    obtain ⟨rfl, rfl⟩ := runs_pure.mp hlast
    exact ⟨rfl, rfl⟩

/-- **The rule of `enqueueTx`**: it looks up what is remembered, or remembers and puts the message. -/
theorem runs_enqueueTx_cases {request : EnqueueMessageRequest δ} {r : QueueMessageRecord δ}
    (h : (enqueueTx request).Runs d r d') :
    (∃ k document, lookupKey request = some k ∧ d .queueIdempotency k = some document ∧
      (requireRemembered document).Runs d r d') ∨
    (¬ Remembered d request ∧ r = enqueued request ∧
      d' .queueMessages =
        (d.set .queueMessages request.messageId (some (enqueued request).toJson)) .queueMessages ∧
      ∀ k, d' .queueIdempotency k = if lookupKey request = some k
        then some (rememberedJson request.messageId) else d .queueIdempotency k) := by
  rw [enqueueTx] at h
  cases hkey : request.idempotencyKey with
  | none =>
    rw [hkey] at h
    obtain ⟨rfl, rfl⟩ := runs_putEnqueued h
    refine Or.inr ⟨?_, rfl, rfl, fun k => ?_⟩
    · rintro ⟨key, hsome, -⟩
      rw [hkey] at hsome
      cases hsome
    · rw [lookupKey, hkey, Option.map_none, if_neg (Option.some_ne_none _).symm, Documents.set, if_neg fun hc => absurd hc.1 (by decide)]
  | some key =>
    have hlookup : lookupKey request = some (idempotencyKey request.queue request.channel key) := by
      rw [lookupKey, hkey]
      rfl
    rw [hkey] at h
    obtain ⟨existing, mid, hread, hrest⟩ := runs_do.mp h
    obtain ⟨rfl, rfl⟩ := runs_read.mp hread
    cases hexisting : mid .queueIdempotency
        (idempotencyKey request.queue request.channel key) with
    | some document =>
      rw [hexisting] at hrest
      exact Or.inl ⟨_, document, hlookup, hexisting, hrest⟩
    | none =>
      rw [hexisting] at hrest
      obtain ⟨_, mid', hwrite, hlast⟩ := runs_do.mp hrest
      obtain ⟨rfl, rfl⟩ := runs_putEnqueued hlast
      obtain rfl := runs_write.mp hwrite
      refine Or.inr ⟨?_, rfl, ?_, fun k => ?_⟩
      · rintro ⟨key', hsome, hknown⟩
        obtain rfl := Option.some_inj.mp (hkey.symm.trans hsome)
        exact hknown hexisting
      · funext k
        simp [Documents.set]
      · rw [Documents.set, if_neg fun hc => absurd hc.1 (by decide), Documents.set, hlookup]
        simp [rememberedJson, eq_comm]

/-- What an enqueue stores is the record it returns: it has no expiry yet. -/
theorem stored_enqueued (request : EnqueueMessageRequest δ) :
    (enqueued request).stored = enqueued request := rfl

theorem remembered_iff {request : EnqueueMessageRequest δ} :
    Remembered d request ↔
      ∃ k, lookupKey request = some k ∧ d .queueIdempotency k ≠ none := by
  constructor
  · rintro ⟨key, hkey, hknown⟩
    exact ⟨_, by rw [lookupKey, hkey]; rfl, hknown⟩
  · rintro ⟨k, hk, hknown⟩
    obtain ⟨key, hkey, rfl⟩ := Option.map_eq_some_iff.mp hk
    exact ⟨key, hkey, hknown⟩

/-- No request forgets a key. -/
theorem idempotency_kept {request : QueueRequest δ} {response : QueueResponse δ}
    (h : (queueProgram request).Runs d response d') {k : Key} {document : Json δ}
    (hk : d .queueIdempotency k = some document) : d' .queueIdempotency k = some document := by
  by_cases henqueue : ∃ r, request = .enqueue r
  swap
  · rw [(leaves_queueProgram fun r hr => henqueue ⟨r, hr⟩).runs h]
    exact hk
  obtain ⟨r, rfl⟩ := henqueue
  obtain ⟨m, hm, rfl⟩ := runs_map.mp h
  rcases runs_enqueueTx_cases hm with ⟨k', found, -, hfound, hrun⟩ | ⟨hnew, -, -, hset⟩
  · obtain ⟨rfl, -⟩ := runs_requireRemembered hrun
    exact hk
  · rw [hset, if_neg, hk]
    intro hlookup
    refine hnew (remembered_iff.mpr ⟨k, hlookup, ?_⟩)
    rw [hk]
    nofun

/-- A key that is remembered afterwards has been before, or an enqueue has just stored its message. -/
theorem idempotency_new {request : QueueRequest δ} {response : QueueResponse δ}
    (h : (queueProgram request).Runs d response d') {k : Key} {document : Json δ}
    (hk : d' .queueIdempotency k = some document) :
    d .queueIdempotency k = some document ∨
    ∃ r, request = .enqueue r ∧ response = .message (enqueued r) ∧ lookupKey r = some k ∧
      document = rememberedJson r.messageId ∧ ¬ Remembered d r ∧
      messageAt d' r.messageId = some (enqueued r) := by
  by_cases henqueue : ∃ r, request = .enqueue r
  swap
  · rw [(leaves_queueProgram fun r hr => henqueue ⟨r, hr⟩).runs h] at hk
    exact Or.inl hk
  obtain ⟨r, rfl⟩ := henqueue
  obtain ⟨m, hm, rfl⟩ := runs_map.mp h
  rcases runs_enqueueTx_cases hm with ⟨k', found, -, hfound, hrun⟩ | ⟨hnew, rfl, hput, hset⟩
  · obtain ⟨rfl, -⟩ := runs_requireRemembered hrun
    exact Or.inl hk
  · rw [hset] at hk
    by_cases hlookup : lookupKey r = some k
    · rw [if_pos hlookup, Option.some_inj] at hk
      refine Or.inr ⟨r, rfl, rfl, hlookup, hk.symm, hnew, ?_⟩
      rw [messageAt_congr hput, messageAt_set, if_pos rfl, stored_enqueued]
    · rw [if_neg hlookup] at hk
      exact Or.inl hk

/-- An enqueue with a key returns what its key names, or stores its own message. -/
theorem runs_enqueue_key {r : EnqueueMessageRequest δ} {m : QueueMessageRecord δ}
    (h : (queueProgram (.enqueue r)).Runs d (.message m) d') (hkey : r.idempotencyKey ≠ none) :
    ∃ k, lookupKey r = some k ∧
      ((∃ document, d .queueIdempotency k = some document ∧
        (requireRemembered document).Runs d m d') ∨
      (m = enqueued r ∧ d' .queueIdempotency k = some (rememberedJson r.messageId) ∧
        messageAt d' r.messageId = some (enqueued r))) := by
  obtain ⟨m', hm, heq⟩ := runs_map.mp h
  obtain rfl := QueueResponse.message.inj heq
  rcases runs_enqueueTx_cases hm with ⟨k, found, hk, hfound, hrun⟩ | ⟨-, rfl, hput, hset⟩
  · exact ⟨k, hk, Or.inl ⟨found, hfound, hrun⟩⟩
  · obtain ⟨key, hsome⟩ := Option.ne_none_iff_exists'.mp hkey
    have hk : lookupKey r = some (idempotencyKey r.queue r.channel key) := by
      rw [lookupKey, hsome]
      rfl
    refine ⟨_, hk, Or.inr ⟨rfl, ?_, ?_⟩⟩
    · rw [hset, if_pos hk]
    · rw [messageAt_congr hput, messageAt_set, if_pos rfl, stored_enqueued]

/-! ## The invariant -/

/-- Each remembered key belongs to an enqueue of the log, and names its message, which is there; each
    answer is the message its key names.  No two keys name one message, and no two triples share a
    key. -/
structure Linked (log : QueueLog δ) (d : Docs δ) : Prop where
  owner : ∀ k document, d .queueIdempotency k = some document →
    ∃ request stored, Answered log request (enqueued request) ∧ lookupKey request = some k ∧
      document = rememberedJson request.messageId ∧
      messageAt d request.messageId = some stored ∧ SameIn log (enqueued request) stored
  answer : ∀ request message, Answered log request message →
    ∃ k id stored, lookupKey request = some k ∧ d .queueIdempotency k = some (rememberedJson id) ∧
      messageAt d id = some stored ∧ SameIn log message stored
  distinct : ∀ k k' id, d .queueIdempotency k = some (rememberedJson id) →
    d .queueIdempotency k' = some (rememberedJson id) → k = k'
  apart : ∀ request message request' message', Answered log request message →
    Answered log request' message' → lookupKey request = lookupKey request' →
    SameTriple request request'
  first : ∀ before request message after,
    log = before ++ (.enqueue request, .message message) :: after → request.idempotencyKey ≠ none →
    (∀ request' message', Answered before request' message' → ¬ SameTriple request' request) →
    message = enqueued request

theorem SameTriple.lookupKey_eq {request request' : EnqueueMessageRequest δ}
    (h : SameTriple request request') : lookupKey request = lookupKey request' := by
  obtain ⟨hqueue, hchannel, hkey⟩ := h
  rw [lookupKey, lookupKey, hqueue, hchannel, hkey]

theorem SameTriple.symm {request request' : EnqueueMessageRequest δ}
    (h : SameTriple request request') : SameTriple request' request :=
  ⟨h.1.symm, h.2.1.symm, h.2.2.symm⟩

theorem SameIn.refl (log : QueueLog δ) (message : QueueMessageRecord δ) :
    SameIn log message message :=
  ⟨⟨rfl, rfl, rfl, rfl⟩, fun _ => rfl⟩

theorem SameIn.symm {log : QueueLog δ} {message message' : QueueMessageRecord δ}
    (h : SameIn log message message') : SameIn log message' message := by
  obtain ⟨⟨hid, hqueue, hchannel, hpayload⟩, heq⟩ := h
  exact ⟨⟨hid.symm, hqueue.symm, hchannel.symm, hpayload.symm⟩, fun honly => (heq honly).symm⟩

theorem SameIn.trans {log : QueueLog δ} {m m' m'' : QueueMessageRecord δ} (h : SameIn log m m')
    (h' : SameIn log m' m'') : SameIn log m m'' := by
  obtain ⟨⟨hid, hqueue, hchannel, hpayload⟩, heq⟩ := h
  obtain ⟨⟨hid', hqueue', hchannel', hpayload'⟩, heq'⟩ := h'
  exact ⟨⟨hid.trans hid', hqueue.trans hqueue', hchannel.trans hchannel', hpayload.trans hpayload'⟩,
    fun honly => (heq honly).trans (heq' honly)⟩

/-- A longer log says less. -/
theorem SameIn.snoc {log : QueueLog δ} {message message' : QueueMessageRecord δ}
    (h : SameIn log message message') (entry : QueueRequest δ × QueueResponse δ) :
    SameIn (log ++ [entry]) message message' :=
  ⟨h.1, fun honly => h.2 fun e he => honly e (List.mem_append_left _ he)⟩

theorem Answered.snoc {log : QueueLog δ} {request : EnqueueMessageRequest δ}
    {message : QueueMessageRecord δ} (h : Answered log request message)
    (entry : QueueRequest δ × QueueResponse δ) : Answered (log ++ [entry]) request message :=
  ⟨List.mem_append_left _ h.1, h.2⟩

/-- An answer of a longer log is an old one, or the new one. -/
theorem answered_snoc {log : QueueLog δ} {entry : QueueRequest δ × QueueResponse δ}
    {request : EnqueueMessageRequest δ} {message : QueueMessageRecord δ}
    (h : Answered (log ++ [entry]) request message) :
    Answered log request message ∨ entry = (.enqueue request, .message message) := by
  obtain ⟨hmem, hkey⟩ := h
  rcases List.mem_append.mp hmem with hold | hnew
  · exact Or.inl ⟨hold, hkey⟩
  · exact Or.inr (List.mem_singleton.mp hnew).symm

/-- **A remembered message stays**: no request that meets the condition replaces it. -/
theorem remembered_kept {log : QueueLog δ} {request : QueueRequest δ} {response : QueueResponse δ}
    (hkeyed : Keyed d) (halias : NoAlias log d request)
    (hruns : (queueProgram request).Runs d response d') {k : Key} {id : Bytes}
    {stored : QueueMessageRecord δ} (hk : d .queueIdempotency k = some (rememberedJson id))
    (hstored : messageAt d id = some stored) :
    ∃ stored', messageAt d' id = some stored' ∧
      SameIn (log ++ [(request, response)]) stored stored' := by
  have hchange := messageChange_of_runs hkeyed hruns id
  rw [hstored] at hchange
  -- another call than an enqueue changes the record, but the log has more than enqueues then
  have hother (hrequest : ∀ r, request ≠ .enqueue r) :
      ¬ OnlyEnqueues (log ++ [(request, response)]) := by
    intro honly
    obtain ⟨r, hr⟩ := honly _ (List.mem_append_right _ (List.mem_singleton.mpr rfl))
    exact hrequest r hr
  generalize hafter : messageAt d' id = after at hchange
  cases hchange with
  | other x hclaim => exact ⟨stored, rfl, .refl _ stored⟩
  | enqueue r x hid hnew => exact absurd hk (hid ▸ halias.2 hnew k)
  | claim r messages m hmax hrequested hvisible hclaimed =>
    exact ⟨_, rfl, ⟨rfl, rfl, rfl, rfl⟩, fun honly => absurd honly (hother nofun)⟩
  | acknowledge r x m hid hclaimant =>
    exact ⟨_, rfl, ⟨rfl, rfl, rfl, rfl⟩, fun honly => absurd honly (hother nofun)⟩
  | fail r x m hid hclaimant =>
    exact ⟨_, rfl, ⟨rfl, rfl, rfl, rfl⟩, fun honly => absurd honly (hother nofun)⟩

/-- **Each request that meets the condition keeps the keys linked** to their messages. -/
theorem Linked.runs {log : QueueLog δ} {request : QueueRequest δ} {response : QueueResponse δ}
    (h : Linked log d) (hkeyed : Keyed d) (halias : NoAlias log d request)
    (hruns : (queueProgram request).Runs d response d') :
    Linked (log ++ [(request, response)]) d' := by
  have hlast : (request, response) ∈ log ++ [(request, response)] :=
    List.mem_append_right _ (List.mem_singleton.mpr rfl)
  refine ⟨?_, ?_, ?_, ?_, ?_⟩
  · intro k document hk
    rcases idempotency_new hruns hk with hold | ⟨r, rfl, rfl, hlookup, rfl, -, hstored⟩
    · obtain ⟨r, stored, hanswered, hlookup, rfl, hstored, hsame⟩ := h.owner k document hold
      obtain ⟨stored', hstored', hsame'⟩ := remembered_kept hkeyed halias hruns hold hstored
      exact ⟨r, stored', hanswered.snoc _, hlookup, rfl, hstored', (hsame.snoc _).trans hsame'⟩
    · refine ⟨r, _, ⟨hlast, ?_⟩, hlookup, rfl, hstored, .refl _ _⟩
      intro hnone
      rw [lookupKey, hnone] at hlookup
      cases hlookup
  · intro r m hanswered
    rcases answered_snoc hanswered with hold | heq
    · obtain ⟨k, id, stored, hlookup, hk, hstored, hsame⟩ := h.answer r m hold
      obtain ⟨stored', hstored', hsame'⟩ := remembered_kept hkeyed halias hruns hk hstored
      exact ⟨k, id, stored', hlookup, idempotency_kept hruns hk, hstored',
        (hsame.snoc _).trans hsame'⟩
    · cases heq
      obtain ⟨k, hlookup, ⟨document, hk, hrun⟩ | ⟨rfl, hk, hstored⟩⟩ :=
        runs_enqueue_key hruns hanswered.2
      · obtain ⟨r', -, -, -, rfl, -, -⟩ := h.owner k document hk
        obtain ⟨rfl, hstored⟩ := runs_remembered hrun
        exact ⟨k, _, m, hlookup, hk, hstored, .refl _ m⟩
      · exact ⟨k, _, _, hlookup, hk, hstored, .refl _ _⟩
  · intro k k' id hk hk'
    rcases idempotency_new hruns hk with hold | ⟨r, rfl, -, hlookup, hid, hnew, -⟩ <;>
      rcases idempotency_new hruns hk' with hold' | ⟨r', hr', -, hlookup', hid', hnew', -⟩
    · exact h.distinct k k' id hold hold'
    · subst hr'
      exact absurd (hid' ▸ hold) (halias.2 hnew' k)
    · exact absurd (hid ▸ hold') (halias.2 hnew k')
    · obtain rfl := QueueRequest.enqueue.inj hr'
      exact Option.some_inj.mp (hlookup.symm.trans hlookup')
  · intro r m r' m' hanswered hanswered' hlookup
    rcases answered_snoc hanswered with hold | heq <;>
      rcases answered_snoc hanswered' with hold' | heq'
    · exact h.apart r m r' m' hold hold' hlookup
    · cases heq'
      exact halias.1 r m hold hanswered'.2 hlookup
    · cases heq
      exact (halias.1 r' m' hold' hanswered.2 hlookup.symm).symm
    · cases heq
      cases heq'
      exact ⟨rfl, rfl, rfl⟩
  · intro before r m after hlog hkey hfresh
    rcases snoc_eq_append_cons hlog with ⟨-, rfl, heq⟩ | ⟨rest, -, hlog'⟩
    swap
    · exact h.first before r m rest hlog' hkey hfresh
    -- the enqueue is the last request: were its key remembered, its triple would not be fresh
    cases heq
    obtain ⟨k, hlookup, ⟨document, hk, -⟩ | ⟨rfl, -, -⟩⟩ := runs_enqueue_key hruns hkey
    · obtain ⟨r', stored, hanswered, hlookup', -, -, -⟩ := h.owner k document hk
      exact absurd (halias.1 r' _ hanswered hkey (hlookup'.trans hlookup.symm))
        (hfresh r' _ hanswered)
    · rfl

/-- What is linked is idempotent. -/
theorem Linked.idempotent {log : QueueLog δ} (h : Linked log d) (hwf : WellFormed d) :
    Idempotent log d := by
  refine ⟨?_, ?_, ?_, ?_⟩
  · intro r m r' m' hanswered hanswered'
    obtain ⟨k, id, stored, hlookup, hk, hstored, hsame⟩ := h.answer r m hanswered
    obtain ⟨k', id', stored', hlookup', hk', hstored', hsame'⟩ := h.answer r' m' hanswered'
    have hid : m.messageId = id := hsame.1.1.trans (hwf.keyed _ _ hstored)
    have hid' : m'.messageId = id' := hsame'.1.1.trans (hwf.keyed _ _ hstored')
    have hforth (htriple : SameTriple r r') : SameIn log m m' := by
      obtain rfl : k = k' :=
        Option.some_inj.mp (hlookup.symm.trans (htriple.lookupKey_eq.trans hlookup'))
      obtain rfl : id = id' := rememberedJson_inj (Option.some_inj.mp (hk.symm.trans hk'))
      obtain rfl : stored = stored' := Option.some_inj.mp (hstored.symm.trans hstored')
      exact hsame.trans hsame'.symm
    refine ⟨⟨fun hsameId => ?_, fun htriple => (hforth htriple).1.1⟩, hforth⟩
    obtain rfl : id = id' := hid.symm.trans (hsameId.trans hid')
    obtain rfl := h.distinct k k' id hk hk'
    exact h.apart r m r' m' hanswered hanswered' (hlookup.trans hlookup'.symm)
  · intro before r m after hlog hkey hfresh
    obtain rfl := h.first before r m after hlog hkey hfresh
    have hmem : (.enqueue r, .message (enqueued r)) ∈ log := by
      rw [hlog]
      exact List.mem_append_right _ (List.mem_cons_self ..)
    obtain ⟨k, id, stored, -, -, hstored, hsame⟩ := h.answer r _ ⟨hmem, hkey⟩
    obtain rfl : r.messageId = id := hsame.1.1.trans (hwf.keyed _ _ hstored)
    exact ⟨rfl, stored, hstored, hsame⟩
  · intro k document hk
    obtain ⟨r, stored, hanswered, hlookup, rfl, hstored, hsame⟩ := h.owner k document hk
    obtain ⟨-, hqueue, hchannel, -⟩ := hsame.1
    exact ⟨r, stored, hanswered, hlookup, rfl, hstored, hqueue.symm, hchannel.symm⟩
  · intro k document hk
    exact hwf.requireRemembered hk

theorem linked_history {log : QueueLog δ}
    (h : History queueProgram NoAlias (fun _ _ => none) log d) : WellFormed d ∧ Linked log d := by
  induction h with
  | nil =>
    refine ⟨wellFormed_empty, ?_, ?_, ?_, ?_, ?_⟩
    · intro k document hk
      cases hk
    · intro r m hanswered
      cases hanswered.1
    · intro k k' id hk
      cases hk
    · intro r m r' m' hanswered
      cases hanswered.1
    · intro before r m after hlog
      simp at hlog
  | snoc _ halias hruns ih =>
    obtain ⟨hwf, hlinked⟩ := ih
    exact ⟨hwf.runs hruns, hlinked.runs hwf.keyed halias hruns⟩

/-! ## Runs -/

variable [Decimal δ]

/-- **Enqueueing is idempotent** after every run in which no two triples share a key, and no message is
    put under the id of a remembered one. -/
theorem enqueue_idempotent (es : List (SessionEvent (QueueRequest δ) Unit))
    (hes : RunMeets queueStore (Committing NoAlias) (World.init InMemoryState.empty) es) :
    Idempotent (queueLog es) (queueDocs es) := by
  obtain ⟨hwf, hlinked⟩ := linked_history (history_queueStore hes)
  exact hlinked.idempotent hwf

/-- An enqueue of the message `id` with the idempotency key `k`. -/
def enqueueingTo (id queue channel : Bytes) : EnqueueMessageRequest Empty where
  messageId := id
  queue
  channel
  idempotencyKey := some (ascii "k")
  payload := .null

/-- The same enqueue, twice. -/
def repeatingRun : List (SessionEvent (QueueRequest Empty) Unit) :=
  soloSession 0 (QueueRequest.enqueue (enqueueingTo (ascii "m") (ascii "a") (ascii "b"))) 3 ++
  soloSession 1 (QueueRequest.enqueue (enqueueingTo (ascii "n") (ascii "a") (ascii "b"))) 3

theorem enqueue_idempotent_repeating :
    Idempotent (queueLog repeatingRun) (queueDocs repeatingRun) := by
  refine enqueue_idempotent repeatingRun ?_
  simp only [repeatingRun, runMeets_append]
  refine ⟨?_, ?_⟩ <;>
    refine runMeets_soloSession (by simp [length_slots_run, World.init]) ?_ _
  · refine ⟨fun r' m' hanswered => ?_, fun _ k hk => ?_⟩
    · cases hanswered.1
    · cases hk
  · refine ⟨fun r' m' hanswered _ _ => ?_, fun hnew => ?_⟩
    · cases List.mem_singleton.mp hanswered.1
      exact ⟨rfl, rfl, rfl⟩
    · exact absurd ⟨ascii "k", rfl, nofun⟩ hnew

/-- Two enqueues whose queues and channels differ: `a:b` and `c`, `a` and `b:c`. -/
def aliasingRun : List (SessionEvent (QueueRequest Empty) Unit) :=
  soloSession 0 (QueueRequest.enqueue (enqueueingTo (ascii "m") (ascii "a:b") (ascii "c"))) 3 ++
  soloSession 1 (QueueRequest.enqueue (enqueueingTo (ascii "n") (ascii "a") (ascii "b:c"))) 3

/-- **The second message is dropped**: its caller is told of the first one, in another queue. -/
theorem idempotency_aliased : ¬ Idempotent (queueLog aliasingRun) (queueDocs aliasingRun) := by
  intro h
  have hsame := (h.same (enqueueingTo (ascii "m") (ascii "a:b") (ascii "c")) _
    (enqueueingTo (ascii "n") (ascii "a") (ascii "b:c")) _ ⟨List.mem_cons_self .., nofun⟩
    ⟨List.mem_cons_of_mem _ (List.mem_cons_self ..), nofun⟩).1.mp rfl
  exact absurd hsame.1 (by decide)

end StateSpec.Runtime.Queue
