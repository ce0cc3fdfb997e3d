/-
  CLAIM EXCLUSIVITY — whether a message is delivered to two claimants at the same time.

  A claim is stored with the time it expires at, and claiming skips a message whose stored claim has
  not expired.  So of two claims of a message, one right after the other, the later one comes when the
  earlier one has expired, unless the message has failed in between.  Of two claims with others in
  between that is not so: a `visibility_timeout` can be negative, a claim with it has expired before it
  is made, and a clock that is behind can claim the message again (`claimed_twice`).  Without such a
  claim in between, the times only go up: `claims_exclusive`.

  The invariant is `Held`: the stored claim expires no earlier than a former one did.
-/
import StateSpec.Runtime.QueueMessages

namespace StateSpec.Runtime.Queue

open Program Interleaving Memory

variable {δ : Type} {d d' : Docs δ}

/-! ## Two claims of a message -/

/-- The message fails. -/
def FailedIn (k : Key) (log : QueueLog δ) : Prop :=
  ∃ request response, (.fail request, response) ∈ log ∧ request.messageId = k

/-- The message is claimed for a negative time. -/
def LapsedIn (k : Key) (log : QueueLog δ) : Prop :=
  ∃ request messages, (.claim request, .claimed messages) ∈ log ∧ claimedOf k messages ≠ none ∧
    request.visibilityTimeout < 0

/-- **What lies between two claims of a message** satisfies `P`, which is told what the first claim has
    returned, the requests in between and the second claim. -/
def BetweenClaims (P : QueueMessageRecord δ → QueueLog δ → ClaimMessageRequest → Prop) (k : Key)
    (log : QueueLog δ) : Prop :=
  ∀ before first firsts message middle second seconds rest,
    log = before ++ (.claim first, .claimed firsts) ::
      (middle ++ (.claim second, .claimed seconds) :: rest) →
    claimedOf k firsts = some message → claimedOf k seconds ≠ none → P message middle second

/-- **Claims are exclusive**: of two claims of a message, the later one comes after the stored expiry
    of the earlier one, or the message has failed in between. -/
def Exclusive : Key → QueueLog δ → Prop :=
  BetweenClaims fun message middle second =>
    FailedIn message.messageId middle ∨ Expired message.stored second.now

/-- The same, unless the message has been claimed for a negative time in between. -/
def ExclusiveUnlessLapsed : Key → QueueLog δ → Prop :=
  BetweenClaims fun message middle second =>
    FailedIn message.messageId middle ∨ LapsedIn message.messageId middle ∨
      Expired message.stored second.now

/-- The request enqueues no other message over the message `k`. -/
def KeepsMessage (k : Key) (d : Docs δ) : QueueRequest δ → Prop
  | .enqueue request => request.messageId = k → ¬ Remembered d request → messageAt d k = none
  | _ => True

/-! ## The invariant -/

/-- What is stored is claimed or acknowledged, until the expiry of `message` or later. -/
def Held (message : QueueMessageRecord δ) (now : Option (QueueMessageRecord δ)) : Prop :=
  ∃ m expiry current, now = some m ∧ (m.status = claimed ∨ m.status = acked) ∧
    message.claimExpiresAt = some expiry ∧ m.claimExpiresAt = some current ∧ expiry.stored ≤ current

/-- A message that is claimed again has expired. -/
theorem Held.expired {message m : QueueMessageRecord δ} {request : ClaimMessageRequest}
    (h : Held message (some m)) (hrequested : Requested request m)
    (hvisible : Visible m request.now) : Expired message.stored request.now := by
  obtain ⟨_, expiry, current, ⟨rfl⟩, hstatus, hexpiry, hcurrent, hle⟩ := h
  obtain ⟨-, -, hnotAcked, -⟩ := hrequested
  refine ⟨expiry.stored, ?_, ?_⟩
  · rw [QueueMessageRecord.stored, hexpiry]
    rfl
  rcases hvisible with hpending | ⟨time, htime, hpast⟩
  · -- a message that is held is not pending
    rcases hstatus with hclaimed | hacked
    · exact absurd (hclaimed.symm.trans hpending) (by decide)
    · exact absurd hacked hnotAcked
  · obtain rfl := Option.some_inj.mp (hcurrent.symm.trans htime)
    exact Int.le_trans hle hpast

/-- A new claim holds the message. -/
theorem Held.new (request : ClaimMessageRequest) (message : QueueMessageRecord δ) :
    Held (claim request message) (some (claim request message).stored) :=
  ⟨_, _, _, rfl, Or.inl rfl, rfl, rfl, Int.le_refl _⟩

/-- A claim that is made after the expiry, for a time that is not negative, holds it on. -/
theorem Held.renewed {message m : QueueMessageRecord δ} {request : ClaimMessageRequest}
    (h : Held message (some m)) (hexpired : Expired message.stored request.now)
    (htimeout : 0 ≤ request.visibilityTimeout) :
    Held message (some (claim request m).stored) := by
  obtain ⟨-, expiry, -, -, -, hexpiry, -, -⟩ := h
  obtain ⟨time, htime, hpast⟩ := hexpired
  rw [QueueMessageRecord.stored, hexpiry] at htime
  obtain rfl := Option.some_inj.mp htime
  refine ⟨_, expiry, _, rfl, Or.inl rfl, hexpiry, rfl, ?_⟩
  have hplus : expiry.stored ≤ request.now.plus request.visibilityTimeout :=
    Int.le_trans hpast (Int.le_add_of_nonneg_right (Int.mul_nonneg htimeout (by decide)))
  exact Timestamp.stored_le_stored hplus

/-- The request ends what was held: it fails the message, or claims it for a negative time. -/
def Ends (k : Key) (entry : QueueRequest δ × QueueResponse δ) : Prop :=
  FailedIn k [entry] ∨ LapsedIn k [entry]

/-- Each other change keeps it. -/
theorem Held.change {k : Key} {message : QueueMessageRecord δ} {request : QueueRequest δ}
    {response : QueueResponse δ} {after : Option (QueueMessageRecord δ)}
    (h : Held message (messageAt d k)) (hkeeps : KeepsMessage k d request)
    (hchange : MessageChange d k request response (messageAt d k) after) :
    Ends k (request, response) ∨ Held message after := by
  generalize hbefore : messageAt d k = before at h hchange
  cases hchange with
  | other x hclaim => exact Or.inr h
  | enqueue r x hk hnew =>
    obtain ⟨m, -, -, hm, -⟩ := h
    rw [hm, hkeeps hk hnew] at hbefore
    cases hbefore
  | claim r messages m hmax hrequested hvisible hclaimed =>
    by_cases htimeout : r.visibilityTimeout < 0
    · refine Or.inl (Or.inr ⟨r, messages, List.mem_singleton.mpr rfl, ?_, htimeout⟩)
      rw [hclaimed]
      nofun
    · exact Or.inr (h.renewed (h.expired hrequested hvisible) (Int.not_lt.mp htimeout))
  | acknowledge r x m hk hclaimant =>
    obtain ⟨_, expiry, current, ⟨rfl⟩, -, hexpiry, hcurrent, hle⟩ := h
    refine Or.inr ⟨_, expiry, current.stored, rfl, Or.inr rfl, hexpiry, ?_, ?_⟩
    · show m.claimExpiresAt.map Timestamp.stored = _
      rw [hcurrent]
      rfl
    · exact Timestamp.stored_le_stored hle
  | fail r x m hk hclaimant => exact Or.inl (Or.inl ⟨r, _, List.mem_singleton.mpr rfl, hk⟩)

/-- Each claim of the message holds it still, or has been ended since. -/
def HeldSince (k : Key) (log : QueueLog δ) (now : Option (QueueMessageRecord δ)) : Prop :=
  ∀ before first firsts message middle, log = before ++ (.claim first, .claimed firsts) :: middle →
    claimedOf k firsts = some message →
    message.messageId = k ∧ ((∃ entry ∈ middle, Ends k entry) ∨ Held message now)

theorem HeldSince.change {k : Key} {log : QueueLog δ} {request : QueueRequest δ}
    {response : QueueResponse δ} {after : Option (QueueMessageRecord δ)} (hkeyed : Keyed d)
    (h : HeldSince k log (messageAt d k)) (hkeeps : KeepsMessage k d request)
    (hchange : MessageChange d k request response (messageAt d k) after) :
    HeldSince k (log ++ [(request, response)]) after := by
  intro before first firsts message middle hlog hmessage
  rcases snoc_eq_append_cons hlog with ⟨rfl, -, heq⟩ | ⟨rest, rfl, hlog'⟩
  · -- the claim is the last request
    cases heq
    generalize hbefore : messageAt d k = stored at h hchange
    cases hchange with
    | other x hclaim =>
      rw [hclaim first firsts rfl rfl] at hmessage
      cases hmessage
    | claim r messages m hmax hrequested hvisible hclaimed =>
      obtain rfl := Option.some_inj.mp (hclaimed.symm.trans hmessage)
      exact ⟨hkeyed k m hbefore, Or.inr (Held.new first m)⟩
  · obtain ⟨hid, hended | hheld⟩ := h before first firsts message rest hlog' hmessage
    · obtain ⟨entry, hmem, hends⟩ := hended
      exact ⟨hid, Or.inl ⟨entry, List.mem_append_left _ hmem, hends⟩⟩
    · refine ⟨hid, (hheld.change hkeeps hchange).imp (fun hends => ?_) fun hheld' => hheld'⟩
      exact ⟨_, List.mem_append_right _ (List.mem_singleton.mpr rfl), hends⟩

/-- What ends a claim in a log has failed the message, or has claimed it for a negative time. -/
theorem failed_or_lapsed {k : Key} {log : QueueLog δ} (h : ∃ entry ∈ log, Ends k entry) :
    FailedIn k log ∨ LapsedIn k log := by
  obtain ⟨entry, hmem, hfailed | hlapsed⟩ := h
  · obtain ⟨request, response, heq, hk⟩ := hfailed
    exact Or.inl ⟨request, response, List.mem_singleton.mp heq ▸ hmem, hk⟩
  · obtain ⟨request, messages, heq, hclaimed⟩ := hlapsed
    exact Or.inr ⟨request, messages, List.mem_singleton.mp heq ▸ hmem, hclaimed⟩

/-- One more request keeps the claims exclusive. -/
theorem ExclusiveUnlessLapsed.change {k : Key} {log : QueueLog δ} {request : QueueRequest δ}
    {response : QueueResponse δ} {after : Option (QueueMessageRecord δ)}
    (h : ExclusiveUnlessLapsed k log) (hheld : HeldSince k log (messageAt d k))
    (hchange : MessageChange d k request response (messageAt d k) after) :
    ExclusiveUnlessLapsed k (log ++ [(request, response)]) := by
  intro before first firsts message middle second seconds rest hlog hfirst hsecond
  rcases snoc_eq_append_pair hlog with ⟨rfl, rfl, heq⟩ | ⟨rest, rfl, hlog'⟩
  swap
  · exact h before first firsts message middle second seconds rest hlog' hfirst hsecond
  -- the later claim is the last request
  cases heq
  obtain ⟨rfl, hended | hstill⟩ := hheld before first firsts message middle rfl hfirst
  · exact (failed_or_lapsed hended).imp (fun hfailed => hfailed) Or.inl
  generalize messageAt d message.messageId = stored at hstill hchange
  cases hchange with
  | other x hclaim => exact absurd (hclaim second seconds rfl rfl) hsecond
  | claim r messages m hmax hrequested hvisible hclaimed =>
    exact Or.inr (Or.inr (hstill.expired hrequested hvisible))

/-- Messages stay under their own ids. -/
theorem Keyed.runs {request : QueueRequest δ} {response : QueueResponse δ} (hkeyed : Keyed d)
    (h : (queueProgram request).Runs d response d') : Keyed d' := by
  intro k message hmessage
  have hchange := messageChange_of_runs hkeyed h k
  rw [hmessage] at hchange
  generalize hbefore : messageAt d k = before at hchange
  generalize hafter : some message = after at hchange
  cases hchange with
  | other x hclaim => exact hkeyed k message (hbefore.trans hafter.symm)
  | enqueue r x hk hnew =>
    cases hafter
    exact hk
  | claim r messages m hmax hrequested hvisible hclaimed =>
    cases hafter
    exact hkeyed k m hbefore
  | acknowledge r x m hk hclaimant =>
    cases hafter
    exact hkeyed k m hbefore
  | fail r x m hk hclaimant =>
    cases hafter
    exact hkeyed k m hbefore

theorem exclusive_history {d₀ : Docs δ} {log : QueueLog δ} {k : Key} (hkeyed : Keyed d₀)
    (h : History queueProgram (fun _ d request => KeepsMessage k d request) d₀ log d) :
    Keyed d ∧ HeldSince k log (messageAt d k) ∧ ExclusiveUnlessLapsed k log := by
  induction h with
  | nil =>
    refine ⟨hkeyed, ?_, ?_⟩
    · intro before first firsts message middle hlog
      simp at hlog
    · intro before first firsts message middle second seconds rest hlog
      simp at hlog
  | snoc _ hkeeps hruns ih =>
    obtain ⟨hkeyed', hheld, hexclusive⟩ := ih
    have hchange := messageChange_of_runs hkeyed' hruns k
    exact ⟨hkeyed'.runs hruns, hheld.change hkeyed' hkeeps hchange,
      hexclusive.change hheld hchange⟩

/-! ## Runs -/

variable [Decimal δ]

/-- **Claims are exclusive** in every run, from any state whose messages are stored under their own
    ids, unless a message is claimed for a negative time, or another one is enqueued over it. -/
theorem claims_exclusive (s₀ : Cpp.State δ) (hkeyed : Keyed (docs s₀)) (k : Key)
    (es : List (SessionEvent (QueueRequest δ) Unit))
    (hes : RunMeets queueStore (Committing fun _ d request => KeepsMessage k d request)
      (World.init s₀) es) :
    ExclusiveUnlessLapsed k (answers (run queueStore (World.init s₀) es).log) := by
  have h := history_run (P := fun _ d request => KeepsMessage k d request)
    later_ensureQueueCollections docs_ensureQueueCollections (Discipline.inv_init _ s₀) hes
  rw [log_run]
  exact (exclusive_history hkeyed h).2.2

/-- A claim of a message of the queue `q`, at `now` and for so many seconds. -/
def claimingFor (claimant : Bytes) (now : Timestamp) (visibilityTimeout : Seconds) :
    QueueRequest Empty :=
  .claim { queue := ascii "q", channel := ascii "c", claimant, now, visibilityTimeout }

/-- A message is enqueued and claimed for a hundred seconds.  Then it is claimed for minus a hundred
    seconds, and after that at the fiftieth second. -/
def lapsedRun : List (SessionEvent (QueueRequest Empty) Unit) :=
  soloSession 0 (QueueRequest.enqueue
    { messageId := ascii "m", queue := ascii "q", channel := ascii "c", payload := .null }) 2 ++
  soloSession 1 (claimingFor (ascii "a") 0 100) 3 ++
  soloSession 2 (claimingFor (ascii "b") 100000000000 (-100)) 3 ++
  soloSession 3 (claimingFor (ascii "c") 50000000000 100) 3

theorem claims_exclusive_lapsed :
    ExclusiveUnlessLapsed (ascii "m")
      (answers (run queueStore (World.init InMemoryState.empty) lapsedRun).log) := by
  refine claims_exclusive InMemoryState.empty wellFormed_empty.keyed (ascii "m") lapsedRun ?_
  simp only [lapsedRun, runMeets_append]
  refine ⟨⟨⟨?_, ?_⟩, ?_⟩, ?_⟩ <;>
    refine runMeets_soloSession (by simp [length_slots_run, World.init]) ?_ _
  · exact fun _ _ => rfl
  all_goals trivial

/-- **The third claimant has the message while the first one does**: the claim in between has lapsed
    before it was made. -/
theorem claimed_twice :
    ¬ Exclusive (ascii "m")
      (answers (run queueStore (World.init InMemoryState.empty) lapsedRun).log) := by
  intro h
  have hlast := h [_] _ _ _ [_] _ _ [] rfl rfl
  rcases hlast nofun with ⟨request, response, hmem, -⟩ | hexpired
  · cases List.mem_singleton.mp hmem
  · revert hexpired
    decide

end StateSpec.Runtime.Queue
