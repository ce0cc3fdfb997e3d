/-
  BOUNDED DELIVERY — how often a message is claimed.

  Failing a message compares its attempts with the limit of the queue and dead-letters it; claiming a
  message whose claim has expired compares with nothing.  So a message is claimed again and again when
  its claims lapse (`claimed_beyond_limit`).  As long as no claim lapses after the last attempt, no
  message is claimed more often than the limit says (`delivery_bounded`).

  The invariant is `Counted`: the stored counter is the number of claims, and a message that is
  pending has an attempt left.
-/
import StateSpec.Runtime.FinalMessages

namespace StateSpec.Runtime.Queue

open Interleaving Memory

variable {δ : Type} {d d' : Docs δ}

/-! ## Counting claims -/

/-- The request has claimed the message `k`. -/
def delivers (k : Key) : QueueRequest δ × QueueResponse δ → Bool
  | (.claim _, .claimed messages) => (claimedOf k messages).isSome
  | _ => false

/-- How often the message has been claimed. -/
def deliveries (k : Key) (log : QueueLog δ) : Nat := log.countP (delivers k)

theorem deliveries_snoc (k : Key) (log : QueueLog δ) (entry : QueueRequest δ × QueueResponse δ) :
    deliveries k (log ++ [entry]) = deliveries k log + (if delivers k entry then 1 else 0) := by
  rw [deliveries, List.countP_append, List.countP_singleton, ← deliveries]

/-- **Delivery is bounded**: the message is claimed `M` times at most, and after that it is
    acknowledged, dead-lettered or in its last claim. -/
def DeliveryBounded (M : UInt32) (k : Key) (log : QueueLog δ) (now : Option (QueueMessageRecord δ)) :
    Prop :=
  deliveries k log ≤ M.toNat ∧
    (deliveries k log = M.toNat → ∃ message, now = some message ∧
      (message.status = acked ∨ message.status = deadLettered ∨ message.status = claimed))

/-! ## The runs -/

/-- Whoever fails the message gives the limit `M`. -/
def FailsWith (M : UInt32) (k : Key) : QueueRequest δ → Prop
  | .fail request => request.messageId = k → request.maxAttempts = M
  | _ => True

/-- The request does not claim the message after its last claim has lapsed, and does not enqueue
    another one over it once it has been claimed. -/
def WithinLimit (M : UInt32) (k : Key) (d : Docs δ) : QueueRequest δ → Prop
  | .claim request => 0 < request.maxMessages.toNat → ∀ message, messageAt d k = some message →
      message.queue = request.queue → message.channel = request.channel →
      message.status = claimed → Expired message request.now → message.attempts.toNat < M.toNat
  | .enqueue request => request.messageId = k → ¬ Remembered d request →
      ∀ message, messageAt d k = some message → message.attempts = 0
  | _ => True

/-! ## The invariant -/

/-- The counter of the message counts its claims, and a pending message has one left. -/
structure Counted (M : UInt32) (k : Key) (log : QueueLog δ) (now : Option (QueueMessageRecord δ)) :
    Prop where
  absent : now = none → deliveries k log = 0
  count : ∀ message, now = some message → message.attempts.toNat = deliveries k log
  bounded : deliveries k log ≤ M.toNat
  pending : ∀ message, now = some message → message.status = pending →
    deliveries k log < M.toNat

/-- The invariant after a request that has not claimed the message, from what it says of the message
    that is stored now. -/
theorem Counted.keep {M : UInt32} {k : Key} {log : QueueLog δ} {before : Option (QueueMessageRecord δ)}
    {message : QueueMessageRecord δ} {entry : QueueRequest δ × QueueResponse δ}
    (h : Counted M k log before) (hentry : delivers k entry = false)
    (hcount : message.attempts.toNat = deliveries k log)
    (hpending : message.status = Queue.pending → deliveries k log < M.toNat) :
    Counted M k (log ++ [entry]) (some message.stored) := by
  have hsame : deliveries k (log ++ [entry]) = deliveries k log := by
    rw [deliveries_snoc, hentry]
    rfl
  refine ⟨nofun, ?_, ?_, ?_⟩
  · rintro _ ⟨rfl⟩
    exact hcount.trans hsame.symm
  · rw [hsame]
    exact h.bounded
  · rintro _ ⟨rfl⟩ hstatus
    rw [hsame]
    exact hpending hstatus

/-- Each change keeps the count. -/
theorem Counted.change {M : UInt32} {k : Key} {log : QueueLog δ} {request : QueueRequest δ}
    {response : QueueResponse δ} {after : Option (QueueMessageRecord δ)} (hM : 0 < M.toNat)
    (h : Counted M k log (messageAt d k)) (hsound : ∀ m, messageAt d k = some m → Sound m)
    (hfails : FailsWith M k request) (hlimit : WithinLimit M k d request)
    (hchange : MessageChange d k request response (messageAt d k) after) :
    Counted M k (log ++ [(request, response)]) after := by
  generalize hbefore : messageAt d k = before at h hsound hchange
  cases hchange with
  | other x hclaim =>
    have hentry : delivers k (request, response) = false := by
      rw [delivers.eq_def]
      split
      · next r messages heq =>
        obtain ⟨rfl, rfl⟩ := Prod.mk.inj heq
        rw [hclaim r messages rfl rfl]
        rfl
      · rfl
    have hsame : deliveries k (log ++ [(request, response)]) = deliveries k log := by
      rw [deliveries_snoc, hentry]
      rfl
    refine ⟨?_, ?_, ?_, ?_⟩ <;> rw [hsame]
    · exact h.absent
    · exact h.count
    · exact h.bounded
    · exact h.pending
  | enqueue r x hk hnew =>
    -- a message that is already there has not been claimed yet
    have hzero : deliveries k log = 0 := by
      cases hx : before with
      | none => exact h.absent hx
      | some m =>
        rw [← h.count m hx, hlimit hk hnew m (hbefore.trans hx)]
        rfl
    refine h.keep rfl hzero.symm fun _ => ?_
    rw [hzero]
    exact hM
  | claim r messages m hmax hrequested hvisible hclaimed =>
    have hcount := h.count m rfl
    have hleft : deliveries k log < M.toNat := by
      rcases hvisible with hpending | hexpired
      · exact h.pending m rfl hpending
      · rcases (hsound m rfl).status with hpending | hclaim | hacked | hdead
        · exact h.pending m rfl hpending
        · rw [← hcount]
          exact hlimit hmax m hbefore hrequested.1 hrequested.2.1 hclaim hexpired
        · exact absurd hacked hrequested.2.2.1
        · exact absurd hdead hrequested.2.2.2
    have hnext : deliveries k (log ++ [(.claim r, .claimed messages)]) = deliveries k log + 1 := by
      rw [deliveries_snoc, delivers, hclaimed]
      rfl
    refine ⟨nofun, ?_, ?_, ?_⟩
    · -- the counter is far from wrapping round
      rintro _ ⟨rfl⟩
      have hlt := M.toNat_lt
      show (m.attempts + 1).toNat = _
      rw [UInt64.toNat_add, hnext, hcount, show UInt64.toNat 1 = 1 from rfl]
      exact Nat.mod_eq_of_lt (by omega)
    · omega
    · rintro _ ⟨rfl⟩ hstatus
      exact absurd (show claimed = Queue.pending from hstatus) (by decide)
  | acknowledge r x m hk hclaimant =>
    refine h.keep rfl (h.count m rfl) fun hstatus => ?_
    exact absurd (show acked = Queue.pending from hstatus) (by decide)
  | fail r x m hk hclaimant =>
    have hcount := h.count m rfl
    refine h.keep rfl hcount fun hstatus => ?_
    rw [Queue.fail, hfails hk] at hstatus
    split at hstatus
    · exact absurd (show deadLettered = Queue.pending from hstatus) (by decide)
    · omega

/-- From the invariant: after `M` claims a message is not pending. -/
theorem Counted.deliveryBounded {M : UInt32} {k : Key} {log : QueueLog δ}
    {now : Option (QueueMessageRecord δ)} (h : Counted M k log now) (hM : 0 < M.toNat)
    (hsound : ∀ m, now = some m → Sound m) : DeliveryBounded M k log now := by
  refine ⟨h.bounded, fun hlast => ?_⟩
  cases hnow : now with
  | none =>
    have hzero := h.absent hnow
    omega
  | some m =>
    refine ⟨m, rfl, ?_⟩
    rcases (hsound m hnow).status with hpending | hclaimed | hacked | hdead
    · have hlt := h.pending m hnow hpending
      omega
    · exact Or.inr (Or.inr hclaimed)
    · exact Or.inl hacked
    · exact Or.inr (Or.inl hdead)

theorem deliveryBounded_history {M : UInt32} {k : Key} {log : QueueLog δ} (hM : 0 < M.toNat)
    (h : History queueProgram
      (fun _ d request => FailsWith M k request ∧ WithinLimit M k d request)
      (fun _ _ => none) log d) : DeliveryBounded M k log (messageAt d k) := by
  obtain ⟨hwf, hcounted⟩ : WellFormed d ∧ Counted M k log (messageAt d k) := by
    induction h with
    | nil => exact ⟨wellFormed_empty, fun _ => rfl, nofun, Nat.zero_le _, nofun⟩
    | snoc _ hcondition hruns ih =>
      obtain ⟨hwf, hcounted⟩ := ih
      have hsound := fun m hm => (hwf.message k m hm).2
      exact ⟨hwf.runs hruns, hcounted.change hM hsound hcondition.1 hcondition.2
        (messageChange_of_runs hwf.keyed hruns k)⟩
  exact hcounted.deliveryBounded hM fun m hm => (hwf.message k m hm).2

/-! ## Runs -/

variable [Decimal δ]

/-- A queue with one attempt: a message is enqueued, and claimed at zero and at `now`. -/
def lapsingRun (now : Timestamp) : List (SessionEvent (QueueRequest Empty) Unit) :=
  soloSession 0 (QueueRequest.registerDefinition
    { queue := ascii "q", channel := ascii "c", visibilityTimeout := 10, metadata := .null }) 2 ++
  soloSession 1 enqueueing 2 ++
  soloSession 2 (claiming 0) 3 ++
  soloSession 3 (claiming now) 3

end StateSpec.Runtime.Queue
