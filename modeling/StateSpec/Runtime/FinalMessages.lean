/-
  FINAL MESSAGES — what can still happen to a message that is acknowledged or dead-lettered.

  Claiming skips both.  A dead-lettered message has no claimant, so nobody can acknowledge or fail it.
  An acknowledged one keeps its claimant, who can fail it (`acked_then_failed`), and enqueueing puts a
  message whatever is stored under its id.  Without these two, a final message stays what it is
  (`final_kept`).
-/
import StateSpec.Runtime.QueueMessages

namespace StateSpec.Runtime.Queue

open Interleaving Memory

variable {δ : Type} {d d' : Docs δ}

/-- The status of a message that is done with. -/
def Final (status : Bytes) : Prop := status = acked ∨ status = deadLettered

/-- The message is there with the same status, attempts and payload. -/
def SameAs (message : QueueMessageRecord δ) (now : Option (QueueMessageRecord δ)) : Prop :=
  ∃ m, now = some m ∧ m.status = message.status ∧ m.attempts = message.attempts ∧
    m.payload = message.payload

/-- **Final messages are final**: if the message `k` is final in `d`, it is the same in `d'`. -/
def StaysFinal (k : Key) (d d' : Docs δ) : Prop :=
  ∀ message, messageAt d k = some message → Final message.status → SameAs message (messageAt d' k)

/-- The request neither fails the message `k` after its caller has acknowledged it, nor enqueues
    another message over a final one. -/
def KeepsFinal (k : Key) (d : Docs δ) : QueueRequest δ → Prop
  | .fail request => request.messageId = k → ∀ message, messageAt d k = some message →
      message.status = acked → message.claimedBy ≠ some request.claimant
  | .enqueue request => request.messageId = k → ¬ Remembered d request →
      ∀ message, messageAt d k = some message → ¬ Final message.status
  | _ => True

/-- Each change that meets the condition leaves a final message as it is. -/
theorem SameAs.change {k : Key} {message : QueueMessageRecord δ} {request : QueueRequest δ}
    {response : QueueResponse δ} {after : Option (QueueMessageRecord δ)}
    (h : SameAs message (messageAt d k)) (hfinal : Final message.status)
    (hsound : ∀ m, messageAt d k = some m → Sound m) (hkeeps : KeepsFinal k d request)
    (hchange : MessageChange d k request response (messageAt d k) after) :
    SameAs message after := by
  obtain ⟨m, hm, hstatus, hattempts, hpayload⟩ := h
  have hfinal' : Final m.status := hstatus ▸ hfinal
  have hsound' := hsound m hm
  generalize hbefore : messageAt d k = before at hchange hm
  cases hchange with
  | other x hclaim => exact ⟨m, hm, hstatus, hattempts, hpayload⟩
  | enqueue r x hk hnew => exact absurd hfinal' (hkeeps hk hnew m (hbefore.trans hm))
  | claim r messages x hmax hrequested hvisible hclaimed =>
    cases hm
    rcases hfinal' with hacked | hdead
    · exact absurd hacked hrequested.2.2.1
    · exact absurd hdead hrequested.2.2.2
  | acknowledge r x message' hk hclaimant =>
    cases hm
    rcases hsound'.of_claimedBy hclaimant with hclaimed | hacked
    · rw [hclaimed] at hfinal'
      rcases hfinal' with hstatus' | hstatus' <;>
        exact absurd hstatus' (by decide)
    · exact ⟨_, rfl, hacked.symm.trans hstatus, hattempts, hpayload⟩
  | fail r x message' hk hclaimant =>
    cases hm
    rcases hsound'.of_claimedBy hclaimant with hclaimed | hacked
    · rw [hclaimed] at hfinal'
      rcases hfinal' with hstatus' | hstatus' <;>
        exact absurd hstatus' (by decide)
    · exact absurd hclaimant (hkeeps hk m hbefore hacked)

theorem staysFinal_history {d₀ : Docs δ} {log : QueueLog δ} {k : Key}
    (h : History queueProgram (fun _ d request => KeepsFinal k d request) d₀ log d)
    (hwf : WellFormed d₀) : StaysFinal k d₀ d := by
  intro message hmessage hfinal
  induction h with
  | nil => exact ⟨message, hmessage, rfl, rfl, rfl⟩
  | @snoc log d d' request response hbefore hkeeps hruns ih =>
    have hwf' : WellFormed d :=
      (history_invariant (Q := fun _ _ => True) k hbefore hwf trivial
        fun _ _ _ _ _ _ _ _ _ => trivial).1
    exact ih.change hfinal (fun m hm => (hwf'.message k m hm).2) hkeeps
      (messageChange_of_runs hwf'.keyed hruns k)

/-! ## Runs -/

variable [Decimal δ]

/-- **A final message stays what it is** in every history and every run in which nobody fails the
    message after having acknowledged it, and no message is enqueued over it. -/
theorem final_kept (k : Key) :
    (∀ (d₀ d : Docs δ) (before log : QueueLog δ),
      History queueProgram (fun _ _ _ => True) (fun _ _ => none) before d₀ →
      History queueProgram (fun _ d request => KeepsFinal k d request) d₀ log d →
      StaysFinal k d₀ d) ∧
    ∀ es es' : List (SessionEvent (QueueRequest δ) Unit),
      RunMeets queueStore (Committing fun _ d request => KeepsFinal k d request)
        (run queueStore (World.init InMemoryState.empty) es) es' →
      StaysFinal k (queueDocs es) (queueDocs (es ++ es')) := by
  refine ⟨?_, ?_⟩
  · intro d₀ d before log hbefore h
    exact staysFinal_history h (history_invariant (Q := fun _ _ => True) k hbefore wellFormed_empty
      trivial fun _ _ _ _ _ _ _ _ _ => trivial).1
  · intro es es' hes
    exact staysFinal_history (history_since (P := fun _ d request => KeepsFinal k d request)
      later_ensureQueueCollections docs_ensureQueueCollections _ es es' hes) (wellFormed_run es)

/-- The message `m` is enqueued. -/
def enqueueing : QueueRequest Empty :=
  .enqueue { messageId := ascii "m", queue := ascii "q", channel := ascii "c", payload := .null }

/-- The claimant `w` claims a message at `now`, for ten seconds. -/
def claiming (now : Timestamp) : QueueRequest Empty :=
  .claim { queue := ascii "q", channel := ascii "c", claimant := ascii "w", now,
           visibilityTimeout := 10 }

/-- A message is enqueued, claimed and acknowledged. -/
def acknowledgingRun : List (SessionEvent (QueueRequest Empty) Unit) :=
  soloSession 0 enqueueing 2 ++
  soloSession 1 (claiming 0) 3 ++
  soloSession 2 (QueueRequest.acknowledge { messageId := ascii "m", claimant := ascii "w" }) 3

/-- Then there is another claim. -/
def claimingRun : List (SessionEvent (QueueRequest Empty) Unit) :=
  soloSession 3 (claiming 20000000000) 3

/-- Or its claimant fails it. -/
def failingRun : List (SessionEvent (QueueRequest Empty) Unit) :=
  soloSession 3 (QueueRequest.fail
    { messageId := ascii "m", claimant := ascii "w", reason := [], now := 0, maxAttempts := 5 }) 3

theorem final_kept_claiming :
    StaysFinal (ascii "m") (queueDocs acknowledgingRun)
      (queueDocs (acknowledgingRun ++ claimingRun)) := by
  refine (final_kept (ascii "m")).2 acknowledgingRun claimingRun ?_
  exact runMeets_soloSession (by simp [acknowledgingRun, length_slots_run, World.init]) trivial _

/-- **An acknowledged message is pending again**, when the one who has acknowledged it fails it. -/
theorem acked_then_failed :
    ∃ message message' : QueueMessageRecord Empty,
      messageAt (queueDocs acknowledgingRun) (ascii "m") = some message ∧
      message.status = acked ∧
      messageAt (queueDocs (acknowledgingRun ++ failingRun)) (ascii "m") = some message' ∧
      message'.status = pending ∧
      ¬ StaysFinal (ascii "m") (queueDocs acknowledgingRun)
        (queueDocs (acknowledgingRun ++ failingRun)) := by
  refine ⟨_, _, rfl, rfl, rfl, rfl, ?_⟩
  intro hfinal
  obtain ⟨m, hm, hstatus, -⟩ := hfinal _ rfl (Or.inl rfl)
  cases hm
  revert hstatus
  decide

end StateSpec.Runtime.Queue
