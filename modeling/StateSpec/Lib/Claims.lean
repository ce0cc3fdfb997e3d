/-
  CLAIMS — the ledger of one claimable thing: who holds it, over any history.

  A claim is issued under a token, and ends when it is finalized under that token, when the thing is
  canceled, or when the next claim is issued.  `holder` is the token of the claim that is open at the
  end of a history.  A history is `Legal` when each finalization is under the token that is open.

  If no token is issued twice, a legal history finalizes each token at most once
  (`Legal.finalized_once`), and never after anything else has happened to the thing since its claim
  (`Legal.fenced`): a token that is never repeated fences off the former holders.
-/
import Mathlib.Data.List.Induction
import Mathlib.Data.List.Nodup

namespace StateSpec

/-- What can happen to a claimable thing. -/
inductive ClaimEvent (T : Type) where
  | issue (token : T)
  | finalize (token : T)
  | cancel
  | other
deriving DecidableEq

namespace ClaimEvent

variable {T : Type}

/-- The open claim after an event, from the one before. -/
def next (current : Option T) : ClaimEvent T → Option T
  | .issue token => some token
  | .finalize _ => none
  | .cancel => none
  | .other => current

/-- The token of the claim that is open after a history. -/
def holder (events : List (ClaimEvent T)) : Option T := events.foldl next none

/-- The tokens issued in a history, in order. -/
def issued (events : List (ClaimEvent T)) : List T :=
  events.filterMap fun
    | .issue token => some token
    | _ => none

/-- The tokens finalized in a history, in order. -/
def finalized (events : List (ClaimEvent T)) : List T :=
  events.filterMap fun
    | .finalize token => some token
    | _ => none

/-- Each finalization is under the token that is open. -/
inductive Legal : List (ClaimEvent T) → Prop where
  | nil : Legal []
  | snoc {events : List (ClaimEvent T)} {event : ClaimEvent T} : Legal events →
      (∀ token, event = .finalize token → holder events = some token) → Legal (events ++ [event])

theorem holder_snoc (events : List (ClaimEvent T)) (event : ClaimEvent T) :
    holder (events ++ [event]) = next (holder events) event := by
  rw [holder, List.foldl_append]
  rfl

theorem issued_snoc_issue (events : List (ClaimEvent T)) (token : T) :
    issued (events ++ [.issue token]) = issued events ++ [token] := by
  rw [issued, List.filterMap_append]
  rfl

theorem issued_snoc_of_ne {events : List (ClaimEvent T)} {event : ClaimEvent T}
    (h : ∀ token, event ≠ .issue token) : issued (events ++ [event]) = issued events := by
  rw [issued, List.filterMap_append]
  cases event with
  | issue token => exact absurd rfl (h token)
  | _ => exact List.append_nil _

theorem mem_issued {events : List (ClaimEvent T)} {token : T} :
    token ∈ issued events ↔ .issue token ∈ events := by
  rw [issued, List.mem_filterMap]
  constructor
  · rintro ⟨event, hmem, h⟩
    cases event with
    | issue t =>
      cases h
      exact hmem
    | _ => cases h
  · exact fun h => ⟨_, h, rfl⟩

theorem mem_finalized {events : List (ClaimEvent T)} {token : T} :
    token ∈ finalized events ↔ .finalize token ∈ events := by
  rw [finalized, List.mem_filterMap]
  constructor
  · rintro ⟨event, hmem, h⟩
    cases event with
    | finalize t =>
      cases h
      exact hmem
    | _ => cases h
  · exact fun h => ⟨_, h, rfl⟩

/-- The open claim has been issued. -/
theorem issue_of_holder {events : List (ClaimEvent T)} {token : T}
    (h : holder events = some token) : .issue token ∈ events := by
  induction events using List.reverseRecOn with
  | nil => cases h
  | append_singleton events event ih =>
    rw [holder_snoc] at h
    cases event with
    | issue t =>
      cases h
      exact List.mem_append_right _ (List.mem_singleton_self _)
    | finalize t => cases h
    | cancel => cases h
    | other => exact List.mem_append_left _ (ih h)

/-- **A claim is over once anything has happened since**: when no token is issued twice, a token is
    not open any more after another event that concerns the claim. -/
theorem holder_ne {before after : List (ClaimEvent T)} {token : T} {event : ClaimEvent T}
    (hnodup : (issued (before ++ .issue token :: after)).Nodup) (hmem : event ∈ after)
    (hevent : event ≠ .other) : holder (before ++ .issue token :: after) ≠ some token := by
  induction after using List.reverseRecOn with
  | nil => cases hmem
  | append_singleton after last ih =>
    rw [← List.cons_append, ← List.append_assoc] at hnodup ⊢
    rw [holder_snoc]
    cases last with
    | issue t =>
      rintro ⟨rfl⟩
      rw [issued_snoc_issue] at hnodup
      refine (List.nodup_append.mp hnodup).2.2 token ?_ token (List.mem_singleton_self _) rfl
      exact mem_issued.mpr (List.mem_append_right _ List.mem_cons_self)
    | finalize t => nofun
    | cancel => nofun
    | other =>
      have hother : ∀ t : T, ClaimEvent.other ≠ .issue t := nofun
      rw [issued_snoc_of_ne hother] at hnodup
      refine ih hnodup ?_
      rcases List.mem_append.mp hmem with h | h
      · exact h
      · exact absurd (List.mem_singleton.mp h) hevent

theorem legal_snoc {events : List (ClaimEvent T)} {event : ClaimEvent T}
    (h : Legal (events ++ [event])) :
    Legal events ∧ ∀ token, event = .finalize token → holder events = some token := by
  generalize hall : events ++ [event] = all at h
  cases h with
  | nil => simp at hall
  | snoc hlegal hholder =>
    obtain ⟨rfl, hlast⟩ := List.append_inj' hall rfl
    obtain rfl := List.singleton_inj.mp hlast
    exact ⟨hlegal, hholder⟩

theorem Legal.of_append {events more : List (ClaimEvent T)} (h : Legal (events ++ more)) :
    Legal events := by
  induction more using List.reverseRecOn with
  | nil => simpa using h
  | append_singleton more event ih =>
    rw [← List.append_assoc] at h
    exact ih (legal_snoc h).1

/-- The finalized token was open. -/
theorem Legal.holder {before after : List (ClaimEvent T)} {token : T}
    (h : Legal (before ++ .finalize token :: after)) : ClaimEvent.holder before = some token := by
  rw [← List.singleton_append, ← List.append_assoc] at h
  exact (legal_snoc h.of_append).2 token rfl

/-- **No finalization after anything else has happened since the claim.** -/
theorem Legal.fenced {before after : List (ClaimEvent T)} {token : T} {event : ClaimEvent T}
    (h : Legal (before ++ .issue token :: after))
    (hnodup : (issued (before ++ .issue token :: after)).Nodup) {middle rest : List (ClaimEvent T)}
    (hafter : after = middle ++ event :: rest) (hevent : event ≠ .other) :
    .finalize token ∉ rest := by
  subst hafter
  intro hmem
  obtain ⟨rest₁, rest₂, rfl⟩ := List.append_of_mem hmem
  have hsplit : before ++ .issue token :: (middle ++ event :: (rest₁ ++ .finalize token :: rest₂)) =
      (before ++ .issue token :: (middle ++ event :: rest₁)) ++ .finalize token :: rest₂ := by simp
  rw [hsplit] at h hnodup
  have hbefore : (issued (before ++ .issue token :: (middle ++ event :: rest₁))).Nodup := by
    rw [issued, List.filterMap_append] at hnodup
    exact (List.nodup_append.mp hnodup).1
  exact holder_ne hbefore (List.mem_append_right _ List.mem_cons_self) hevent h.holder

/-- **A token is finalized at most once.** -/
theorem Legal.finalized_once {events : List (ClaimEvent T)} (h : Legal events)
    (hnodup : (issued events).Nodup) : (finalized events).Nodup := by
  induction h with
  | nil => exact List.nodup_nil
  | @snoc events event hlegal hholder ih =>
    have hnodup' : (issued events).Nodup := by
      rw [issued, List.filterMap_append] at hnodup
      exact (List.nodup_append.mp hnodup).1
    rw [finalized, List.filterMap_append, ← finalized, List.nodup_append]
    refine ⟨ih hnodup', ?_, ?_⟩
    · cases event <;> simp
    · rintro t ht t' ht' rfl
      obtain rfl : event = .finalize t := List.mem_singleton.mp
        (mem_finalized.mp ht') |>.symm
      -- the token was open when it was finalized before, so it was issued before that
      obtain ⟨before, after, rfl⟩ := List.append_of_mem (mem_finalized.mp ht)
      obtain ⟨before₁, before₂, rfl⟩ := List.append_of_mem (issue_of_holder hlegal.holder)
      rw [List.append_assoc, List.cons_append] at hnodup' hholder
      exact holder_ne hnodup' (List.mem_append_right _ List.mem_cons_self) (fun h => by cases h)
        (hholder t rfl)

end ClaimEvent

end StateSpec
