/-
  HEARTBEATS — whether the heartbeat records are those of the claims that are there.

  A claim writes a heartbeat under its execution and its token; keeping it alive writes it again;
  completing, failing and canceling erase it.  A claim that takes over from one that has expired
  replaces the token and leaves the old heartbeat behind (`heartbeat_left_behind`).  And the key glues
  an id and a token with ':', which both may contain, so that the heartbeat of another execution may be
  in the place of the new one.

  `Mirrors` is about any tokens and any heartbeats; there is one lemma for each way in which an
  operation changes the two.  As long as each claim finds no token to replace and a free place for its
  heartbeat, the heartbeats mirror the claims: `heartbeats_mirror_claims`.
-/
import Mathlib.Logic.Function.Basic
import StateSpec.Runtime.Executions

namespace StateSpec.Runtime

open Program Interleaving Memory

variable {δ : Type}

/-! ## Tokens and heartbeats -/

/-- The document is the heartbeat of that claim. -/
def IsHeartbeat (document : Json δ) (k token : Bytes) : Prop :=
  document.find (ascii "workflow_execution_id") = some (.string k) ∧
    document.find (ascii "claim_token") = some (.string token)

theorem IsHeartbeat.unique {document : Json δ} {k k' token token' : Bytes}
    (h : IsHeartbeat document k token) (h' : IsHeartbeat document k' token') :
    k = k' ∧ token = token' := by
  have hk := h.1.symm.trans h'.1
  have htoken := h.2.symm.trans h'.2
  cases hk
  cases htoken
  exact ⟨rfl, rfl⟩

theorem isHeartbeat_toJson (heartbeat : WorkflowHeartbeatRecord) :
    IsHeartbeat (heartbeat.toJson : Json δ) heartbeat.workflowExecutionId heartbeat.claimToken :=
  ⟨rfl, rfl⟩

/-- The heartbeats are those of the claims: each claim has one, under its execution and token, and
    there is no other. -/
structure Mirrors (tokens : Key → Option Bytes) (heartbeats : Key → Option (Json δ)) : Prop where
  present : ∀ k token, tokens k = some token →
    ∃ document, heartbeats (heartbeatKey k token) = some document ∧ IsHeartbeat document k token
  only : ∀ key document, heartbeats key = some document →
    ∃ k token, tokens k = some token ∧ key = heartbeatKey k token ∧ IsHeartbeat document k token

variable {tokens : Key → Option Bytes} {heartbeats : Key → Option (Json δ)} {k token : Bytes}

/-- Two executions with a claim have their heartbeats in different places. -/
theorem Mirrors.key_ne (h : Mirrors tokens heartbeats) {k' token' : Bytes} (hk : tokens k = some token)
    (hk' : tokens k' = some token') (hne : k' ≠ k) :
    heartbeatKey k' token' ≠ heartbeatKey k token := by
  intro hkey
  obtain ⟨document, hdocument, his⟩ := h.present k token hk
  obtain ⟨document', hdocument', his'⟩ := h.present k' token' hk'
  rw [hkey, hdocument] at hdocument'
  cases hdocument'
  exact hne (his'.unique his).1

/-- A claim is issued, and its heartbeat written into a free place. -/
theorem Mirrors.issue (h : Mirrors tokens heartbeats) (hfree : tokens k = none)
    (hplace : heartbeats (heartbeatKey k token) = none) {document : Json δ}
    (his : IsHeartbeat document k token) :
    Mirrors (Function.update tokens k (some token))
      (Function.update heartbeats (heartbeatKey k token) (some document)) where
  present k' token' htoken := by
    by_cases hk : k' = k
    · subst hk
      rw [Function.update_self, Option.some_inj] at htoken
      subst htoken
      exact ⟨document, Function.update_self .., his⟩
    · rw [Function.update_of_ne hk] at htoken
      obtain ⟨document', hdocument', his'⟩ := h.present k' token' htoken
      have hne : heartbeatKey k' token' ≠ heartbeatKey k token := by
        intro hkey
        rw [hkey, hplace] at hdocument'
        cases hdocument'
      exact ⟨document', by rw [Function.update_of_ne hne, hdocument'], his'⟩
  only key document' hdocument' := by
    by_cases hkey : key = heartbeatKey k token
    · rw [hkey, Function.update_self, Option.some_inj] at hdocument'
      exact ⟨k, token, Function.update_self .., hkey, hdocument' ▸ his⟩
    · rw [Function.update_of_ne hkey] at hdocument'
      obtain ⟨k', token', htoken', hkey', his'⟩ := h.only key document' hdocument'
      have hne : k' ≠ k := by
        rintro rfl
        rw [hfree] at htoken'
        cases htoken'
      exact ⟨k', token', by rw [Function.update_of_ne hne, htoken'], hkey', his'⟩

/-- The heartbeat of a claim is written again. -/
theorem Mirrors.refresh (h : Mirrors tokens heartbeats) (htoken : tokens k = some token)
    {document : Json δ} (his : IsHeartbeat document k token) :
    Mirrors tokens (Function.update heartbeats (heartbeatKey k token) (some document)) where
  present k' token' htoken' := by
    by_cases hk : k' = k
    · subst hk
      obtain rfl := Option.some_inj.mp (htoken'.symm.trans htoken)
      exact ⟨document, Function.update_self .., his⟩
    · obtain ⟨document', hdocument', his'⟩ := h.present k' token' htoken'
      exact ⟨document', by rw [Function.update_of_ne (h.key_ne htoken htoken' hk), hdocument'], his'⟩
  only key document' hdocument' := by
    by_cases hkey : key = heartbeatKey k token
    · rw [hkey, Function.update_self, Option.some_inj] at hdocument'
      exact ⟨k, token, htoken, hkey, hdocument' ▸ his⟩
    · rw [Function.update_of_ne hkey] at hdocument'
      exact h.only key document' hdocument'

/-- The heartbeat of a claim that may be there, erased. -/
def eraseClaimed (heartbeats : Key → Option (Json δ)) (k : Key) (token : Option Bytes) :
    Key → Option (Json δ) :=
  match token with
  | some token => Function.update heartbeats (heartbeatKey k token) none
  | none => heartbeats

/-- The claim of an execution is released, and its heartbeat erased. -/
theorem Mirrors.release (h : Mirrors tokens heartbeats) (k : Key) :
    Mirrors (Function.update tokens k none) (eraseClaimed heartbeats k (tokens k)) := by
  cases htoken : tokens k with
  | none =>
    have hsame : Function.update tokens k none = tokens := by
      rw [← htoken, Function.update_eq_self]
    rw [hsame]
    exact h
  | some token =>
    show Mirrors _ (Function.update heartbeats (heartbeatKey k token) none)
    refine ⟨?_, ?_⟩
    · intro k' token' htoken'
      by_cases hk : k' = k
      · rw [hk, Function.update_self] at htoken'
        cases htoken'
      · rw [Function.update_of_ne hk] at htoken'
        obtain ⟨document, hdocument, his⟩ := h.present k' token' htoken'
        have hne := h.key_ne htoken htoken' hk
        exact ⟨document, by rw [Function.update_of_ne hne, hdocument], his⟩
    · intro key document hdocument
      by_cases hkey : key = heartbeatKey k token
      · rw [hkey, Function.update_self] at hdocument
        cases hdocument
      · rw [Function.update_of_ne hkey] at hdocument
        obtain ⟨k', token', htoken', hkey', his⟩ := h.only key document hdocument
        have hne : k' ≠ k := by
          rintro rfl
          obtain rfl := Option.some_inj.mp (htoken'.symm.trans htoken)
          exact hkey hkey'
        exact ⟨k', token', by rw [Function.update_of_ne hne, htoken'], hkey', his⟩

/-! ## The documents of the store -/

variable {d d' : Docs δ}

/-- The token of the claim of an execution. -/
def tokenAt (d : Docs δ) (k : Key) : Option Bytes :=
  (executionAt d k).bind WorkflowExecutionRecord.claimToken

/-- **The heartbeats mirror the claims.** -/
def HeartbeatsMirrorClaims (d : Docs δ) : Prop := Mirrors (tokenAt d) (d .workflowHeartbeats)

/-- Where a claim of the execution puts its heartbeat. -/
def newHeartbeatKey (request : ClaimWorkflowStepRequest) (execution : WorkflowExecutionRecord δ) :
    Key :=
  heartbeatKey execution.workflowExecutionId (claimTokenFor (claim request execution) request.worker)

/-- Different executions that one request claims have their heartbeats in different places: the worker
    is the same, and a numeral has no ':'. -/
theorem newHeartbeatKey_inj {request : ClaimWorkflowStepRequest}
    {execution execution' : WorkflowExecutionRecord δ}
    (h : newHeartbeatKey request execution = newHeartbeatKey request execution') :
    execution.workflowExecutionId = execution'.workflowExecutionId := by
  have hsplit (e : WorkflowExecutionRecord δ) : newHeartbeatKey request e =
      ((e.workflowExecutionId ++ colon :: e.workflowExecutionId) ++ colon :: request.worker) ++
        colon :: Bytes.decimal (claim request e).attempt.toNat := by
    show e.workflowExecutionId ++ colon ::
      ((e.workflowExecutionId ++ colon :: request.worker) ++ colon :: _) = _
    simp only [List.append_assoc, List.cons_append]
  rw [hsplit, hsplit] at h
  have hleft := (Bytes.glue_inj_right (Bytes.colon_not_mem_decimal _)
    (Bytes.colon_not_mem_decimal _) h).1
  have hids := List.append_cancel_right hleft
  have hlength := congrArg List.length hids
  simp only [List.length_append, List.length_cons] at hlength
  have hlengths : execution.workflowExecutionId.length = execution'.workflowExecutionId.length := by
    omega
  exact (List.append_inj hids hlengths).1

/-- What a claim has to find: no execution it can claim has a token, or a heartbeat in the place of the
    new one. -/
def NoTakeover (d : Docs δ) : WorkflowRequest δ → Prop
  | .claimSteps request =>
    0 < request.maxSteps.toNat → ∀ k execution, executionAt d k = some execution →
      Requested request execution → Visible execution request.now →
      execution.claimToken = none ∧ d .workflowHeartbeats (newHeartbeatKey request execution) = none
  | _ => True

/-! ## Each request keeps the mirror -/

theorem tokenAt_set (d : Docs δ) (execution : WorkflowExecutionRecord δ) (k : Key) :
    tokenAt (d.set .workflowExecutions k (some execution.toJson)) =
      Function.update (tokenAt d) k execution.claimToken := by
  funext k'
  rw [tokenAt, executionAt_set]
  by_cases hk : k' = k
  · rw [if_pos hk, hk, Function.update_self]
    rfl
  · rw [if_neg hk, Function.update_of_ne hk, tokenAt]

theorem tokenAt_congr (h : d' .workflowExecutions = d .workflowExecutions) :
    tokenAt d' = tokenAt d := by
  funext k
  rw [tokenAt, executionAt_congr (congrFun h k), tokenAt]

theorem heartbeats_set (d : Docs δ) (k : Key) (document : Option (Json δ)) :
    d.set .workflowHeartbeats k document .workflowHeartbeats =
      Function.update (d .workflowHeartbeats) k document := by
  funext k'
  by_cases hk : k' = k
  · rw [Documents.set, if_pos ⟨rfl, hk⟩, hk, Function.update_self]
  · rw [Documents.set, if_neg fun h => hk h.2, Function.update_of_ne hk]

/-- A heartbeat that is put. -/
theorem runs_putHeartbeat_heartbeats {execution : WorkflowExecutionRecord δ} {worker token : Bytes}
    {expiry : Timestamp} {u : Unit} (h : (putHeartbeat execution worker expiry).Runs d u d')
    (htoken : execution.claimToken = some token) :
    ∃ document, IsHeartbeat document execution.workflowExecutionId token ∧
      d' .workflowHeartbeats = Function.update (d .workflowHeartbeats)
        (heartbeatKey execution.workflowExecutionId token) (some document) := by
  have hgetD : execution.claimToken.getD [] = token := by
    rw [htoken]
    rfl
  rw [putHeartbeat, hgetD] at h
  exact ⟨_, isHeartbeat_toJson _, by rw [runs_write.mp h, heartbeats_set]⟩

/-- The claim loop keeps the mirror.  Induction on the executions that are still to look at: claiming
    one changes neither the others nor the places of their heartbeats. -/
theorem HeartbeatsMirrorClaims.claimLoop {request : ClaimWorkflowStepRequest}
    {executions claimed l : List (WorkflowExecutionRecord δ)} (hmirrors : HeartbeatsMirrorClaims d)
    (hnodup : (executions.map WorkflowExecutionRecord.workflowExecutionId).Nodup)
    (hat : ∀ e ∈ executions, executionAt d e.workflowExecutionId = some e)
    (hfree : ∀ e ∈ executions, 0 < request.maxSteps.toNat → Requested request e →
      Visible e request.now →
      e.claimToken = none ∧ d .workflowHeartbeats (newHeartbeatKey request e) = none)
    (h : (Runtime.claimLoop request executions claimed).Runs d l d') :
    HeartbeatsMirrorClaims d' := by
  induction executions generalizing d claimed with
  | nil =>
    obtain ⟨-, rfl⟩ := runs_pure.mp h
    exact hmirrors
  | cons execution rest ih =>
    rw [List.map_cons, List.nodup_cons] at hnodup
    have hat' : ∀ e ∈ rest, executionAt d e.workflowExecutionId = some e :=
      fun e he => hat e (List.mem_cons_of_mem _ he)
    have hfree' := fun e he => hfree e (List.mem_cons_of_mem execution he)
    rcases runs_claimLoop_cons h with ⟨-, rfl⟩ | hskip | ⟨hmax, hrequested, hvisible, mid, hput, hlast⟩
    · exact hmirrors
    · exact ih hmirrors hnodup.2 hat' hfree' hskip
    -- the execution is claimed, and the loop goes on
    have hpositive : 0 < request.maxSteps.toNat := by omega
    obtain ⟨hnone, hplace⟩ := hfree execution List.mem_cons_self hpositive hrequested hvisible
    have hexecutions := runs_putHeartbeat hput
    obtain ⟨document, his, hheartbeats⟩ := runs_putHeartbeat_heartbeats hput rfl
    have hkept : d.set .workflowExecutions execution.workflowExecutionId
        (some (claim request execution).toJson) .workflowHeartbeats = d .workflowHeartbeats := by
      funext key
      rw [Documents.set, if_neg (by rintro ⟨hc, -⟩; cases hc)]
    rw [hkept] at hheartbeats
    have htokens : tokenAt mid = Function.update (tokenAt d) execution.workflowExecutionId
        (claim request execution).claimToken := by
      rw [tokenAt_congr hexecutions, tokenAt_set]
    have hnotoken : tokenAt d execution.workflowExecutionId = none := by
      rw [tokenAt, hat execution List.mem_cons_self]
      exact hnone
    have hmirrors' : HeartbeatsMirrorClaims mid := by
      rw [HeartbeatsMirrorClaims, htokens, hheartbeats]
      exact hmirrors.issue hnotoken hplace his
    have hother : ∀ e ∈ rest, e.workflowExecutionId ≠ execution.workflowExecutionId := by
      intro e he hid
      exact hnodup.1 (hid ▸ List.mem_map_of_mem he)
    refine ih hmirrors' hnodup.2 ?_ ?_ hlast
    · intro e he
      rw [executionAt_congr (congrFun hexecutions _), executionAt_set, if_neg (hother e he)]
      exact hat' e he
    · intro e he hpos hreq hvis
      obtain ⟨hnone', hplace'⟩ := hfree' e he hpos hreq hvis
      have hne : newHeartbeatKey request e ≠ newHeartbeatKey request execution := by
        intro hkey
        exact hother e he (newHeartbeatKey_inj hkey)
      refine ⟨hnone', ?_⟩
      rw [hheartbeats]
      exact (Function.update_of_ne hne ..).trans hplace'

/-- Putting an execution back without its claim, and erasing the heartbeat, keeps the mirror. -/
theorem HeartbeatsMirrorClaims.finish {k : Bytes} {execution finished r : WorkflowExecutionRecord δ}
    (hmirrors : HeartbeatsMirrorClaims d) (he : executionAt d k = some execution)
    (h : (Runtime.finish k execution finished).Runs d r d')
    (hid : finished.workflowExecutionId = k) (htoken : finished.claimToken = none) :
    HeartbeatsMirrorClaims d' := by
  obtain ⟨_, mid, hwrite, hrest⟩ := runs_do.mp h
  obtain ⟨_, mid', herase, hlast⟩ := runs_do.mp hrest
  obtain ⟨-, rfl⟩ := runs_pure.mp hlast
  have hmid := runs_write.mp hwrite
  have htokens : tokenAt d' = Function.update (tokenAt d) k none := by
    rw [tokenAt_congr (runs_eraseHeartbeat herase), hmid, tokenAt_set, hid, htoken]
  have hunchanged : mid .workflowHeartbeats = d .workflowHeartbeats := by
    funext key
    rw [hmid, Documents.set, if_neg (by rintro ⟨hc, -⟩; cases hc)]
  have hheartbeats : d' .workflowHeartbeats =
      eraseClaimed (d .workflowHeartbeats) k (tokenAt d k) := by
    have hold : tokenAt d k = execution.claimToken := by
      rw [tokenAt, he]
      rfl
    rw [hold]
    cases hclaim : execution.claimToken with
    | none =>
      rw [hclaim] at herase
      rw [(runs_pure.mp herase).2, hunchanged]
      rfl
    | some token =>
      rw [hclaim] at herase
      rw [runs_remove.mp herase, heartbeats_set, hunchanged]
      rfl
  rw [HeartbeatsMirrorClaims, htokens, hheartbeats]
  exact hmirrors.release k

/-- What leaves the executions and the heartbeats alone keeps the mirror. -/
theorem HeartbeatsMirrorClaims.congr (hmirrors : HeartbeatsMirrorClaims d)
    (hexecutions : d' .workflowExecutions = d .workflowExecutions)
    (hheartbeats : d' .workflowHeartbeats = d .workflowHeartbeats) : HeartbeatsMirrorClaims d' := by
  rw [HeartbeatsMirrorClaims, tokenAt_congr hexecutions, hheartbeats]
  exact hmirrors

/-- An execution that is started has no claim. -/
theorem HeartbeatsMirrorClaims.start {request : StartWorkflowRequest δ}
    {r : WorkflowExecutionRecord δ} (hmirrors : HeartbeatsMirrorClaims d)
    (h : (startTx request).Runs d r d') : HeartbeatsMirrorClaims d' := by
  have hheartbeats : d' .workflowHeartbeats = d .workflowHeartbeats :=
    (leaves_startTx (by decide) request).runs h
  have htokens : tokenAt d' = tokenAt d := by
    rcases runs_startTx h with ⟨-, rfl⟩ | ⟨hnone, -, hd⟩
    · rfl
    · funext k
      rw [tokenAt, hd, tokenAt]
      by_cases hk : k = request.workflowExecutionId
      · rw [if_pos hk, hk, hnone]
        rfl
      · rw [if_neg hk]
  rw [HeartbeatsMirrorClaims, htokens, hheartbeats]
  exact hmirrors

/-- **The step**: each request keeps the mirror, unless it takes over a claim. -/
theorem HeartbeatsMirrorClaims.runs {request : WorkflowRequest δ} {response : WorkflowResponse δ}
    (hmirrors : HeartbeatsMirrorClaims d) (hkeyed : Keyed d) (hno : NoTakeover d request)
    (h : (workflowProgram request).Runs d response d') : HeartbeatsMirrorClaims d' := by
  cases request with
  | registerDefinition definition =>
    obtain ⟨r, hr, -⟩ := runs_map.mp h
    exact hmirrors.congr ((leaves_registerDefinitionTx (by decide) definition).runs hr)
      ((leaves_registerDefinitionTx (by decide) definition).runs hr)
  | inspectDefinition name version =>
    obtain ⟨r, hr, -⟩ := runs_map.mp h
    obtain rfl := runs_inspectDefinitionTx hr
    exact hmirrors
  | start request =>
    obtain ⟨r, hr, -⟩ := runs_map.mp h
    exact hmirrors.start hr
  | claimSteps request =>
    obtain ⟨l, hl, -⟩ := runs_map.mp h
    obtain ⟨executions, mid, hall, hrest⟩ := runs_do.mp hl
    obtain ⟨rfl, hnodup, hexecutions⟩ := runs_allExecutions hkeyed hall
    refine hmirrors.claimLoop hnodup hexecutions ?_ hrest
    intro e he hpositive hrequested hvisible
    exact hno hpositive _ e (hexecutions e he) hrequested hvisible
  | keepAliveStep request =>
    obtain ⟨r, hr, -⟩ := runs_map.mp h
    obtain ⟨execution, he, hholds, hrest⟩ := runs_holder hr
    obtain ⟨_, mid, hput, hlast⟩ := runs_do.mp hrest
    obtain ⟨-, rfl⟩ := runs_pure.mp hlast
    obtain ⟨document, his, hheartbeats⟩ := runs_putHeartbeat_heartbeats hput hholds.2.2
    have hid : execution.workflowExecutionId = request.workflowExecutionId := hkeyed _ _ he
    have htoken : tokenAt d request.workflowExecutionId = some request.claimToken := by
      rw [tokenAt, he]
      exact hholds.2.2
    rw [hid] at his hheartbeats
    rw [HeartbeatsMirrorClaims, tokenAt_congr (runs_putHeartbeat hput), hheartbeats]
    exact hmirrors.refresh htoken his
  | completeStep request =>
    obtain ⟨r, hr, -⟩ := runs_map.mp h
    obtain ⟨execution, he, hholds, hfinish⟩ := runs_holder hr
    have hid : (complete request execution).workflowExecutionId = request.workflowExecutionId :=
      (complete_id request execution).trans (hkeyed _ _ he)
    exact hmirrors.finish he hfinish hid (complete_claim request execution).2.1
  | failStep request =>
    obtain ⟨r, hr, -⟩ := runs_map.mp h
    obtain ⟨execution, he, hholds, hfinish⟩ := runs_holder hr
    have hid : execution.workflowExecutionId = request.workflowExecutionId := hkeyed _ _ he
    exact hmirrors.finish he hfinish hid rfl
  | cancel request =>
    obtain ⟨r, hr, -⟩ := runs_map.mp h
    obtain ⟨execution, he, hfinish⟩ := runs_cancelTx hr
    have hid : execution.workflowExecutionId = request.workflowExecutionId := hkeyed _ _ he
    exact hmirrors.finish he hfinish hid rfl
  | inspect workflowExecutionId =>
    obtain ⟨r, hr, -⟩ := runs_map.mp h
    obtain ⟨rfl, -⟩ := runs_inspectTx hr
    exact hmirrors

theorem heartbeats_history {d₀ : Docs δ} {log : WorkflowLog δ}
    (h : History workflowProgram (fun _ d request => NoTakeover d request) d₀ log d)
    (hwf : WellFormed d₀) (hmirrors : HeartbeatsMirrorClaims d₀) :
    WellFormed d ∧ HeartbeatsMirrorClaims d := by
  induction h with
  | nil => exact ⟨hwf, hmirrors⟩
  | snoc _ hno hruns ih =>
    obtain ⟨hwf', hmirrors'⟩ := ih
    have hchange := change_of_runs hwf'.keyed hruns
    exact ⟨fun k => (hchange k).wellFormed (hwf' k), hmirrors'.runs hwf'.keyed hno hruns⟩

/-! ## Runs -/

variable [Decimal δ]

theorem heartbeatsMirrorClaims_empty :
    HeartbeatsMirrorClaims (docs (InMemoryState.empty : Cpp.State δ)) := by
  refine ⟨?_, ?_⟩
  · intro k token htoken
    cases htoken
  · intro key document hdocument
    cases hdocument

/-- Worker `w` claims the execution `e` at time 0 for ten seconds. -/
def claimedRun : List (SessionEvent (WorkflowRequest Empty) Unit) :=
  soloSession 0 (WorkflowRequest.start
    { workflowExecutionId := ascii "e", workflowName := ascii "n", startStep := ascii "s",
      state := .null }) 2 ++
  soloSession 1 (WorkflowRequest.claimSteps
    { workflowExecutionId := ascii "e", workflowName := ascii "n", worker := ascii "w", now := 0,
      leaseDuration := 10 }) 3

end StateSpec.Runtime
