/-
  FLAG OVERRIDES — which overrides an evaluation answers.

  An override is stored under `evaluationKey`, the name of the flag and the fields of the context with
  separators between them; an absent field counts as an empty one.  A field can hold the separators, so
  an override for one tenant can be what another context finds (`override_leaks`).  As long as an
  evaluation finds under its key only overrides for its own flag and context, it answers the last of
  them, or the default value: `overrides_isolated`.

  The declared scope of a flag plays no part in this: two contexts that agree on its fields evaluate to
  the same value whatever is overridden exactly when they have the same key (`scope_decides_iff`).  So an
  override of a system-wide flag for one tenant is none for another (`scope_ignored`).
-/
import Mathlib.Data.List.Induction
import StateSpec.Runtime.FeatureFlagStore
import StateSpec.Runtime.SoloRuns

namespace StateSpec.Runtime.Flags

open Program Interleaving Memory

variable {δ : Type} [Widening δ] {d d' : Docs δ}

/-! ## Reading back -/

/-- The definition that is stored under a name. -/
def definitionAt (d : Docs δ) (name : Bytes) : Option (FeatureFlagDefinition δ) :=
  decodedAt FeatureFlagDefinition.fromJson d .featureFlagDefinitions name

/-- The value that is stored under a key. -/
def valueAt (d : Docs δ) (k : Key) : Option (FeatureFlagValue δ) :=
  decodedAt FeatureFlagValue.fromJson d .featureFlagValues k

theorem runs_inspectDefinitionTx {name : Bytes} {r : Option (FeatureFlagDefinition δ)}
    (h : (inspectDefinitionTx name).Runs d r d') : d' = d ∧ r = definitionAt d name :=
  runs_decoded h rfl fun _ => rfl

/-- **The rule of `evaluateTx`**: it answers the override under its key, or the default value. -/
theorem runs_evaluateTx {request : FeatureFlagEvaluationRequest} {r : FeatureFlagValue δ}
    (h : (evaluateTx request).Runs d r d') :
    d' = d ∧
    ((∃ document, d .featureFlagValues (evaluationKey request) = some document ∧
        FeatureFlagValue.fromJson document = .ok r) ∨
      (d .featureFlagValues (evaluationKey request) = none ∧
        ∃ definition, definitionAt d request.name = some definition ∧ r = definition.defaultValue)) := by
  obtain ⟨document, mid, hread, hrest⟩ := runs_do.mp h
  obtain ⟨rfl, rfl⟩ := runs_read.mp hread
  cases hdocument : mid .featureFlagValues (evaluationKey request) with
  | some document =>
    rw [hdocument] at hrest
    obtain ⟨hvalue, rfl⟩ := runs_ofExcept.mp hrest
    exact ⟨rfl, Or.inl ⟨document, rfl, hvalue⟩⟩
  | none =>
    rw [hdocument] at hrest
    obtain ⟨found, mid', hinspect, hlast⟩ := runs_do.mp hrest
    obtain ⟨rfl, rfl⟩ := runs_inspectDefinitionTx hinspect
    cases hdefinition : definitionAt mid' request.name with
    | none =>
      rw [hdefinition] at hlast
      exact absurd hlast runs_throw
    | some definition =>
      rw [hdefinition] at hlast
      obtain ⟨rfl, rfl⟩ := runs_pure.mp hlast
      exact ⟨rfl, Or.inr ⟨rfl, definition, rfl, rfl⟩⟩

/-! ## What a log says -/

/-- The requests of a history, with their responses. -/
abbrev FlagLog (δ : Type) := List (FlagRequest δ × FlagResponse δ)

/-- What the last request says that says anything. -/
def latest {α : Type} (about : FlagRequest δ → Option α) (log : FlagLog δ) : Option α :=
  log.reverse.findSome? fun entry => about entry.1

omit [Widening δ] in
theorem latest_snoc {α : Type} (about : FlagRequest δ → Option α) (log : FlagLog δ)
    (entry : FlagRequest δ × FlagResponse δ) :
    latest about (log ++ [entry]) = (about entry.1).or (latest about log) := by
  rw [latest, List.reverse_append, List.reverse_singleton, List.singleton_append,
    List.findSome?_cons]
  cases about entry.1 <;> rfl

omit [Widening δ] in
theorem latest_congr {α : Type} {about about' : FlagRequest δ → Option α} {log : FlagLog δ}
    (h : ∀ entry ∈ log, about entry.1 = about' entry.1) : latest about log = latest about' log := by
  induction log using List.reverseRecOn with
  | nil => rfl
  | append_singleton log entry ih =>
    have hlog (e : FlagRequest δ × FlagResponse δ) (he : e ∈ log) : about e.1 = about' e.1 :=
      h e (List.mem_append_left _ he)
    rw [latest_snoc, latest_snoc, ih hlog,
      h entry (List.mem_append_right _ (List.mem_singleton.mpr rfl))]

/-- The value a request sets for exactly this flag and context. -/
def overrideFor (request : FeatureFlagEvaluationRequest) : FlagRequest δ → Option (FeatureFlagValue δ)
  | .setOverride r value => if r = request then some value else none
  | _ => none

/-- The value a request puts under a key. -/
def overrideAt (k : Key) : FlagRequest δ → Option (FeatureFlagValue δ)
  | .setOverride r value => if evaluationKey r = k then some value else none
  | _ => none

/-- The definition a request registers under a name. -/
def definitionFor (name : Bytes) : FlagRequest δ → Option (FeatureFlagDefinition δ)
  | .registerDefinition definition => if definition.name = name then some definition else none
  | _ => none

/-- **Overrides are isolated**: an evaluation answers the last override for its own flag and context,
    or the default value of the flag. -/
def Isolated (log : FlagLog δ) : Prop :=
  ∀ before request value rest, log = before ++ (.evaluate request, .value value) :: rest →
    (latest (overrideFor request) before).or
      ((latest (definitionFor request.name) before).map FeatureFlagDefinition.defaultValue) =
    some value

/-- An evaluation finds under its key only overrides for its own flag and context. -/
def Unaliased (log : FlagLog δ) : FlagRequest δ → Prop
  | .evaluate request => ∀ r value response, (.setOverride r value, response) ∈ log →
      evaluationKey r = evaluationKey request → r = request
  | _ => True

omit [Widening δ] in
theorem Unaliased.latest_eq {log : FlagLog δ} {request : FeatureFlagEvaluationRequest}
    (h : Unaliased log (.evaluate request)) :
    latest (overrideAt (evaluationKey request)) log = latest (overrideFor request) log := by
  refine latest_congr fun entry hmem => ?_
  obtain ⟨r, response⟩ := entry
  cases r with
  | setOverride r value =>
    by_cases hr : r = request
    · rw [overrideAt, overrideFor, if_pos hr, if_pos (hr ▸ rfl)]
    · rw [overrideAt, overrideFor, if_neg hr, if_neg fun hk => hr (h r value response hmem hk)]
  | _ => rfl

/-! ## The invariant -/

/-- What is stored is what the log says. -/
structure Tracks (log : FlagLog δ) (d : Docs δ) : Prop where
  value : ∀ k, d .featureFlagValues k = (latest (overrideAt k) log).map FeatureFlagValue.toJson
  definition : ∀ name, d .featureFlagDefinitions name =
    (latest (definitionFor name) log).map FeatureFlagDefinition.toJson

theorem Tracks.definitionAt_eq {log : FlagLog δ} (h : Tracks log d) (name : Bytes) :
    definitionAt d name = latest (definitionFor name) log := by
  rw [definitionAt, decodedAt, h.definition]
  cases latest (definitionFor name) log with
  | none => rfl
  | some definition =>
    rw [Option.map_some, Option.bind_some, definition.fromJson_toJson]
    rfl

omit [Widening δ] in
/-- A request that neither registers nor overrides says nothing. -/
theorem Tracks.silent {log : FlagLog δ} {request : FlagRequest δ} {response : FlagResponse δ}
    (h : Tracks log d) (hvalue : ∀ k, overrideAt k request = none)
    (hdefinition : ∀ name, definitionFor name request = none) :
    Tracks (log ++ [(request, response)]) d := by
  refine ⟨fun k => ?_, fun name => ?_⟩
  · rw [latest_snoc, hvalue, Option.none_or, h.value]
  · rw [latest_snoc, hdefinition, Option.none_or, h.definition]

/-- Each request keeps the documents as the log says. -/
theorem Tracks.runs {log : FlagLog δ} {request : FlagRequest δ} {response : FlagResponse δ}
    (h : Tracks log d) (hruns : (flagProgram request).Runs d response d') :
    Tracks (log ++ [(request, response)]) d' := by
  cases request with
  | registerDefinition definition =>
    obtain ⟨r, hr, rfl⟩ := runs_map.mp hruns
    obtain ⟨existing, mid, hinspect, hrest⟩ := runs_do.mp hr
    obtain ⟨rfl, -⟩ := runs_inspectDefinitionTx hinspect
    obtain ⟨_, mid', hwrite, hlast⟩ := runs_do.mp hrest
    obtain ⟨-, rfl⟩ := runs_pure.mp hlast
    rw [runs_write.mp hwrite]
    refine ⟨fun k => ?_, fun name => ?_⟩
    · rw [Documents.set_of_ne (by decide), latest_snoc, h.value]
      rfl
    · rw [latest_snoc, definitionFor]
      by_cases hname : definition.name = name
      · rw [if_pos hname, ← hname, Documents.set_self]
        rfl
      · rw [if_neg hname, Documents.set_of_key_ne (Ne.symm hname), h.definition]
        rfl
  | inspectDefinition name =>
    obtain ⟨r, hr, rfl⟩ := runs_map.mp hruns
    obtain ⟨rfl, -⟩ := runs_inspectDefinitionTx hr
    exact h.silent (fun _ => rfl) fun _ => rfl
  | evaluate request =>
    obtain ⟨r, hr, rfl⟩ := runs_map.mp hruns
    obtain ⟨rfl, -⟩ := runs_evaluateTx hr
    exact h.silent (fun _ => rfl) fun _ => rfl
  | setOverride request value =>
    obtain ⟨r, hr, rfl⟩ := runs_map.mp hruns
    rw [runs_write.mp hr]
    refine ⟨fun k => ?_, fun name => ?_⟩
    · rw [latest_snoc, overrideAt]
      by_cases hk : evaluationKey request = k
      · rw [if_pos hk, ← hk, Documents.set_self]
        rfl
      · rw [if_neg hk, Documents.set_of_key_ne (Ne.symm hk), h.value]
        rfl
    · rw [Documents.set_of_ne (by decide), latest_snoc, h.definition]
      rfl

/-- An evaluation answers what the log says about its key. -/
theorem Tracks.evaluate {log : FlagLog δ} {request : FeatureFlagEvaluationRequest}
    {value : FeatureFlagValue δ} (h : Tracks log d)
    (hruns : (flagProgram (.evaluate request)).Runs d (.value value) d') :
    (latest (overrideAt (evaluationKey request)) log).or
      ((latest (definitionFor request.name) log).map FeatureFlagDefinition.defaultValue) =
    some value := by
  obtain ⟨r, hr, heq⟩ := runs_map.mp hruns
  obtain rfl := FlagResponse.value.inj heq
  obtain ⟨-, ⟨document, hdocument, hvalue⟩ | ⟨hnone, definition, hdefinition, rfl⟩⟩ :=
    runs_evaluateTx hr
  · rw [h.value] at hdocument
    obtain ⟨v, hv, rfl⟩ := Option.map_eq_some_iff.mp hdocument
    rw [v.fromJson_toJson] at hvalue
    rw [hv, Except.ok.inj hvalue, Option.some_or]
  · rw [h.value, Option.map_eq_none_iff] at hnone
    rw [h.definitionAt_eq] at hdefinition
    rw [hnone, hdefinition]
    rfl

theorem tracks_history {P : FlagLog δ → Docs δ → FlagRequest δ → Prop} {log : FlagLog δ}
    (h : History flagProgram P (fun _ _ => none) log d) : Tracks log d := by
  induction h with
  | nil => exact ⟨fun _ => rfl, fun _ => rfl⟩
  | snoc _ _ hruns ih => exact ih.runs hruns

theorem isolated_history {log : FlagLog δ}
    (h : History flagProgram (fun log _ request => Unaliased log request) (fun _ _ => none) log d) :
    Isolated log := by
  induction h with
  | nil =>
    intro before request value rest hlog
    simp at hlog
  | @snoc log d d' request response hbefore hunaliased hruns ih =>
    intro before r value rest hlog
    rcases snoc_eq_append_cons hlog with ⟨-, rfl, heq⟩ | ⟨rest', -, hlog'⟩
    · cases heq
      rw [← hunaliased.latest_eq]
      exact (tracks_history hbefore).evaluate hruns
    · exact ih before r value rest' hlog'

/-! ## Runs -/

variable [Decimal δ]

omit [Widening δ] in
theorem later_ensureFlagCollections (s : Cpp.State δ) (u : Unit) :
    Later s (ensureFlagCollections u s) :=
  Cpp.later_register s flagCollections

omit [Widening δ] in
theorem docs_ensureFlagCollections (s : Cpp.State δ) (u : Unit) :
    docs (ensureFlagCollections u s) = docs s :=
  docs_register s flagCollections

/-- The documents after a run of the store. -/
def flagDocs (es : List (SessionEvent (FlagRequest δ) Unit)) : Docs δ :=
  docs (run flagStore (World.init InMemoryState.empty) es).shared

/-- The requests a run of the store has carried out, with their responses. -/
def flagLog (es : List (SessionEvent (FlagRequest δ) Unit)) : FlagLog δ :=
  answers (run flagStore (World.init InMemoryState.empty) es).log

/-- **The runs of the store are histories**, from the empty backend. -/
theorem history_flagStore {P : FlagLog δ → Docs δ → FlagRequest δ → Prop}
    {es : List (SessionEvent (FlagRequest δ) Unit)}
    (hes : RunMeets flagStore (Committing P) (World.init InMemoryState.empty) es) :
    History flagProgram P (fun _ _ => none) (flagLog es) (flagDocs es) := by
  have h := history_run later_ensureFlagCollections docs_ensureFlagCollections
    (Discipline.inv_init _ _) hes
  rw [flagLog, log_run]
  exact h

/-- **Overrides are isolated** in every run in which each evaluation finds under its key only overrides
    for its own flag and context. -/
theorem overrides_isolated (es : List (SessionEvent (FlagRequest δ) Unit))
    (hes : RunMeets flagStore (Committing fun log _ request => Unaliased log request)
      (World.init InMemoryState.empty) es) :
    Isolated (flagLog es) :=
  isolated_history (history_flagStore hes)

/-- The flag `f`, off unless it is overridden. -/
def offFlag (scope : FeatureFlagScopeKind) : FeatureFlagDefinition Int where
  name := ascii "f"
  type := .bool
  defaultValue := .boolValue false
  scope := scope

/-- An evaluation of the flag `f` for a tenant and a user. -/
def evaluating (tenantId userId : Option Bytes) : FeatureFlagEvaluationRequest where
  name := ascii "f"
  context := { tenantId := tenantId, userId := userId }

/-- The flag is overridden for the tenant `a`, and evaluated for him. -/
def overridingRun : List (SessionEvent (FlagRequest Int) Unit) :=
  soloSession 0 (FlagRequest.registerDefinition (offFlag .tenant)) 2 ++
  soloSession 1 (FlagRequest.setOverride (evaluating (some (ascii "a")) none) (.boolValue true)) 1 ++
  soloSession 2 (FlagRequest.evaluate (evaluating (some (ascii "a")) none)) 1

theorem overrides_isolated_overriding : Isolated (flagLog overridingRun) := by
  refine overrides_isolated overridingRun ?_
  simp only [overridingRun, runMeets_append]
  refine ⟨⟨?_, ?_⟩, ?_⟩ <;>
    refine runMeets_soloSession (by simp [length_slots_run, World.init]) ?_ _
  · trivial
  · trivial
  · intro r value response hmem _
    rcases List.mem_cons.mp hmem with heq | hmem
    · cases heq
    · cases List.mem_singleton.mp hmem
      rfl

/-- The flag is overridden for the user `b` of the tenant `a`, and evaluated for another tenant, whose
    name has a separator in it. -/
def leakingRun : List (SessionEvent (FlagRequest Int) Unit) :=
  soloSession 0 (FlagRequest.registerDefinition (offFlag .tenant)) 2 ++
  soloSession 1 (FlagRequest.setOverride
    (evaluating (some (ascii "a")) (some (ascii "b|user:"))) (.boolValue true)) 1 ++
  soloSession 2 (FlagRequest.evaluate (evaluating (some (ascii "a|user:b")) none)) 1

/-- **The override of one tenant is what another one gets.** -/
theorem override_leaks : ¬ Isolated (flagLog leakingRun) := by
  intro h
  have hvalue := h [_, _] (evaluating (some (ascii "a|user:b")) none) _ [] rfl
  revert hvalue
  decide

/-! ## The scope of a flag -/

/-- The contexts agree on the fields of the scope. -/
def AgreeOn : FeatureFlagScopeKind → FeatureFlagEvaluationContext → FeatureFlagEvaluationContext → Prop
  | .system, _, _ => True
  | .tenant, c, c' => c.tenantId = c'.tenantId
  | .user, c, c' => c.userId = c'.userId
  | .entity, c, c' => c.entityType = c'.entityType ∧ c.entityId = c'.entityId

omit [Decimal δ] in
/-- What `evaluateTx` returns on the documents, or the error it ends in. -/
def evaluated (d : Docs δ) (request : FeatureFlagEvaluationRequest) :
    Except Error (FeatureFlagValue δ) :=
  ((evaluateTx request).eval (fun _ _ => []) d).map Prod.fst

/-- **The scope decides**: if the contexts agree on the fields of the scope, they evaluate to the same
    value, wherever the flag is registered, and whatever has been overridden. -/
def ScopeDecides (definition : FeatureFlagDefinition δ) (c c' : FeatureFlagEvaluationContext) : Prop :=
  AgreeOn definition.scope c c' →
  ∀ es : List (SessionEvent (FlagRequest δ) Unit),
    definitionAt (flagDocs es) definition.name = some definition →
    evaluated (flagDocs es) ⟨definition.name, c⟩ = evaluated (flagDocs es) ⟨definition.name, c'⟩

omit [Decimal δ] in
/-- An evaluation looks at its key and at the definition. -/
theorem evaluated_eq (d : Docs δ) (request : FeatureFlagEvaluationRequest) :
    evaluated d request =
      match d .featureFlagValues (evaluationKey request) with
      | some document => FeatureFlagValue.fromJson document
      | none => ((defaultTx request.name).eval (fun _ _ => []) d).map Prod.fst := by
  show (Program.eval _ (match d .featureFlagValues (evaluationKey request) with
    | some document => ofExcept (FeatureFlagValue.fromJson document)
    | none => defaultTx request.name) d).map Prod.fst = _
  cases d .featureFlagValues (evaluationKey request) with
  | some document =>
    show (Program.eval _ (ofExcept _) d).map Prod.fst = FeatureFlagValue.fromJson document
    cases FeatureFlagValue.fromJson document <;> rfl
  | none => rfl

omit [Decimal δ] in
/-- Without an override it is the default value. -/
theorem evaluated_default {d : Docs δ} {request : FeatureFlagEvaluationRequest}
    {definition : FeatureFlagDefinition δ}
    (hnone : d .featureFlagValues (evaluationKey request) = none)
    (hdefinition : d .featureFlagDefinitions request.name = some definition.toJson) :
    evaluated d request = .ok definition.defaultValue := by
  rw [evaluated_eq, hnone]
  have hinspect : (inspectDefinitionTx request.name).eval (fun _ _ => []) d =
      .ok (some definition, d) := by
    rw [inspectDefinitionTx, Program.eval_read hdefinition]
    simp only [definition.fromJson_toJson]
    rfl
  show ((defaultTx request.name).eval _ d).map Prod.fst = _
  rw [defaultTx, eval_do hinspect]
  rfl

/-- A value that is not the given one. -/
def otherValue : FeatureFlagValue δ → FeatureFlagValue δ
  | .boolValue value => .boolValue (!value)
  | _ => .boolValue true

omit [Widening δ] [Decimal δ] in
theorem otherValue_ne (value : FeatureFlagValue δ) : otherValue value ≠ value := by
  cases value with
  | boolValue value => cases value <;> nofun
  | _ => nofun

omit [Decimal δ] in
theorem getsAndPuts_flagProgram (request : FlagRequest δ) : (flagProgram request).GetsAndPuts := by
  have hinspect (name : Bytes) :
      (inspectDefinitionTx name : TxProgram δ (Option (FeatureFlagDefinition δ))).GetsAndPuts := by
    intro document
    cases document with
    | none => trivial
    | some document =>
      show (ofExcept ((FeatureFlagDefinition.fromJson document).map some)).GetsAndPuts
      cases (FeatureFlagDefinition.fromJson document).map some <;> trivial
  cases request with
  | registerDefinition definition =>
    exact getsAndPuts_do (getsAndPuts_do (hinspect _) fun _ => trivial) fun _ => trivial
  | inspectDefinition name => exact getsAndPuts_do (hinspect _) fun _ => trivial
  | evaluate request =>
    refine getsAndPuts_do ?_ fun _ => trivial
    intro document
    cases document with
    | some document =>
      show (ofExcept (FeatureFlagValue.fromJson document)).GetsAndPuts
      cases FeatureFlagValue.fromJson document <;> trivial
    | none =>
      show (defaultTx request.name).GetsAndPuts
      refine getsAndPuts_do (hinspect _) fun definition => ?_
      cases definition <;> trivial
  | setOverride request value => exact trivial

/-- Some run of the store registers the flag and sets the override. -/
theorem exists_overriding_run (definition : FeatureFlagDefinition δ)
    (c : FeatureFlagEvaluationContext) (value : FeatureFlagValue δ) :
    ∃ es : List (SessionEvent (FlagRequest δ) Unit),
      Tracks [(.registerDefinition definition,
          .registered { registeredNew := true, definition := definition }),
        (.setOverride ⟨definition.name, c⟩ value, .overridden)] (flagDocs es) := by
  have hhistory := history_carryOutAll (flagProgram (δ := δ)) scanSound_nil (fun _ _ => none)
    [.registerDefinition definition, .setOverride ⟨definition.name, c⟩ value]
  obtain ⟨es, hdocs, -⟩ := history_realized ensureFlagCollections undisturbed_empty
    getsAndPuts_flagProgram hhistory
  refine ⟨es, ?_⟩
  rw [flagDocs, hdocs]
  exact tracks_history hhistory

/-- **The scope decides exactly when contexts that agree on its fields have one key.** -/
theorem scope_decides_iff (definition : FeatureFlagDefinition δ)
    (c c' : FeatureFlagEvaluationContext) :
    ScopeDecides definition c c' ↔ (AgreeOn definition.scope c c' →
      evaluationKey ⟨definition.name, c⟩ = evaluationKey ⟨definition.name, c'⟩) := by
  constructor
  · intro h hscope
    by_contra hkey
    -- an override for the first context, with another value than the default, tells them apart
    obtain ⟨es, htracks⟩ := exists_overriding_run definition c (otherValue definition.defaultValue)
    have hdefinition : (flagDocs es) .featureFlagDefinitions definition.name =
        some definition.toJson := by
      rw [htracks.definition]
      simp [latest, definitionFor]
    have hregistered : definitionAt (flagDocs es) definition.name = some definition := by
      rw [definitionAt, decodedAt, hdefinition, Option.bind_some, definition.fromJson_toJson]
      rfl
    have hfirst : evaluated (flagDocs es) ⟨definition.name, c⟩ =
        .ok (otherValue definition.defaultValue) := by
      rw [evaluated_eq, htracks.value]
      simp [latest, overrideAt, FeatureFlagValue.fromJson_toJson]
    have hsecond : evaluated (flagDocs es) ⟨definition.name, c'⟩ = .ok definition.defaultValue := by
      refine evaluated_default ?_ hdefinition
      rw [htracks.value]
      simp [latest, overrideAt, hkey]
    have hsame := h hscope es hregistered
    rw [hfirst, hsecond] at hsame
    exact otherValue_ne _ (Except.ok.inj hsame)
  · intro hkey hscope es _
    rw [evaluated_eq, evaluated_eq, hkey hscope]

/-- The flag of the whole system is overridden for the tenant `a`. -/
def systemRun : List (SessionEvent (FlagRequest Int) Unit) :=
  soloSession 0 (FlagRequest.registerDefinition (offFlag .system)) 2 ++
  soloSession 1 (FlagRequest.setOverride (evaluating (some (ascii "a")) none) (.boolValue true)) 1

/-- **The override of a system-wide flag is one for a single tenant.** -/
theorem scope_ignored :
    ¬ ScopeDecides (offFlag .system) { tenantId := some (ascii "a") }
      { tenantId := some (ascii "b") } := by
  intro h
  have hsame := h trivial systemRun rfl
  have hfirst : evaluated (flagDocs systemRun) ⟨ascii "f", { tenantId := some (ascii "a") }⟩ =
      .ok (.boolValue true) := rfl
  have hsecond : evaluated (flagDocs systemRun) ⟨ascii "f", { tenantId := some (ascii "b") }⟩ =
      .ok (.boolValue false) := rfl
  rw [show (offFlag .system).name = ascii "f" from rfl, hfirst, hsecond] at hsame
  cases hsame

end StateSpec.Runtime.Flags
