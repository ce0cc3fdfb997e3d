/-
  OBSERVED DEFINITIONS — whether a definition of a log or a metric, once registered, stays what it is.

  `register_definition` puts its definition under the name without looking at what is there (only its
  answer depends on that), so a second registration replaces the first (`log_definition_replaced`).
  And a document has no place for fields and labels, so a definition that has some is never inspected as
  it was registered (`log_definition_without_fields`).  As long as each registration offers a definition
  that is stored as it is, and finds nothing or that definition, both kinds of definitions are stable:
  `definitions_stable`.
-/
import StateSpec.Runtime.Observability

namespace StateSpec.Runtime

open Program Interleaving Memory

variable {δ α : Type} {d d' : Docs δ}

/-! ## Requests -/

/-- A call on the definitions of a sink. -/
inductive DefinitionRequest (α : Type) where
  | register (definition : α)
  | inspect (name : Bytes)

inductive DefinitionResponse (α : Type) where
  | registered (result : DefinitionRegistration α)
  | definition (definition : Option α)

/-- A call on a sink, of whatever process. -/
inductive SinkRequest where
  | log (request : DefinitionRequest LogDefinition)
  | metric (request : DefinitionRequest MetricDefinition)

inductive SinkResponse where
  | log (response : DefinitionResponse LogDefinition)
  | metric (response : DefinitionResponse MetricDefinition)

/-- The transaction of a call on the definitions. -/
def Catalog.program (catalog : Catalog δ α) : DefinitionRequest α → TxProgram δ (DefinitionResponse α)
  | .register definition => .registered <$> catalog.registerDefinitionTx definition
  | .inspect name => .definition <$> catalog.inspectDefinitionTx name

/-- The transaction of a call on a sink. -/
def sinkProgram : SinkRequest → TxProgram δ SinkResponse
  | .log request => .log <$> RuntimeLogSink.catalog.program request
  | .metric request => .metric <$> RuntimeMetricSink.catalog.program request

/-- The sinks on the C++ in-memory backend. -/
abbrev sinkStore [Decimal δ] : Store SinkRequest (Cpp.State δ) (Session δ SinkResponse) Unit Unit Unit
    (Option Error) SinkKind :=
  sessions sinkProgram ensureSinkCollections

/-! ## Reading back -/

namespace Catalog

variable {catalog : Catalog δ α}

/-- The definition that is stored under a name. -/
def definitionAt (catalog : Catalog δ α) (d : Docs δ) (name : Bytes) : Option α :=
  decodedAt catalog.fromJson d catalog.collection name

/-- What `inspect_definition` returns, or the error it ends in. -/
def inspected (catalog : Catalog δ α) (d : Docs δ) (name : Bytes) : Except Error (Option α) :=
  ((catalog.inspectDefinitionTx name).eval (fun _ _ => []) d).map Prod.fst

theorem runs_inspectDefinitionTx {name : Bytes} {r : Option α}
    (h : (catalog.inspectDefinitionTx name).Runs d r d') :
    d' = d ∧ r = catalog.definitionAt d name :=
  runs_decoded h rfl fun _ => rfl

/-- An inspection finds what is stored. -/
theorem inspected_of_definitionAt {name : Bytes} {definition : α}
    (h : catalog.definitionAt d name = some definition) :
    catalog.inspected d name = .ok (some definition) := by
  obtain ⟨document, hdocument, hdecoded⟩ := Option.bind_eq_some_iff.mp h
  have hfrom : catalog.fromJson document = .ok definition := by
    cases hf : catalog.fromJson document with
    | error e =>
      rw [hf] at hdecoded
      cases hdecoded
    | ok read =>
      rw [hf] at hdecoded
      cases hdecoded
      rfl
  rw [inspected, inspectDefinitionTx, Program.eval_read hdocument]
  simp only [hfrom]
  rfl

/-- **The registration puts the definition**, whatever is there. -/
theorem runs_registerDefinitionTx {definition : α} {r : DefinitionRegistration α}
    (h : (catalog.registerDefinitionTx definition).Runs d r d') :
    d' = d.set catalog.collection (catalog.name definition) (some (catalog.toJson definition)) := by
  obtain ⟨existing, mid, hinspect, hrest⟩ := runs_do.mp h
  obtain ⟨rfl, -⟩ := runs_inspectDefinitionTx hinspect
  obtain ⟨_, mid', hwrite, hlast⟩ := runs_do.mp hrest
  obtain ⟨-, rfl⟩ := runs_pure.mp hlast
  exact runs_write.mp hwrite

/-- What is read back after a registration: what is stored of the definition. -/
theorem definitionAt_registered (definition : α) (name : Bytes) :
    catalog.definitionAt
        (d.set catalog.collection (catalog.name definition) (some (catalog.toJson definition))) name =
      if name = catalog.name definition then some (catalog.stored definition)
      else catalog.definitionAt d name :=
  decodedAt_set (catalog.fromJson_toJson definition) d _ _ _

/-- Other collections are left alone. -/
theorem runs_program_frame {request : DefinitionRequest α} {response : DefinitionResponse α}
    (h : (catalog.program request).Runs d response d') {c : RuntimeCollection}
    (hc : c ≠ catalog.collection) : d' c = d c := by
  cases request with
  | register definition =>
    obtain ⟨r, hr, -⟩ := runs_map.mp h
    rw [runs_registerDefinitionTx hr, Documents.set_of_ne hc]
  | inspect name =>
    obtain ⟨r, hr, -⟩ := runs_map.mp h
    rw [(runs_inspectDefinitionTx hr).1]

/-! ## The property of one catalog -/

/-- The calls on the definitions of a sink that have been carried out. -/
abbrev Calls (α : Type) := List (DefinitionRequest α × DefinitionResponse α)

/-- The definition has been registered. -/
def Registered (calls : Calls α) (definition : α) : Prop :=
  ∃ response, (.register definition, response) ∈ calls

/-- **Definitions are stable**: an inspection returns the definition that has been registered under the
    name, and no different one has been registered there. -/
structure Stable (catalog : Catalog δ α) (calls : Calls α) (d : Docs δ) : Prop where
  inspected : ∀ definition, Registered calls definition →
    catalog.inspected d (catalog.name definition) = .ok (some definition)
  refused : ∀ definition definition', Registered calls definition → Registered calls definition' →
    catalog.name definition' = catalog.name definition → definition' = definition

/-- What a registration offers and finds: a definition that is stored as it is, where there is nothing
    or the same definition. -/
def Offered (catalog : Catalog δ α) (d : Docs δ) : DefinitionRequest α → Prop
  | .register definition => catalog.stored definition = definition ∧
      (catalog.definitionAt d (catalog.name definition) = none ∨
        catalog.definitionAt d (catalog.name definition) = some definition)
  | .inspect _ => True

/-- Each definition that has been registered is the one that is stored. -/
def Kept (catalog : Catalog δ α) (calls : Calls α) (d : Docs δ) : Prop :=
  ∀ definition, Registered calls definition →
    catalog.definitionAt d (catalog.name definition) = some definition

/-- Kept definitions are stable. -/
theorem Kept.stable {calls : Calls α} (h : catalog.Kept calls d) : catalog.Stable calls d where
  inspected definition hdefinition := inspected_of_definitionAt (h definition hdefinition)
  refused definition definition' hdefinition hdefinition' hname := by
    have hfirst := h definition hdefinition
    have hsecond := h definition' hdefinition'
    rw [hname, hfirst] at hsecond
    exact (Option.some_inj.mp hsecond).symm

/-- What other collections hold does not matter. -/
theorem Kept.congr {calls : Calls α} (h : catalog.Kept calls d)
    (hsame : d' catalog.collection = d catalog.collection) : catalog.Kept calls d' := by
  intro definition hdefinition
  have hat := h definition hdefinition
  rwa [definitionAt, decodedAt_congr (congrFun hsame _)]

/-- Each call keeps the registered definitions. -/
theorem Kept.snoc {calls : Calls α} {request : DefinitionRequest α} {response : DefinitionResponse α}
    (hkept : catalog.Kept calls d) (hoffered : catalog.Offered d request)
    (h : (catalog.program request).Runs d response d') :
    catalog.Kept (calls ++ [(request, response)]) d' := by
  rintro definition ⟨response', hmem⟩
  cases request with
  | inspect name =>
    obtain ⟨r, hr, -⟩ := runs_map.mp h
    obtain ⟨rfl, -⟩ := runs_inspectDefinitionTx hr
    rcases List.mem_append.mp hmem with hold | hnew
    · exact hkept definition ⟨response', hold⟩
    · cases List.mem_singleton.mp hnew
  | register offered =>
    obtain ⟨r, hr, -⟩ := runs_map.mp h
    obtain ⟨hstored, hfound⟩ := hoffered
    rw [runs_registerDefinitionTx hr, definitionAt_registered, hstored]
    by_cases hname : catalog.name definition = catalog.name offered
    · rw [if_pos hname]
      rcases List.mem_append.mp hmem with hold | hnew
      · -- the name has been registered before, so what is there is what is registered now
        have hdefinition := hkept definition ⟨response', hold⟩
        rw [hname] at hdefinition
        rcases hfound with hnone | hsome
        · rw [hnone] at hdefinition
          cases hdefinition
        · exact hsome.symm.trans hdefinition
      · cases List.mem_singleton.mp hnew
        rfl
    · rw [if_neg hname]
      rcases List.mem_append.mp hmem with hold | hnew
      · exact hkept definition ⟨response', hold⟩
      · cases List.mem_singleton.mp hnew
        exact absurd rfl hname

end Catalog

/-! ## Both sinks -/

/-- The calls on sinks that have been carried out. -/
abbrev SinkLog := List (SinkRequest × SinkResponse)

/-- The calls on the definitions of logs. -/
def logCalls (log : SinkLog) : Catalog.Calls LogDefinition :=
  log.filterMap fun entry =>
    match entry with
    | (.log request, .log response) => some (request, response)
    | _ => none

/-- The calls on the definitions of metrics. -/
def metricCalls (log : SinkLog) : Catalog.Calls MetricDefinition :=
  log.filterMap fun entry =>
    match entry with
    | (.metric request, .metric response) => some (request, response)
    | _ => none

/-- The definitions of both kinds are stable. -/
def DefinitionsStable (log : SinkLog) (d : Docs δ) : Prop :=
  RuntimeLogSink.catalog.Stable (logCalls log) d ∧ RuntimeMetricSink.catalog.Stable (metricCalls log) d

/-- What a registration on a sink offers and finds. -/
def SinkOffered (d : Docs δ) : SinkRequest → Prop
  | .log request => RuntimeLogSink.catalog.Offered d request
  | .metric request => RuntimeMetricSink.catalog.Offered d request

/-- The definitions of both kinds are kept. -/
structure DefinitionsKept (log : SinkLog) (d : Docs δ) : Prop where
  logs : RuntimeLogSink.catalog.Kept (logCalls log) d
  metrics : RuntimeMetricSink.catalog.Kept (metricCalls log) d

/-- A call on one sink keeps the definitions of both. -/
theorem DefinitionsKept.snoc {log : SinkLog} {request : SinkRequest} {response : SinkResponse}
    (hkept : DefinitionsKept log d) (hoffered : SinkOffered d request)
    (h : (sinkProgram request).Runs d response d') :
    DefinitionsKept (log ++ [(request, response)]) d' := by
  cases request with
  | log request =>
    obtain ⟨r, hr, rfl⟩ := runs_map.mp h
    constructor
    · rw [logCalls, List.filterMap_append]
      exact hkept.logs.snoc hoffered hr
    · rw [metricCalls, List.filterMap_append]
      have hframe := Catalog.runs_program_frame hr (c := .metricDefinitions) nofun
      simpa [metricCalls] using hkept.metrics.congr hframe
  | metric request =>
    obtain ⟨r, hr, rfl⟩ := runs_map.mp h
    constructor
    · rw [logCalls, List.filterMap_append]
      have hframe := Catalog.runs_program_frame hr (c := .logDefinitions) nofun
      simpa [logCalls] using hkept.logs.congr hframe
    · rw [metricCalls, List.filterMap_append]
      exact hkept.metrics.snoc hoffered hr

theorem definitionsKept_history {d₀ : Docs δ} {log : SinkLog}
    (h : History sinkProgram (fun _ d request => SinkOffered d request) d₀ log d) :
    DefinitionsKept log d := by
  induction h with
  | nil => exact ⟨nofun, nofun⟩
  | snoc _ hoffered hruns ih => exact ih.snoc hoffered hruns

/-! ## Runs -/

variable [Decimal δ]

theorem later_ensureSinkCollections (s : Cpp.State δ) (kind : SinkKind) :
    Later s (ensureSinkCollections kind s) :=
  Cpp.later_register s kind.collections

theorem docs_ensureSinkCollections (s : Cpp.State δ) (kind : SinkKind) :
    docs (ensureSinkCollections kind s) = docs s :=
  docs_register s kind.collections

/-- The documents after a run of the sinks. -/
def sinkDocs (es : List (SessionEvent SinkRequest SinkKind)) : Docs δ :=
  docs (run sinkStore (World.init InMemoryState.empty) es).shared

variable (δ) in
/-- The calls a run of the sinks has carried out. -/
def sinkLog (es : List (SessionEvent SinkRequest SinkKind)) : SinkLog :=
  answers (run (sinkStore (δ := δ)) (World.init InMemoryState.empty) es).log

/-- **Definitions are stable** in every state of every run in which each registration offers a definition
    that is stored as it is, and finds nothing under its name, or that definition. -/
theorem definitions_stable (es es' : List (SessionEvent SinkRequest SinkKind))
    (hes : RunMeets (sinkStore (δ := δ)) (Committing fun _ d request => SinkOffered d request)
      (World.init InMemoryState.empty) (es ++ es')) :
    DefinitionsStable (sinkLog δ es) (sinkDocs (δ := δ) es) := by
  have hhistory := history_run later_ensureSinkCollections docs_ensureSinkCollections
    (Discipline.inv_init _ _) ((runMeets_append _).mp hes).1
  have hlog : sinkLog δ es = answers (commits (sinkStore (δ := δ)) (World.init InMemoryState.empty) es) := by
    rw [sinkLog, log_run]
    rfl
  have hkept := definitionsKept_history hhistory
  rw [hlog]
  exact ⟨hkept.logs.stable, hkept.metrics.stable⟩

/-- A log definition under the name `l`. -/
def logNamed (eventName : Bytes) (fields : List FieldDescriptor) : LogDefinition where
  name := ascii "l"
  eventName := eventName
  fields := fields

/-- Two registrations of log definitions, one after the other. -/
def registeringTwice (first second : LogDefinition) : List (SessionEvent SinkRequest SinkKind) :=
  soloSession 0 (SinkRequest.log (.register first)) 2 ++
  soloSession 1 (SinkRequest.log (.register second)) 2

/-- The same definition can be registered again. -/
theorem definitions_stable_registered :
    DefinitionsStable
      (sinkLog Int (registeringTwice (logNamed (ascii "e") []) (logNamed (ascii "e") [])))
      (sinkDocs (δ := Int)
        (registeringTwice (logNamed (ascii "e") []) (logNamed (ascii "e") []))) := by
  refine definitions_stable _ [] ?_
  rw [List.append_nil]
  simp only [registeringTwice, runMeets_append]
  refine ⟨?_, ?_⟩ <;>
    refine runMeets_soloSession (by simp [length_slots_run, World.init]) ?_ _
  · exact ⟨rfl, Or.inl rfl⟩
  · exact ⟨rfl, Or.inr rfl⟩

/-- **A registered definition is replaced** by a different one under the same name. -/
theorem log_definition_replaced :
    ¬ DefinitionsStable
      (sinkLog Int (registeringTwice (logNamed (ascii "e") []) (logNamed (ascii "f") [])))
      (sinkDocs (δ := Int)
        (registeringTwice (logNamed (ascii "e") []) (logNamed (ascii "f") []))) := by
  rintro ⟨hlogs, -⟩
  have hfirst : Catalog.Registered (logCalls (sinkLog Int
      (registeringTwice (logNamed (ascii "e") []) (logNamed (ascii "f") []))))
      (logNamed (ascii "e") []) := ⟨_, List.mem_cons_self⟩
  have hsecond : Catalog.Registered (logCalls (sinkLog Int
      (registeringTwice (logNamed (ascii "e") []) (logNamed (ascii "f") []))))
      (logNamed (ascii "f") []) := ⟨_, List.mem_cons_of_mem _ List.mem_cons_self⟩
  have heq := hlogs.refused _ _ hfirst hsecond rfl
  revert heq
  decide

/-- **A definition with fields is inspected without them.** -/
theorem log_definition_without_fields :
    ¬ DefinitionsStable
      (sinkLog Int (soloSession 0 (SinkRequest.log
        (.register (logNamed (ascii "e") [{ name := ascii "a" }]))) 2))
      (sinkDocs (δ := Int) (soloSession 0 (SinkRequest.log
        (.register (logNamed (ascii "e") [{ name := ascii "a" }]))) 2)) := by
  rintro ⟨hlogs, -⟩
  have hinspected := hlogs.inspected (logNamed (ascii "e") [{ name := ascii "a" }])
    ⟨_, List.mem_cons_self⟩
  have heq := Option.some_inj.mp (Except.ok.inj hinspected)
  revert heq
  decide

end StateSpec.Runtime
