/-
  LOGS AND METRICS — `bindings/cpp/runtime/log_sink.hpp` and `metric_sink.hpp`, with their records
  (`log.hpp`, `metric.hpp`) and the documents of these (`codec_logs.hpp`, `codec_metrics.hpp`).

  Both sinks keep definitions under their names, and events or samples under keys that a counter of the
  sink makes.  What they do with a definition is one thing, so it is one `Catalog` here, and each sink
  has the catalog of its own collection and codec.

  The document of a definition has no place for its fields or labels, so what is read back of a definition
  has none (`Catalog.fromJson_toJson`); an event or a sample is read back as it was put.
-/
import StateSpec.Runtime.Codec
import StateSpec.Runtime.Session

namespace StateSpec

namespace Runtime

variable {δ : Type}

/-! ## `log.hpp` -/

inductive LogLevel where
  | debug | info | warn | error
deriving DecidableEq

structure LogEvent (δ : Type) where
  name : Bytes
  level : LogLevel := .info
  eventName : Bytes
  fields : Json δ := .object []

structure LogDefinition where
  name : Bytes
  level : LogLevel := .info
  eventName : Bytes
  fields : List FieldDescriptor := []
deriving DecidableEq

/-! ## `metric.hpp` -/

inductive MetricKind where
  | counter | gauge | histogram
deriving DecidableEq

structure MetricSample (δ : Type) where
  name : Bytes
  kind : MetricKind := .counter
  backendName : Bytes
  value : δ
  unit : Bytes
  labels : Json δ := .object []

structure MetricDefinition where
  name : Bytes
  kind : MetricKind := .counter
  backendName : Bytes
  unit : Bytes
  labels : List FieldDescriptor := []
deriving DecidableEq

/-- `LogDefinitionRegistration` and `MetricDefinitionRegistration`. -/
structure DefinitionRegistration (α : Type) where
  registeredNew : Bool := false
  definition : α

/-! ## `codec_logs.hpp` -/

/-- `log_level_name`. -/
def LogLevel.levelName : LogLevel → Bytes
  | debug => ascii "debug"
  | info => ascii "info"
  | warn => ascii "warn"
  | error => ascii "error"

def unknownLogLevelMessage (level : Bytes) : Bytes := ascii "unknown log level: " ++ level

/-- `log_level_from_string`. -/
def LogLevel.fromString (value : Bytes) : Except Error LogLevel :=
  if value = ascii "debug" then .ok debug
  else if value = ascii "info" then .ok info
  else if value = ascii "warn" then .ok warn
  else if value = ascii "error" then .ok error
  else .error (.backendError (unknownLogLevelMessage value))

/-- `log_definition_to_json`. -/
def LogDefinition.toJson (definition : LogDefinition) : Json δ :=
  .ofMembers [
    (ascii "name", .string definition.name),
    (ascii "level", .string definition.level.levelName),
    (ascii "event_name", .string definition.eventName)]

/-- `log_definition_from_json`. -/
def LogDefinition.fromJson (json : Json δ) : Except Error LogDefinition := do
  let name ← (← json.atMember (ascii "name")).asString
  let level ← LogLevel.fromString (← (← json.atMember (ascii "level")).asString)
  let eventName ← (← json.atMember (ascii "event_name")).asString
  pure { name, level, eventName }

/-- `log_event_to_json`. -/
def LogEvent.toJson (event : LogEvent δ) : Json δ :=
  .ofMembers [
    (ascii "name", .string event.name),
    (ascii "level", .string event.level.levelName),
    (ascii "event_name", .string event.eventName),
    (ascii "fields", event.fields)]

/-- `log_event_from_json`. -/
def LogEvent.fromJson (json : Json δ) : Except Error (LogEvent δ) := do
  let name ← (← json.atMember (ascii "name")).asString
  let level ← LogLevel.fromString (← (← json.atMember (ascii "level")).asString)
  let eventName ← (← json.atMember (ascii "event_name")).asString
  let fields := (json.find (ascii "fields")).getD (.object [])
  pure { name, level, eventName, fields }

/-! ## `codec_metrics.hpp` -/

/-- `metric_kind_name`. -/
def MetricKind.kindName : MetricKind → Bytes
  | counter => ascii "counter"
  | gauge => ascii "gauge"
  | histogram => ascii "histogram"

def unknownMetricKindMessage (kind : Bytes) : Bytes := ascii "unknown metric kind: " ++ kind

/-- `metric_kind_from_string`. -/
def MetricKind.fromString (value : Bytes) : Except Error MetricKind :=
  if value = ascii "counter" then .ok counter
  else if value = ascii "gauge" then .ok gauge
  else if value = ascii "histogram" then .ok histogram
  else .error (.backendError (unknownMetricKindMessage value))

/-- `metric_definition_to_json`. -/
def MetricDefinition.toJson (definition : MetricDefinition) : Json δ :=
  .ofMembers [
    (ascii "name", .string definition.name),
    (ascii "kind", .string definition.kind.kindName),
    (ascii "backend_name", .string definition.backendName),
    (ascii "unit", .string definition.unit)]

/-- `metric_definition_from_json`. -/
def MetricDefinition.fromJson (json : Json δ) : Except Error MetricDefinition := do
  let name ← (← json.atMember (ascii "name")).asString
  let kind ← MetricKind.fromString (← (← json.atMember (ascii "kind")).asString)
  let backendName ← (← json.atMember (ascii "backend_name")).asString
  let unit ← (← json.atMember (ascii "unit")).asString
  pure { name, kind, backendName, unit }

/-- `metric_sample_to_json`. -/
def MetricSample.toJson (sample : MetricSample δ) : Json δ :=
  .ofMembers [
    (ascii "name", .string sample.name),
    (ascii "kind", .string sample.kind.kindName),
    (ascii "backend_name", .string sample.backendName),
    (ascii "value", .double sample.value),
    (ascii "unit", .string sample.unit),
    (ascii "labels", sample.labels)]

/-- `metric_sample_from_json`. -/
def MetricSample.fromJson [Widening δ] (json : Json δ) : Except Error (MetricSample δ) := do
  let name ← (← json.atMember (ascii "name")).asString
  let kind ← MetricKind.fromString (← (← json.atMember (ascii "kind")).asString)
  let backendName ← (← json.atMember (ascii "backend_name")).asString
  let value ← (← json.atMember (ascii "value")).asDouble
  let unit ← (← json.atMember (ascii "unit")).asString
  let labels := (json.find (ascii "labels")).getD (.object [])
  pure { name, kind, backendName, value, unit, labels }

/-! ## What is read back -/

theorem LogLevel.fromString_levelName (level : LogLevel) : fromString level.levelName = .ok level := by
  cases level <;> rfl

theorem MetricKind.fromString_kindName (kind : MetricKind) : fromString kind.kindName = .ok kind := by
  cases kind <;> rfl

/-- What is read back of a definition has no fields. -/
theorem LogDefinition.fromJson_toJson (definition : LogDefinition) :
    fromJson (definition.toJson : Json δ) = .ok { definition with fields := [] } := by
  have hname : (definition.toJson : Json δ).atMember (ascii "name") = .ok (.string definition.name) :=
    rfl
  have hlevel : (definition.toJson : Json δ).atMember (ascii "level") =
    .ok (.string definition.level.levelName) := rfl
  have heventName : (definition.toJson : Json δ).atMember (ascii "event_name") =
    .ok (.string definition.eventName) := rfl
  rw [fromJson, hname, hlevel, heventName]
  simp only [Json.asString, bind, Except.bind, pure, Except.pure, LogLevel.fromString_levelName]

theorem LogEvent.fromJson_toJson (event : LogEvent δ) : fromJson event.toJson = .ok event := by
  have hname : event.toJson.atMember (ascii "name") = .ok (.string event.name) := rfl
  have hlevel : event.toJson.atMember (ascii "level") = .ok (.string event.level.levelName) := rfl
  have heventName : event.toJson.atMember (ascii "event_name") = .ok (.string event.eventName) := rfl
  have hfields : event.toJson.find (ascii "fields") = some event.fields := rfl
  rw [fromJson, hname, hlevel, heventName, hfields]
  simp only [Json.asString, bind, Except.bind, pure, Except.pure, LogLevel.fromString_levelName,
    Option.getD_some]

/-- What is read back of a definition has no labels. -/
theorem MetricDefinition.fromJson_toJson (definition : MetricDefinition) :
    fromJson (definition.toJson : Json δ) = .ok { definition with labels := [] } := by
  have hname : (definition.toJson : Json δ).atMember (ascii "name") = .ok (.string definition.name) :=
    rfl
  have hkind : (definition.toJson : Json δ).atMember (ascii "kind") =
    .ok (.string definition.kind.kindName) := rfl
  have hbackend : (definition.toJson : Json δ).atMember (ascii "backend_name") =
    .ok (.string definition.backendName) := rfl
  have hunit : (definition.toJson : Json δ).atMember (ascii "unit") =
    .ok (.string definition.unit) := rfl
  rw [fromJson, hname, hkind, hbackend, hunit]
  simp only [Json.asString, bind, Except.bind, pure, Except.pure, MetricKind.fromString_kindName]

theorem MetricSample.fromJson_toJson [Widening δ] (sample : MetricSample δ) :
    fromJson sample.toJson = .ok sample := by
  have hname : sample.toJson.atMember (ascii "name") = .ok (.string sample.name) := rfl
  have hkind : sample.toJson.atMember (ascii "kind") = .ok (.string sample.kind.kindName) := rfl
  have hbackend : sample.toJson.atMember (ascii "backend_name") = .ok (.string sample.backendName) :=
    rfl
  have hvalue : sample.toJson.atMember (ascii "value") = .ok (.double sample.value) := rfl
  have hunit : sample.toJson.atMember (ascii "unit") = .ok (.string sample.unit) := rfl
  have hlabels : sample.toJson.find (ascii "labels") = some sample.labels := rfl
  rw [fromJson, hname, hkind, hbackend, hvalue, hunit, hlabels]
  simp only [Json.asString, Json.asDouble, bind, Except.bind, pure, Except.pure,
    MetricKind.fromString_kindName, Option.getD_some]

/-! ## Definitions -/

/-- Where a sink keeps its definitions, and what becomes of one that is stored. -/
structure Catalog (δ α : Type) where
  collection : RuntimeCollection
  name : α → Bytes
  toJson : α → Json δ
  fromJson : Json δ → Except Error α
  stored : α → α
  fromJson_toJson : ∀ definition, fromJson (toJson definition) = .ok (stored definition)
  name_stored : ∀ definition, name (stored definition) = name definition

namespace Catalog

variable {α : Type} (catalog : Catalog δ α)

/-- `inspect_definitionTx` of either sink. -/
def inspectDefinitionTx (name : Bytes) : TxProgram δ (Option α) := do
  match ← .read catalog.collection name with
  | none => pure none
  | some document => .ofExcept ((catalog.fromJson document).map some)

/-- `register_definitionTx` of either sink. -/
def registerDefinitionTx (definition : α) : TxProgram δ (DefinitionRegistration α) := do
  let existing ← catalog.inspectDefinitionTx (catalog.name definition)
  .write catalog.collection (catalog.name definition) (catalog.toJson definition)
  pure { registeredNew := existing.isNone, definition }

end Catalog

/-! ## `log_sink.hpp` -/

namespace RuntimeLogSink

/-- The definitions of a log sink. -/
def catalog : Catalog δ LogDefinition where
  collection := .logDefinitions
  name := LogDefinition.name
  toJson := LogDefinition.toJson
  fromJson := LogDefinition.fromJson
  stored definition := { definition with fields := [] }
  fromJson_toJson := LogDefinition.fromJson_toJson
  name_stored _ := rfl

def inspectDefinitionTx (name : Bytes) : TxProgram δ (Option LogDefinition) :=
  catalog.inspectDefinitionTx name

def registerDefinitionTx (definition : LogDefinition) :
    TxProgram δ (DefinitionRegistration LogDefinition) :=
  catalog.registerDefinitionTx definition

end RuntimeLogSink

/-! ## `metric_sink.hpp` -/

namespace RuntimeMetricSink

/-- The definitions of a metric sink. -/
def catalog : Catalog δ MetricDefinition where
  collection := .metricDefinitions
  name := MetricDefinition.name
  toJson := MetricDefinition.toJson
  fromJson := MetricDefinition.fromJson
  stored definition := { definition with labels := [] }
  fromJson_toJson := MetricDefinition.fromJson_toJson
  name_stored _ := rfl

def inspectDefinitionTx (name : Bytes) : TxProgram δ (Option MetricDefinition) :=
  catalog.inspectDefinitionTx name

def registerDefinitionTx (definition : MetricDefinition) :
    TxProgram δ (DefinitionRegistration MetricDefinition) :=
  catalog.registerDefinitionTx definition

end RuntimeMetricSink

/-! ## Keys and collections -/

/-- The key of the next record of a sink, and the counter after it. -/
def nextRecordKey (nextId : UInt64) (name : Bytes) : Key × UInt64 :=
  (name ++ colon :: Bytes.decimal (nextId + 1).toNat, nextId + 1)

def RuntimeLogSink.nextEventKey (nextEventId : UInt64) (name : Bytes) : Key × UInt64 :=
  nextRecordKey nextEventId name

def RuntimeMetricSink.nextSampleKey (nextSampleId : UInt64) (name : Bytes) : Key × UInt64 :=
  nextRecordKey nextSampleId name

inductive SinkKind where
  | log | metric
deriving DecidableEq

/-- The collections of a sink. -/
def SinkKind.collections : SinkKind → List CollectionDescriptor
  | log =>
    [{ name := RuntimeCollection.logDefinitions.name, keyFields := [ascii "name"] },
     { name := RuntimeCollection.logEvents.name, keyFields := [ascii "event_id"] }]
  | metric =>
    [{ name := RuntimeCollection.metricDefinitions.name, keyFields := [ascii "name"] },
     { name := RuntimeCollection.metricSamples.name, keyFields := [ascii "sample_id"] }]

/-- `ensure_collections` of a sink. -/
def ensureSinkCollections [Decimal δ] (kind : SinkKind) (s : Cpp.State δ) : Cpp.State δ :=
  Cpp.register kind.collections s

end Runtime

end StateSpec
