/-
  CODECS — `bindings/cpp/runtime/codec_core.hpp` and `codec_workflows.hpp`: the records of the
  workflow store and the documents they are stored as.

  A `Timestamp` is a `std::chrono::system_clock::time_point`, a number of nanoseconds; a duration of
  a request is a number of seconds.  A stored timestamp has whole milliseconds, cut off towards
  zero, so what is read back of an execution is not always what was put: `stored` says what is
  (`WorkflowExecutionRecord.fromJson_toJson`).  The attempt counter is a `std::uint64_t` that is
  stored as a `std::int64_t` and read back the same.
-/
import StateSpec.Backend

namespace StateSpec

variable {δ : Type}

/-! ## Reading a document -/

namespace Json

/-- `at`: the member of that name. -/
def atMember (json : Json δ) (key : Bytes) : Except Error (Json δ) :=
  match json with
  | .object members =>
    match members.lookup key with
    | some value => .ok value
    | none => .error .outOfRange
  | _ => .error .badVariantAccess

def asBool : Json δ → Except Error Bool
  | .bool value => .ok value
  | _ => .error .badVariantAccess

def asInt64 : Json δ → Except Error Int
  | .int64 value => .ok value
  | _ => .error .badVariantAccess

def asDouble [Widening δ] : Json δ → Except Error δ
  | .int64 value => .ok (Widening.ofInt value)
  | .double value => .ok value
  | _ => .error .badVariantAccess

def asString : Json δ → Except Error Bytes
  | .string value => .ok value
  | _ => .error .badVariantAccess

def asArray : Json δ → Except Error (List (Json δ))
  | .array values => .ok values
  | _ => .error .badVariantAccess

theorem atMember_ofMembers {members : List (Bytes × Json δ)} {key : Bytes} {value : Json δ}
    (h : members.lookup key = some value) : (ofMembers members).atMember key = .ok value := by
  have hfind := (find_ofMembers members key).trans h
  rw [ofMembers, find] at hfind
  rw [ofMembers, atMember, hfind]

end Json

namespace Runtime

/-! ## `codec_core.hpp` -/

/-- `std::chrono::system_clock::time_point`, in nanoseconds. -/
abbrev Timestamp := Int

/-- `std::chrono::seconds`. -/
abbrev Seconds := Int

/-- `now + duration`. -/
def Timestamp.plus (now : Timestamp) (duration : Seconds) : Timestamp := now + duration * 1000000000

def timestampMillis (value : Timestamp) : Int := value.tdiv 1000000

def timestampFrom (value : Json δ) : Except Error Timestamp := do
  let millis ← value.asInt64
  pure (millis * 1000000)

/-- A timestamp after it has been stored. -/
def Timestamp.stored (t : Timestamp) : Timestamp := timestampMillis t * 1000000

/-- Storing a time does not take it below a stored one. -/
theorem Timestamp.stored_le_stored {s t : Timestamp} (h : s.stored ≤ t) : s.stored ≤ t.stored :=
  Int.mul_le_mul_of_nonneg_right (Int.le_tdiv_of_mul_le (by decide) h) (by decide)

/-- `put_optional_string`, for a member list. -/
def optionalString (key : Bytes) (value : Option Bytes) : List (Bytes × Json δ) :=
  match value with
  | some text => [(key, .string text)]
  | none => []

/-- `optional_string`. -/
def optionalStringFrom (object : Json δ) (key : Bytes) : Except Error (Option Bytes) :=
  match object.find key with
  | some value => value.asString.map some
  | none => .ok none

/-- The same for a timestamp in milliseconds. -/
def optionalTimestamp (key : Bytes) (value : Option Timestamp) : List (Bytes × Json δ) :=
  match value with
  | some time => [(key, .int64 (timestampMillis time))]
  | none => []

def optionalTimestampFrom (object : Json δ) (key : Bytes) : Except Error (Option Timestamp) :=
  match object.find key with
  | some value => (timestampFrom value).map some
  | none => .ok none

/-- An optional text is read back as it was put. -/
theorem optionalStringFrom_ofMembers {members : List (Bytes × Json δ)} {key : Bytes}
    {value : Option Bytes} (h : members.lookup key = value.map .string) :
    optionalStringFrom (.ofMembers members) key = .ok value := by
  rw [optionalStringFrom, Json.find_ofMembers, h]
  cases value <;> rfl

/-- An optional timestamp is read back in whole milliseconds. -/
theorem optionalTimestampFrom_ofMembers {members : List (Bytes × Json δ)} {key : Bytes}
    {value : Option Timestamp} (h : members.lookup key = value.map fun time => .int64 (timestampMillis time)) :
    optionalTimestampFrom (.ofMembers members) key = .ok (value.map Timestamp.stored) := by
  rw [optionalTimestampFrom, Json.find_ofMembers, h]
  cases value <;> rfl

/-! ## `codec_workflows.hpp` -/

structure WorkflowStepDefinition where
  name : Bytes
  expectedExecutionTime : Seconds
  maxRetries : UInt32 := 0

structure WorkflowDefinition (δ : Type) where
  workflowName : Bytes
  workflowVersion : Int := 0
  startStep : Bytes
  expectedExecutionTime : Seconds
  singleton : Bool := false
  steps : List WorkflowStepDefinition := []
  metadata : Json δ

structure WorkflowExecutionRecord (δ : Type) where
  workflowExecutionId : Bytes
  workflowName : Bytes
  workflowVersion : Int := 0
  currentStep : Bytes
  status : Bytes
  attempt : UInt64 := 0
  claimedBy : Option Bytes := none
  claimToken : Option Bytes := none
  claimExpiresAt : Option Timestamp := none
  state : Json δ

structure WorkflowHeartbeatRecord where
  workflowExecutionId : Bytes
  claimToken : Bytes
  worker : Bytes
  currentStep : Bytes
  claimExpiresAt : Timestamp

/-- `workflow_step_definition_to_json`. -/
def WorkflowStepDefinition.toJson (step : WorkflowStepDefinition) : Json δ :=
  .ofMembers [
    (ascii "name", .string step.name),
    (ascii "expected_execution_time_seconds", .int64 step.expectedExecutionTime),
    (ascii "max_retries", .int64 step.maxRetries.toNat)]

/-- `workflow_step_definition_from_json`. -/
def WorkflowStepDefinition.fromJson (json : Json δ) : Except Error WorkflowStepDefinition := do
  let name ← (← json.atMember (ascii "name")).asString
  let expectedExecutionTime ←
    (← json.atMember (ascii "expected_execution_time_seconds")).asInt64
  let maxRetries ← (← json.atMember (ascii "max_retries")).asInt64
  pure { name, expectedExecutionTime, maxRetries := .ofInt maxRetries }

/-- `workflow_definition_to_json`. -/
def WorkflowDefinition.toJson (definition : WorkflowDefinition δ) : Json δ :=
  .ofMembers [
    (ascii "workflow_name", .string definition.workflowName),
    (ascii "workflow_version", .int64 definition.workflowVersion),
    (ascii "start_step", .string definition.startStep),
    (ascii "expected_execution_time_seconds", .int64 definition.expectedExecutionTime),
    (ascii "singleton", .bool definition.singleton),
    (ascii "steps", .array (definition.steps.map WorkflowStepDefinition.toJson)),
    (ascii "metadata", definition.metadata)]

/-- `workflow_definition_from_json`. -/
def WorkflowDefinition.fromJson (json : Json δ) : Except Error (WorkflowDefinition δ) := do
  let workflowName ← (← json.atMember (ascii "workflow_name")).asString
  let workflowVersion ← (← json.atMember (ascii "workflow_version")).asInt64
  let startStep ← (← json.atMember (ascii "start_step")).asString
  let expectedExecutionTime ←
    (← json.atMember (ascii "expected_execution_time_seconds")).asInt64
  let singleton ← (← json.atMember (ascii "singleton")).asBool
  let steps ← (← (← json.atMember (ascii "steps")).asArray).mapM WorkflowStepDefinition.fromJson
  let metadata := (json.find (ascii "metadata")).getD (.object [])
  pure { workflowName, workflowVersion, startStep, expectedExecutionTime, singleton, steps, metadata }

/-- `workflow_execution_to_json`, the members. -/
def WorkflowExecutionRecord.members (execution : WorkflowExecutionRecord δ) :
    List (Bytes × Json δ) :=
  [(ascii "workflow_execution_id", .string execution.workflowExecutionId),
    (ascii "workflow_name", .string execution.workflowName),
    (ascii "workflow_version", .int64 execution.workflowVersion),
    (ascii "current_step", .string execution.currentStep),
    (ascii "status", .string execution.status),
    (ascii "attempt", .int64 execution.attempt.toInt64.toInt),
    (ascii "state", execution.state)] ++
  optionalString (ascii "claimed_by") execution.claimedBy ++
  optionalString (ascii "claim_token") execution.claimToken ++
  optionalTimestamp (ascii "claim_expires_at_ms") execution.claimExpiresAt

/-- `workflow_execution_to_json`. -/
def WorkflowExecutionRecord.toJson (execution : WorkflowExecutionRecord δ) : Json δ :=
  .ofMembers execution.members

/-- `workflow_execution_from_json`. -/
def WorkflowExecutionRecord.fromJson (json : Json δ) :
    Except Error (WorkflowExecutionRecord δ) := do
  let workflowExecutionId ← (← json.atMember (ascii "workflow_execution_id")).asString
  let workflowName ← (← json.atMember (ascii "workflow_name")).asString
  let workflowVersion ← (← json.atMember (ascii "workflow_version")).asInt64
  let currentStep ← (← json.atMember (ascii "current_step")).asString
  let status ← (← json.atMember (ascii "status")).asString
  let attempt ← (← json.atMember (ascii "attempt")).asInt64
  let claimedBy ← optionalStringFrom json (ascii "claimed_by")
  let claimToken ← optionalStringFrom json (ascii "claim_token")
  let claimExpiresAt ← optionalTimestampFrom json (ascii "claim_expires_at_ms")
  let state := (json.find (ascii "state")).getD (.object [])
  pure { workflowExecutionId, workflowName, workflowVersion, currentStep, status,
         attempt := (Int64.ofInt attempt).toUInt64, claimedBy, claimToken, claimExpiresAt, state }

/-- `workflow_heartbeat_to_json`. -/
def WorkflowHeartbeatRecord.toJson (heartbeat : WorkflowHeartbeatRecord) : Json δ :=
  .ofMembers [
    (ascii "workflow_execution_id", .string heartbeat.workflowExecutionId),
    (ascii "claim_token", .string heartbeat.claimToken),
    (ascii "worker", .string heartbeat.worker),
    (ascii "current_step", .string heartbeat.currentStep),
    (ascii "claim_expires_at_ms", .int64 (timestampMillis heartbeat.claimExpiresAt))]

/-! ## What is read back -/

/-- An execution after it has been stored: the expiry of its claim has whole milliseconds. -/
def WorkflowExecutionRecord.stored (execution : WorkflowExecutionRecord δ) :
    WorkflowExecutionRecord δ :=
  { execution with claimExpiresAt := execution.claimExpiresAt.map Timestamp.stored }

/-- The optional members are found as they were put. -/
theorem WorkflowExecutionRecord.lookup_members (execution : WorkflowExecutionRecord δ) :
    execution.members.lookup (ascii "claimed_by") = execution.claimedBy.map .string ∧
    execution.members.lookup (ascii "claim_token") = execution.claimToken.map .string ∧
    execution.members.lookup (ascii "claim_expires_at_ms") =
      execution.claimExpiresAt.map fun expiry => .int64 (timestampMillis expiry) := by
  obtain ⟨_, _, _, _, _, _, claimedBy, claimToken, claimExpiresAt, _⟩ := execution
  cases claimedBy <;> cases claimToken <;> cases claimExpiresAt <;> exact ⟨rfl, rfl, rfl⟩

/-- **What is read back of an execution.** -/
theorem WorkflowExecutionRecord.fromJson_toJson (execution : WorkflowExecutionRecord δ) :
    fromJson execution.toJson = .ok execution.stored := by
  have hat {key : Bytes} {value : Json δ} (h : execution.members.lookup key = some value) :
      execution.toJson.atMember key = .ok value :=
    Json.atMember_ofMembers h
  have hfind (key : Bytes) : execution.toJson.find key = execution.members.lookup key :=
    Json.find_ofMembers execution.members key
  obtain ⟨hclaimedBy, hclaimToken, hexpires⟩ := execution.lookup_members
  have hclaimedBy := optionalStringFrom_ofMembers hclaimedBy
  have hclaimToken := optionalStringFrom_ofMembers hclaimToken
  have hexpiresAt := optionalTimestampFrom_ofMembers hexpires
  rw [← toJson] at hclaimedBy hclaimToken hexpiresAt
  have hid := @hat (ascii "workflow_execution_id") _ rfl
  have hname := @hat (ascii "workflow_name") _ rfl
  have hversion := @hat (ascii "workflow_version") _ rfl
  have hstep := @hat (ascii "current_step") _ rfl
  have hstatus := @hat (ascii "status") _ rfl
  have hattempt := @hat (ascii "attempt") _ rfl
  have hstate : execution.members.lookup (ascii "state") = some execution.state := rfl
  rw [fromJson, hid, hname, hversion, hstep, hstatus, hattempt, hclaimedBy, hclaimToken, hexpiresAt,
    hfind, hstate]
  -- the counter goes through a signed number and comes back
  simp [Json.asString, Json.asInt64, bind, Except.bind, pure, Except.pure, stored]

/-- A `std::uint32_t` goes through a signed number and comes back. -/
theorem ofInt_toNat (n : UInt32) : UInt32.ofInt n.toNat = n := by
  have hlt := n.toNat_lt
  have hmod : ((n.toNat : Int) % 2 ^ 32).toNat = n.toNat := by omega
  rw [UInt32.ofInt, hmod, UInt32.ofNat_toNat]

theorem WorkflowStepDefinition.fromJson_toJson (step : WorkflowStepDefinition) :
    fromJson (step.toJson : Json δ) = .ok step := by
  have hmax : (step.toJson : Json δ).atMember (ascii "max_retries") =
    .ok (.int64 step.maxRetries.toNat) := rfl
  have hname : (step.toJson : Json δ).atMember (ascii "name") = .ok (.string step.name) := rfl
  have htime : (step.toJson : Json δ).atMember (ascii "expected_execution_time_seconds") =
    .ok (.int64 step.expectedExecutionTime) := rfl
  rw [fromJson, hname, htime, hmax]
  simp only [Json.asString, Json.asInt64, bind, Except.bind, pure, Except.pure, ofInt_toNat]

theorem mapM_fromJson (steps : List WorkflowStepDefinition) :
    (steps.map (WorkflowStepDefinition.toJson (δ := δ))).mapM WorkflowStepDefinition.fromJson =
      .ok steps := by
  induction steps with
  | nil => rfl
  | cons step steps ih =>
    rw [List.map_cons, List.mapM_cons, step.fromJson_toJson, ih]
    rfl

/-- **What is read back of a definition** is the definition. -/
theorem WorkflowDefinition.fromJson_toJson (definition : WorkflowDefinition δ) :
    fromJson definition.toJson = .ok definition := by
  have hname : definition.toJson.atMember (ascii "workflow_name") =
    .ok (.string definition.workflowName) := rfl
  have hversion : definition.toJson.atMember (ascii "workflow_version") =
    .ok (.int64 definition.workflowVersion) := rfl
  have hstart : definition.toJson.atMember (ascii "start_step") =
    .ok (.string definition.startStep) := rfl
  have htime : definition.toJson.atMember (ascii "expected_execution_time_seconds") =
    .ok (.int64 definition.expectedExecutionTime) := rfl
  have hsingleton : definition.toJson.atMember (ascii "singleton") =
    .ok (.bool definition.singleton) := rfl
  have hsteps : definition.toJson.atMember (ascii "steps") =
    .ok (.array (definition.steps.map WorkflowStepDefinition.toJson)) := rfl
  have hmetadata : definition.toJson.find (ascii "metadata") = some definition.metadata := rfl
  rw [fromJson, hname, hversion, hstart, htime, hsingleton, hsteps, hmetadata]
  simp only [Json.asString, Json.asInt64, Json.asBool, Json.asArray, bind, Except.bind, pure,
    Except.pure]
  rw [show List.mapM _ _ = _ from mapM_fromJson definition.steps]
  rfl

end Runtime

end StateSpec
