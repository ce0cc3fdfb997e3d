/-
  RUNTIME DECLARATIONS — the passes of the validator over queues, leases, workers, APIs, API servers and
  what may depend on what: `validator_queues.cpp`, `validator_leases.cpp`, `validator_workers.cpp`,
  `validator_apis.cpp`, `validator_api_servers.cpp` and `validator_runtime_dependencies.cpp`.
-/
import StateSpec.Compiler.ValidatorDeclarations
import StateSpec.Compiler.Durations

namespace StateSpec.Compiler

/-- A name that has to be declared, as whatever it is. -/
def validateDeclared (symbols : SymbolTable) (range : SourceRange) (kind : String) (name : Option Bytes) :
    Diagnostics :=
  match name with
  | none => []
  | some name => reportIf (symbols.find name).isNone (unknownReferenceError range kind name)

/-! ## `validator_queues.cpp` -/

def validateMessage (system : SystemDecl) (symbols : SymbolTable) (queue : QueueDecl) (message : MessageDecl) :
    Diagnostics :=
  let subject := "message '" ++ text (queueMessageName queue message) ++ "'"
  reportIf message.idempotencyKey.isNone (requiredError message.range subject "idempotency_key") ++
  reportIf (message.payloadFields = []) (requiredError message.range subject "payload") ++
  validateFieldDuplicates message.payloadFields ++
  validateFieldTypes message.payloadFields symbols ++
  reportIf (declaresTenantField system message.payloadFields = false)
    (.error message.range "SSPEC3402"
      (subject ++ " payload must declare tenant field '" ++ tenantFieldText system ++ "'")) ++
  match message.idempotencyKey with
  | none => []
  | some key =>
    reportIf (key ∉ fieldNames message.payloadFields)
      (unknownReferenceError message.range "message idempotency_key field" key)

def validateQueue (system : SystemDecl) (symbols : SymbolTable) (queue : QueueDecl) : Diagnostics :=
  let subject := "queue '" ++ text queue.name ++ "'"
  reportIf queue.namespaceName.isNone (requiredError queue.range subject "namespace") ++
  reportIf queue.channel.isNone (requiredError queue.range subject "channel") ++
  (match queue.visibilityTimeout with
    | none => requiredError queue.range subject "visibility_timeout"
    | some timeout =>
      reportIf (isDurationLiteral timeout = false) (durationError queue.range subject "visibility_timeout")) ++
  (match queue.maxAttempts with
    | none => requiredError queue.range subject "max_attempts"
    | some attempts =>
      reportIf (isPositiveInteger attempts = false)
        (positiveIntegerError queue.range subject "max_attempts")) ++
  reportIf (queue.messages = []) (requiredError queue.range subject "at least one message") ++
  eachSeen (fun message => [message.name])
    (fun messageNames message =>
      reportIf (message.name ∈ messageNames) (duplicateError message.range (queueMessageName queue message)) ++
      validateMessage system symbols queue message)
    [] queue.messages ++
  validateDeclared symbols queue.range "dead_letter" queue.deadLetter

def validateQueues (system : SystemDecl) (symbols : SymbolTable) : Diagnostics :=
  system.queues.flatMap (validateQueue system symbols)

/-! ## `validator_leases.cpp` -/

/-- A duration that has to be there. -/
def validateDuration (range : SourceRange) (subject field : String) (value : Option Bytes) : Diagnostics :=
  match value with
  | none => requiredError range subject field
  | some duration => reportIf (isDurationLiteral duration = false) (durationError range subject field)

/-- What two durations may not be, where both are literals and the scanner finds their seconds. -/
def reportSeconds (first second : Option Bytes) (wrong : Int64 → Int64 → Bool) (diagnostics : Diagnostics) :
    Diagnostics :=
  match first.bind Validator.durationSeconds, second.bind Validator.durationSeconds with
  | some first, some second => reportIf (wrong first second = true) diagnostics
  | _, _ => []

def validateLease (lease : LeaseDecl) : Diagnostics :=
  let subject := "lease '" ++ text lease.name ++ "'"
  reportIf lease.resource.isNone (requiredError lease.range subject "resource") ++
  validateDuration lease.range subject "ttl" lease.ttl ++
  validateDuration lease.range subject "renew_every" lease.renewEvery ++
  reportIf lease.holder.isNone (requiredError lease.range subject "holder") ++
  reportIf lease.fencingToken.isNone (requiredError lease.range subject "fencing_token") ++
  validateDuration lease.range subject "max_ttl" lease.maxTtl ++
  reportSeconds lease.ttl lease.renewEvery (fun ttl renewEvery => decide (ttl ≤ renewEvery))
    (.error lease.range "SSPEC3501" (subject ++ " renew_every must be less than ttl")) ++
  reportSeconds lease.ttl lease.maxTtl (fun ttl maxTtl => decide (maxTtl < ttl))
    (.error lease.range "SSPEC3502" (subject ++ " ttl must be less than or equal to max_ttl"))

def validateLeases (system : SystemDecl) : Diagnostics := system.leases.flatMap validateLease

/-! ## `validator_workers.cpp` -/

def validateWorker (symbols : SymbolTable) (worker : WorkerDecl) : Diagnostics :=
  reportIf (worker.singleton.getD false = true ∧ worker.lease.isNone)
    (.error worker.range "SSPEC3301"
      ("singleton worker '" ++ text worker.name ++ "' must declare a lease")) ++
  reportIf (worker.concurrency.any fun concurrency => !isPositiveInteger concurrency)
    (positiveIntegerError worker.range ("worker '" ++ text worker.name ++ "'") "concurrency") ++
  validateDeclared symbols worker.range "worker lease" worker.lease ++
  validateDeclared symbols worker.range "worker polls target" worker.polls ++
  validateDeclared symbols worker.range "worker executes target" worker.executes

def validateWorkers (system : SystemDecl) (symbols : SymbolTable) : Diagnostics :=
  system.workers.flatMap (validateWorker symbols)

/-! ## `validator_apis.cpp` -/

def findShape (system : SystemDecl) (name : Bytes) : Option ShapeDecl :=
  system.shapes.find? fun shape => decide (shape.name = name)

def validateApiInputTenantField (system : SystemDecl) (api : ApiDecl) : Diagnostics :=
  match api.input.bind (findShape system) with
  | none => []
  | some inputShape =>
    reportIf (declaresTenantField system inputShape.fields = false)
      (.error inputShape.range "SSPEC3403"
        ("API '" ++ text api.name ++ "' input shape '" ++ text inputShape.name ++
          "' must declare tenant field '" ++ tenantFieldText system ++ "'"))

def isMutatingMethod (method : Bytes) : Bool :=
  decide (method = ascii "POST" ∨ method = ascii "PUT" ∨ method = ascii "PATCH")

/-- The loop of `lower_camel_field_name`: underscores go, and the byte behind one is in upper case. -/
def lowerCamelFrom (uppercaseNext : Bool) : Bytes → Bytes
  | [] => []
  | ch :: rest =>
    if ch = byte '_' then lowerCamelFrom true rest
    else (if uppercaseNext then toUpper ch else ch) :: lowerCamelFrom false rest

def lowerCamelFieldName (fieldName : Bytes) : Bytes := lowerCamelFrom false fieldName

/-- `{name}`. -/
def placeholder (name : Bytes) : Bytes := ascii "\x7b" ++ name ++ ascii "\x7d"

/-- A path that says which tenant it is about: it is below `/tenants/`, or has the tenant field as a
    parameter, in one of two spellings. -/
def hasTenantIdentity (tenantField path : Bytes) : Bool :=
  containsText path (ascii "/tenants/") || containsText path (placeholder tenantField) ||
    containsText path (placeholder (lowerCamelFieldName tenantField))

def validateApiTenantPath (system : SystemDecl) (api : ApiDecl) : Diagnostics :=
  match system.tenantScope, api.path with
  | some scope, some path =>
    reportIf (hasTenantIdentity scope.fieldName path = false)
      (.error api.range "SSPEC3406"
        ("API '" ++ text api.name ++ "' path must include tenant identity for tenant field '" ++
          text scope.fieldName ++ "'"))
  | _, _ => []

def validateKnownType (symbols : SymbolTable) (range : SourceRange) (kind : String) (type : Option Bytes) :
    Diagnostics :=
  match type with
  | none => []
  | some type => reportIf (isKnownTypeReference type symbols = false) (unknownReferenceError range kind type)

def validateApi (system : SystemDecl) (symbols : SymbolTable) (api : ApiDecl) : Diagnostics :=
  let subject := "api '" ++ text api.name ++ "'"
  reportIf api.method.isNone (requiredError api.range subject "method") ++
  reportIf api.path.isNone (requiredError api.range subject "path") ++
  validateApiTenantPath system api ++
  reportIf (api.method.any isMutatingMethod ∧ api.input.isNone) (requiredError api.range subject "input") ++
  validateKnownType symbols api.range "API input" api.input ++
  validateApiInputTenantField system api ++
  reportIf ((api.method.any fun method => decide (method ≠ ascii "DELETE")) ∧ api.output.isNone)
    (requiredError api.range subject "output") ++
  validateKnownType symbols api.range "API output" api.output ++
  validateKnownType symbols api.range "API error" api.error ++
  reportIf (api.startsWorkflow.isSome ∧ api.enqueues.isSome)
    (.error api.range "SSPEC4101"
      (subject ++ " must choose one primary action: starts workflow or enqueues")) ++
  validateDeclared symbols api.range "API starts workflow" api.startsWorkflow ++
  validateDeclared symbols api.range "API enqueues target" api.enqueues

def validateApis (system : SystemDecl) (symbols : SymbolTable) : Diagnostics :=
  system.apis.flatMap (validateApi system symbols)

/-- APIs have a method and a path, and the path has the tenant. -/
theorem clean_api {system : SystemDecl} {symbols : SymbolTable} {api : ApiDecl}
    (h : Clean (validateApi system symbols api)) :
    (∃ method, api.method = some method) ∧ ∃ path, api.path = some path ∧
      ∀ scope, system.tenantScope = some scope → hasTenantIdentity scope.fieldName path = true := by
  simp only [validateApi, clean_append] at h
  obtain ⟨⟨⟨⟨⟨⟨⟨⟨⟨⟨⟨hmethod, hpath⟩, htenant⟩, -⟩, -⟩, -⟩, -⟩, -⟩, -⟩, -⟩, -⟩, -⟩ := h
  simp only [clean_reportIf, not_clean_requiredError, imp_false] at hmethod hpath
  have hsome : ∀ value : Option Bytes, ¬ value.isNone = true → ∃ found, value = some found := by
    rintro (_ | found) hvalue
    · exact absurd rfl hvalue
    · exact ⟨found, rfl⟩
  obtain ⟨path, hvalue⟩ := hsome _ hpath
  refine ⟨hsome _ hmethod, path, hvalue, fun scope hscope => ?_⟩
  rw [validateApiTenantPath, hscope, hvalue] at htenant
  simpa only [clean_reportIf, not_clean_error, imp_false, Bool.not_eq_false] using htenant

/-! ## `validator_api_servers.cpp` -/

def validateApiServers (system : SystemDecl) (symbols : SymbolTable) : Diagnostics :=
  system.apiServers.flatMap fun apiServer =>
    reportIf (apiServer.concurrency.any fun concurrency => !isPositiveInteger concurrency)
      (positiveIntegerError apiServer.range ("api_server '" ++ text apiServer.name ++ "'") "concurrency") ++
    apiServer.serves.flatMap fun servedApi =>
      validateSymbolReference symbols apiServer.range "api_server served API" servedApi [.api]

/-! ## `validator_runtime_dependencies.cpp` -/

inductive RuntimeDomain where
  | occ | featureFlags | queues | leases | workflows | logs | metrics | entityGc
deriving DecidableEq

structure RuntimeDependency where
  source : RuntimeDomain
  target : RuntimeDomain
  range : SourceRange
  subject : String

def RuntimeDomain.name : RuntimeDomain → String
  | .occ => "OCC"
  | .featureFlags => "feature_flags"
  | .queues => "queues"
  | .leases => "leases"
  | .workflows => "workflows"
  | .logs => "logs"
  | .metrics => "metrics"
  | .entityGc => "entity_gc"

def runtimeDependencyAllowed (source target : RuntimeDomain) : Bool :=
  if target = .occ ∨ source = target then true
  else if source = .workflows then
    decide (target = .featureFlags ∨ target = .queues ∨ target = .leases ∨ target = .logs ∨
      target = .metrics)
  else false

def expressionUsesFeatureFlags (expression : Bytes) : Bool :=
  containsText expression (ascii "feature_enabled") || containsText expression (ascii "feature_value")

def runtimeDomainForSymbol (symbol : Symbol) : Option RuntimeDomain :=
  match symbol.kind with
  | .featureFlag => some .featureFlags
  | .message => some .queues
  | .queue => some .queues
  | .lease => some .leases
  | .workflow => some .workflows
  | .log => some .logs
  | .metric => some .metrics
  | _ => none

/-- `add_symbol_dependency`: what a name makes its user depend on. -/
def symbolDependency (source : RuntimeDomain) (symbols : SymbolTable) (range : SourceRange) (subject : String)
    (name : Bytes) : List RuntimeDependency :=
  ((symbols.find name).bind runtimeDomainForSymbol).toList.map fun target => ⟨source, target, range, subject⟩

def runtimeDomainDependencies (system : SystemDecl) (symbols : SymbolTable) : List RuntimeDependency :=
  (system.queues.flatMap fun queue =>
    queue.deadLetter.elim [] fun target =>
      symbolDependency .queues symbols queue.range ("queue '" ++ text queue.name ++ "' dead_letter") target) ++
  (system.workflows.flatMap fun workflow => workflow.steps.flatMap fun step =>
    step.statements.flatMap fun statement =>
      let subject := "workflow step '" ++ text (workflowStepName workflow step) ++ "'"
      (if statement.expression.any expressionUsesFeatureFlags then
        [⟨.workflows, .featureFlags, statement.range, subject⟩] else []) ++
      (statement.payload.flatMap fun assignment =>
        if expressionUsesFeatureFlags assignment.expression then
          [⟨.workflows, .featureFlags, assignment.range, subject⟩] else []) ++
      statement.target.elim [] (symbolDependency .workflows symbols statement.range subject)) ++
  system.entities.flatMap fun entity =>
    entity.stateMachine.elim [] fun stateMachine =>
      stateMachine.states.flatMap fun state =>
        state.garbageCollection.elim [] fun policy =>
          [⟨.entityGc, .occ, policy.range, "entity '" ++ text entity.name ++ "' garbage_collection"⟩]

def validateRuntimeDomainDependencies (system : SystemDecl) (symbols : SymbolTable) : Diagnostics :=
  (runtimeDomainDependencies system symbols).flatMap fun dependency =>
    reportIf (runtimeDependencyAllowed dependency.source dependency.target = false)
      (.error dependency.range "SSPEC3601"
        (dependency.subject ++ " creates disallowed runtime domain dependency " ++ dependency.source.name ++
          " -> " ++ dependency.target.name))

end StateSpec.Compiler
