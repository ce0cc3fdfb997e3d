/-
  THE SYNTAX TREE — the records of `ast_*.hpp`: what the parser builds.

  The records are those of the headers, field for field and with the headers' defaults.  Fields whose
  names Lean keeps for itself are primed, and a transition leads from its `source` to its `target`.
-/
import StateSpec.Compiler.Token

namespace StateSpec.Compiler

/-! ## `ast_core.hpp` -/

structure IncludeDecl where
  path : Bytes := []
  range : SourceRange := {}

structure FieldDecl where
  name : Bytes := []
  type : Bytes := []
  range : SourceRange := {}

structure TenantScopeDecl where
  fieldName : Bytes := ascii "tenant_id"
  range : SourceRange := {}

inductive SystemTenantSource where
  | configured

structure SystemTenantDecl where
  source : SystemTenantSource := .configured
  configKey : Bytes := ascii "STATESPEC_SYSTEM_TENANT_ID"
  range : SourceRange := {}

structure BlockMemberOrder where
  kind : Bytes := []
  range : SourceRange := {}

/-! ## `ast_declarations.hpp` -/

structure ValueDecl where
  name : Bytes := []
  type : Bytes := []
  constraint : Option Bytes := none
  range : SourceRange := {}

structure EnumMemberDecl where
  name : Bytes := []
  value : Option Bytes := none
  valueKind : Option Bytes := none
  range : SourceRange := {}

structure EnumDecl where
  name : Bytes := []
  members : List EnumMemberDecl := []
  range : SourceRange := {}

structure EventDecl where
  name : Bytes := []
  fields : List FieldDecl := []
  range : SourceRange := {}

structure FeatureFlagDecl where
  name : Bytes := []
  type : Option Bytes := none
  defaultValue : Option Bytes := none
  defaultValueKind : Option Bytes := none
  scope : Option Bytes := none
  owner : Option Bytes := none
  description : Option Bytes := none
  expires : Option Bytes := none
  range : SourceRange := {}

structure ShapeDecl where
  name : Bytes := []
  fields : List FieldDecl := []
  range : SourceRange := {}

/-! ## `ast_external_systems.hpp` -/

structure ExternalSystemPropertyDecl where
  name : Bytes := []
  value : Bytes := []
  valueKind : Option Bytes := none
  range : SourceRange := {}

structure ExternalSystemMetadataMappingDecl where
  source : Bytes := []
  target : Bytes := []
  range : SourceRange := {}

structure ExternalSystemMetadataDecl where
  entity : Option Bytes := none
  profileField : Option Bytes := none
  requiredFields : List Bytes := []
  mappings : List ExternalSystemMetadataMappingDecl := []
  range : SourceRange := {}

structure ExternalSystemDecl where
  name : Bytes := []
  properties : List ExternalSystemPropertyDecl := []
  metadata : Option ExternalSystemMetadataDecl := none
  range : SourceRange := {}

/-! ## `ast_observability.hpp` -/

structure LogDecl where
  name : Bytes := []
  level : Option Bytes := none
  eventName : Option Bytes := none
  fields : List FieldDecl := []
  memberOrder : List BlockMemberOrder := []
  range : SourceRange := {}

structure MetricDecl where
  name : Bytes := []
  kind : Option Bytes := none
  backendName : Option Bytes := none
  unit : Option Bytes := none
  labels : List FieldDecl := []
  memberOrder : List BlockMemberOrder := []
  range : SourceRange := {}

/-! ## `ast_entities.hpp` -/

structure GarbageCollectionPolicyDecl where
  after : Option Bytes := none
  mode : Option Bytes := none
  range : SourceRange := {}

structure StateDecl where
  name : Bytes := []
  terminal : Bool := false
  garbageCollection : Option GarbageCollectionPolicyDecl := none
  duplicateGarbageCollectionRange : Option SourceRange := none
  range : SourceRange := {}

structure TransitionDecl where
  source : Bytes := []
  target : Bytes := []
  range : SourceRange := {}

structure StateMachineDecl where
  states : List StateDecl := []
  initialState : Option Bytes := none
  terminalStates : List Bytes := []
  transitions : List TransitionDecl := []
  range : SourceRange := {}

structure IndexDecl where
  name : Bytes := []
  fields : List Bytes := []
  unique : Bool := false
  range : SourceRange := {}

structure OwnershipDecl where
  authority : Option Bytes := none
  systemOfRecord : Option Bytes := none
  lifecycle : Option Bytes := none
  range : SourceRange := {}

structure RelationDecl where
  kind : Bytes := []
  name : Bytes := []
  target : Bytes := []
  optional : Bool := false
  relationKind : Option Bytes := none
  onParentDelete : Option Bytes := none
  parentMustBeIn : List Bytes := []
  uniqueWithinParent : List Bytes := []
  range : SourceRange := {}

structure ChildDecl where
  name : Bytes := []
  targetEntity : Bytes := []
  relation : Bytes := []
  range : SourceRange := {}

structure InvariantDecl where
  name : Bytes := []
  expression : Bytes := []
  range : SourceRange := {}

structure EntityApiCreateDecl where
  name : Option Bytes := none
  fields : List Bytes := []
  responseFields : List Bytes := []
  range : SourceRange := {}

structure EntityApiOperationDecl where
  name : Option Bytes := none
  responseFields : List Bytes := []
  range : SourceRange := {}

structure EntityApiListDecl where
  name : Option Bytes := none
  path : Option Bytes := none
  by' : List Bytes := []
  responseFields : List Bytes := []
  range : SourceRange := {}

structure EntityApiDecl where
  resource : Option Bytes := none
  create : Option EntityApiCreateDecl := none
  get : Option EntityApiOperationDecl := none
  lists : List EntityApiListDecl := []
  updateStatus : Option EntityApiOperationDecl := none
  delete' : Option EntityApiOperationDecl := none
  range : SourceRange := {}

structure EntityDecl where
  name : Bytes := []
  keyFields : List Bytes := []
  fields : List FieldDecl := []
  indexes : List IndexDecl := []
  ownership : Option OwnershipDecl := none
  relations : List RelationDecl := []
  children : List ChildDecl := []
  invariants : List InvariantDecl := []
  stateMachine : Option StateMachineDecl := none
  api : Option EntityApiDecl := none
  memberOrder : List BlockMemberOrder := []
  range : SourceRange := {}

/-! ## `ast_runtime.hpp` -/

structure MessageDecl where
  name : Bytes := []
  idempotencyKey : Option Bytes := none
  payloadFields : List FieldDecl := []
  range : SourceRange := {}

structure QueueDecl where
  name : Bytes := []
  namespaceName : Option Bytes := none
  channel : Option Bytes := none
  visibilityTimeout : Option Bytes := none
  maxAttempts : Option Int := none
  deadLetter : Option Bytes := none
  messages : List MessageDecl := []
  range : SourceRange := {}

structure LeaseDecl where
  name : Bytes := []
  resource : Option Bytes := none
  ttl : Option Bytes := none
  renewEvery : Option Bytes := none
  holder : Option Bytes := none
  fencingToken : Option Bool := none
  maxTtl : Option Bytes := none
  range : SourceRange := {}

structure WorkerDecl where
  name : Bytes := []
  singleton : Option Bool := none
  lease : Option Bytes := none
  polls : Option Bytes := none
  executes : Option Bytes := none
  concurrency : Option Int := none
  range : SourceRange := {}

/-! ## `ast_api_workflow.hpp` -/

structure ApiServerDecl where
  name : Bytes := []
  serves : List Bytes := []
  concurrency : Option Int := none
  range : SourceRange := {}

structure ApiDecl where
  name : Bytes := []
  method : Option Bytes := none
  path : Option Bytes := none
  input : Option Bytes := none
  output : Option Bytes := none
  error : Option Bytes := none
  startsWorkflow : Option Bytes := none
  enqueues : Option Bytes := none
  range : SourceRange := {}

structure WorkflowLoadDecl where
  entity : Bytes := []
  keyField : Bytes := []
  binding : Bytes := []
  range : SourceRange := {}

structure WorkflowAssignmentDecl where
  name : Bytes := []
  expression : Bytes := []
  range : SourceRange := {}

structure WorkflowStatementDecl where
  kind : Bytes := []
  target : Option Bytes := none
  expression : Option Bytes := none
  assignable : Option Bytes := none
  fromAssignable : Option Bytes := none
  toAssignable : Option Bytes := none
  binding : Option Bytes := none
  payload : List WorkflowAssignmentDecl := []
  statements : List WorkflowStatementDecl := []
  range : SourceRange := {}

structure WorkflowChildSetDecl where
  name : Bytes := []
  entity : Option Bytes := none
  parentField : Option Bytes := none
  idType : Option Bytes := none
  pending : Option Bytes := none
  creating : Option Bytes := none
  succeeded : Option Bytes := none
  failed : Option Bytes := none
  desiredCount : Option Bytes := none
  range : SourceRange := {}

structure WorkflowChildWorkflowDecl where
  name : Bytes := []
  childEntity : Option Bytes := none
  childWorkflow : Option Bytes := none
  childIdField : Option Bytes := none
  childIdType : Option Bytes := none
  parentRefField : Option Bytes := none
  parentRefExpression : Option Bytes := none
  desiredCount : Option Bytes := none
  createAssignments : List WorkflowAssignmentDecl := []
  successExpression : Option Bytes := none
  failureExpression : Option Bytes := none
  range : SourceRange := {}

structure WorkflowStepDecl where
  name : Bytes := []
  expectedExecutionTime : Option Bytes := none
  maxRetries : Option Int := none
  statements : List WorkflowStatementDecl := []
  range : SourceRange := {}

structure WorkflowDecl where
  name : Bytes := []
  version : Option Int := none
  singleton : Option Bool := none
  expectedExecutionTime : Option Bytes := none
  startStep : Option Bytes := none
  on' : Option Bytes := none
  input : Option Bytes := none
  state : Option Bytes := none
  loads : List WorkflowLoadDecl := []
  childSets : List WorkflowChildSetDecl := []
  childWorkflows : List WorkflowChildWorkflowDecl := []
  steps : List WorkflowStepDecl := []
  memberOrder : List BlockMemberOrder := []
  range : SourceRange := {}

structure PolicyRuleDecl where
  action : Bytes := []
  condition : Bytes := []
  range : SourceRange := {}

structure QuotaDecl where
  name : Bytes := []
  expression : Bytes := []
  range : SourceRange := {}

structure PolicyDecl where
  name : Bytes := []
  tenantScopedBy : Option Bytes := none
  allows : List PolicyRuleDecl := []
  denies : List PolicyRuleDecl := []
  quotas : List QuotaDecl := []
  audits : List Bytes := []
  memberOrder : List BlockMemberOrder := []
  range : SourceRange := {}

/-! ## `ast_system.hpp` -/

structure SystemDecl where
  name : Bytes := []
  tenantScope : Option TenantScopeDecl := none
  systemTenant : Option SystemTenantDecl := none
  values : List ValueDecl := []
  enums : List EnumDecl := []
  events : List EventDecl := []
  shapes : List ShapeDecl := []
  externalSystems : List ExternalSystemDecl := []
  featureFlags : List FeatureFlagDecl := []
  logs : List LogDecl := []
  metrics : List MetricDecl := []
  entities : List EntityDecl := []
  queues : List QueueDecl := []
  leases : List LeaseDecl := []
  workers : List WorkerDecl := []
  apiServers : List ApiServerDecl := []
  apis : List ApiDecl := []
  workflows : List WorkflowDecl := []
  policies : List PolicyDecl := []
  memberOrder : List BlockMemberOrder := []
  range : SourceRange := {}

structure Spec where
  version : Option Bytes := none
  includes : List IncludeDecl := []
  system : Option SystemDecl := none

end StateSpec.Compiler
