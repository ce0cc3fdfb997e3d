import StateSpec.Lib.Bytes
import StateSpec.Lib.OrderedMap
import StateSpec.Lib.Interleaving
import StateSpec.Lib.Optimistic
import StateSpec.Lib.Program
import StateSpec.Lib.Claims
import StateSpec.Lib.Lockstep
import StateSpec.Json
import StateSpec.Backend
import StateSpec.SchemaCompatibility
import StateSpec.Memory.Index
import StateSpec.Memory.State
import StateSpec.Memory.Transaction
import StateSpec.Memory.Commit
import StateSpec.Memory.Query
import StateSpec.Memory.Validation
import StateSpec.Memory.ByKey
import StateSpec.Cpp.Backend
import StateSpec.Cpp.Serializability
import StateSpec.Cpp.Indexes
import StateSpec.Cpp.SchemaEvolution
import StateSpec.Cpp.Phantoms
import StateSpec.Cpp.Conflicts
import StateSpec.Bindings.Backend
import StateSpec.Bindings.LostUpdates
import StateSpec.Bindings.Agreement
import StateSpec.Runtime.Codec
import StateSpec.Runtime.Session
import StateSpec.Runtime.WorkflowStore
import StateSpec.Runtime.Executions
import StateSpec.Runtime.ClaimTokens
import StateSpec.Runtime.KeepAlive
import StateSpec.Runtime.Heartbeats
import StateSpec.Runtime.Definitions
import StateSpec.Runtime.RetryBudget
import StateSpec.Runtime.TerminalStates
import StateSpec.Runtime.LeaseStore
import StateSpec.Runtime.Leases
import StateSpec.Runtime.FencingTokens
import StateSpec.Runtime.LeaseLifetime
import StateSpec.Runtime.LeaseExclusivity
import StateSpec.Runtime.QueueStore
import StateSpec.Runtime.QueueMessages
import StateSpec.Runtime.FinalMessages
import StateSpec.Runtime.BoundedDelivery
import StateSpec.Rust.Codec
import StateSpec.Rust.LeaseStore
import StateSpec.Rust.LeaseRecords
import StateSpec.Rust.LeaseAgreement
import StateSpec.Rust.Transactions
import StateSpec.Rust.QueueStore
import StateSpec.Rust.WorkflowStore
import StateSpec.Rust.StoreRecords
import StateSpec.Rust.StoreLockstep
import StateSpec.Rust.StoreAgreement
import StateSpec.Runtime.ClaimExclusivity
import StateSpec.Runtime.IdempotentEnqueue
import StateSpec.Runtime.FeatureFlagStore
import StateSpec.Runtime.SoloRuns
import StateSpec.Runtime.FlagOverrides
import StateSpec.Cpp.Clients
import StateSpec.Runtime.EntityGc
import StateSpec.Runtime.WorkflowRunner
import StateSpec.Runtime.DeclaredRetries
import StateSpec.JsonText
import StateSpec.Cpp.SingleWrites
import StateSpec.Generated.System
import StateSpec.Generated.EntityRepository
import StateSpec.Generated.EntityKeys
import StateSpec.Generated.Handlers
import StateSpec.Generated.Calls
import StateSpec.Generated.Lifecycle
import StateSpec.Generated.ParentChecks
import StateSpec.Runtime.Observability
import StateSpec.Runtime.ObservedDefinitions
import StateSpec.Runtime.ObservedRecords
import StateSpec.Cpp.Transcripts
import StateSpec.Generated.MetadataRepository
import StateSpec.Generated.CompareAndSwap
import StateSpec.Generated.MetadataLifecycle
import StateSpec.Runtime.StepTransactions
import StateSpec.Runtime.CrashingHandlers
import StateSpec.Cpp.Undisturbed
import StateSpec.Runtime.StepCommits
import StateSpec.Compiler.Parser
import StateSpec.Compiler.Lexer
import StateSpec.Compiler.Composition
import StateSpec.Compiler.Durations
import StateSpec.Compiler.Validator
import StateSpec.Compiler.LoweredLeases
import StateSpec.Compiler.References
import StateSpec.Compiler.PathParameters
import StateSpec.Compiler.LoweredApis
import StateSpec.Compiler.CrudContract
import StateSpec.JsonLayout
import StateSpec.Compiler.FaithfulDocument
import StateSpec.Cpp.Atomicity
import StateSpec.JsonGrammar
import StateSpec.JsonRoundTrip
import StateSpec.Lib.Unicode
import StateSpec.Rust.Parser
import StateSpec.Rust.ParserAgreement
import StateSpec.Bindings.CanonicalText
import StateSpec.Cpp.UniqueConflicts
import StateSpec.Go.CommitOrders
import StateSpec.Go.IndexKeys
import StateSpec.Compiler.JsonSchema
import StateSpec.Compiler.ApiCodecs
import StateSpec.Compiler.StateMachines
import StateSpec.Compiler.Lexemes
import StateSpec.Compiler.ExpressionText
import StateSpec.Compiler.ExpressionGrammar
import StateSpec.Compiler.JoinedTexts
import StateSpec.Compiler.Subtraction
import StateSpec.Compiler.FeatureFlagReferences
import StateSpec.Compiler.GeneratedNames
import StateSpec.Compiler.TypeTexts
import StateSpec.Compiler.FieldTypes
import StateSpec.Compiler.Requiredness
import StateSpec.Lib.Foremost
import StateSpec.Compiler.EntityIndexHelpers
import StateSpec.Compiler.ChildWorkflows
import StateSpec.Compiler.WorkflowMetadata
import StateSpec.Compiler.FormattedLines
import StateSpec.Lib.Refinement
import StateSpec.Lib.Delimiter
import StateSpec.Compiler.TemplateRenderer
import StateSpec.Lib.Registry
import StateSpec.Lib.MessageQueue
import StateSpec.Runtime.ErasedPlaces
import StateSpec.Runtime.ReleasedLeases
import StateSpec.Lib.Tables
import StateSpec.Lib.StepEngine
import StateSpec.Runtime.QueueRefinement
import StateSpec.Runtime.WorkflowRefinement
import StateSpec.Runtime.StoreTransactions
