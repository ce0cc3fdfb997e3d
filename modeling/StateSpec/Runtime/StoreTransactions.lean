/-
  TRANSACTIONS ACROSS STORES — the `Tx` calls of the queue store and of the workflow store, any number of
  them in one transaction of one backend.

  A handler completes a step and enqueues a message, and both are committed or neither is: that is what
  the calls with a transaction of the caller are for.  The calls of a transaction may depend on what the
  calls before them have answered (`Calls`).

  `transactions_refine`: whatever transactions interleave, the committed ones are served by the queue and
  the engine beside each other, one after another, each with nothing in between its calls.  It is put
  together from the two stores: each implements its object, and leaves the documents of the other alone
  (`respects_queueProgram`, `respects_workflowProgram`).
-/
import StateSpec.Runtime.QueueRefinement
import StateSpec.Runtime.WorkflowRefinement

namespace StateSpec.Runtime

open Program Interleaving Memory

variable {δ α : Type} {c : RuntimeCollection}

/-! ## The collections of each store -/

/-- The queue store writes to its own collections. -/
theorem leaves_queueStore (hdefinitions : RuntimeCollection.queueDefinitions ≠ c)
    (hmessages : RuntimeCollection.queueMessages ≠ c)
    (hidempotency : RuntimeCollection.queueIdempotency ≠ c) (request : QueueRequest δ) :
    (queueProgram request).Leaves c := by
  have hinspect (id : Key) : (Queue.inspectTx id : TxProgram δ _).Leaves c :=
    leaves_decoded rfl fun _ => rfl
  have hput (request : EnqueueMessageRequest δ) : (Queue.putEnqueued request).Leaves c :=
    leaves_do (leaves_write hmessages _ _) fun _ => trivial
  cases request with
  | registerDefinition definition =>
    refine leaves_map (leaves_do (leaves_decoded rfl fun _ => rfl) fun existing => ?_)
    exact leaves_do (leaves_write hdefinitions _ _) fun _ => trivial
  | inspectDefinition queue channel => exact leaves_map (leaves_decoded rfl fun _ => rfl)
  | enqueue request =>
    refine leaves_map ?_
    rw [Queue.enqueueTx]
    cases request.idempotencyKey with
    | none => exact hput request
    | some key =>
      refine leaves_do (leaves_read _ _ _) fun existing => ?_
      cases existing with
      | none => exact leaves_do (leaves_write hidempotency _ _) fun _ => hput request
      | some document =>
        refine leaves_do (leaves_ofExcept _ _) fun id => leaves_do (hinspect id) fun message => ?_
        cases message <;> trivial
  | claim request =>
    refine leaves_map (leaves_do ?_ fun messages => Queue.leaves_claimLoop hmessages request messages [])
    exact leaves_do (leaves_scan _ _) fun records => leaves_ofExcept _ _
  | acknowledge request =>
    exact leaves_map (Queue.leaves_claimant fun _ => leaves_write hmessages _ _)
  | fail request =>
    refine leaves_map (Queue.leaves_claimant fun message => ?_)
    exact leaves_do (leaves_write hmessages _ _) fun _ => trivial
  | inspect messageId => exact leaves_map (hinspect messageId)

/-- The workflow store writes to its own collections. -/
theorem leaves_workflowStore (hdefinitions : RuntimeCollection.workflowDefinitions ≠ c)
    (hexecutions : RuntimeCollection.workflowExecutions ≠ c)
    (hheartbeats : RuntimeCollection.workflowHeartbeats ≠ c) (request : WorkflowRequest δ) :
    (workflowProgram request).Leaves c := by
  have hfinish (id : Key) (execution finished : WorkflowExecutionRecord δ) :
      (finish id execution finished).Leaves c :=
    leaves_finish hexecutions hheartbeats id execution finished
  cases request with
  | registerDefinition definition =>
    exact leaves_map (leaves_registerDefinitionTx hdefinitions definition)
  | inspectDefinition name version => exact leaves_map (leaves_inspectDefinitionTx c name version)
  | start request => exact leaves_map (leaves_startTx hexecutions request)
  | claimSteps request => exact leaves_map (leaves_claimStepsTx hexecutions hheartbeats request)
  | keepAliveStep request => exact leaves_map (leaves_keepAliveStepTx hheartbeats request)
  | completeStep request => exact leaves_map (leaves_holder fun _ => hfinish _ _ _)
  | failStep request => exact leaves_map (leaves_holder fun _ => hfinish _ _ _)
  | cancel request =>
    exact leaves_map (leaves_do (leaves_requireExecution c _) fun _ => hfinish _ _ _)
  | inspect id => exact leaves_map (leaves_inspectTx c id)

theorem respects_queueProgram : Respects (queueProgram (δ := δ)) Engine.Stands := by
  refine ⟨fun {d d' s request response} h hruns => ?_⟩
  have hleft {c : RuntimeCollection} (hdefinitions : RuntimeCollection.queueDefinitions ≠ c)
      (hmessages : RuntimeCollection.queueMessages ≠ c)
      (hidempotency : RuntimeCollection.queueIdempotency ≠ c) : d' c = d c :=
    (leaves_queueStore hdefinitions hmessages hidempotency request).runs hruns
  exact h.congr (hleft (by decide) (by decide) (by decide)) (hleft (by decide) (by decide) (by decide))
    (hleft (by decide) (by decide) (by decide))

theorem respects_workflowProgram : Respects (workflowProgram (δ := δ)) Queue.Stands := by
  refine ⟨fun {d d' s request response} h hruns => ?_⟩
  have hleft {c : RuntimeCollection} (hdefinitions : RuntimeCollection.workflowDefinitions ≠ c)
      (hexecutions : RuntimeCollection.workflowExecutions ≠ c)
      (hheartbeats : RuntimeCollection.workflowHeartbeats ≠ c) : d' c = d c :=
    (leaves_workflowStore hdefinitions hexecutions hheartbeats request).runs hruns
  exact h.congr (hleft (by decide) (by decide) (by decide)) (hleft (by decide) (by decide) (by decide))
    (hleft (by decide) (by decide) (by decide))

/-! ## Transactions -/

/-- A transaction that calls the stores. -/
abbrev StoreCalls (δ α : Type) :=
  Calls (QueueRequest δ ⊕ WorkflowRequest δ) (QueueResponse δ ⊕ WorkflowResponse δ) α

abbrev StoresState (δ : Type) := Queue.QueueState δ × Engine.EngineState δ

/-- Nothing has been registered, enqueued or started. -/
def StoresState.empty : StoresState δ :=
  ((fun _ => none, MessageQueue.State.empty), (fun _ => none, StepEngine.State.empty))

/-- The documents are those of both states. -/
def StoresStand (d : Docs δ) (s : StoresState δ) : Prop := Queue.Stands d s.1 ∧ Engine.Stands d s.2

/-- The queue and the engine beside each other. -/
abbrev storesObject : Object (StoresState δ) (QueueRequest δ ⊕ WorkflowRequest δ)
    (QueueResponse δ ⊕ WorkflowResponse δ) :=
  Queue.queueObject.beside Engine.engineObject

theorem implements_stores :
    Implements (Program.beside queueProgram workflowProgram) storesObject (StoresStand (δ := δ)) :=
  Queue.implements_queueProgram.beside Engine.implements_workflowProgram respects_queueProgram
    respects_workflowProgram

/-- Whose `ensure_collections` is called. -/
inductive StoreKind where
  | queues
  | workflows

variable [Decimal δ]

/-- `ensure_collections` of one of the stores. -/
def ensureStoreCollections : StoreKind → Cpp.State δ → Cpp.State δ
  | .queues => ensureQueueCollections ()
  | .workflows => ensureWorkflowCollections ()

/-- Both stores on one C++ in-memory backend; the transactions are the callers'. -/
abbrev storeTransactions : Interleaving.Store (StoreCalls δ α) (Cpp.State δ) (Session δ α) Unit Unit Unit
    (Option Error) StoreKind :=
  sessions (Calls.program (Program.beside queueProgram workflowProgram)) ensureStoreCollections

/-- **Transactions across stores are atomic**: whatever transactions interleave on the C++ backend, the
    committed ones are served by the queue and the engine one after another, each with all its calls and
    with the result it had, and the documents they leave are those of the states that the two are in. -/
theorem transactions_refine (es : List (SessionEvent (StoreCalls δ α) StoreKind)) :
    ∃ s : StoresState δ, storesObject.transaction.Serves StoresState.empty
        (answers (run storeTransactions (World.init InMemoryState.empty) es).log) s ∧
      StoresStand (docs (run storeTransactions (World.init InMemoryState.empty) es).shared) s := by
  have hadmin (s : Cpp.State δ) (kind : StoreKind) : Later s (ensureStoreCollections kind s) := by
    cases kind with
    | queues => exact Queue.later_ensureQueueCollections s ()
    | workflows => exact later_ensureWorkflowCollections s ()
  have hdocs (s : Cpp.State δ) (kind : StoreKind) : docs (ensureStoreCollections kind s) = docs s := by
    cases kind with
    | queues => exact Queue.docs_ensureQueueCollections s ()
    | workflows => exact docs_ensureWorkflowCollections s ()
  have hhistory := history_run (P := fun _ _ _ => True) hadmin hdocs
    (Discipline.inv_init (sessionDiscipline _ ensureStoreCollections hadmin) InMemoryState.empty)
    (runMeets_of_forall (storeTransactions (δ := δ) (α := α)) (fun _ _ _ _ _ _ => trivial) _ es)
  have hstart : StoresStand (docs (InMemoryState.empty : Cpp.State δ)) StoresState.empty :=
    ⟨Queue.stands_empty, Engine.stands_empty⟩
  rw [log_run]
  exact implements_stores.transactions.serves hhistory hstart

end StateSpec.Runtime
