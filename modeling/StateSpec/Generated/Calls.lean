/-
  CALLS OF GENERATED HANDLERS — what a handler does to the store, when it runs on one state.

  Every handler reads records and then stores at most one, so what it comes to can be said without
  its transaction: a create handler is `CreateReady` or it throws, and what it stores is its created
  document with its keys (`transact_createHandler`); a handler that changes a status finds no record,
  or an allowed change of the record's status (`transact_changeStatus`).

  `HandlerCall` is a request to one of the handlers of a system, `handlerRun` any interleaving of
  such calls, each in its own transaction of the C++ in-memory backend.
-/
import StateSpec.Generated.Handlers

set_option linter.unusedSectionVars false

namespace StateSpec.Generated

open Cpp Memory Memory.InMemoryTransaction Interleaving

variable {δ : Type} [Decimal δ]

/-! ## Parents -/

/-- The entity of a relation that must have its record. -/
def requiredParent (system : IrSystem) (relation : IrRelation) : Option IrEntity :=
  if relation.kind ≠ ascii "parent" ∨ relation.optional = true then none
  else findEntity system relation.target

/-- The record of a parent, under the key it is looked up with. -/
def parentRecord (s : State δ) (shape : IrShape) (request : Request δ)
    (parameters : List (Bytes × Bytes)) (parent : IrEntity) : Option (VersionedRecord δ) :=
  (entityKey (entityLookup parent (keyValues parent (requestOrPathJson shape request parameters)))).bind
    (s.recordAt parent.name)

/-- Every required parent is found. -/
def ParentsFound (s : State δ) (system : IrSystem) (shape : IrShape) (request : Request δ)
    (parameters : List (Bytes × Bytes)) (relations : List IrRelation) : Prop :=
  ∀ relation ∈ relations, ∀ parent, requiredParent system relation = some parent →
    (parentRecord s shape request parameters parent).isSome = true

/-- What is thrown for a parent that is not found. -/
def missingParentError (parent : IrEntity) : Error :=
  .backendError (ascii "missing required parent " ++ parent.name)

theorem validateParent_eq (system : IrSystem) (shape : IrShape) (request : Request δ)
    (parameters : List (Bytes × Bytes)) (relation : IrRelation) :
    validateParent system shape request parameters relation =
      (requiredParent system relation).elim (pure ()) fun parent =>
        repositoryGetTx parent (keyValues parent (requestOrPathJson shape request parameters)) >>=
          fun record => if record.isSome then pure () else .throw (missingParentError parent) := by
  rw [validateParent, requiredParent]
  split
  · rfl
  · cases findEntity system relation.target <;> rfl

section

variable {s : State δ} {t : Tx δ} {places : List Place} {system : IrSystem} {shape : IrShape}
  {request : Request δ} {parameters : List (Bytes × Bytes)}

/-- Places of records of the system's entities. -/
def OfEntities (system : IrSystem) (places : List Place) : Prop :=
  ∀ place ∈ places, ∃ entity ∈ system.entities, place.1 = entity.name

theorem ofEntities_append {places places' : List Place} (h : OfEntities system places)
    (h' : OfEntities system places') : OfEntities system (places ++ places') :=
  fun place hplace => (List.mem_append.mp hplace).elim (h place) (h' place)

/-- Reading the record of an entity. -/
theorem eval_repositoryGetTx (h : ReadOnly s t places) (hplaces : OfEntities system places)
    {entity : IrEntity} (hentity : entity ∈ system.entities) (values : List (EntityKeyValue δ)) :
    ∃ t' places', (repositoryGetTx entity values).eval s t =
      (.ok ((entityKey (entityLookup entity values)).bind (s.recordAt entity.name)), t') ∧
      ReadOnly s t' places' ∧ OfEntities system places' := by
  obtain ⟨t', places', heval, hread, rfl⟩ := eval_getEntityTx h (entityLookup entity values)
  refine ⟨t', _, heval, hread, ofEntities_append (fun place hplace => ?_) hplaces⟩
  obtain ⟨key, -, rfl⟩ := List.mem_map.mp hplace
  exact ⟨entity, hentity, rfl⟩

/-- **One relation**: its required parent is found, or the create handler throws. -/
theorem eval_validateParent (h : ReadOnly s t places) (hplaces : OfEntities system places)
    (relation : IrRelation) :
    ∃ t' places', ReadOnly s t' places' ∧ OfEntities system places' ∧
      ((ParentsFound s system shape request parameters [relation] ∧
        (validateParent system shape request parameters relation).eval s t = (.ok (), t')) ∨
      ∃ parent, requiredParent system relation = some parent ∧
        parentRecord s shape request parameters parent = none ∧
        (validateParent system shape request parameters relation).eval s t =
          (.error (missingParentError parent), t')) := by
  rw [validateParent_eq]
  cases hparent : requiredParent system relation with
  | none =>
    refine ⟨t, places, h, hplaces, Or.inl ⟨fun r hr parent hsome => ?_, rfl⟩⟩
    rw [List.mem_singleton.mp hr, hparent] at hsome
    cases hsome
  | some parent =>
    have hmem : parent ∈ system.entities := by
      rw [requiredParent] at hparent
      split at hparent
      · cases hparent
      · exact List.mem_of_find?_eq_some hparent
    obtain ⟨t', places', heval, hread, hplaces'⟩ := eval_repositoryGetTx h hplaces hmem
      (keyValues parent (requestOrPathJson shape request parameters))
    refine ⟨t', places', hread, hplaces', ?_⟩
    rw [Option.elim_some, Script.eval_do heval]
    by_cases hfound : (parentRecord s shape request parameters parent).isSome = true
    · refine Or.inl ⟨fun r hr other hsome => ?_, ?_⟩
      · rw [List.mem_singleton.mp hr, hparent] at hsome
        obtain rfl := Option.some_inj.mp hsome
        exact hfound
      · rw [parentRecord] at hfound
        rw [if_pos hfound]
        rfl
    · refine Or.inr ⟨parent, rfl, by simpa using hfound, ?_⟩
      rw [parentRecord] at hfound
      rw [if_neg hfound]
      rfl

/-- **All relations**: the parents are found, or the create handler throws for one that is not. -/
theorem eval_validateParents (system : IrSystem) (shape : IrShape) (request : Request δ)
    (parameters : List (Bytes × Bytes)) (h : ReadOnly s t places) (hplaces : OfEntities system places)
    (relations : List IrRelation) :
    ∃ t' places', ReadOnly s t' places' ∧ OfEntities system places' ∧
      ((ParentsFound s system shape request parameters relations ∧
        (validateParents system shape request parameters relations).eval s t = (.ok (), t')) ∨
      ∃ relation ∈ relations, ∃ parent, requiredParent system relation = some parent ∧
        parentRecord s shape request parameters parent = none ∧
        (validateParents system shape request parameters relations).eval s t =
          (.error (missingParentError parent), t')) := by
  induction relations generalizing t places with
  | nil => exact ⟨t, places, h, hplaces, Or.inl ⟨by simp [ParentsFound], rfl⟩⟩
  | cons relation rest ih =>
    obtain ⟨t₁, places₁, hread, hplaces₁, hfirst⟩ := eval_validateParent h hplaces relation
    rcases hfirst with ⟨hfound, heval⟩ | ⟨parent, hparent, hnone, heval⟩
    · obtain ⟨t₂, places₂, hread₂, hplaces₂, hrest⟩ := ih hread hplaces₁
      have heq : (validateParents system shape request parameters (relation :: rest)).eval s t =
          (validateParents system shape request parameters rest).eval s t₁ := by
        rw [validateParents, Script.eval_do heval]
      refine ⟨t₂, places₂, hread₂, hplaces₂, ?_⟩
      rw [heq]
      rcases hrest with ⟨hothers, hok⟩ | ⟨r, hr, hmissing⟩
      · refine Or.inl ⟨fun r hr => ?_, hok⟩
        rcases List.mem_cons.mp hr with rfl | hmem
        · exact hfound r List.mem_cons_self
        · exact hothers r hmem
      · exact Or.inr ⟨r, List.mem_cons_of_mem _ hr, hmissing⟩
    · refine ⟨t₁, places₁, hread, hplaces₁,
        Or.inr ⟨relation, List.mem_cons_self, parent, hparent, hnone, ?_⟩⟩
      rw [validateParents]
      show ((validateParent system shape request parameters relation).bind _).eval s t = _
      rw [Script.eval_bind, heval]

end

/-! ## Commits -/

/-- What a commit leaves that has stored one record. -/
structure Stores (s s' : State δ) (c : CollectionName) (k : Key) (document : Json δ) : Prop where
  counters : ∀ vk, s'.counter vk = s.counter vk + if vk = recordVersionKey c k then 1 else 0
  records : ∀ c' k', s'.recordAt c' k' = if c' = c ∧ k' = k then
    some { stagedRecord c k document with version := s'.counter (recordVersionKey c k) }
    else s.recordAt c' k'

theorem stores_of_commit {s : State δ} {t : Tx δ} {c : CollectionName} {k : Key} {document : Json δ}
    {places : List Place} {r : State δ × Tx δ} (h : Written s t c k document places)
    (hcommit : commit s t = .ok r) : Stores s r.1 c k document :=
  ⟨counter_commit_written h hcommit, recordAt_commit_written h hcommit⟩

theorem Stores.recordAt {s s' : State δ} {c : CollectionName} {k : Key} {document : Json δ}
    (h : Stores s s' c k document) :
    ∃ record, s'.recordAt c k = some record ∧ record.document = document :=
  ⟨_, (h.records c k).trans (if_pos ⟨rfl, rfl⟩), rfl⟩

theorem Stores.recordAt_ne {s s' : State δ} {c c' : CollectionName} {k k' : Key} {document : Json δ}
    (h : Stores s s' c k document) (hne : ¬ (c' = c ∧ k' = k)) :
    s'.recordAt c' k' = s.recordAt c' k' := by
  rw [h.records c' k', if_neg hne]

/-! ## Create -/

/-- The document a create handler stores. -/
def createdRecord (entity : IrEntity) (shape : IrShape) (api : IrApi) (request : Request δ)
    (parameters : List (Bytes × Bytes)) (now : Bytes) : Json δ :=
  entityDocumentWithKeys (createdDocument entity shape api request parameters now)
    (entityLookupFromDocument entity (createdDocument entity shape api request parameters now))

variable [Widening δ]

/-- **The call creates a record**: its request decodes, the parents are found, the created document
    has a key, and the key is free. -/
structure CreateReady (s : State δ) (system : IrSystem) (api : IrApi) (entity : IrEntity)
    (shape : IrShape) (context : ApiRequestContext δ) (now : Bytes) (request : Request δ)
    (key : Key) : Prop where
  complete : createApiHasRequiredRequestFields entity shape api = true
  decoded : decodeRequest context.body shape.fields = .ok request
  parents : ParentsFound s system shape request (apiParameters api context) entity.relations
  keyed : entityKey (entityLookupFromDocument entity
    (createdDocument entity shape api request (apiParameters api context) now)) = some key
  free : s.recordAt entity.name key = none

section

variable {s : State δ} {system : IrSystem} {api : IrApi} {entity : IrEntity} {shape : IrShape}
  {context : ApiRequestContext δ} {now : Bytes}

/-- A call that is ready stores its document and answers 201. -/
theorem eval_createHandler (hentity : entity ∈ system.entities) {request : Request δ} {key : Key}
    (h : CreateReady s system api entity shape context now request key) :
    ∃ t places, (createHandler system api entity shape context now).eval s begin =
        (.ok (.ok (createResponse system api entity shape request context)), t) ∧
      Written s t entity.name key
        (createdRecord entity shape api request (apiParameters api context) now) places ∧
      OfEntities system places := by
  obtain ⟨t₁, places₁, hread, hplaces, hparents⟩ := eval_validateParents system shape request
    (apiParameters api context) (readOnly_begin s) (nofun) entity.relations
  rcases hparents with ⟨-, heval⟩ | ⟨relation, hmem, parent, hparent, hnone, -⟩
  swap
  · have hfound := h.parents relation hmem parent hparent
    rw [hnone] at hfound
    cases hfound
  obtain ⟨t₂, places₂, hcreate, hwritten, hplaces₂⟩ := eval_createEntityTx hread h.keyed h.free
    (createdDocument entity shape api request (apiParameters api context) now)
  refine ⟨t₂, places₂, ?_, hwritten, fun place hplace => ?_⟩
  · rw [createHandler, if_neg (by rw [h.complete]; decide), h.decoded]
    show (validateParents system shape request (apiParameters api context) entity.relations >>=
      _).eval s begin = _
    rw [Script.eval_do heval]
    show (createEntityTx _ _ >>= _).eval s t₁ = _
    rw [Script.eval_do hcreate]
    rfl
  · rcases hplaces₂ place hplace with rfl | hold
    · exact ⟨entity, hentity, rfl⟩
    · exact hplaces place hold

/-- **A create handler that returns was ready.** -/
theorem createReady_of_eval {answer : Outcome δ} {t : Tx δ}
    (h : (createHandler system api entity shape context now).eval s begin = (.ok answer, t)) :
    ∃ request key, CreateReady s system api entity shape context now request key := by
  rw [createHandler] at h
  split at h
  · cases h
  rename_i hcomplete
  obtain ⟨request, mid, hdecode, h⟩ := Script.of_eval_do h
  obtain ⟨hdecoded, rfl⟩ := Script.of_eval_ofExcept hdecode
  obtain ⟨_, mid, hvalid, h⟩ := Script.of_eval_do h
  obtain ⟨t₁, places₁, hread, -, hparents⟩ := eval_validateParents system shape request
    (apiParameters api context) (readOnly_begin s) (nofun) entity.relations
  rcases hparents with ⟨hfound, heval⟩ | ⟨_, _, _, _, _, heval⟩ <;> rw [heval] at hvalid
  swap
  · cases hvalid
  obtain rfl := (Prod.mk.inj hvalid).2
  obtain ⟨record, mid, hcreate, h⟩ := Script.of_eval_do h
  -- without a key nothing is created, and the handler throws
  cases hkey : entityKey (entityLookupFromDocument entity
      (createdDocument entity shape api request (apiParameters api context) now)) with
  | none =>
    rw [repositoryCreateTx, createEntityTx, hkey] at hcreate
    obtain ⟨hnone, rfl⟩ := Prod.mk.inj hcreate
    obtain rfl := Except.ok.inj hnone
    cases h
  | some key =>
    refine ⟨request, key, by simpa using hcomplete, hdecoded, hfound, hkey, ?_⟩
    by_contra htaken
    obtain ⟨t', htaken'⟩ := eval_createEntityTx_taken hread hkey htaken
      (createdDocument entity shape api request (apiParameters api context) now)
    rw [repositoryCreateTx, htaken'] at hcreate
    cases hcreate

/-- **A committed create** was ready, and stores its document. -/
theorem transact_createHandler (hentity : entity ∈ system.entities) {answer : Outcome δ}
    {s' : State δ}
    (h : (createHandler system api entity shape context now).transact s = .ok (answer, s')) :
    ∃ request key, CreateReady s system api entity shape context now request key ∧
      Stores s s' entity.name key
        (createdRecord entity shape api request (apiParameters api context) now) := by
  obtain ⟨t, heval, r, hcommit, rfl⟩ := of_transact h
  obtain ⟨request, key, hready⟩ := createReady_of_eval heval
  obtain ⟨t', places, heval', hwritten, -⟩ := eval_createHandler hentity hready
  obtain rfl := (Prod.mk.inj (heval.symm.trans heval')).2
  exact ⟨request, key, hready, stores_of_commit hwritten hcommit⟩

/-! ## Changes of the status -/

/-- **The call changes a status**: the record is there, and the change of its status is allowed. -/
structure StatusChange (s : State δ) (entity : IrEntity) (keyValues : List (EntityKeyValue δ))
    (requestedStatus : Bytes) (key : Key) (record : VersionedRecord δ) (currentStatus : Bytes) :
    Prop where
  keyed : entityKey (entityLookup entity keyValues) = some key
  found : s.recordAt entity.name key = some record
  status : record.document.find entityStatusFieldName = some (.string currentStatus)
  allowed : statusTransitionAllowed entity currentStatus requestedStatus = true

/-- The document an update of the status stores. -/
def changedRecord (entity : IrEntity) (keyValues : List (EntityKeyValue δ))
    (record : VersionedRecord δ) (requestedStatus now : Bytes) : Json δ :=
  entityDocumentWithKeys (statusDocument record.document requestedStatus now)
    (entityLookup entity keyValues)

theorem find_of_requireMember {value member : Json δ} {name : Bytes}
    (h : requireMember value name = .ok member) : value.find name = some member := by
  rw [requireMember] at h
  split at h
  · cases h
  · cases h
  · rename_i hfind
    rw [hfind, Except.ok.inj h]

theorem eq_string_of_asString {value : Json δ} {text : Bytes} (h : value.asString = .ok text) :
    value = .string text := by
  cases value with
  | string other => rw [Except.ok.inj h]
  | _ => cases h

/-- **A committed change of a status**: there was no record, or the change was allowed. -/
theorem transact_changeStatus {keyValues : List (EntityKeyValue δ)} {requestedStatus : Bytes}
    {invalid failed : Bytes} {respond : Json δ → Outcome δ} {answer : Outcome δ} {s' : State δ}
    (h : (changeStatus entity keyValues requestedStatus now invalid failed respond).transact s =
      .ok (answer, s')) :
    SameRecords s s' ∨
    ∃ key record currentStatus,
      StatusChange s entity keyValues requestedStatus key record currentStatus ∧
      Stores s s' entity.name key (changedRecord entity keyValues record requestedStatus now) := by
  obtain ⟨t, heval, r, hcommit, rfl⟩ := of_transact h
  rw [changeStatus] at heval
  obtain ⟨found, mid, hget, heval⟩ := Script.of_eval_do heval
  obtain ⟨t₁, places₁, hget', hread, -⟩ := eval_getEntityTx (readOnly_begin s)
    (entityLookup entity keyValues)
  rw [repositoryGetTx, hget'] at hget
  obtain ⟨hfound, rfl⟩ := Prod.mk.inj hget
  obtain rfl := Except.ok.inj hfound
  cases hkey : entityKey (entityLookup entity keyValues) with
  | none =>
    rw [hkey] at heval
    obtain ⟨-, rfl⟩ := Prod.mk.inj heval
    exact Or.inl (sameRecords_commit ⟨hread.puts, hread.erases⟩ hcommit)
  | some key =>
    rw [hkey, Option.bind_some] at heval
    cases hrecord : s.recordAt entity.name key with
    | none =>
      rw [show (entityLookup entity keyValues).entity = entity.name from rfl, hrecord] at heval
      obtain ⟨-, rfl⟩ := Prod.mk.inj heval
      exact Or.inl (sameRecords_commit ⟨hread.puts, hread.erases⟩ hcommit)
    | some record =>
      rw [show (entityLookup entity keyValues).entity = entity.name from rfl, hrecord] at heval
      simp only at heval
      obtain ⟨status, _, hstatus, hrest⟩ := Script.of_eval_do heval
      obtain ⟨hmember, rfl⟩ := Script.of_eval_ofExcept hstatus
      obtain ⟨currentStatus, _, hcurrent, hbranch⟩ := Script.of_eval_do hrest
      obtain ⟨htext, rfl⟩ := Script.of_eval_ofExcept hcurrent
      obtain rfl := eq_string_of_asString htext
      split at hbranch
      · cases hbranch
      rename_i hallowed
      obtain ⟨_, _, hobject, hwrite⟩ := Script.of_eval_do hbranch
      obtain ⟨-, rfl⟩ := Script.of_eval_ofExcept hobject
      obtain ⟨updated, _, hupdate, hend⟩ := Script.of_eval_do hwrite
      obtain ⟨t₂, places₂, hupdate', hwritten⟩ := eval_upsertEntityTx hread hkey hrecord
        (statusDocument record.document requestedStatus now)
      rw [repositoryUpdateTx, hupdate'] at hupdate
      obtain ⟨hsome, rfl⟩ := Prod.mk.inj hupdate
      obtain rfl := Except.ok.inj hsome
      obtain ⟨-, rfl⟩ := Prod.mk.inj hend
      exact Or.inr ⟨key, record, currentStatus,
        ⟨hkey, hrecord, find_of_requireMember hmember, by simpa using hallowed⟩,
        stores_of_commit hwritten hcommit⟩

end

/-! ## Handlers make no query, or store nothing -/

theorem point_validateParents (system : IrSystem) (shape : IrShape) (request : Request δ)
    (parameters : List (Bytes × Bytes)) (relations : List IrRelation) :
    (validateParents system shape request parameters relations).Point := by
  induction relations with
  | nil => trivial
  | cons relation rest ih =>
    rw [validateParents, validateParent_eq]
    refine Script.point_do ?_ fun _ => ih
    cases requiredParent system relation with
    | none => trivial
    | some parent =>
      refine Script.point_do (point_getEntityTx _) fun record => ?_
      split <;> trivial

theorem point_createHandler (system : IrSystem) (api : IrApi) (entity : IrEntity) (shape : IrShape)
    (context : ApiRequestContext δ) (now : Bytes) :
    (createHandler system api entity shape context now).Point := by
  rw [createHandler]
  split
  · trivial
  · refine Script.point_do (Script.point_ofExcept _) fun request =>
      Script.point_do (point_validateParents _ _ _ _ _) fun _ =>
        Script.point_do (point_createEntityTx _ _) fun record => ?_
    split <;> trivial

theorem point_changeStatus (entity : IrEntity) (keyValues : List (EntityKeyValue δ))
    (requestedStatus now invalid failed : Bytes) (respond : Json δ → Outcome δ) :
    (changeStatus entity keyValues requestedStatus now invalid failed respond).Point := by
  refine Script.point_do (point_getEntityTx _) fun record => ?_
  cases record with
  | none => trivial
  | some record =>
    refine Script.point_do (Script.point_ofExcept _) fun status =>
      Script.point_do (Script.point_ofExcept _) fun currentStatus => ?_
    split
    · trivial
    · refine Script.point_do (Script.point_ofExcept _) fun _ =>
        Script.point_do (point_upsertEntityTx _ _ _) fun updated => ?_
      cases updated <;> trivial

theorem point_getHandler (system : IrSystem) (api : IrApi) (entity : IrEntity)
    (context : ApiRequestContext δ) : (getHandler system api entity context).Point := by
  refine Script.point_do (point_getEntityTx _) fun record => ?_
  cases record <;> trivial

theorem reads_listHandler (api : IrApi) (entity : IrEntity) (shape : IrShape)
    (context : ApiRequestContext δ) : (listHandler api entity shape context).Reads := by
  rw [listHandler]
  split
  · trivial
  · exact Script.reads_do (Script.reads_ofExcept _) fun values =>
      Script.reads_do (fun _ => trivial) fun records => trivial

/-! ## Calls -/

/-- **A request to one of the handlers** that are written for the entities of a system. -/
structure HandlerCall (system : IrSystem) (δ : Type) [Decimal δ] [Widening δ] where
  api : IrApi
  declared : api ∈ system.apis
  context : ApiRequestContext δ
  now : Bytes
  script : Script δ (Outcome δ)
  handled : handle system api context now = some script

/-- The call that a handler is written for. -/
def HandlerCall.ofHandled {system : IrSystem} (api : IrApi) (declared : api ∈ system.apis)
    (context : ApiRequestContext δ) (now : Bytes)
    (h : (handle system api context now).isSome = true) : HandlerCall system δ where
  api := api
  declared := declared
  context := context
  now := now
  script := (handle system api context now).get h
  handled := (Option.some_get h).symm

/-- What the script of a handler is. -/
inductive Handles (system : IrSystem) (api : IrApi) (context : ApiRequestContext δ) (now : Bytes) :
    Script δ (Outcome δ) → Prop where
  | create {entity : IrEntity} {shape : IrShape} (hentity : entity ∈ system.entities)
      (hshape : inputShape system api = some shape) :
      Handles system api context now (createHandler system api entity shape context now)
  | get {entity : IrEntity} (hentity : entity ∈ system.entities) :
      Handles system api context now (getHandler system api entity context)
  | list {entity : IrEntity} {shape : IrShape} (hentity : entity ∈ system.entities) :
      Handles system api context now (listHandler api entity shape context)
  | updateStatus {entity : IrEntity} {shape : IrShape} (hentity : entity ∈ system.entities) :
      Handles system api context now (updateStatusHandler system api entity shape context now)
  | delete {entity : IrEntity} (hentity : entity ∈ system.entities) :
      Handles system api context now (deleteHandler api entity context now)

theorem mem_of_entityForApi {system : IrSystem} {api : IrApi} {operation : Bytes}
    {entity : IrEntity} (h : entityForApi system api operation = some entity) :
    entity ∈ system.entities := by
  rw [entityForApi] at h
  split at h
  · obtain ⟨name, -, hfind⟩ := Option.bind_eq_some_iff.mp h
    exact List.mem_of_find?_eq_some hfind
  · cases h

theorem handles_of_handle {system : IrSystem} {api : IrApi} {context : ApiRequestContext δ}
    {now : Bytes} {script : Script δ (Outcome δ)} (h : handle system api context now = some script) :
    Handles system api context now script := by
  rw [handle] at h
  split at h
  · rename_i hentity hshape
    obtain rfl := Option.some_inj.mp h
    exact .create (mem_of_entityForApi hentity) hshape
  split at h
  · rename_i hentity
    obtain rfl := Option.some_inj.mp h
    exact .get (mem_of_entityForApi hentity)
  split at h
  · rename_i hlist
    obtain rfl := Option.some_inj.mp h
    obtain ⟨entity, hentity, hrest⟩ := Option.bind_eq_some_iff.mp hlist
    obtain ⟨shape, -, hrest⟩ := Option.bind_eq_some_iff.mp hrest
    obtain ⟨field, -, hrest⟩ := Option.bind_eq_some_iff.mp hrest
    split at hrest
    · obtain ⟨rfl, rfl⟩ := Prod.mk.inj (Option.some_inj.mp hrest)
      exact .list (mem_of_entityForApi hentity)
    · cases hrest
  split at h
  · rename_i hentity _
    obtain rfl := Option.some_inj.mp h
    exact .updateStatus (mem_of_entityForApi hentity)
  split at h
  · rename_i hentity
    split at h
    · obtain rfl := Option.some_inj.mp h
      exact .delete (mem_of_entityForApi hentity)
    · cases h
  · cases h

theorem Handles.point_or_reads {system : IrSystem} {api : IrApi} {context : ApiRequestContext δ}
    {now : Bytes} {script : Script δ (Outcome δ)} (h : Handles system api context now script) :
    script.Point ∨ script.Reads := by
  cases h with
  | create => exact Or.inl (point_createHandler _ _ _ _ _ _)
  | get => exact Or.inl (point_getHandler _ _ _ _)
  | list => exact Or.inr (reads_listHandler _ _ _ _)
  | updateStatus =>
    refine Or.inl ?_
    rw [updateStatusHandler]
    split
    · trivial
    · exact Script.point_do (Script.point_ofExcept _) fun request =>
        Script.point_do (Script.point_ofExcept _) fun status => point_changeStatus _ _ _ _ _ _ _
  | delete => exact Or.inl (point_changeStatus _ _ _ _ _ _ _)

/-- **What a call does to the records**: nothing, one more record, or one change of a status. -/
inductive HandlerEffect (system : IrSystem) (s s' : State δ) : Prop where
  | same (h : SameRecords s s')
  | created {api : IrApi} {entity : IrEntity} {shape : IrShape} {context : ApiRequestContext δ}
      {now : Bytes} {request : Request δ} {key : Key} (hentity : entity ∈ system.entities)
      (hready : CreateReady s system api entity shape context now request key)
      (hstores : Stores s s' entity.name key
        (createdRecord entity shape api request (apiParameters api context) now))
  | changed {entity : IrEntity} {value : Bytes → Json δ} {requestedStatus now : Bytes} {key : Key}
      {record : VersionedRecord δ} {currentStatus : Bytes} (hentity : entity ∈ system.entities)
      (hchange : StatusChange s entity (keyValues entity value) requestedStatus key record
        currentStatus)
      (hstores : Stores s s' entity.name key
        (changedRecord entity (keyValues entity value) record requestedStatus now))

theorem transact_getHandler {s s' : State δ} {system : IrSystem} {api : IrApi} {entity : IrEntity}
    {context : ApiRequestContext δ} {answer : Outcome δ}
    (h : (getHandler system api entity context).transact s = .ok (answer, s')) :
    SameRecords s s' := by
  obtain ⟨t, heval, r, hcommit, rfl⟩ := of_transact h
  obtain ⟨record, mid, hget, hrest⟩ := Script.of_eval_do heval
  obtain ⟨t₁, places, hget', hread, -⟩ := eval_getEntityTx (readOnly_begin s)
    (entityLookup entity (keyValues entity (pathParameterJson (apiParameters api context))))
  rw [repositoryGetTx, hget'] at hget
  obtain ⟨-, rfl⟩ := Prod.mk.inj hget
  have hend : t₁ = t := by cases record <;> exact (Prod.mk.inj hrest).2
  subst hend
  exact sameRecords_commit ⟨hread.puts, hread.erases⟩ hcommit

theorem transact_ofExcept {α ρ : Type} {s s' : State δ} {x : Except Error α} {f : α → Script δ ρ}
    {answer : ρ} (h : (Script.ofExcept x >>= f).transact s = .ok (answer, s')) :
    ∃ a, x = .ok a ∧ (f a).transact s = .ok (answer, s') := by
  cases x with
  | error e => cases h
  | ok a => exact ⟨a, rfl, h⟩

/-- **What a committed call has done.** -/
theorem Handles.effect {system : IrSystem} {api : IrApi} {context : ApiRequestContext δ} {now : Bytes}
    {script : Script δ (Outcome δ)} (h : Handles system api context now script)
    (hpoint : script.Point) {s s' : State δ} {answer : Outcome δ}
    (htransact : script.transact s = .ok (answer, s')) : HandlerEffect system s s' := by
  have hchange : ∀ {entity : IrEntity} {value : Bytes → Json δ} {requestedStatus invalid failed : Bytes}
      {respond : Json δ → Outcome δ}, entity ∈ system.entities →
      (changeStatus entity (keyValues entity value) requestedStatus now invalid failed
        respond).transact s = .ok (answer, s') → HandlerEffect system s s' := by
    intro entity value requestedStatus invalid failed respond hentity hcall
    rcases transact_changeStatus hcall with hsame | ⟨key, record, currentStatus, hchange, hstores⟩
    · exact .same hsame
    · exact .changed hentity hchange hstores
  cases h with
  | create hentity hshape =>
    obtain ⟨request, key, hready, hstores⟩ := transact_createHandler hentity htransact
    exact .created hentity hready hstores
  | get hentity => exact .same (transact_getHandler htransact)
  | @list entity shape hentity =>
    rw [listHandler] at hpoint htransact
    split at hpoint
    · rename_i hnone
      rw [hnone] at htransact
      cases htransact
    · rename_i index hsome
      rw [hsome] at htransact
      obtain ⟨values, hvalues, -⟩ := transact_ofExcept htransact
      rw [hvalues] at hpoint
      exact hpoint.elim
  | updateStatus hentity =>
    rw [updateStatusHandler] at htransact
    split at htransact
    · cases htransact
    · obtain ⟨request, -, hrest⟩ := transact_ofExcept htransact
      obtain ⟨status, -, hcall⟩ := transact_ofExcept hrest
      exact hchange hentity hcall
  | delete hentity => exact hchange hentity htransact

/-! ## Runs -/

section

variable {system : IrSystem}

abbrev HandlerEvent (system : IrSystem) (δ : Type) [Decimal δ] [Widening δ] :=
  ClientEvent (HandlerCall system δ) Unit (List CollectionDescriptor)
abbrev HandlerWorld (system : IrSystem) (δ : Type) [Decimal δ] [Widening δ] :=
  ClientWorld δ (HandlerCall system δ) (Outcome δ) Unit

abbrev HandlerSlot (system : IrSystem) (δ : Type) [Decimal δ] [Widening δ] :=
  Slot (HandlerCall system δ) (Client δ (Outcome δ)) Unit Unit

/-- The backend with calls of generated handlers. -/
abbrev handlerStore (system : IrSystem) : Store (HandlerCall system δ) (State δ)
    (Client δ (Outcome δ)) Unit Unit Unit (Option Error) (List CollectionDescriptor) :=
  clients Unit HandlerCall.script Cpp.register

/-- Any interleaving of calls, from the empty store. -/
def handlerRun (es : List (HandlerEvent system δ)) : HandlerWorld system δ :=
  run (handlerStore system) (World.init InMemoryState.empty) es

theorem handlerRun_snoc (es : List (HandlerEvent system δ)) (e : HandlerEvent system δ) :
    handlerRun (es ++ [e]) = step (handlerStore system) (handlerRun es) e := by
  rw [handlerRun, run_append]
  rfl

/-- **What one event of a run does to the records.** -/
theorem effect_snoc (es : List (HandlerEvent system δ)) (e : HandlerEvent system δ) :
    HandlerEffect system (handlerRun es).shared (handlerRun (es ++ [e])).shared := by
  rw [handlerRun_snoc]
  have hprogram : ∀ call : HandlerCall system δ, call.script.Point ∨ call.script.Reads :=
    fun call => (handles_of_handle call.handled).point_or_reads
  rcases step_transactions later_register hprogram es e rfl with
    hsame | ⟨a, -, hadmin⟩ | ⟨n, g, slot, answer, -, -, -, hpoint, htransact⟩
  · exact .same hsame
  · refine .same ?_
    rw [handlerRun, hadmin]
    exact sameRecords_register _ a
  · exact (handles_of_handle slot.init.handled).effect hpoint htransact

end

end StateSpec.Generated
