/-
  PARENTS — whether a generated create asks for the parent its request designates.

  A relation is declared on a field of the child, and that field says which parent is meant: its value
  is the parent's own key field, the last one, and the key fields before it are those the child shares
  with the parent (`designatedValue`).  `write_cpp_parent_validation` does not read the field.  It
  puts the parent's key together from what the child's request and route have under the names of the
  parent's key fields.  So a child that has a field of that name for something else is checked against
  another record; where the two values are the same, the right record is looked up
  (`DesignatesParents`).

  * `parents_respected`        — in runs whose creates all meet that condition, a create commits only
                                 with its designated parents, and is rejected only without;
  * `parents_respected_order`  — a run in which a create is rejected although its parent exists.
-/
import StateSpec.Generated.Lifecycle

set_option linter.unusedSectionVars false

namespace StateSpec.Generated

open Cpp Memory Memory.InMemoryTransaction Interleaving

variable {δ : Type} [Decimal δ] [Widening δ] {system : IrSystem}

/-! ## The parent a request designates -/

/-- The call is a create of the entity, with a request that decodes. -/
structure IsCreate (call : HandlerCall system δ) (entity : IrEntity) (shape : IrShape)
    (request : Request δ) : Prop where
  entityFound : entityForApi system call.api (ascii "create") = some entity
  shapeFound : inputShape system call.api = some shape
  decoded : decodeRequest call.context.body shape.fields = .ok request

/-- What the request and the route of a create have under a name. -/
def HandlerCall.value (call : HandlerCall system δ) (shape : IrShape) (request : Request δ)
    (name : Bytes) : Json δ :=
  requestOrPathJson shape request (apiParameters call.api call.context) name

/-- **The key fields of the designated parent**: the field of the relation has the last one. -/
def designatedValue (call : HandlerCall system δ) (shape : IrShape) (request : Request δ)
    (relation : IrRelation) (parent : IrEntity) (name : Bytes) : Json δ :=
  if parent.keyFields.getLast? = some name then call.value shape request relation.name
  else call.value shape request name

/-- The record of the designated parent. -/
def designatedRecord (s : State δ) (call : HandlerCall system δ) (shape : IrShape)
    (request : Request δ) (relation : IrRelation) (parent : IrEntity) : Option (VersionedRecord δ) :=
  (entityKey (entityLookup parent
    (keyValues parent (designatedValue call shape request relation parent)))).bind
    (s.recordAt parent.name)

/-! ## What is claimed of a run -/

/-- A create that commits finds its designated parents. -/
def CommitsWithParents (w : HandlerWorld system δ) (e : HandlerEvent system δ) : Prop :=
  ∀ n g slot r entity shape request, e = .commit n g → w.slots[n]? = some slot →
    (handlerStore system).commit g w.shared slot.tx = .ok r →
    IsCreate slot.init entity shape request →
    ∀ relation ∈ entity.relations, ∀ parent, requiredParent system relation = some parent →
      (designatedRecord w.shared slot.init shape request relation parent).isSome = true

/-- A create that is rejected for a missing parent has a designated parent that is missing. -/
def RejectsWithoutParents (w : HandlerWorld system δ) (e : HandlerEvent system δ) : Prop :=
  ∀ (n : Nat) (slot : HandlerSlot system δ) entity shape request missing,
    (step (handlerStore system) w e).slots[n]? = some slot →
    IsCreate slot.init entity shape request → slot.tx.script = .throw (missingParentError missing) →
    (∀ old, w.slots[n]? = some old → old.tx.script ≠ slot.tx.script) →
    ∃ relation ∈ entity.relations, ∃ parent, requiredParent system relation = some parent ∧
      parent.name = missing.name ∧
      designatedRecord w.shared slot.init shape request relation parent = none

/-- **Every event of the run respects the designated parents.** -/
def ParentsRespected (es : List (HandlerEvent system δ)) : Prop :=
  ∀ before e after, es = before ++ e :: after →
    CommitsWithParents (handlerRun before) e ∧ RejectsWithoutParents (handlerRun before) e

/-- **The condition**: what a create has under the name of the parent's last key field is what it has
    in the field of the relation. -/
def DesignatesParents (call : HandlerCall system δ) : Prop :=
  ∀ entity shape request, IsCreate call entity shape request → ∀ relation ∈ entity.relations,
    ∀ parent, requiredParent system relation = some parent →
    ∀ name, parent.keyFields.getLast? = some name →
      call.value shape request relation.name = call.value shape request name

/-- Under the condition, the parent that is looked up is the designated one. -/
theorem designatedRecord_eq {call : HandlerCall system δ} (h : DesignatesParents call)
    {entity : IrEntity} {shape : IrShape} {request : Request δ}
    (hcreate : IsCreate call entity shape request) {relation : IrRelation}
    (hrelation : relation ∈ entity.relations) {parent : IrEntity}
    (hparent : requiredParent system relation = some parent) (s : State δ) :
    designatedRecord s call shape request relation parent =
      parentRecord s shape request (apiParameters call.api call.context) parent := by
  have hvalue : designatedValue call shape request relation parent =
      requestOrPathJson shape request (apiParameters call.api call.context) := by
    funext name
    rw [designatedValue]
    split
    · rename_i hlast
      exact h entity shape request hcreate relation hrelation parent hparent name hlast
    · rfl
  rw [designatedRecord, parentRecord, hvalue]

/-- The script of a create. -/
theorem IsCreate.script {call : HandlerCall system δ} {entity : IrEntity} {shape : IrShape}
    {request : Request δ} (h : IsCreate call entity shape request) :
    call.script = createHandler system call.api entity shape call.context call.now := by
  have hhandled := call.handled
  rw [handle, h.entityFound, h.shapeFound] at hhandled
  exact (Option.some_inj.mp hhandled).symm

theorem IsCreate.mem {call : HandlerCall system δ} {entity : IrEntity} {shape : IrShape}
    {request : Request δ} (h : IsCreate call entity shape request) : entity ∈ system.entities :=
  mem_of_entityForApi h.entityFound

/-! ## Commits -/

theorem commitsWithParents (es : List (HandlerEvent system δ))
    (hdesignates : ∀ slot ∈ (handlerRun es).slots, DesignatesParents slot.init)
    (e : HandlerEvent system δ) : CommitsWithParents (handlerRun es) e := by
  rintro n g slot r entity shape request rfl hn hcommit hcreate relation hrelation parent hparent
  have hmem := List.mem_of_getElem? hn
  have hpoint : slot.init.script.Point := hcreate.script ▸ point_createHandler _ _ _ _ _ _
  -- the create could have run at the instant of its commit, and so was ready then
  have hinv := (clientDiscipline Unit HandlerCall.script Cpp.register later_register).run_inv
    (allowed_clients later_register (World.init InMemoryState.empty) es)
  have hslot := hinv.slots slot hmem
    ((clientDiscipline Unit HandlerCall.script Cpp.register later_register).commit_live hcommit)
  have hreplay := hslot.2 _ (Later.refl _)
    ((clientDiscipline Unit HandlerCall.script Cpp.register later_register).commit_valid hcommit)
  obtain ⟨answer, -, htransact⟩ := eval_of_commit hpoint hreplay hcommit
  rw [hcreate.script] at htransact
  obtain ⟨request', key, hready, -⟩ := transact_createHandler hcreate.mem htransact
  obtain rfl := Except.ok.inj (hready.decoded.symm.trans hcreate.decoded)
  rw [designatedRecord_eq (hdesignates slot hmem) hcreate hrelation hparent]
  exact hready.parents relation hrelation parent hparent

/-! ## Rejections -/

/-- An error that says that a parent is missing. -/
def IsMissingParent (e : Error) : Prop := ∃ parent, e = missingParentError parent

/-- The parent of the error has been looked up at that place. -/
def LookedUp (system : IrSystem) (entity : IrEntity) (shape : IrShape) (request : Request δ)
    (parameters : List (Bytes × Bytes)) (c : CollectionName) (k : Key) (e : Error) : Prop :=
  ∃ relation ∈ entity.relations, ∃ parent, requiredParent system relation = some parent ∧
    e = missingParentError parent ∧ c = parent.name ∧
    entityKey (entityLookup parent (keyValues parent (requestOrPathJson shape request parameters))) =
      some k

theorem not_isMissingParent {message : Bytes}
    (h : ¬ ascii "missing required parent " <+: message) : ¬ IsMissingParent (.backendError message) := by
  rintro ⟨parent, heq⟩
  obtain rfl := Error.backendError.inj heq
  exact h (List.prefix_append _ _)

theorem not_isMissingParent_thrown (fault : Fault) : ¬ IsMissingParent (thrown fault) := by
  cases fault with
  | closed => exact not_isMissingParent (by decide)
  | nonScalar => exact not_isMissingParent (by decide)
  | versionConflict => rintro ⟨parent, ⟨⟩⟩
  | uniqueIndexConflict c i => rintro ⟨parent, ⟨⟩⟩

theorem reads_validateParent (shape : IrShape) (request : Request δ)
    (parameters : List (Bytes × Bytes)) (relation : IrRelation) :
    (validateParent system shape request parameters relation).Reads := by
  rw [validateParent_eq]
  cases requiredParent system relation with
  | none => trivial
  | some parent =>
    refine Script.reads_do ?_ fun record => ?_
    · rw [repositoryGetTx, getEntityTx]
      split
      · trivial
      · exact fun _ => trivial
    · split <;> trivial

theorem reads_validateParents (shape : IrShape) (request : Request δ)
    (parameters : List (Bytes × Bytes)) (relations : List IrRelation) :
    (validateParents system shape request parameters relations).Reads := by
  induction relations with
  | nil => trivial
  | cons relation rest ih => exact Script.reads_do (reads_validateParent _ _ _ _) fun _ => ih

/-- The key of a parent is always complete. -/
theorem entityKey_parent (parent : IrEntity) (value : Bytes → Json δ) :
    ∃ key, entityKey (entityLookup parent (keyValues parent value)) = some key := by
  have hvalues : ∀ field ∈ parent.keyFields,
      (entityKeyValue (entityLookup parent (keyValues parent value)) field).isSome = true := by
    intro field hfield
    rw [keyValues, entityKeyValue_map, if_pos hfield]
    rfl
  obtain ⟨key, hkey, -⟩ :=
    @entityKey_of_values δ _ (entityLookup parent (keyValues parent value)) hvalues
  exact ⟨key, hkey⟩

/-- One relation: it throws for a parent only where it has just looked it up. -/
theorem checks_validateParent {entity : IrEntity} (shape : IrShape) (request : Request δ)
    (parameters : List (Bytes × Bytes)) {relation : IrRelation}
    (hrelation : relation ∈ entity.relations) :
    (validateParent system shape request parameters relation).Checks IsMissingParent
      (LookedUp system entity shape request parameters) := by
  rw [validateParent_eq]
  cases hparent : requiredParent system relation with
  | none => trivial
  | some parent =>
    obtain ⟨key, hkey⟩ := entityKey_parent parent (requestOrPathJson shape request parameters)
    rw [Option.elim_some, repositoryGetTx, getEntityTx, hkey]
    intro record
    cases record with
    | some record => exact Or.inl trivial
    | none => exact Or.inr ⟨rfl, _, rfl, relation, hrelation, parent, hparent, rfl, rfl, hkey⟩

/-- **The checks of a create**, one relation after another. -/
theorem checks_validateParents {entity : IrEntity} (shape : IrShape) (request : Request δ)
    (parameters : List (Bytes × Bytes)) {relations : List IrRelation}
    (hsub : ∀ relation ∈ relations, relation ∈ entity.relations) :
    (validateParents system shape request parameters relations).Checks IsMissingParent
      (LookedUp system entity shape request parameters) := by
  induction relations with
  | nil => trivial
  | cons relation rest ih =>
    obtain ⟨hrelation, hrest⟩ := List.forall_mem_cons.mp hsub
    exact Script.checks_do (reads_validateParent _ _ _ _)
      (checks_validateParent _ _ _ hrelation) fun _ => ih hrest

theorem quiet_createEntityTx (lookup : EntityLookup δ) (document : Json δ) :
    (createEntityTx lookup document).Quiet IsMissingParent := by
  rw [createEntityTx]
  split
  · trivial
  · refine Script.quiet_do (fun _ => trivial) fun existing => ?_
    split
    · rintro ⟨parent, ⟨⟩⟩
    · exact Script.quiet_do trivial fun _ => fun _ => trivial

/-- **A create** throws for a missing parent only where it has just looked it up. -/
theorem checks_createHandler (system : IrSystem) (api : IrApi) (entity : IrEntity)
    {shape : IrShape} {context : ApiRequestContext δ} (now : Bytes) {request : Request δ}
    (hdecoded : decodeRequest context.body shape.fields = .ok request) :
    (createHandler system api entity shape context now).Checks IsMissingParent
      (LookedUp system entity shape request (apiParameters api context)) := by
  rw [createHandler]
  split
  · refine not_isMissingParent fun hfront => ?_
    obtain ⟨rest, heq⟩ := hfront
    exact absurd (List.cons.inj heq).1 (by decide)
  · rw [hdecoded]
    show (validateParents system shape request (apiParameters api context) entity.relations >>=
      _).Checks _ _
    refine Script.checks_do (reads_validateParents _ _ _ _)
      (checks_validateParents _ _ _ fun _ h => h) fun _ => Script.checks_of_quiet ?_
    refine Script.quiet_do (quiet_createEntityTx _ _) fun record => ?_
    split
    · trivial
    · exact not_isMissingParent (by decide)

/-- **The client of a create**: it still looks for parents, it is past that, or it has thrown. -/
def CreateClient (call : HandlerCall system δ) (client : Client δ (Outcome δ)) : Prop :=
  ∀ entity shape request, IsCreate call entity shape request →
    (client.script.Checks IsMissingParent
      (LookedUp system entity shape request (apiParameters call.api call.context)) ∧
      NothingStaged client.tx) ∨
    client.script.Quiet IsMissingParent ∨ ∃ e, client.script = .throw e

theorem createClient_begin (call : HandlerCall system δ) :
    CreateClient call ⟨begin, call.script⟩ := by
  intro entity shape request hcreate
  rw [hcreate.script]
  exact Or.inl ⟨checks_createHandler _ _ _ _ hcreate.decoded, nothingStaged_begin⟩

theorem createClient_call {call : HandlerCall system δ} {client : Client δ (Outcome δ)}
    (h : CreateClient call client) (s : State δ) : CreateClient call (client.call s) := by
  intro entity shape request hcreate
  rcases h entity shape request hcreate with ⟨hchecks, htx⟩ | hquiet | ⟨e, hthrow⟩
  · rcases checks_call not_isMissingParent_thrown hchecks htx s with
      hmore | hquiet | ⟨c, k, e, hthrow, -, -⟩
    · exact Or.inl hmore
    · exact Or.inr (Or.inl hquiet)
    · exact Or.inr (Or.inr ⟨e, hthrow⟩)
  · exact Or.inr (Or.inl (quiet_call not_isMissingParent_thrown hquiet s))
  · refine Or.inr (Or.inr ⟨e, ?_⟩)
    rw [Client.call, hthrow]

theorem createClient_run (es : List (HandlerEvent system δ)) {n : Nat} {slot : HandlerSlot system δ}
    (hn : (handlerRun es).slots[n]? = some slot) : CreateClient slot.init slot.tx := by
  refine run_client (P := CreateClient) createClient_begin (fun _ _ s h => createClient_call h s)
    (fun call client client' h hscript htx entity shape request hcreate => ?_) es n slot hn
  rcases h entity shape request hcreate with ⟨hchecks, -⟩ | hquiet | ⟨e, hthrow⟩
  · exact Or.inl ⟨hscript ▸ hchecks, htx⟩
  · exact Or.inr (Or.inl (hscript ▸ hquiet))
  · exact Or.inr (Or.inr ⟨e, hscript.trans hthrow⟩)

theorem rejectsWithoutParents (es : List (HandlerEvent system δ))
    (e : HandlerEvent system δ)
    (hall : ∀ slot ∈ (handlerRun (es ++ [e])).slots, DesignatesParents slot.init) :
    RejectsWithoutParents (handlerRun es) e := by
  intro n slot entity shape request missing hn hcreate hthrow hnew
  have hbad : IsMissingParent (missingParentError missing) := ⟨missing, rfl⟩
  have hdesignates : DesignatesParents slot.init :=
    hall slot (handlerRun_snoc es e ▸ List.mem_of_getElem? hn)
  rcases client_cases hn with ⟨-, htx⟩ | ⟨old, hold, hinit, htx | htx | ⟨hscript, -⟩⟩
  · -- a create does not begin with a rejection
    have hchecks := checks_createHandler system slot.init.api entity slot.init.now hcreate.decoded
    rw [htx] at hthrow
    change slot.init.script = _ at hthrow
    rw [← hcreate.script, hthrow] at hchecks
    exact absurd hbad hchecks
  · exact absurd (congrArg Client.script htx.symm) (hnew old hold)
  · have hcreate' : IsCreate old.init entity shape request := hinit ▸ hcreate
    rw [htx] at hthrow
    rcases createClient_run es hold entity shape request hcreate' with
      ⟨hchecks, hstaged⟩ | hquiet | ⟨e', hthrown⟩
    · rcases checks_call not_isMissingParent_thrown hchecks hstaged (handlerRun es).shared with
        ⟨hmore, -⟩ | hquiet | ⟨c, k, e', hthrow', hlooked, hnone⟩
      · rw [hthrow] at hmore
        exact absurd hbad hmore
      · rw [hthrow] at hquiet
        exact absurd hbad hquiet
      · -- the parent of the error has been looked up in this very state
        obtain ⟨relation, hrelation, parent, hparent, heq, rfl, hkey⟩ := hlooked
        have hsame : missingParentError parent = missingParentError missing :=
          heq.symm.trans (Script.throw.inj (hthrow'.symm.trans hthrow))
        refine ⟨relation, hrelation, parent, hparent,
          List.append_cancel_left (Error.backendError.inj hsame), ?_⟩
        rw [designatedRecord_eq hdesignates hcreate hrelation hparent, parentRecord, hinit, hkey]
        exact hnone
    · have hquiet' := quiet_call not_isMissingParent_thrown hquiet (handlerRun es).shared
      rw [hthrow] at hquiet'
      exact absurd hbad hquiet'
    · refine absurd ?_ (hnew old hold)
      rw [htx, Client.call, hthrown]
  · exact absurd hscript.symm (hnew old hold)

/-! ## Runs -/

/-- The calls of a run are those that have been begun. -/
theorem mem_slots_handlerRun (es : List (HandlerEvent system δ)) :
    ∀ slot ∈ (handlerRun es).slots, .begin slot.init ∈ es := by
  induction es using List.reverseRecOn with
  | nil => simp [handlerRun, World.init]
  | append_singleton es e ih =>
    intro slot hmem
    rw [handlerRun_snoc] at hmem
    have hset : ∀ {m : Nat} {old new : HandlerSlot system δ}, (handlerRun es).slots[m]? = some old →
        slot ∈ (handlerRun es).slots.set m new → new.init = old.init →
        .begin slot.init ∈ es ++ [e] := by
      intro m old new hm h hinit
      rcases List.mem_or_eq_of_mem_set h with hold | rfl
      · exact List.mem_append_left _ (ih slot hold)
      · rw [hinit]
        exact List.mem_append_left _ (ih old (List.mem_of_getElem? hm))
    rcases step_cases (handlerStore system) (handlerRun es) e with h | ⟨i, rfl, h⟩ |
      ⟨_, _, _, rfl, hm, h⟩ | ⟨_, _, _, _, rfl, hm, _, h⟩ | ⟨_, _, rfl, hm, h⟩ | ⟨_, rfl, h⟩ <;>
      rw [h] at hmem
    · exact List.mem_append_left _ (ih slot hmem)
    · rcases List.mem_append.mp hmem with hold | hnew
      · exact List.mem_append_left _ (ih slot hold)
      · obtain rfl := List.mem_singleton.mp hnew
        exact List.mem_append_right _ (List.mem_singleton.mpr rfl)
    · exact hset hm hmem rfl
    · exact hset hm hmem rfl
    · exact hset hm hmem rfl
    · exact List.mem_append_left _ (ih slot hmem)

/-- **Where the field of each relation agrees with the parent's key field, every create respects its
    designated parents**, in any interleaving of calls. -/
theorem parents_respected (es : List (HandlerEvent system δ))
    (hdesignates : ∀ call, .begin call ∈ es → DesignatesParents call) : ParentsRespected es := by
  rintro before e after rfl
  have hslots : ∀ es', (∀ e' ∈ es', e' ∈ before ++ e :: after) →
      ∀ slot ∈ (handlerRun es').slots, DesignatesParents slot.init :=
    fun es' hsub slot hmem =>
      hdesignates slot.init (hsub _ (mem_slots_handlerRun es' slot hmem))
  refine ⟨commitsWithParents before (hslots before fun e' h => List.mem_append_left _ h) e,
    rejectsWithoutParents before e (hslots (before ++ [e]) fun e' h => ?_)⟩
  rcases List.mem_append.mp h with hbefore | hlast
  · exact List.mem_append_left _ hbefore
  · rw [List.mem_singleton.mp hlast]
    exact List.mem_append_right _ List.mem_cons_self

/-! ## Orders of an account -/

/-- Accounts and orders, each with an `id` of its own. -/
def accountEntity : IrEntity where
  name := ascii "Account"
  keyFields := [ascii "id"]
  fields := [⟨ascii "id", ascii "string"⟩, ⟨ascii "status", ascii "string"⟩,
    ⟨ascii "created_at", ascii "timestamp"⟩, ⟨ascii "updated_at", ascii "timestamp"⟩]
  states := [{ name := ascii "Active" }]
  initialState := some (ascii "Active")

def orderEntity : IrEntity where
  name := ascii "Order"
  keyFields := [ascii "id"]
  fields := [⟨ascii "id", ascii "string"⟩, ⟨ascii "account_id", ascii "ref<Account>"⟩,
    ⟨ascii "status", ascii "string"⟩, ⟨ascii "created_at", ascii "timestamp"⟩,
    ⟨ascii "updated_at", ascii "timestamp"⟩]
  relations := [⟨ascii "parent", ascii "account_id", ascii "Account", false⟩]
  states := [{ name := ascii "Active" }]
  initialState := some (ascii "Active")

def createAccountApi : IrApi where
  name := ascii "CreateAccount"
  method := some (ascii "POST")
  path := some (ascii "/v1/accounts/\x7bid\x7d")
  input := some (ascii "CreateAccountRequest")
  entity := some (ascii "Account")
  repositoryOperation := some (ascii "create")

def createOrderApi : IrApi where
  name := ascii "CreateOrder"
  method := some (ascii "POST")
  path := some (ascii "/v1/orders/\x7bid\x7d")
  input := some (ascii "CreateOrderRequest")
  entity := some (ascii "Order")
  repositoryOperation := some (ascii "create")

def createOrderShape : IrShape :=
  ⟨ascii "CreateOrderRequest", [⟨ascii "account_id", ascii "ref<Account>"⟩]⟩

def orderSystem : IrSystem where
  shapes := [⟨ascii "CreateAccountRequest", []⟩, createOrderShape]
  entities := [accountEntity, orderEntity]
  apis := [createAccountApi, createOrderApi]

theorem orderSystem_accepted : AcceptedSystem orderSystem := by decide

/-- The account `A` is created. -/
def accountCall : HandlerCall orderSystem Int :=
  .ofHandled createAccountApi (by simp [orderSystem])
    ⟨ascii "CreateAccount", some (ascii "/v1/accounts/A"), .object []⟩
    (ascii "2024-05-01T00:00:00Z") (by decide)

/-- An order of the account `A` is created under an id. -/
def orderCall (id : Bytes) : HandlerCall orderSystem Int :=
  .ofHandled createOrderApi (by simp [orderSystem])
    ⟨ascii "CreateOrder", some (ascii "/v1/orders/" ++ id),
      .object [(ascii "account_id", .string (ascii "A"))]⟩
    (ascii "2024-05-02T00:00:00Z") rfl

def accountRun : List (HandlerEvent orderSystem Int) :=
  [.begin accountCall, .op 0 (), .op 0 (), .op 0 (), .commit 0 ()]

def orderRequest : Request Int := [(ascii "account_id", .string (ascii "A"))]

theorem isCreate_orderCall (id : Bytes) :
    IsCreate (orderCall id) orderEntity createOrderShape orderRequest where
  entityFound := rfl
  shapeFound := rfl
  decoded := rfl

/-- Where the order has the id of its account, the condition is met. -/
theorem designatesParents_account : DesignatesParents accountCall ∧
    DesignatesParents (orderCall (ascii "A")) := by
  refine ⟨fun entity shape request hcreate relation hrelation => ?_,
    fun entity shape request hcreate relation hrelation parent hparent name hname => ?_⟩
  · have hentity : accountEntity = entity := Option.some_inj.mp hcreate.entityFound
    subst hentity
    cases hrelation
  · have hentity : orderEntity = entity := Option.some_inj.mp hcreate.entityFound
    have hshape : createOrderShape = shape := Option.some_inj.mp hcreate.shapeFound
    subst hentity hshape
    have hrequest : orderRequest = request := Except.ok.inj hcreate.decoded
    subst hrequest
    obtain rfl := List.mem_singleton.mp hrelation
    have hparent' : accountEntity = parent := Option.some_inj.mp hparent
    subst hparent'
    have hname' : ascii "id" = name := Option.some_inj.mp hname
    subst hname'
    rfl

/-- An order is created under the id of its account, and has it for its parent. -/
theorem parents_respected_account : ParentsRespected
    (accountRun ++ [.begin (orderCall (ascii "A")), .op 1 (), .op 1 (), .op 1 (), .op 1 (),
      .commit 1 ()]) := by
  refine parents_respected _ fun call hcall => ?_
  have hcases : call = accountCall ∨ call = orderCall (ascii "A") := by
    simpa [accountRun] using hcall
  rcases hcases with rfl | rfl
  · exact designatesParents_account.1
  · exact designatesParents_account.2

/-- The order `O` of the account `A`, after its first call. -/
def rejectedRun : List (HandlerEvent orderSystem Int) :=
  accountRun ++ [.begin (orderCall (ascii "O")), .op 1 ()]

/-- What a client has thrown. -/
def thrownBy (client : Client Int (Outcome Int)) : Option Error :=
  match client.script with
  | .throw e => some e
  | _ => none

theorem script_of_thrownBy {client : Client Int (Outcome Int)} {e : Error}
    (h : thrownBy client = some e) : client.script = .throw e := by
  rw [thrownBy] at h
  split at h
  · rename_i e' hscript
    rw [hscript, Option.some_inj.mp h]
  · cases h

/-- **An order is rejected for a missing parent, although its account is there**: the account is
    looked up under the id of the order. -/
theorem parents_respected_order :
    AcceptedSystem orderSystem ∧ ¬ ParentsRespected rejectedRun := by
  refine ⟨orderSystem_accepted, fun h => ?_⟩
  have hopened : (handlerRun (accountRun ++ [.begin (orderCall (ascii "O"))])).slots[1]? =
      some ⟨orderCall (ascii "O"), ⟨begin, (orderCall (ascii "O")).script⟩, []⟩ := by
    have hlength : (handlerRun accountRun).slots.length = 1 := by decide +kernel
    rw [handlerRun_snoc, ← hlength]
    exact List.getElem?_concat_length
  have hthrown : (handlerRun rejectedRun).slots[1]?.bind (fun slot => thrownBy slot.tx) =
      some (missingParentError accountEntity) := by decide +kernel
  obtain ⟨slot, hn, hslot⟩ := Option.bind_eq_some_iff.mp hthrown
  have hrun : handlerRun rejectedRun = step (handlerStore orderSystem)
      (handlerRun (accountRun ++ [.begin (orderCall (ascii "O"))])) (.op 1 ()) := by
    rw [← handlerRun_snoc]
    rfl
  rw [hrun] at hn
  rcases client_cases hn with ⟨hnone, -⟩ | ⟨old, hold, hinit, -⟩
  · rw [hopened] at hnone
    cases hnone
  obtain rfl := Option.some_inj.mp (hold.symm.trans hopened)
  -- the order is being created, and had thrown nothing before
  have hcreate : IsCreate slot.init orderEntity createOrderShape orderRequest :=
    hinit ▸ isCreate_orderCall (ascii "O")
  have hnew : ∀ other, (handlerRun (accountRun ++ [.begin (orderCall (ascii "O"))])).slots[1]? =
      some other → other.tx.script ≠ slot.tx.script := by
    intro other hother heq
    obtain rfl := Option.some_inj.mp (hopened.symm.trans hother)
    have hquiet : thrownBy ⟨begin, (orderCall (ascii "O")).script⟩ = none := by decide +kernel
    have hsame : thrownBy ⟨begin, (orderCall (ascii "O")).script⟩ = thrownBy slot.tx := by
      rw [thrownBy, thrownBy, heq]
    rw [hsame, hslot] at hquiet
    cases hquiet
  obtain ⟨relation, hrelation, parent, hparent, -, hmissing⟩ :=
    (h _ (.op 1 ()) [] (by rfl)).2 1 slot orderEntity createOrderShape orderRequest accountEntity hn
      hcreate (script_of_thrownBy hslot) hnew
  obtain rfl := List.mem_singleton.mp hrelation
  have hparent' : accountEntity = parent := Option.some_inj.mp hparent
  subst hparent'
  rw [hinit] at hmissing
  -- but the designated account is there
  have hthere : (designatedRecord
      (handlerRun (accountRun ++ [.begin (orderCall (ascii "O"))])).shared (orderCall (ascii "O"))
      createOrderShape orderRequest ⟨ascii "parent", ascii "account_id", ascii "Account", false⟩
      accountEntity).isSome = true := by decide +kernel
  rw [hmissing] at hthere
  cases hthere

end StateSpec.Generated
