/-
  LIFECYCLES — generated handlers respect the state machine of an entity.

  An update of a status stores the record again under the key the request names, with the key fields
  of the request written over those of the record.  They are the same: the record was stored under
  its own key (`RecordOk`), and a key says what every key field is (`entityKey_inj`).  So all that a
  handler ever changes is the status, along a declared transition, and the time of the update
  (`LifecycleStep`); and from a terminal state there is no transition.

  * `records_step`    — what one call does to the records of an entity;
  * `lifecycle_kept`  — all runs keep the lifecycle.
-/
import StateSpec.Generated.Calls

set_option linter.unusedSectionVars false

namespace StateSpec

namespace Generated

open Cpp Memory Memory.InMemoryTransaction Interleaving

variable {δ : Type} [Decimal δ] [Widening δ]

/-! ## The law -/

/-- The status of a record. -/
def HasStatus (record : VersionedRecord δ) (status : Bytes) : Prop :=
  record.document.find entityStatusFieldName = some (.string status)

/-- **What may happen to a record**: it appears in the initial state, or its status changes along a
    declared transition, and with it nothing else but the time of the update. -/
inductive LifecycleStep (entity : IrEntity) :
    Option (VersionedRecord δ) → Option (VersionedRecord δ) → Prop where
  | same (record : Option (VersionedRecord δ)) : LifecycleStep entity record record
  | created {record : VersionedRecord δ} {initial : Bytes}
      (hinitial : entity.initialState = some initial) (hstatus : HasStatus record initial) :
      LifecycleStep entity none (some record)
  | changed {old new : VersionedRecord δ} {current requested : Bytes}
      (hold : HasStatus old current) (hnew : HasStatus new requested)
      (hallowed : current = requested ∨ ⟨current, requested⟩ ∈ entity.transitions)
      (hfields : ∀ name, name ≠ entityStatusFieldName → name ≠ entityUpdatedAtFieldName →
        new.document.find name = old.document.find name) :
      LifecycleStep entity (some old) (some new)

omit [Decimal δ] [Widening δ] in
theorem HasStatus.unique {record : VersionedRecord δ} {status other : Bytes}
    (h : HasStatus record status) (hother : HasStatus record other) : status = other :=
  Json.string.inj (Option.some_inj.mp (h.symm.trans hother))

/-- A terminal status stays. -/
theorem LifecycleStep.terminal {entity : IrEntity} (haccepted : AcceptedEntity entity)
    {record : VersionedRecord δ} {next : Option (VersionedRecord δ)}
    (h : LifecycleStep entity (some record) next) {status : Bytes}
    (hstatus : HasStatus record status) (hterminal : status ∈ entity.terminalStates) :
    ∃ record', next = some record' ∧ HasStatus record' status := by
  cases h with
  | same => exact ⟨record, rfl, hstatus⟩
  | @changed _ new current requested hold hnew hallowed _ =>
    obtain rfl := hstatus.unique hold
    rcases hallowed with rfl | htransition
    · exact ⟨new, rfl, hnew⟩
    · obtain ⟨state, hstate, rfl, hisTerminal⟩ := haccepted.terminal_declared _ hterminal
      have hcollected := haccepted.terminal_collected state hstate hisTerminal
      exact absurd rfl (haccepted.transition_live _ htransition state hstate hcollected)

/-! ## Documents -/

theorem lookup_foldl_created (value : Bytes → Option (Json δ)) (fields : List IrField)
    (document : List (Bytes × Json δ)) (name : Bytes) :
    (fields.foldl (fun document field =>
      match value field.name with
      | some value => Json.assign field.name value document
      | none => document) document).lookup name =
      (if name ∈ fields.map IrField.name then value name else none).or (document.lookup name) := by
  induction fields generalizing document with
  | nil => rfl
  | cons field rest ih =>
    rw [List.foldl_cons, ih, List.map_cons]
    by_cases hname : name = field.name
    · subst hname
      rw [if_pos List.mem_cons_self]
      cases hvalue : value field.name with
      | none => simp
      | some v =>
        simp only [Json.lookup_assign, if_pos, Option.some_or]
        split <;> rfl
    · have hmem : name ∈ field.name :: rest.map IrField.name ↔ name ∈ rest.map IrField.name :=
        ⟨fun h => (List.mem_cons.mp h).resolve_left hname, List.mem_cons_of_mem _⟩
      simp only [hmem]
      congr 1
      cases value field.name with
      | none => rfl
      | some v =>
        simp only [Json.lookup_assign]
        exact if_neg hname

/-- **The created document** has what it is given in each of the entity's fields. -/
theorem find_createdDocument (entity : IrEntity) (shape : IrShape) (api : IrApi)
    (request : Request δ) (parameters : List (Bytes × Bytes)) (now name : Bytes) :
    (createdDocument entity shape api request parameters now).find name =
      if name ∈ entity.fields.map IrField.name then
        createdField entity shape api request parameters now name
      else none := by
  have hlookup := lookup_foldl_created (createdField entity shape api request parameters now)
    entity.fields [] name
  rw [List.lookup_nil, Option.or_none] at hlookup
  exact hlookup

theorem find_statusDocument (document : Json δ) (requestedStatus now name : Bytes) :
    (statusDocument document requestedStatus now).find name =
      if name = entityUpdatedAtFieldName then some (.string now)
      else if name = entityStatusFieldName then some (.string requestedStatus)
      else document.find name := by
  rw [statusDocument, Json.find, Json.lookup_assign, Json.lookup_assign, Json.find_eq_lookup]

/-- The lookup of a document depends on its key fields only. -/
theorem entityLookupFromDocument_congr (entity : IrEntity) {document other : Json δ}
    (h : ∀ name ∈ entity.keyFields, document.find name = other.find name) :
    entityLookupFromDocument entity document = entityLookupFromDocument entity other := by
  rw [entityLookupFromDocument, entityLookupFromDocument, EntityLookup.mk.injEq]
  refine ⟨rfl, rfl, List.filterMap_congr fun name hname => ?_⟩
  rw [h name hname]

/-- A document is not changed by its own keys. -/
theorem find_createdRecord (entity : IrEntity) (shape : IrShape) (api : IrApi) (request : Request δ)
    (parameters : List (Bytes × Bytes)) (now name : Bytes) :
    (createdRecord entity shape api request parameters now).find name =
      (createdDocument entity shape api request parameters now).find name := by
  rw [createdRecord, find_entityDocumentWithKeys (consistent_fromDocument entity _),
    entityKeyValue_fromDocument]
  split
  · exact Option.or_self
  · rfl

/-! ## Records -/

/-- **A stored record**: it has a declared status, and is stored under its own key. -/
structure RecordOk (entity : IrEntity) (key : Key) (record : VersionedRecord δ) : Prop where
  keyed : entityKey (entityLookupFromDocument entity record.document) = some key
  status : ∃ status ∈ entity.states.map IrState.name, HasStatus record status

/-- All stored records of the system's entities. -/
def RecordsOk (system : IrSystem) (s : State δ) : Prop :=
  ∀ entity ∈ system.entities, ∀ key record, s.recordAt entity.name key = some record →
    RecordOk entity key record

/-- **A created record** is in the initial state, under its own key. -/
theorem recordOk_created {s : State δ} {system : IrSystem} {api : IrApi} {entity : IrEntity}
    (haccepted : AcceptedEntity entity) {shape : IrShape} {context : ApiRequestContext δ}
    {now : Bytes} {request : Request δ} {key : Key}
    (h : CreateReady s system api entity shape context now request key) {record : VersionedRecord δ}
    (hdocument : record.document =
      createdRecord entity shape api request (apiParameters api context) now) :
    RecordOk entity key record ∧
      ∃ initial, entity.initialState = some initial ∧ HasStatus record initial := by
  obtain ⟨initial, hinitial, hdeclared⟩ := haccepted.initial_declared
  have hstatus : HasStatus record initial := by
    have hmem : entityStatusFieldName ∈ entity.fields.map IrField.name :=
      List.mem_map.mpr ⟨_, List.mem_of_find?_eq_some haccepted.status, rfl⟩
    rw [HasStatus, hdocument, find_createdRecord, find_createdDocument, if_pos hmem, createdField,
      if_neg (by decide), if_pos rfl, hinitial]
    rfl
  refine ⟨⟨?_, initial, hdeclared, hstatus⟩, initial, hinitial, hstatus⟩
  have hsame := entityLookupFromDocument_congr entity fun name _ =>
    find_createdRecord entity shape api request (apiParameters api context) now name
  rw [hdocument, hsame]
  exact h.keyed

/-- **A changed record**: its key fields are the old ones. -/
theorem find_changedRecord [LawfulDecimal δ] {s : State δ} {entity : IrEntity}
    {value : Bytes → Json δ} {requestedStatus : Bytes} {key : Key} {record : VersionedRecord δ}
    {currentStatus : Bytes}
    (h : StatusChange s entity (keyValues entity value) requestedStatus key record currentStatus)
    (hok : RecordOk entity key record) (now name : Bytes) :
    (changedRecord entity (keyValues entity value) record requestedStatus now).find name =
      if name ∈ entity.keyFields then record.document.find name
      else (statusDocument record.document requestedStatus now).find name := by
  rw [changedRecord, keyValues,
    find_entityDocumentWithKeys (consistent_entityLookup entity value _)]
  by_cases hkey : name ∈ entity.keyFields
  · have hfields : (entityLookup entity (keyValues entity value)).keyFields =
        (entityLookupFromDocument entity record.document).keyFields := rfl
    obtain ⟨v, hvalue, hold⟩ := entityKey_inj hfields h.keyed hok.keyed name hkey
    rw [keyValues] at hvalue
    rw [entityKeyValue_fromDocument, if_pos hkey] at hold
    rw [hvalue, if_pos hkey, hold, Option.some_or]
  · rw [entityKeyValue_map, if_neg hkey, if_neg hkey, Option.none_or]

theorem transition_of_allowed {entity : IrEntity} {currentStatus requestedStatus : Bytes}
    (h : statusTransitionAllowed entity currentStatus requestedStatus = true) :
    currentStatus = requestedStatus ∨ ⟨currentStatus, requestedStatus⟩ ∈ entity.transitions := by
  rw [statusTransitionAllowed, Bool.or_eq_true, beq_iff_eq, List.any_eq_true] at h
  rcases h with hsame | ⟨⟨source, target⟩, hmem, hends⟩
  · exact Or.inl hsame
  · rw [Bool.and_eq_true, beq_iff_eq, beq_iff_eq] at hends
    obtain ⟨rfl, rfl⟩ := hends
    exact Or.inr hmem

/-- **A change of a status** is a step of the lifecycle, and the record stays in order. -/
theorem recordOk_changed [LawfulDecimal δ] {s : State δ} {entity : IrEntity}
    (haccepted : AcceptedEntity entity) {value : Bytes → Json δ} {requestedStatus now : Bytes}
    {key : Key} {record new : VersionedRecord δ} {currentStatus : Bytes}
    (h : StatusChange s entity (keyValues entity value) requestedStatus key record currentStatus)
    (hok : RecordOk entity key record)
    (hdocument : new.document =
      changedRecord entity (keyValues entity value) record requestedStatus now) :
    RecordOk entity key new ∧ LifecycleStep entity (some record) (some new) := by
  have hfind : ∀ name, new.document.find name = if name ∈ entity.keyFields then
      record.document.find name
      else (statusDocument record.document requestedStatus now).find name := by
    intro name
    rw [hdocument, find_changedRecord h hok]
  have hkeyed : entityKey (entityLookupFromDocument entity new.document) = some key := by
    rw [entityLookupFromDocument_congr entity fun name hname => (hfind name).trans (if_pos hname)]
    exact hok.keyed
  have hfields : ∀ name, name ≠ entityStatusFieldName → name ≠ entityUpdatedAtFieldName →
      new.document.find name = record.document.find name := by
    intro name hstatus hupdated
    rw [hfind name, find_statusDocument, if_neg hupdated, if_neg hstatus, ite_self]
  obtain ⟨status, hdeclared, hcurrent⟩ := hok.status
  obtain rfl := HasStatus.unique h.status hcurrent
  -- a status that is a key field is not changed at all
  by_cases hkey : entityStatusFieldName ∈ entity.keyFields
  · have hsame : HasStatus new currentStatus := by
      rw [HasStatus, hfind, if_pos hkey]
      exact h.status
    exact ⟨⟨hkeyed, currentStatus, hdeclared, hsame⟩,
      .changed h.status hsame (Or.inl rfl) hfields⟩
  · have hnew : HasStatus new requestedStatus := by
      rw [HasStatus, hfind, if_neg hkey, find_statusDocument, if_neg (by decide), if_pos rfl]
    have hallowed := transition_of_allowed h.allowed
    refine ⟨⟨hkeyed, requestedStatus, ?_, hnew⟩, .changed h.status hnew hallowed hfields⟩
    rcases hallowed with rfl | htransition
    · exact hdeclared
    · exact (haccepted.transition_declared _ htransition).2

/-! ## Runs -/

section

variable {system : IrSystem} {s s' : State δ}

/-- Two entities of an accepted system with one name are one. -/
theorem AcceptedSystem.eq_of_name (h : AcceptedSystem system) {entity other : IrEntity}
    (hentity : entity ∈ system.entities) (hother : other ∈ system.entities)
    (hname : entity.name = other.name) : entity = other :=
  List.inj_on_of_nodup_map h.entities_nodup hentity hother hname

/-- **What one call does to the records of an entity**: a step of its lifecycle. -/
theorem records_step [LawfulDecimal δ] (haccepted : AcceptedSystem system)
    (heffect : HandlerEffect system s s') (hok : RecordsOk system s) :
    RecordsOk system s' ∧ ∀ entity ∈ system.entities, ∀ key,
      LifecycleStep entity (s.recordAt entity.name key) (s'.recordAt entity.name key) := by
  -- one place of one entity changes, and there as the handler says
  have hplace : ∀ {other : IrEntity} {key : Key} {document : Json δ}, other ∈ system.entities →
      Stores s s' other.name key document →
      (∀ record, s'.recordAt other.name key = some record → record.document = document →
        RecordOk other key record ∧
          LifecycleStep other (s.recordAt other.name key) (some record)) →
      RecordsOk system s' ∧ ∀ entity ∈ system.entities, ∀ key,
        LifecycleStep entity (s.recordAt entity.name key) (s'.recordAt entity.name key) := by
    intro other key document hother hstores hnew
    obtain ⟨record, hrecord, hdocument⟩ := hstores.recordAt
    obtain ⟨hrecordOk, hstep⟩ := hnew record hrecord hdocument
    have hboth : ∀ entity ∈ system.entities, ∀ k,
        (∀ r, s'.recordAt entity.name k = some r → RecordOk entity k r) ∧
          LifecycleStep entity (s.recordAt entity.name k) (s'.recordAt entity.name k) := by
      intro entity hentity k
      by_cases hat : entity.name = other.name ∧ k = key
      · obtain ⟨hname, rfl⟩ := hat
        obtain rfl := haccepted.eq_of_name hentity hother hname
        rw [hrecord]
        refine ⟨fun r hr => ?_, hstep⟩
        obtain rfl := Option.some_inj.mp hr
        exact hrecordOk
      · rw [hstores.recordAt_ne hat]
        exact ⟨hok entity hentity k, .same _⟩
    exact ⟨fun entity hentity k => (hboth entity hentity k).1,
      fun entity hentity k => (hboth entity hentity k).2⟩
  cases heffect with
  | same h =>
    refine ⟨fun entity hentity key record hrecord => ?_, fun entity _ key => ?_⟩
    · rw [h.records] at hrecord
      exact hok entity hentity key record hrecord
    · rw [h.records]
      exact .same _
  | created hentity hready hstores =>
    refine hplace hentity hstores fun record _ hdocument => ?_
    obtain ⟨hrecordOk, initial, hinitial, hstatus⟩ :=
      recordOk_created (haccepted.accepted _ hentity) hready hdocument
    rw [hready.free]
    exact ⟨hrecordOk, .created hinitial hstatus⟩
  | changed hentity hchange hstores =>
    refine hplace hentity hstores fun record _ hdocument => ?_
    rw [hchange.found]
    exact recordOk_changed (haccepted.accepted _ hentity) hchange
      (hok _ hentity _ _ hchange.found) hdocument

/-- The records of every run are in order. -/
theorem recordsOk_run [LawfulDecimal δ] (haccepted : AcceptedSystem system)
    (es : List (HandlerEvent system δ)) : RecordsOk system (handlerRun es).shared := by
  induction es using List.reverseRecOn with
  | nil =>
    intro entity _ key record hrecord
    simp [handlerRun, World.init, InMemoryState.recordAt, InMemoryState.empty,
      OrderedMap.find₂] at hrecord
  | append_singleton es e ih => exact (records_step haccepted (effect_snoc es e) ih).1

/-- A terminal status stays to the end of the run. -/
theorem terminal_run [LawfulDecimal δ] (haccepted : AcceptedSystem system)
    (es es' : List (HandlerEvent system δ)) {entity : IrEntity} (hentity : entity ∈ system.entities)
    {key : Key} {record : VersionedRecord δ}
    (hrecord : (handlerRun es).shared.recordAt entity.name key = some record) {status : Bytes}
    (hstatus : HasStatus record status) (hterminal : status ∈ entity.terminalStates) :
    ∃ record', (handlerRun (es ++ es')).shared.recordAt entity.name key = some record' ∧
      HasStatus record' status := by
  induction es' using List.reverseRecOn with
  | nil => exact ⟨record, by rwa [List.append_nil], hstatus⟩
  | append_singleton es' e ih =>
    obtain ⟨mid, hmid, hkept⟩ := ih
    have hstep := (records_step haccepted (effect_snoc (es ++ es') e)
      (recordsOk_run haccepted (es ++ es'))).2 entity hentity key
    rw [hmid] at hstep
    rw [← List.append_assoc]
    exact hstep.terminal (haccepted.accepted entity hentity) hkept hterminal

/-- **Generated handlers respect the declared lifecycle**: in every interleaving of their calls, the
    status of a stored record is a declared state, every event is a step of the lifecycle for every
    record, and a terminal status is never left. -/
theorem lifecycle_kept [LawfulDecimal δ] (haccepted : AcceptedSystem system)
    (es : List (HandlerEvent system δ)) {entity : IrEntity} (hentity : entity ∈ system.entities)
    (key : Key) :
    (∀ record, (handlerRun es).shared.recordAt entity.name key = some record →
      ∃ status ∈ entity.states.map IrState.name, HasStatus record status) ∧
    (∀ e, LifecycleStep entity ((handlerRun es).shared.recordAt entity.name key)
      ((handlerRun (es ++ [e])).shared.recordAt entity.name key)) ∧
    (∀ record status, (handlerRun es).shared.recordAt entity.name key = some record →
      HasStatus record status → status ∈ entity.terminalStates → ∀ es', ∃ record',
        (handlerRun (es ++ es')).shared.recordAt entity.name key = some record' ∧
          HasStatus record' status) := by
  have hok := recordsOk_run haccepted es
  refine ⟨fun record hrecord => (hok entity hentity key record hrecord).status, fun e => ?_, ?_⟩
  · exact (records_step haccepted (effect_snoc es e) hok).2 entity hentity key
  · intro record status hrecord hstatus hterminal es'
    exact terminal_run haccepted es es' hentity hrecord hstatus hterminal

end

/-! ## A ticket -/

/-- Tickets are open until they are deleted. -/
def ticketEntity : IrEntity where
  name := ascii "Ticket"
  keyFields := [ascii "ticket_id"]
  fields := [⟨ascii "ticket_id", ascii "string"⟩, ⟨ascii "status", ascii "string"⟩,
    ⟨ascii "created_at", ascii "timestamp"⟩, ⟨ascii "updated_at", ascii "timestamp"⟩]
  states := [{ name := ascii "Open" },
    { name := ascii "Deleted", terminal := true,
      garbageCollection := some ⟨ascii "P30D", ascii "hard_delete"⟩ }]
  initialState := some (ascii "Open")
  terminalStates := [ascii "Deleted"]
  transitions := [⟨ascii "Open", ascii "Deleted"⟩]

def ticketApi (name method operation : Bytes) : IrApi where
  name := name
  method := some method
  path := some (ascii "/v1/tickets/\x7bticket_id\x7d")
  input := some (name ++ ascii "Request")
  entity := some (ascii "Ticket")
  repositoryOperation := some operation

def createTicketApi : IrApi := ticketApi (ascii "CreateTicket") (ascii "POST") (ascii "create")
def deleteTicketApi : IrApi := ticketApi (ascii "DeleteTicket") (ascii "DELETE") (ascii "delete")

def ticketSystem : IrSystem where
  shapes := [⟨ascii "CreateTicketRequest", []⟩]
  entities := [ticketEntity]
  apis := [createTicketApi, deleteTicketApi]

theorem ticketSystem_accepted : AcceptedSystem ticketSystem := by decide

def ticketContext (name : Bytes) : ApiRequestContext Int where
  apiName := name
  path := some (ascii "/v1/tickets/7")
  body := .object []

/-- A ticket is created, and then deleted. -/
def ticketRun : List (HandlerEvent ticketSystem Int) :=
  [.begin (.ofHandled createTicketApi List.mem_cons_self (ticketContext (ascii "CreateTicket"))
      (ascii "2024-05-01T00:00:00Z") (by decide)),
   .op 0 (), .op 0 (), .op 0 (), .commit 0 (),
   .begin (.ofHandled deleteTicketApi (by simp [ticketSystem])
      (ticketContext (ascii "DeleteTicket"))
      (ascii "2024-05-02T00:00:00Z") (by decide)),
   .op 1 (), .op 1 (), .op 1 (), .op 1 (), .commit 1 ()]

/-- The deleted ticket stays deleted, whatever is called afterwards. -/
theorem lifecycle_kept_ticket : ∃ record,
    (handlerRun ticketRun).shared.recordAt ticketEntity.name (ascii "ticket_id=\"7\"\n") =
      some record ∧
    HasStatus record (ascii "Deleted") ∧
    ∀ es' : List (HandlerEvent ticketSystem Int), ∃ record',
      (handlerRun (ticketRun ++ es')).shared.recordAt ticketEntity.name
        (ascii "ticket_id=\"7\"\n") = some record' ∧ HasStatus record' (ascii "Deleted") := by
  have hstored : ((handlerRun ticketRun).shared.recordAt ticketEntity.name
      (ascii "ticket_id=\"7\"\n")).map (fun record =>
        record.document.find entityStatusFieldName) = some (some (.string (ascii "Deleted"))) := by
    decide +kernel
  obtain ⟨record, hrecord, hstatus⟩ := Option.map_eq_some_iff.mp hstored
  obtain ⟨-, -, hterminal⟩ := lifecycle_kept ticketSystem_accepted ticketRun
    List.mem_cons_self (ascii "ticket_id=\"7\"\n")
  exact ⟨record, hrecord, hstatus,
    hterminal record (ascii "Deleted") hrecord hstatus List.mem_cons_self⟩

end Generated

end StateSpec
