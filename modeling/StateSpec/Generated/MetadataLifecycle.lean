/-
  THE LIFECYCLE OF OPERATOR METADATA — Active and Disabled, and Deleted in the end.

  The validator insists on the lifecycle (`validate_external_system_metadata_entity_lifecycle`), so
  that the operations of the operator map to legal changes.  But no operation looks at the status it
  replaces: `upsert_metadataTx` stores whatever status its document has, and `disable_metadataTx` takes
  a deleted record back.

  * `Legal`                 — what an operation would have to check;
  * `metadataStep_iff`      — an operation that commits takes a step of the lifecycle exactly when it is
                              legal;
  * `lifecycle_followed_iff` — and so for whole runs.
-/
import StateSpec.Generated.MetadataRepository
import StateSpec.Generated.Lifecycle

set_option linter.unusedSectionVars false

namespace StateSpec

namespace Generated

open Cpp Memory Memory.InMemoryTransaction Interleaving

variable {δ : Type} [Decimal δ]

/-! ## The lifecycle the validator insists on -/

def metadataStatusActive : Bytes := ascii "Active"
def metadataStatusDisabled : Bytes := ascii "Disabled"
def metadataStatusDeleted : Bytes := ascii "Deleted"

/-- `has_state`. -/
def hasState (entity : IrEntity) (name : Bytes) : Bool :=
  entity.states.any fun state => state.name == name

/-- `find_state`. -/
def findState (entity : IrEntity) (name : Bytes) : Option IrState :=
  entity.states.find? fun state => state.name == name

/-- `has_transition`. -/
def hasTransition (entity : IrEntity) (source target : Bytes) : Bool :=
  entity.transitions.any fun transition =>
    transition.source == source && transition.target == target

/-- The required transitions. -/
def metadataTransitions : List IrTransition :=
  [⟨metadataStatusActive, metadataStatusDisabled⟩, ⟨metadataStatusDisabled, metadataStatusActive⟩,
    ⟨metadataStatusActive, metadataStatusDeleted⟩, ⟨metadataStatusDisabled, metadataStatusDeleted⟩]

def metadataStates : List Bytes :=
  [metadataStatusActive, metadataStatusDisabled, metadataStatusDeleted]

/-- What `validate_external_system_metadata_entity_lifecycle` asks of the state machine. -/
def metadataLifecycleDeclared (entity : IrEntity) : Bool :=
  metadataStates.all (hasState entity) &&
  ((findState entity metadataStatusDeleted).any fun deleted =>
    deleted.terminal && deleted.garbageCollection.isSome) &&
  entity.terminalStates.contains metadataStatusDeleted &&
  metadataTransitions.all fun transition => hasTransition entity transition.source transition.target

/-- **A metadata entity with the required states and transitions**, and no others. -/
structure MetadataEntity (entity : IrEntity) : Prop where
  declared : metadataLifecycleDeclared entity = true
  states : ∀ state ∈ entity.states, state.name ∈ metadataStates
  transitions : ∀ transition ∈ entity.transitions, transition ∈ metadataTransitions

theorem MetadataEntity.mem_states {entity : IrEntity} (h : MetadataEntity entity) {status : Bytes} :
    status ∈ entity.states.map IrState.name ↔ status ∈ metadataStates := by
  have hdeclared := h.declared
  simp only [metadataLifecycleDeclared, Bool.and_eq_true] at hdeclared
  constructor
  · intro hmem
    obtain ⟨state, hstate, rfl⟩ := List.mem_map.mp hmem
    exact h.states state hstate
  · intro hmem
    have hhas := List.all_eq_true.mp hdeclared.1.1.1 status hmem
    obtain ⟨state, hstate, hname⟩ := List.any_eq_true.mp hhas
    exact List.mem_map.mpr ⟨state, hstate, by simpa using hname⟩

theorem MetadataEntity.mem_transitions {entity : IrEntity} (h : MetadataEntity entity)
    {transition : IrTransition} :
    transition ∈ entity.transitions ↔ transition ∈ metadataTransitions := by
  have hdeclared := h.declared
  simp only [metadataLifecycleDeclared, Bool.and_eq_true] at hdeclared
  refine ⟨h.transitions transition, fun hmem => ?_⟩
  have hhas := List.all_eq_true.mp hdeclared.2 transition hmem
  obtain ⟨other, hother, hsame⟩ := List.any_eq_true.mp hhas
  simp only [Bool.and_eq_true, beq_iff_eq] at hsame
  obtain ⟨source, target⟩ := transition
  obtain ⟨rfl, rfl⟩ := hsame
  exact hother

/-! ## Calls of the operator -/

/-- A call of the repository, with the default statuses. -/
inductive MetadataCall (δ : Type) where
  | upsert (request : ExternalSystemOperatorMetadataUpsertRequest δ)
  | disable (lookup : ExternalSystemMetadataLookup δ) (expectedVersion : Option Version)
  | delete (lookup : ExternalSystemMetadataLookup δ) (expectedVersion : Option Version)

namespace MetadataCall

def lookup : MetadataCall δ → ExternalSystemMetadataLookup δ
  | .upsert request => request.lookup
  | .disable lookup _ | .delete lookup _ => lookup

def script : MetadataCall δ → Script δ (Option (VersionedRecord δ))
  | .upsert request => upsertMetadataTx request
  | .disable lookup expectedVersion => disableMetadataTx { lookup, expectedVersion }
  | .delete lookup expectedVersion => deleteMetadataTx { lookup, expectedVersion }

/-- What the call stores in place of a record. -/
def document : MetadataCall δ → Option (VersionedRecord δ) → Option (Json δ)
  | .upsert request, _ =>
    some (externalSystemMetadataDocumentWithKeys request.document request.lookup)
  | .disable lookup _, existing =>
    existing.map fun record => documentWithStatus record.document lookup metadataStatusDisabled
  | .delete lookup _, existing =>
    existing.map fun record => documentWithStatus record.document lookup metadataStatusDeleted

theorem point_script (call : MetadataCall δ) : call.script.Point := by
  cases call with
  | upsert request => exact point_upsertMetadataTx request
  | disable lookup expectedVersion => exact point_updateStatusTx lookup expectedVersion _
  | delete lookup expectedVersion => exact point_updateStatusTx lookup expectedVersion _

variable {s s' : State δ} {a : Option (VersionedRecord δ)}

theorem transact_updateStatusTx {lookup : ExternalSystemMetadataLookup δ}
    {expectedVersion : Option Version} {status : Bytes}
    (h : (updateStatusTx lookup expectedVersion status).transact s = .ok (a, s')) :
    ((∀ key, externalSystemMetadataKey lookup = some key →
      s.recordAt lookup.metadataEntity key = none) ∧ SameRecords s s') ∨
    ∃ key record, externalSystemMetadataKey lookup = some key ∧
      s.recordAt lookup.metadataEntity key = some record ∧
      Stores s s' lookup.metadataEntity key (documentWithStatus record.document lookup status) := by
  obtain ⟨t, heval, r, hcommit, rfl⟩ := of_transact h
  by_cases hnone : ∀ key, externalSystemMetadataKey lookup = some key →
      s.recordAt lookup.metadataEntity key = none
  · obtain ⟨places, hread⟩ := readOnly_updateStatusTx (readOnly_begin s) hnone heval
    exact Or.inl ⟨hnone, sameRecords_commit ⟨hread.puts, hread.erases⟩ hcommit⟩
  · push Not at hnone
    obtain ⟨key, hkey, hsome⟩ := hnone
    obtain ⟨record, hrecord⟩ := Option.ne_none_iff_exists'.mp hsome
    obtain ⟨places, hwritten⟩ := written_updateStatusTx (readOnly_begin s) hkey hrecord heval
    exact Or.inr ⟨key, record, hkey, hrecord, stores_of_commit hwritten hcommit⟩

/-- **What a call does that commits**: it stores its document under the key of its lookup, unless there
    is no key, or nothing there to update. -/
theorem transact_script {call : MetadataCall δ} (h : call.script.transact s = .ok (a, s')) :
    ((∀ key, externalSystemMetadataKey call.lookup = some key →
      call.document (s.recordAt call.lookup.metadataEntity key) = none) ∧ SameRecords s s') ∨
    ∃ key document, externalSystemMetadataKey call.lookup = some key ∧
      call.document (s.recordAt call.lookup.metadataEntity key) = some document ∧
      Stores s s' call.lookup.metadataEntity key document := by
  have hupdate : ∀ {lookup : ExternalSystemMetadataLookup δ} {expectedVersion : Option Version}
      {status : Bytes},
      (updateStatusTx lookup expectedVersion status).transact s = .ok (a, s') →
      ((∀ key, externalSystemMetadataKey lookup = some key →
        (s.recordAt lookup.metadataEntity key).map (fun record =>
          documentWithStatus record.document lookup status) = none) ∧ SameRecords s s') ∨
      ∃ key document, externalSystemMetadataKey lookup = some key ∧
        (s.recordAt lookup.metadataEntity key).map (fun record =>
          documentWithStatus record.document lookup status) = some document ∧
        Stores s s' lookup.metadataEntity key document := by
    intro lookup expectedVersion status h
    rcases transact_updateStatusTx h with ⟨hnone, hsame⟩ | ⟨key, record, hkey, hrecord, hstores⟩
    · exact Or.inl ⟨fun key hkey => by rw [hnone key hkey]; rfl, hsame⟩
    · exact Or.inr ⟨key, _, hkey, by rw [hrecord]; rfl, hstores⟩
  cases call with
  | upsert request =>
    obtain ⟨t, heval, r, hcommit, rfl⟩ := of_transact h
    change (upsertMetadataTx request).eval s begin = _ at heval
    cases hkey : externalSystemMetadataKey request.lookup with
    | none =>
      simp only [upsertMetadataTx, hkey] at heval
      obtain ⟨-, rfl⟩ := Prod.mk.inj heval
      refine Or.inl ⟨fun key hsome => ?_, sameRecords_commit nothingStaged_begin hcommit⟩
      cases hkey.symm.trans hsome
    | some key =>
      obtain ⟨places, hwritten⟩ := written_upsertMetadataTx (readOnly_begin s) hkey heval
      exact Or.inr ⟨key, _, hkey, rfl, stores_of_commit hwritten hcommit⟩
  | disable lookup expectedVersion => exact hupdate h
  | delete lookup expectedVersion => exact hupdate h

end MetadataCall

/-! ## The law -/

omit [Decimal δ] in
theorem find_documentWithStatus (document : Json δ) (lookup : ExternalSystemMetadataLookup δ)
    (status : Bytes) :
    (documentWithStatus document lookup status).find entityStatusFieldName =
      some (.string status) := by
  rw [documentWithStatus, Json.find, entityStatusFieldName, Json.lookup_assign, if_pos rfl]

/-- The record has one of the declared states. -/
def StatusDeclared (entity : IrEntity) (record : VersionedRecord δ) : Prop :=
  ∃ status ∈ entity.states.map IrState.name, HasStatus record status

/-- **What may happen to a record of metadata**: it appears in a declared state, or changes along a
    declared transition, if it is not deleted. -/
inductive MetadataStep (entity : IrEntity) :
    Option (VersionedRecord δ) → Option (VersionedRecord δ) → Prop where
  | same (record : Option (VersionedRecord δ)) : MetadataStep entity record record
  | created {record : VersionedRecord δ} (hdeclared : StatusDeclared entity record) :
      MetadataStep entity none (some record)
  | changed {old new : VersionedRecord δ} {current requested : Bytes}
      (hold : HasStatus old current)
      (hnew : HasStatus new requested)
      (hdeclared : requested ∈ entity.states.map IrState.name)
      (hlive : current ≠ metadataStatusDeleted)
      (hallowed : current = requested ∨ ⟨current, requested⟩ ∈ entity.transitions) :
      MetadataStep entity (some old) (some new)

variable {entity : IrEntity} {key : Key}

/-- A step leaves a record in a declared state. -/
theorem MetadataStep.declared {old new : Option (VersionedRecord δ)} (h : MetadataStep entity old new)
    (hold : ∀ record, old = some record → StatusDeclared entity record) :
    ∀ record, new = some record → StatusDeclared entity record := by
  cases h with
  | same => exact hold
  | created hdeclared =>
    intro record heq
    exact Option.some_inj.mp heq ▸ hdeclared
  | changed _ hnew hdeclared _ _ =>
    intro record heq
    exact ⟨_, hdeclared, Option.some_inj.mp heq ▸ hnew⟩

/-- A step leaves a deleted record alone. -/
theorem MetadataStep.deleted {record : VersionedRecord δ} {new : Option (VersionedRecord δ)}
    (h : MetadataStep entity (some record) new)
    (hdeleted : HasStatus record metadataStatusDeleted) :
    new = some record := by
  cases h with
  | same => rfl
  | changed hold _ _ hlive _ => exact absurd (hold.unique hdeleted) hlive

/-! ## Legal calls -/

/-- The call is about the record. -/
def MetadataCall.Names (call : MetadataCall δ) (entity : IrEntity) (key : Key) : Prop :=
  call.lookup.metadataEntity = entity.name ∧ externalSystemMetadataKey call.lookup = some key

/-- **A legal call**: nothing is done to a deleted record, and the document of an upsert has a declared
    status, to which there is a transition. -/
def Legal (entity : IrEntity) (key : Key) (s : State δ) (call : MetadataCall δ) : Prop :=
  call.Names entity key →
  match call with
  | .upsert request =>
    ∃ requested ∈ entity.states.map IrState.name,
      (externalSystemMetadataDocumentWithKeys request.document request.lookup).find
        entityStatusFieldName = some (.string requested) ∧
      ∀ record, s.recordAt entity.name key = some record → ∃ current,
        HasStatus record current ∧ current ≠ metadataStatusDeleted ∧
        (current = requested ∨ ⟨current, requested⟩ ∈ entity.transitions)
  | .disable _ _ | .delete _ _ =>
    ∀ record, s.recordAt entity.name key = some record →
      ¬ HasStatus record metadataStatusDeleted

/-- A record that has been stored again is not the one it was. -/
theorem Stores.recordAt_ne_self {s s' : State δ} {c : CollectionName} {k : Key} {document : Json δ}
    (h : Stores s s' c k document) {record : VersionedRecord δ}
    (hrecord : s.recordAt c k = some record) : s'.recordAt c k ≠ some record := by
  intro hsame
  have hle := s.recordVersion_le c k
  rw [InMemoryState.recordVersion, hrecord] at hle
  rw [h.records, if_pos ⟨rfl, rfl⟩, h.counters, if_pos rfl] at hsame
  have hversion : s.counter (recordVersionKey c k) + 1 = record.version :=
    congrArg VersionedRecord.version (Option.some_inj.mp hsame)
  have hbehind : record.version ≤ s.counter (recordVersionKey c k) := hle
  rw [← hversion] at hbehind
  exact Nat.not_succ_le_self _ hbehind

/-- A call about another record leaves this one. -/
theorem not_names_of_ne {s s' : State δ} {call : MetadataCall δ} {k : Key} {document : Json δ}
    (h : ¬ call.Names entity key) (hkey : externalSystemMetadataKey call.lookup = some k)
    (hstores : Stores s s' call.lookup.metadataEntity k document) :
    s'.recordAt entity.name key = s.recordAt entity.name key := by
  refine hstores.recordAt_ne fun hat => h ⟨hat.1.symm, ?_⟩
  rw [hkey, hat.2]

/-- A record that is stored takes a step when its status is declared, and reached from the old one. -/
theorem metadataStep_some_iff {old : Option (VersionedRecord δ)} {new : VersionedRecord δ}
    (hne : old ≠ some new) :
    MetadataStep entity old (some new) ↔
      ∃ requested ∈ entity.states.map IrState.name, HasStatus new requested ∧
        ∀ record, old = some record → ∃ current, HasStatus record current ∧
          current ≠ metadataStatusDeleted ∧
          (current = requested ∨ ⟨current, requested⟩ ∈ entity.transitions) := by
  constructor
  · intro h
    cases h with
    | same => exact absurd rfl hne
    | created hdeclared =>
      obtain ⟨requested, hmem, hstatus⟩ := hdeclared
      exact ⟨requested, hmem, hstatus, nofun⟩
    | @changed old new current requested hold hnew hdeclared hlive hallowed =>
      refine ⟨requested, hdeclared, hnew, ?_⟩
      rintro record heq
      obtain rfl := Option.some_inj.mp heq
      exact ⟨current, hold, hlive, hallowed⟩
  · rintro ⟨requested, hmem, hstatus, hold⟩
    cases old with
    | none => exact .created ⟨requested, hmem, hstatus⟩
    | some record =>
      obtain ⟨current, hcurrent, hlive, hallowed⟩ := hold record rfl
      exact .changed hcurrent hstatus hmem hlive hallowed

/-- From a live status there is a transition to Disabled and to Deleted. -/
theorem metadataTransitions_live : ∀ current ∈ metadataStates, current ≠ metadataStatusDeleted →
    ∀ requested ∈ [metadataStatusDisabled, metadataStatusDeleted],
      current = requested ∨ ⟨current, requested⟩ ∈ metadataTransitions := by
  decide +kernel

/-- A record whose status is set to Disabled or Deleted takes a step when it is not deleted. -/
theorem metadataStep_update_iff (hentity : MetadataEntity entity) {record new : VersionedRecord δ}
    {status : Bytes} (hstatus : status ∈ [metadataStatusDisabled, metadataStatusDeleted])
    (hne : some record ≠ some new) (hdeclared : StatusDeclared entity record)
    (hnew : HasStatus new status) :
    MetadataStep entity (some record) (some new) ↔ ¬ HasStatus record metadataStatusDeleted := by
  obtain ⟨current, hmem, hcurrent⟩ := hdeclared
  rw [metadataStep_some_iff hne]
  constructor
  · rintro ⟨requested, -, -, hold⟩ hdeleted
    obtain ⟨other, hother, hlive, -⟩ := hold record rfl
    exact hlive (hother.unique hdeleted)
  · intro hlive
    have hother : current ≠ metadataStatusDeleted := fun heq => hlive (heq ▸ hcurrent)
    have hallowed := metadataTransitions_live current (hentity.mem_states.mp hmem) hother
      status hstatus
    refine ⟨status, hentity.mem_states.mpr (List.mem_cons_of_mem _ hstatus), hnew, ?_⟩
    rintro found heq
    obtain rfl := Option.some_inj.mp heq
    exact ⟨current, hcurrent, hother, hallowed.imp_right hentity.mem_transitions.mpr⟩

/-- **A call that commits takes a step of the lifecycle exactly when it is legal.** -/
theorem metadataStep_iff (hentity : MetadataEntity entity) {s s' : State δ} {call : MetadataCall δ}
    {a : Option (VersionedRecord δ)} (h : call.script.transact s = .ok (a, s'))
    (hdeclared : ∀ record, s.recordAt entity.name key = some record →
      StatusDeclared entity record) :
    MetadataStep entity (s.recordAt entity.name key) (s'.recordAt entity.name key) ↔
      Legal entity key s call := by
  by_cases hnames : call.Names entity key
  swap
  · refine ⟨fun _ hnamed => absurd hnamed hnames, fun _ => ?_⟩
    rcases MetadataCall.transact_script h with ⟨-, hsame⟩ | ⟨k, document, hkey, -, hstores⟩
    · rw [hsame.records]
      exact .same _
    · rw [not_names_of_ne hnames hkey hstores]
      exact .same _
  obtain ⟨hname, hkey⟩ := hnames
  rcases MetadataCall.transact_script h with ⟨hnone, hsame⟩ | ⟨k, document, hkey', hdocument, hstores⟩
  · -- there is nothing to update
    have hdocument := hnone key hkey
    rw [hname] at hdocument
    rw [hsame.records]
    refine ⟨fun _ _ => ?_, fun _ => .same _⟩
    cases call with
    | upsert request => cases hdocument
    | disable lookup expectedVersion =>
      intro record hrecord
      rw [hrecord] at hdocument
      cases hdocument
    | delete lookup expectedVersion =>
      intro record hrecord
      rw [hrecord] at hdocument
      cases hdocument
  · obtain rfl := Option.some_inj.mp (hkey.symm.trans hkey')
    rw [hname] at hdocument hstores
    obtain ⟨new, hnew, rfl⟩ := hstores.recordAt
    have hne : s.recordAt entity.name key ≠ some new :=
      fun hsame => hstores.recordAt_ne_self hsame hnew
    rw [hnew]
    have hupdate : ∀ {lookup : ExternalSystemMetadataLookup δ} {status : Bytes},
        status ∈ [metadataStatusDisabled, metadataStatusDeleted] →
        (s.recordAt entity.name key).map (fun record =>
          documentWithStatus record.document lookup status) = some new.document →
        (MetadataStep entity (s.recordAt entity.name key) (some new) ↔
          ∀ record, s.recordAt entity.name key = some record →
            ¬ HasStatus record metadataStatusDeleted) := by
      intro lookup status hstatus hmap
      obtain ⟨record, hrecord, hdoc⟩ := Option.map_eq_some_iff.mp hmap
      have hset : HasStatus new status := by
        rw [HasStatus, ← hdoc]
        exact find_documentWithStatus _ _ _
      rw [hrecord, metadataStep_update_iff hentity hstatus (hrecord ▸ hne)
        (hdeclared record hrecord) hset]
      refine ⟨fun hlive found heq => ?_, fun hlive => hlive record rfl⟩
      obtain rfl := Option.some_inj.mp heq
      exact hlive
    cases call with
    | upsert request =>
      have hdoc := Option.some_inj.mp hdocument
      rw [metadataStep_some_iff hne]
      simp only [Legal, HasStatus, hdoc]
      exact ⟨fun hstep _ => hstep, fun hlegal => hlegal ⟨hname, hkey⟩⟩
    | disable lookup expectedVersion =>
      rw [hupdate (by decide +kernel) hdocument]
      exact ⟨fun hlive _ => hlive, fun hlegal => hlegal ⟨hname, hkey⟩⟩
    | delete lookup expectedVersion =>
      rw [hupdate (by decide +kernel) hdocument]
      exact ⟨fun hlive _ => hlive, fun hlegal => hlegal ⟨hname, hkey⟩⟩

/-! ## Runs -/

abbrev MetadataEvent (δ : Type) [Decimal δ] :=
  ClientEvent (MetadataCall δ) Unit (List CollectionDescriptor)
abbrev MetadataWorld (δ : Type) [Decimal δ] :=
  ClientWorld δ (MetadataCall δ) (Option (VersionedRecord δ)) Unit

/-- The backend with calls of the operator. -/
abbrev metadataStore : Store (MetadataCall δ) (State δ) (Client δ (Option (VersionedRecord δ)))
    Unit Unit Unit (Option Error) (List CollectionDescriptor) :=
  clients Unit MetadataCall.script Cpp.register

def metadataRun (s₀ : State δ) (es : List (MetadataEvent δ)) : MetadataWorld δ :=
  run metadataStore (World.init s₀) es

/-- The call that commits is legal. -/
def LegalEvent (entity : IrEntity) (key : Key) (w : MetadataWorld δ) : MetadataEvent δ → Prop
  | .commit n () => ∀ slot r, w.slots[n]? = some slot →
      metadataStore.commit () w.shared slot.tx = .ok r → Legal entity key w.shared slot.init
  | _ => True

section

variable {s₀ : State δ} {es : List (MetadataEvent δ)}

theorem metadataRun_snoc (s₀ : State δ) (es : List (MetadataEvent δ)) (e : MetadataEvent δ) :
    metadataRun s₀ (es ++ [e]) = step metadataStore (metadataRun s₀ es) e := by
  rw [metadataRun, run_append]
  rfl

/-- **One event of a run** takes a step of the lifecycle exactly when it is legal. -/
theorem event_iff (hentity : MetadataEntity entity) (e : MetadataEvent δ)
    (hdeclared : ∀ record, (metadataRun s₀ es).shared.recordAt entity.name key = some record →
      StatusDeclared entity record) :
    MetadataStep entity ((metadataRun s₀ es).shared.recordAt entity.name key)
      ((metadataRun s₀ (es ++ [e])).shared.recordAt entity.name key) ↔
      LegalEvent entity key (metadataRun s₀ es) e := by
  rw [metadataRun_snoc]
  have hkept : ∀ {s' : State δ} {legal : Prop}, SameRecords (metadataRun s₀ es).shared s' → legal →
      (MetadataStep entity ((metadataRun s₀ es).shared.recordAt entity.name key)
        (s'.recordAt entity.name key) ↔ legal) := by
    intro s' legal hsame hlegal
    rw [hsame.records]
    exact ⟨fun _ => hlegal, fun _ => .same _⟩
  cases e with
  | begin call => exact hkept (SameRecords.refl _) trivial
  | op n o =>
    refine hkept ?_ trivial
    rw [step]
    split <;> exact SameRecords.refl _
  | commit n g =>
    cases hn : (metadataRun s₀ es).slots[n]? with
    | none =>
      refine hkept ?_ fun slot r hsome => absurd (hsome.symm.trans hn) (Option.some_ne_none _)
      simp only [step, hn]
      exact SameRecords.refl _
    | some slot =>
      cases hc : metadataStore.commit () (metadataRun s₀ es).shared slot.tx with
      | error err =>
        refine hkept ?_ fun slot' r hsome hok => ?_
        · simp only [step, hn, hc]
          exact SameRecords.refl _
        · obtain rfl := Option.some_inj.mp (hn.symm.trans hsome)
          cases hc.symm.trans hok
      | ok r =>
        obtain ⟨a, -, htransact⟩ := transact_of_commit later_register (w := metadataRun s₀ es)
          rfl hn slot.init.point_script hc
        have hstep : (step metadataStore (metadataRun s₀ es) (.commit n g)).shared = r.1 := by
          simp only [step, hn, hc, World.committed]
        rw [hstep, metadataStep_iff hentity htransact hdeclared]
        refine ⟨fun hlegal slot' r' hsome _ => ?_, fun hlegal => hlegal slot r hn hc⟩
        obtain rfl := Option.some_inj.mp (hn.symm.trans hsome)
        exact hlegal
  | abort n =>
    refine hkept ?_ trivial
    rw [step]
    split <;> exact SameRecords.refl _
  | admin descriptors => exact hkept (sameRecords_register _ descriptors) trivial

/-- **The run follows the lifecycle**: the status is always a declared state, every event is a step of
    the lifecycle, and a deleted record stays the record it is. -/
structure LifecycleFollowed (entity : IrEntity) (key : Key) (s₀ : State δ)
    (es : List (MetadataEvent δ)) : Prop where
  declared : ∀ before after, es = before ++ after → ∀ record,
    (metadataRun s₀ before).shared.recordAt entity.name key = some record →
      StatusDeclared entity record
  steps : ∀ before e after, es = before ++ e :: after →
    MetadataStep entity ((metadataRun s₀ before).shared.recordAt entity.name key)
      ((metadataRun s₀ (before ++ [e])).shared.recordAt entity.name key)
  deleted : ∀ before middle after record, es = before ++ (middle ++ after) →
    (metadataRun s₀ before).shared.recordAt entity.name key = some record →
    HasStatus record metadataStatusDeleted →
      (metadataRun s₀ (before ++ middle)).shared.recordAt entity.name key = some record

/-- A run of legal calls keeps a declared status. -/
theorem declared_of_legal (hentity : MetadataEntity entity)
    (hs₀ : ∀ record, s₀.recordAt entity.name key = some record → StatusDeclared entity record)
    (hes : RunMeets metadataStore (LegalEvent entity key) (World.init s₀) es) :
    ∀ record, (metadataRun s₀ es).shared.recordAt entity.name key = some record →
      StatusDeclared entity record := by
  induction es using List.reverseRecOn with
  | nil => exact hs₀
  | append_singleton es e ih =>
    obtain ⟨hbefore, hlegal, -⟩ := (runMeets_append _).mp hes
    exact ((event_iff hentity e (ih hbefore)).mpr hlegal).declared (ih hbefore)

/-- A deleted record stays, as long as every event is a step of the lifecycle. -/
theorem deleted_of_steps {before : List (MetadataEvent δ)} {record : VersionedRecord δ}
    (hrecord : (metadataRun s₀ before).shared.recordAt entity.name key = some record)
    (hdeleted : HasStatus record metadataStatusDeleted) {middle : List (MetadataEvent δ)}
    (hsteps : ∀ earlier e later, middle = earlier ++ e :: later →
      MetadataStep entity ((metadataRun s₀ (before ++ earlier)).shared.recordAt entity.name key)
        ((metadataRun s₀ (before ++ earlier ++ [e])).shared.recordAt entity.name key)) :
    (metadataRun s₀ (before ++ middle)).shared.recordAt entity.name key = some record := by
  induction middle using List.reverseRecOn with
  | nil => rwa [List.append_nil]
  | append_singleton middle e ih =>
    have hmid := ih fun earlier e' later heq =>
      hsteps earlier e' (later ++ [e]) (by rw [heq, List.append_assoc, List.cons_append])
    have hstep := hsteps middle e [] rfl
    rw [hmid] at hstep
    rw [← List.append_assoc]
    exact hstep.deleted hdeleted

/-- **Operator metadata follows its lifecycle exactly when every call that commits is legal.** -/
theorem lifecycle_followed_iff (hentity : MetadataEntity entity)
    (hs₀ : ∀ record, s₀.recordAt entity.name key = some record → StatusDeclared entity record) :
    LifecycleFollowed entity key s₀ es ↔
      RunMeets metadataStore (LegalEvent entity key) (World.init s₀) es := by
  constructor
  · intro h
    refine (runMeets_iff _).mpr fun before e after heq => ?_
    exact (event_iff hentity e (h.declared before (e :: after) heq)).mp (h.steps before e after heq)
  · intro hes
    have hlegal := (runMeets_iff _).mp hes
    have hdeclared : ∀ before after, es = before ++ after → ∀ record,
        (metadataRun s₀ before).shared.recordAt entity.name key = some record →
          StatusDeclared entity record := by
      rintro before after rfl
      exact declared_of_legal hentity hs₀ ((runMeets_append _).mp hes).1
    have hsteps : ∀ before e after, es = before ++ e :: after →
        MetadataStep entity ((metadataRun s₀ before).shared.recordAt entity.name key)
          ((metadataRun s₀ (before ++ [e])).shared.recordAt entity.name key) := by
      intro before e after heq
      exact (event_iff hentity e (hdeclared before (e :: after) heq)).mpr (hlegal before e after heq)
    refine ⟨hdeclared, hsteps, ?_⟩
    rintro before middle after record heq hrecord hdeleted
    refine deleted_of_steps hrecord hdeleted fun earlier e later hmiddle => ?_
    refine hsteps (before ++ earlier) e (later ++ after) ?_
    rw [heq, hmiddle]
    simp only [List.append_assoc, List.cons_append]

end

/-! ## A deleted profile -/

def profileEntity : IrEntity where
  name := ascii "Profile"
  keyFields := [ascii "profile"]
  fields := [⟨ascii "profile", ascii "string"⟩, ⟨ascii "status", ascii "string"⟩,
    ⟨ascii "created_at", ascii "timestamp"⟩, ⟨ascii "updated_at", ascii "timestamp"⟩]
  indexes := [⟨ascii "by_profile", [ascii "profile"], true⟩]
  states := [{ name := metadataStatusActive }, { name := metadataStatusDisabled },
    { name := metadataStatusDeleted, terminal := true,
      garbageCollection := some ⟨ascii "P30D", ascii "hard_delete"⟩ }]
  initialState := some metadataStatusActive
  terminalStates := [metadataStatusDeleted]
  transitions := metadataTransitions

theorem profileEntity_accepted : MetadataEntity profileEntity where
  declared := by decide +kernel
  states := by decide +kernel
  transitions _ h := h

def profileLookup : ExternalSystemMetadataLookup Int where
  metadataEntity := ascii "Profile"
  keyFields := [ascii "profile"]
  keyValues := [⟨ascii "profile", .string (ascii "p")⟩]

def profileKey : Key := ascii "profile=\"p\"\n"

/-- The profile is stored as Active, and then disabled. -/
def disablingRun : List (MetadataEvent Int) :=
  [.begin (.upsert {
      lookup := profileLookup
      document := .object [(ascii "status", .string metadataStatusActive)] }),
   .op 0 (), .op 0 (), .op 0 (), .commit 0 (),
   .begin (.disable profileLookup none), .op 1 (), .op 1 (), .op 1 (), .commit 1 ()]

/-- The status of the profile after a run. -/
def profileStatus (es : List (MetadataEvent Int)) : Option (Option (Json Int)) :=
  ((metadataRun InMemoryState.empty es).shared.recordAt profileEntity.name profileKey).map
    fun record => record.document.find entityStatusFieldName

/-- What the client was opened with decides. -/
theorem legalEvent_of_init {w : MetadataWorld δ} {n : Nat} {call : MetadataCall δ}
    (hinit : (w.slots[n]?).map Slot.init = some call) (hlegal : Legal entity key w.shared call) :
    LegalEvent entity key w (.commit n ()) := by
  intro slot r hn _
  rw [hn] at hinit
  obtain rfl := Option.some_inj.mp hinit
  exact hlegal

/-- Both calls are legal. -/
theorem disablingRun_legal :
    RunMeets metadataStore (LegalEvent profileEntity profileKey)
      (World.init (InMemoryState.empty : State Int)) disablingRun := by
  refine ⟨trivial, trivial, trivial, trivial, legalEvent_of_init rfl fun _ => ?_,
    trivial, trivial, trivial, trivial, legalEvent_of_init rfl fun _ => ?_, trivial⟩
  · exact ⟨metadataStatusActive, List.mem_cons_self, rfl, fun record hrecord => nomatch hrecord⟩
  · intro record hrecord hdeleted
    have hactive : profileStatus (disablingRun.take 9) =
        some (some (.string metadataStatusActive)) := by
      decide +kernel
    have hstatus : profileStatus (disablingRun.take 9) =
        some (some (.string metadataStatusDeleted)) :=
      (congrArg (Option.map _) hrecord).trans (congrArg some hdeleted)
    exact absurd (hactive.symm.trans hstatus) (by decide +kernel)

/-- A profile that is disabled. -/
theorem lifecycle_followed_profile :
    LifecycleFollowed profileEntity profileKey InMemoryState.empty disablingRun := by
  refine (lifecycle_followed_iff profileEntity_accepted fun record hrecord => ?_).mpr
    disablingRun_legal
  simp [InMemoryState.recordAt, InMemoryState.empty, OrderedMap.find₂] at hrecord

/-- The profile is deleted, and then disabled. -/
def deletedRun : List (MetadataEvent Int) :=
  disablingRun ++
    [.begin (.delete profileLookup none), .op 2 (), .op 2 (), .op 2 (), .commit 2 ()]

def revivingRun : List (MetadataEvent Int) :=
  deletedRun ++
    [.begin (.disable profileLookup none), .op 3 (), .op 3 (), .op 3 (), .commit 3 ()]

/-- **A deleted profile is disabled again**: `disable_metadataTx` does not look at the status. -/
theorem deleted_profile_disabled :
    MetadataEntity profileEntity ∧
      profileStatus deletedRun = some (some (.string metadataStatusDeleted)) ∧
      profileStatus revivingRun = some (some (.string metadataStatusDisabled)) ∧
      ¬ LifecycleFollowed profileEntity profileKey InMemoryState.empty revivingRun := by
  have hdeleted : profileStatus deletedRun = some (some (.string metadataStatusDeleted)) := by
    decide +kernel
  have hrevived : profileStatus revivingRun = some (some (.string metadataStatusDisabled)) := by
    decide +kernel
  refine ⟨profileEntity_accepted, hdeleted, hrevived, fun hfollowed => ?_⟩
  obtain ⟨record, hrecord, hstatus⟩ := Option.map_eq_some_iff.mp hdeleted
  have hkept := hfollowed.deleted deletedRun
    [.begin (.disable profileLookup none), .op 3 (), .op 3 (), .op 3 (), .commit 3 ()] [] record
    (by rw [List.append_nil]; rfl) hrecord hstatus
  have hsame : profileStatus revivingRun = profileStatus deletedRun := by
    rw [profileStatus, profileStatus, hrecord]
    exact congrArg (Option.map _) hkept
  rw [hdeleted, hrevived] at hsame
  exact absurd hsame (by decide +kernel)

end Generated

end StateSpec
