/-
  THE ENTITY REPOSITORY — `generated/entity_repository.hpp.tmpl`: records of an entity, stored in the
  collection of its name under a key made from its key fields.

  The key names each key field with the canonical text of its value, one a line.  A text says which
  value it was made of (`StateSpec.JsonText`), so two complete lookups have the same key only if they
  agree on every key field (`entityKey_inj`), and writing the key fields of a lookup into a document
  that was stored under its key changes nothing (`find_entityDocumentWithKeys`).

  A handler reads, and then stores at most one record (`StateSpec.Cpp.SingleWrites`): what each
  operation of the repository comes to in a transaction that has only read is `eval_getEntityTx`,
  `eval_createEntityTx` and `eval_upsertEntityTx`.
-/
import StateSpec.Cpp.SingleWrites
import StateSpec.Generated.System
import StateSpec.JsonText

set_option linter.unusedSectionVars false

namespace StateSpec

namespace Generated

open Cpp Memory Memory.InMemoryTransaction

variable {δ : Type}

/-! ## Lookups -/

structure EntityKeyValue (δ : Type) where
  field : Bytes
  value : Json δ

structure EntityLookup (δ : Type) where
  entity : Bytes
  keyFields : List Bytes
  keyValues : List (EntityKeyValue δ)

/-- `entity_key_value`. -/
def entityKeyValue (lookup : EntityLookup δ) (field : Bytes) : Option (Json δ) :=
  (lookup.keyValues.find? fun keyValue => keyValue.field == field).map EntityKeyValue.value

/-- `key_complete`. -/
def EntityLookup.keyComplete (lookup : EntityLookup δ) : Bool :=
  lookup.keyFields.all fun keyField =>
    lookup.keyValues.any fun keyValue => keyValue.field == keyField

/-- `key += key_field; key += '='; key += value->canonical_string(); key += '\n'`. -/
def keyLine [Decimal δ] (field : Bytes) (value : Json δ) : Bytes :=
  field ++ 61 :: (value.canonicalString ++ [10])

/-- `entity_key`. -/
def entityKey [Decimal δ] (lookup : EntityLookup δ) : Option Key :=
  if lookup.keyComplete then
    lookup.keyFields.foldlM (fun key keyField =>
      (entityKeyValue lookup keyField).map fun value => key ++ keyLine keyField value) []
  else none

/-- `entity_lookup_from_document`. -/
def entityLookupFromDocument (entity : IrEntity) (document : Json δ) : EntityLookup δ where
  entity := entity.name
  keyFields := entity.keyFields
  keyValues := entity.keyFields.filterMap fun keyField =>
    (document.find keyField).map fun value => ⟨keyField, value⟩

/-- `entity_document_with_keys`. -/
def entityDocumentWithKeys (document : Json δ) (lookup : EntityLookup δ) : Json δ :=
  .object (lookup.keyValues.foldl (fun object keyValue =>
    Json.assign keyValue.field keyValue.value object) document.members)

/-- `<entity>_lookup`. -/
def entityLookup (entity : IrEntity) (keyValues : List (EntityKeyValue δ)) : EntityLookup δ where
  entity := entity.name
  keyFields := entity.keyFields
  keyValues := keyValues

/-! ## `Default<Entity>Repository` -/

/-- `create_entityTx`. -/
def createEntityTx [Decimal δ] (lookup : EntityLookup δ) (document : Json δ) :
    Script δ (Option (VersionedRecord δ)) :=
  match entityKey lookup with
  | none => pure none
  | some key => do
    let existing ← getTx lookup.entity key
    if existing.isSome then
      .throw (.conflictError .versionConflict (ascii "entity already exists"))
    else do
      putTx lookup.entity key (entityDocumentWithKeys document lookup)
      getTx lookup.entity key

/-- `assert_expected_version`. -/
def assertExpectedVersion (existing : Option (VersionedRecord δ)) (expectedVersion : Option Version) :
    Except Error Unit :=
  match expectedVersion with
  | none => .ok ()
  | some expected =>
    match existing with
    | some record =>
      if record.version = expected then .ok ()
      else .error (.conflictError .versionConflict (ascii "entity version conflict"))
    | none => .error (.conflictError .versionConflict (ascii "entity version conflict"))

/-- `upsert_entityTx`. -/
def upsertEntityTx [Decimal δ] (lookup : EntityLookup δ) (document : Json δ)
    (expectedVersion : Option Version) : Script δ (Option (VersionedRecord δ)) :=
  match entityKey lookup with
  | none => pure none
  | some key => do
    let existing ← getTx lookup.entity key
    Script.ofExcept (assertExpectedVersion existing expectedVersion)
    putTx lookup.entity key (entityDocumentWithKeys document lookup)
    getTx lookup.entity key

/-- `get_entityTx`. -/
def getEntityTx [Decimal δ] (lookup : EntityLookup δ) : Script δ (Option (VersionedRecord δ)) :=
  match entityKey lookup with
  | none => pure none
  | some key => getTx lookup.entity key

/-- `delete_entityTx`. -/
def deleteEntityTx [Decimal δ] (lookup : EntityLookup δ) (expectedVersion : Option Version) :
    Script δ (Option (VersionedRecord δ)) :=
  match entityKey lookup with
  | none => pure none
  | some key => do
    let existing ← getTx lookup.entity key
    if existing.isNone then pure none
    else do
      Script.ofExcept (assertExpectedVersion existing expectedVersion)
      .erase lookup.entity key (.ret ())
      pure existing

/-- `list_entities_by_indexTx`. -/
def listEntitiesByIndexTx (entity : Bytes) (indexName : Bytes) (values : List (IndexValue δ)) :
    Script δ (List (VersionedRecord δ)) :=
  .query entity (Query.indexEquals indexName values) .ret

/-- `createTx`. -/
def repositoryCreateTx [Decimal δ] (entity : IrEntity) (document : Json δ) :
    Script δ (Option (VersionedRecord δ)) :=
  createEntityTx (entityLookupFromDocument entity document) document

/-- `getTx`. -/
def repositoryGetTx [Decimal δ] (entity : IrEntity) (keyValues : List (EntityKeyValue δ)) :
    Script δ (Option (VersionedRecord δ)) :=
  getEntityTx (entityLookup entity keyValues)

/-- `updateTx`. -/
def repositoryUpdateTx [Decimal δ] (entity : IrEntity) (keyValues : List (EntityKeyValue δ))
    (document : Json δ) (expectedVersion : Version) : Script δ (Option (VersionedRecord δ)) :=
  upsertEntityTx (entityLookup entity keyValues) document (some expectedVersion)

variable [Decimal δ]

/-! ## Keys -/

/-- The lines of some key fields, or nothing when one has no value. -/
def keyLines (lookup : EntityLookup δ) : List Bytes → Option Bytes
  | [] => some []
  | keyField :: rest =>
    (entityKeyValue lookup keyField).bind fun value =>
      (keyLines lookup rest).map fun lines => keyLine keyField value ++ lines

theorem foldlM_keyLines (lookup : EntityLookup δ) (keyFields : List Bytes) (key : Bytes) :
    keyFields.foldlM (fun key keyField =>
      (entityKeyValue lookup keyField).map fun value => key ++ keyLine keyField value) key =
      (keyLines lookup keyFields).map (key ++ ·) := by
  induction keyFields generalizing key with
  | nil => simp [keyLines]
  | cons keyField rest ih =>
    rw [List.foldlM_cons, keyLines]
    cases entityKeyValue lookup keyField with
    | none => rfl
    | some value =>
      show rest.foldlM _ (key ++ keyLine keyField value) = _
      rw [ih, Option.bind_some, Option.map_map]
      congr 1
      funext lines
      exact List.append_assoc _ _ _

theorem keyLines_of_entityKey {lookup : EntityLookup δ} {key : Key}
    (h : entityKey lookup = some key) : keyLines lookup lookup.keyFields = some key := by
  rw [entityKey] at h
  split at h
  · rw [foldlM_keyLines] at h
    simpa using h
  · cases h

/-- The first line of a key says what its value is. -/
theorem keyLine_split [LawfulDecimal δ] {field x y : Bytes} {value other : Json δ}
    (h : keyLine field value ++ x = keyLine field other ++ y) : value = other ∧ x = y := by
  rw [keyLine, keyLine, List.append_assoc, List.append_assoc] at h
  have hvalue := (List.cons.inj (List.append_cancel_left h)).2
  simp only [List.append_eq, List.append_assoc, List.singleton_append] at hvalue
  obtain ⟨hsame, hrest⟩ := Json.canonicalString_split value other
    (Json.delimited_cons x (by decide)) (Json.delimited_cons y (by decide)) hvalue
  exact ⟨hsame, (List.cons.inj hrest).2⟩

theorem keyLines_inj [LawfulDecimal δ] {lookup other : EntityLookup δ} {keyFields : List Bytes}
    {key : Bytes} (h : keyLines lookup keyFields = some key)
    (hother : keyLines other keyFields = some key) :
    ∀ field ∈ keyFields, ∃ value, entityKeyValue lookup field = some value ∧
      entityKeyValue other field = some value := by
  induction keyFields generalizing key with
  | nil => nofun
  | cons keyField rest ih =>
    obtain ⟨value, hvalue, h⟩ := Option.bind_eq_some_iff.mp h
    obtain ⟨value', hvalue', hother⟩ := Option.bind_eq_some_iff.mp hother
    obtain ⟨lines, hlines, rfl⟩ := Option.map_eq_some_iff.mp h
    obtain ⟨lines', hlines', heq⟩ := Option.map_eq_some_iff.mp hother
    obtain ⟨rfl, rfl⟩ := keyLine_split heq
    intro field hfield
    rcases List.mem_cons.mp hfield with rfl | hmem
    · exact ⟨value', hvalue, hvalue'⟩
    · exact ih hlines hlines' field hmem

/-- **A key says what every key field is.** -/
theorem entityKey_inj [LawfulDecimal δ] {lookup other : EntityLookup δ} {key : Key}
    (hfields : lookup.keyFields = other.keyFields) (h : entityKey lookup = some key)
    (hother : entityKey other = some key) :
    ∀ field ∈ lookup.keyFields, ∃ value, entityKeyValue lookup field = some value ∧
      entityKeyValue other field = some value :=
  keyLines_inj (keyLines_of_entityKey h) (hfields ▸ keyLines_of_entityKey hother)

/-- A lookup with a value for every key field has a key. -/
theorem entityKey_of_values {lookup : EntityLookup δ}
    (h : ∀ field ∈ lookup.keyFields, (entityKeyValue lookup field).isSome = true) :
    ∃ key, entityKey lookup = some key ∧ keyLines lookup lookup.keyFields = some key := by
  have hcomplete : lookup.keyComplete = true := by
    refine List.all_eq_true.mpr fun field hfield => List.any_eq_true.mpr ?_
    obtain ⟨value, hvalue⟩ := Option.isSome_iff_exists.mp (h field hfield)
    obtain ⟨keyValue, hfind, -⟩ := Option.map_eq_some_iff.mp hvalue
    exact ⟨keyValue, List.mem_of_find?_eq_some hfind, by simpa using List.find?_some hfind⟩
  have hlines : ∀ keyFields : List Bytes,
      (∀ field ∈ keyFields, (entityKeyValue lookup field).isSome = true) →
      ∃ key, keyLines lookup keyFields = some key := by
    intro keyFields hvalues
    induction keyFields with
    | nil => exact ⟨[], rfl⟩
    | cons field rest ih =>
      obtain ⟨value, hvalue⟩ := Option.isSome_iff_exists.mp (hvalues field List.mem_cons_self)
      obtain ⟨lines, hrest⟩ := ih fun field hfield => hvalues field (List.mem_cons_of_mem _ hfield)
      exact ⟨keyLine field value ++ lines, by rw [keyLines, hvalue, Option.bind_some, hrest]; rfl⟩
  obtain ⟨key, hkey⟩ := hlines lookup.keyFields h
  refine ⟨key, ?_, hkey⟩
  rw [entityKey, if_pos hcomplete, foldlM_keyLines, hkey]
  simp

/-- Lookups that agree on the key fields have the same key. -/
theorem keyLines_congr {lookup other : EntityLookup δ} {keyFields : List Bytes}
    (h : ∀ field ∈ keyFields, entityKeyValue lookup field = entityKeyValue other field) :
    keyLines lookup keyFields = keyLines other keyFields := by
  induction keyFields with
  | nil => rfl
  | cons field rest ih =>
    rw [keyLines, keyLines, h field List.mem_cons_self,
      ih fun field hfield => h field (List.mem_cons_of_mem _ hfield)]

/-! ## Documents with their keys -/

/-- No field is given two values. -/
def Consistent (lookup : EntityLookup δ) : Prop :=
  ∀ keyValue ∈ lookup.keyValues, entityKeyValue lookup keyValue.field = some keyValue.value

theorem lookup_foldl_assign {value : Bytes → Json δ} {keyValues : List (EntityKeyValue δ)}
    (h : ∀ keyValue ∈ keyValues, keyValue.value = value keyValue.field)
    (object : List (Bytes × Json δ)) (field : Bytes) :
    (keyValues.foldl (fun object keyValue =>
      Json.assign keyValue.field keyValue.value object) object).lookup field =
      if field ∈ keyValues.map EntityKeyValue.field then some (value field)
      else object.lookup field := by
  induction keyValues generalizing object with
  | nil => rfl
  | cons keyValue rest ih =>
    rw [List.foldl_cons, ih fun keyValue hmem => h keyValue (List.mem_cons_of_mem _ hmem),
      Json.lookup_assign, h keyValue List.mem_cons_self, List.map_cons]
    by_cases hrest : field ∈ rest.map EntityKeyValue.field
    · rw [if_pos hrest, if_pos (List.mem_cons_of_mem _ hrest)]
    · rw [if_neg hrest]
      by_cases hfield : field = keyValue.field
      · rw [if_pos hfield, if_pos (hfield ▸ List.mem_cons_self), hfield]
      · rw [if_neg hfield, if_neg]
        exact fun hmem => (List.mem_cons.mp hmem).elim hfield hrest

/-- **A document with its keys** has the values of the lookup, and its own elsewhere. -/
theorem find_entityDocumentWithKeys {lookup : EntityLookup δ} (h : Consistent lookup)
    (document : Json δ) (field : Bytes) :
    (entityDocumentWithKeys document lookup).find field =
      (entityKeyValue lookup field).or (document.find field) := by
  have hvalue : ∀ keyValue ∈ lookup.keyValues,
      keyValue.value = ((entityKeyValue lookup keyValue.field).getD .null) := by
    intro keyValue hmem
    rw [h keyValue hmem]
    rfl
  have hassign := @lookup_foldl_assign δ _ (fun field => (entityKeyValue lookup field).getD .null)
    lookup.keyValues hvalue document.members field
  rw [entityDocumentWithKeys, Json.find, hassign, Json.find_eq_lookup]
  cases hfind : entityKeyValue lookup field with
  | none =>
    rw [if_neg, Option.none_or]
    intro hmem
    obtain ⟨keyValue, hkeyValue, rfl⟩ := List.mem_map.mp hmem
    rw [h keyValue hkeyValue] at hfind
    cases hfind
  | some value =>
    rw [if_pos, Option.some_or, Option.getD_some]
    obtain ⟨keyValue, hkeyValue, -⟩ := Option.map_eq_some_iff.mp hfind
    have hfield : keyValue.field = field := by simpa using List.find?_some hkeyValue
    exact List.mem_map.mpr ⟨keyValue, List.mem_of_find?_eq_some hkeyValue, hfield⟩

/-- A lookup whose values are given field by field. -/
theorem entityKeyValue_map (entity : IrEntity) (value : Bytes → Json δ) (keyFields : List Bytes)
    (field : Bytes) :
    entityKeyValue (entityLookup entity (keyFields.map fun key => ⟨key, value key⟩)) field =
      if field ∈ keyFields then some (value field) else none := by
  rw [entityKeyValue, entityLookup, List.find?_map]
  by_cases hfield : field ∈ keyFields
  · rw [if_pos hfield]
    cases hfind : keyFields.find? ((fun keyValue : EntityKeyValue δ => keyValue.field == field) ∘
        fun key => ⟨key, value key⟩) with
    | none => exact absurd (List.find?_eq_none.mp hfind field hfield) (by simp)
    | some key =>
      have hkey : key = field := by simpa using List.find?_some hfind
      rw [hkey]
      rfl
  · rw [if_neg hfield, Option.map_eq_none_iff, Option.map_eq_none_iff, List.find?_eq_none]
    intro key hkey heq
    exact hfield ((by simpa using heq : key = field) ▸ hkey)

theorem consistent_entityLookup (entity : IrEntity) (value : Bytes → Json δ)
    (keyFields : List Bytes) :
    Consistent (entityLookup entity (keyFields.map fun key => ⟨key, value key⟩)) := by
  intro keyValue hmem
  obtain ⟨key, hkey, rfl⟩ := List.mem_map.mp hmem
  rw [entityKeyValue_map, if_pos hkey]

/-- The lookup of a document has the values of the document. -/
theorem entityKeyValue_fromDocument (entity : IrEntity) (document : Json δ) (field : Bytes) :
    entityKeyValue (entityLookupFromDocument entity document) field =
      if field ∈ entity.keyFields then document.find field else none := by
  rw [entityKeyValue, entityLookupFromDocument]
  generalize entity.keyFields = keyFields
  induction keyFields with
  | nil => rfl
  | cons key rest ih =>
    rw [List.filterMap_cons]
    by_cases hkey : key = field
    · subst hkey
      rw [if_pos List.mem_cons_self]
      cases hfind : document.find key with
      | none =>
        simp only [Option.map_none]
        rw [ih]
        split
        · exact hfind
        · rfl
      | some value => simp
    · have hmem : field ∈ key :: rest ↔ field ∈ rest :=
        ⟨fun h => (List.mem_cons.mp h).resolve_left (Ne.symm hkey), List.mem_cons_of_mem _⟩
      have hbeq : (key == field) = false := by simpa using hkey
      cases hfind : document.find key with
      | none => simpa only [Option.map_none, hmem] using ih
      | some value => simpa only [Option.map_some, List.find?_cons, hbeq, hmem] using ih

theorem consistent_fromDocument (entity : IrEntity) (document : Json δ) :
    Consistent (entityLookupFromDocument entity document) := by
  intro keyValue hmem
  obtain ⟨key, hkey, hvalue⟩ := List.mem_filterMap.mp hmem
  obtain ⟨value, hfind, rfl⟩ := Option.map_eq_some_iff.mp hvalue
  rw [entityKeyValue_fromDocument, if_pos hkey, hfind]

/-! ## What the operations come to -/

variable {s : State δ} {t : Tx δ} {places : List Place}

theorem eval_getEntityTx (h : ReadOnly s t places) (lookup : EntityLookup δ) :
    ∃ t' places', (getEntityTx lookup).eval s t =
      (.ok ((entityKey lookup).bind (s.recordAt lookup.entity)), t') ∧ ReadOnly s t' places' ∧
      places' = (entityKey lookup).toList.map (lookup.entity, ·) ++ places := by
  rw [getEntityTx]
  cases entityKey lookup with
  | none => exact ⟨t, places, rfl, h, rfl⟩
  | some key =>
    obtain ⟨t', heval, hread⟩ := eval_getTx h lookup.entity key
    exact ⟨t', _, heval, hread, rfl⟩

theorem eval_createEntityTx_taken (h : ReadOnly s t places) {lookup : EntityLookup δ} {key : Key}
    (hkey : entityKey lookup = some key) (htaken : s.recordAt lookup.entity key ≠ none)
    (document : Json δ) : ∃ t', (createEntityTx lookup document).eval s t =
      (.error (.conflictError .versionConflict (ascii "entity already exists")), t') := by
  obtain ⟨t', heval, -⟩ := eval_getTx h lookup.entity key
  refine ⟨t', ?_⟩
  rw [createEntityTx, hkey]
  show (getTx lookup.entity key >>= _).eval s t = _
  rw [Script.eval_do heval, if_pos (Option.isSome_iff_ne_none.mpr htaken)]
  rfl

theorem eval_createEntityTx (h : ReadOnly s t places) {lookup : EntityLookup δ} {key : Key}
    (hkey : entityKey lookup = some key) (hfree : s.recordAt lookup.entity key = none)
    (document : Json δ) : ∃ t' places', (createEntityTx lookup document).eval s t =
      (.ok (some (stagedRecord lookup.entity key (entityDocumentWithKeys document lookup))), t') ∧
      Written s t' lookup.entity key (entityDocumentWithKeys document lookup) places' ∧
      ∀ place ∈ places', place = (lookup.entity, key) ∨ place ∈ places := by
  obtain ⟨t₁, hget, hread⟩ := eval_getTx h lookup.entity key
  obtain ⟨t₂, hput, hwritten⟩ :=
    eval_putTx hread lookup.entity key (entityDocumentWithKeys document lookup)
  refine ⟨t₂, _, ?_, hwritten, fun place hplace => by simpa using hplace⟩
  rw [createEntityTx, hkey]
  show (getTx lookup.entity key >>= _).eval s t = _
  rw [Script.eval_do hget, hfree, if_neg (by simp), Script.eval_do hput,
    eval_getTx_written hwritten]

theorem eval_upsertEntityTx (h : ReadOnly s t places) {lookup : EntityLookup δ} {key : Key}
    (hkey : entityKey lookup = some key) {record : VersionedRecord δ}
    (hrecord : s.recordAt lookup.entity key = some record) (document : Json δ) :
    ∃ t' places', (upsertEntityTx lookup document (some record.version)).eval s t =
      (.ok (some (stagedRecord lookup.entity key (entityDocumentWithKeys document lookup))), t') ∧
      Written s t' lookup.entity key (entityDocumentWithKeys document lookup) places' := by
  obtain ⟨t₁, hget, hread⟩ := eval_getTx h lookup.entity key
  obtain ⟨t₂, hput, hwritten⟩ :=
    eval_putTx hread lookup.entity key (entityDocumentWithKeys document lookup)
  refine ⟨t₂, _, ?_, hwritten⟩
  rw [upsertEntityTx, hkey]
  show (getTx lookup.entity key >>= _).eval s t = _
  have hversion : assertExpectedVersion (some record) (some record.version) = .ok () := if_pos rfl
  rw [Script.eval_do hget, hrecord, hversion]
  show (putTx lookup.entity key _ >>= _).eval s t₁ = _
  rw [Script.eval_do hput, eval_getTx_written hwritten]

/-- Operations of the repository make no query. -/
theorem point_getTx (c : CollectionName) (k : Key) : (getTx c k : Script δ _).Point := fun _ => trivial

theorem point_getEntityTx (lookup : EntityLookup δ) : (getEntityTx lookup).Point := by
  rw [getEntityTx]
  split
  · trivial
  · exact point_getTx _ _

theorem point_createEntityTx (lookup : EntityLookup δ) (document : Json δ) :
    (createEntityTx lookup document).Point := by
  rw [createEntityTx]
  split
  · trivial
  · refine Script.point_do (point_getTx _ _) fun existing => ?_
    split
    · trivial
    · exact Script.point_do trivial fun _ => point_getTx _ _

theorem point_upsertEntityTx (lookup : EntityLookup δ) (document : Json δ)
    (expectedVersion : Option Version) :
    (upsertEntityTx lookup document expectedVersion).Point := by
  rw [upsertEntityTx]
  split
  · trivial
  · exact Script.point_do (point_getTx _ _) fun existing =>
      Script.point_do (Script.point_ofExcept _) fun _ =>
        Script.point_do trivial fun _ => point_getTx _ _

end Generated

end StateSpec
