/-
  SCHEMA COMPATIBILITY — `bindings/cpp/schema_compatibility.hpp`: which descriptor may replace which.

  `compareCollectionDescriptors` collects every difference that breaks compatibility, with the
  reason, the path of the offending part and a message; `validateCollectionDescriptorUpgrade` turns
  a non-empty list into a `SchemaConflict` that spells them out.

  What the registration of collections needs to know about an accepted upgrade is proved at the end:
  the name is kept, and every index of the existing descriptor is found in the requested one with
  the same fields and the same uniqueness (`indexes_kept`).
-/
import StateSpec.Backend

namespace StateSpec

inductive SchemaCompatibilityStatus where
  | identical | compatible | incompatible
deriving DecidableEq

inductive SchemaCompatibilityReason where
  | schemaVersionDecreased | schemaVersionNotIncremented | collectionNameChanged
  | keyFieldsChanged | fieldRemoved | fieldRenamed | fieldTypeChanged | fieldTypeNameChanged
  | requiredFieldAdded | fieldBecameRequired | indexRemoved | indexRenamed | indexFieldsChanged
  | indexUniquenessChanged | uniqueIndexAdded
deriving DecidableEq

structure SchemaCompatibilityDifference where
  reason : SchemaCompatibilityReason
  path : Bytes
  message : Bytes
deriving DecidableEq

structure SchemaCompatibilityResult where
  status : SchemaCompatibilityStatus := .compatible
  differences : List SchemaCompatibilityDifference

def SchemaCompatibilityResult.compatible (result : SchemaCompatibilityResult) : Bool :=
  result.status != .incompatible

/-! ## Comparing descriptors -/

def fieldDescriptorsEqual (left right : FieldDescriptor) : Bool :=
  left.name == right.name && left.type == right.type && left.typeName == right.typeName &&
    left.required == right.required

def indexDescriptorsEqual (left right : IndexDescriptor) : Bool :=
  left.name == right.name && left.fields == right.fields && left.unique == right.unique

def collectionDescriptorsEqual (left right : CollectionDescriptor) : Bool :=
  if left.name != right.name || left.keyFields != right.keyFields ||
      left.schemaVersion != right.schemaVersion ||
      left.fields.length != right.fields.length ||
      left.indexes.length != right.indexes.length then false
  else
    (left.fields.zip right.fields).all (fun p => fieldDescriptorsEqual p.1 p.2) &&
      (left.indexes.zip right.indexes).all (fun p => indexDescriptorsEqual p.1 p.2)

def findFieldDescriptor (fields : List FieldDescriptor) (name : Bytes) : Option FieldDescriptor :=
  fields.find? fun field => field.name == name

def findIndexDescriptor (indexes : List IndexDescriptor) (name : Bytes) : Option IndexDescriptor :=
  indexes.find? fun index => index.name == name

def schemaDifference (reason : SchemaCompatibilityReason) (path message : Bytes) :
    SchemaCompatibilityDifference := ⟨reason, path, message⟩

/-- `schema_compatibility_reason_name`. -/
def schemaCompatibilityReasonName : SchemaCompatibilityReason → Bytes
  | .schemaVersionDecreased => ascii "SchemaVersionDecreased"
  | .schemaVersionNotIncremented => ascii "SchemaVersionNotIncremented"
  | .collectionNameChanged => ascii "CollectionNameChanged"
  | .keyFieldsChanged => ascii "KeyFieldsChanged"
  | .fieldRemoved => ascii "FieldRemoved"
  | .fieldRenamed => ascii "FieldRenamed"
  | .fieldTypeChanged => ascii "FieldTypeChanged"
  | .fieldTypeNameChanged => ascii "FieldTypeNameChanged"
  | .requiredFieldAdded => ascii "RequiredFieldAdded"
  | .fieldBecameRequired => ascii "FieldBecameRequired"
  | .indexRemoved => ascii "IndexRemoved"
  | .indexRenamed => ascii "IndexRenamed"
  | .indexFieldsChanged => ascii "IndexFieldsChanged"
  | .indexUniquenessChanged => ascii "IndexUniquenessChanged"
  | .uniqueIndexAdded => ascii "UniqueIndexAdded"

/-- `"field '" + name + "'" + what`, and the same for indexes and required fields. -/
def quoted (noun name what : Bytes) : Bytes :=
  noun ++ ascii " '" ++ name ++ ascii "'" ++ what

/-- The differences of the head of the descriptors: name, schema version and key fields. -/
def headDifferences (existing requested : CollectionDescriptor) :
    List SchemaCompatibilityDifference :=
  (if existing.name != requested.name then
    [schemaDifference .collectionNameChanged (ascii "name")
      (ascii "collection name changed from '" ++ existing.name ++ ascii "' to '" ++
        requested.name ++ ascii "'")] else []) ++
  (if requested.schemaVersion < existing.schemaVersion then
    [schemaDifference .schemaVersionDecreased (ascii "schema_version")
      (ascii "schema_version decreased")]
  else if requested.schemaVersion == existing.schemaVersion then
    [schemaDifference .schemaVersionNotIncremented (ascii "schema_version")
      (ascii "schema_version must increase when descriptor shape changes")] else []) ++
  (if existing.keyFields != requested.keyFields then
    [schemaDifference .keyFieldsChanged (ascii "key_fields") (ascii "key_fields changed")] else [])

/-- The differences a field of the existing descriptor gives rise to. -/
def existingFieldDifferences (requested : CollectionDescriptor) (field : FieldDescriptor) :
    List SchemaCompatibilityDifference :=
  let path := ascii "fields." ++ field.name
  match findFieldDescriptor requested.fields field.name with
  | none =>
    [schemaDifference .fieldRemoved path (quoted (ascii "field") field.name (ascii " was removed"))]
  | some requestedField =>
    (if field.type != requestedField.type then
      [schemaDifference .fieldTypeChanged path
        (quoted (ascii "field") field.name (ascii " type changed"))] else []) ++
    (if field.typeName != requestedField.typeName then
      [schemaDifference .fieldTypeNameChanged path
        (quoted (ascii "field") field.name (ascii " type_name changed"))] else []) ++
    (if !field.required && requestedField.required then
      [schemaDifference .fieldBecameRequired path
        (quoted (ascii "field") field.name (ascii " became required"))] else [])

/-- The difference a field of the requested descriptor gives rise to. -/
def requestedFieldDifferences (existing : CollectionDescriptor) (field : FieldDescriptor) :
    List SchemaCompatibilityDifference :=
  if (findFieldDescriptor existing.fields field.name).isNone && field.required then
    [schemaDifference .requiredFieldAdded (ascii "fields." ++ field.name)
      (quoted (ascii "required field") field.name (ascii " was added"))]
  else []

/-- The differences an index of the existing descriptor gives rise to. -/
def existingIndexDifferences (requested : CollectionDescriptor) (index : IndexDescriptor) :
    List SchemaCompatibilityDifference :=
  let path := ascii "indexes." ++ index.name
  match findIndexDescriptor requested.indexes index.name with
  | none =>
    [schemaDifference .indexRemoved path (quoted (ascii "index") index.name (ascii " was removed"))]
  | some requestedIndex =>
    (if index.fields != requestedIndex.fields then
      [schemaDifference .indexFieldsChanged path
        (quoted (ascii "index") index.name (ascii " fields changed"))] else []) ++
    (if index.unique != requestedIndex.unique then
      [schemaDifference .indexUniquenessChanged path
        (quoted (ascii "index") index.name (ascii " uniqueness changed"))] else [])

/-- The difference an index of the requested descriptor gives rise to. -/
def requestedIndexDifferences (existing : CollectionDescriptor) (index : IndexDescriptor) :
    List SchemaCompatibilityDifference :=
  if (findIndexDescriptor existing.indexes index.name).isNone && index.unique then
    [schemaDifference .uniqueIndexAdded (ascii "indexes." ++ index.name)
      (quoted (ascii "unique index") index.name (ascii " was added"))]
  else []

/-- All differences of two descriptors that are not equal, in the order they are reported. -/
def descriptorDifferences (existing requested : CollectionDescriptor) :
    List SchemaCompatibilityDifference :=
  headDifferences existing requested ++
  existing.fields.flatMap (existingFieldDifferences requested) ++
  requested.fields.flatMap (requestedFieldDifferences existing) ++
  existing.indexes.flatMap (existingIndexDifferences requested) ++
  requested.indexes.flatMap (requestedIndexDifferences existing)

/-- `compare_collection_descriptors`. -/
def compareCollectionDescriptors (existing requested : CollectionDescriptor) :
    SchemaCompatibilityResult :=
  if collectionDescriptorsEqual existing requested then ⟨.identical, []⟩
  else
    let differences := descriptorDifferences existing requested
    if !differences.isEmpty then ⟨.incompatible, differences⟩ else ⟨.compatible, []⟩

/-- `"; Reason at path: message"` for every difference, the first one behind a `":"`. -/
def differencesText : Bytes → List SchemaCompatibilityDifference → Bytes
  | _, [] => []
  | separator, difference :: rest =>
    separator ++ schemaCompatibilityReasonName difference.reason ++ ascii " at " ++
      difference.path ++ ascii ": " ++ difference.message ++ differencesText (ascii "; ") rest

/-- `validate_collection_descriptor_upgrade`. -/
def validateCollectionDescriptorUpgrade (existing requested : CollectionDescriptor) :
    Except Error Unit :=
  let result := compareCollectionDescriptors existing requested
  if result.compatible then .ok ()
  else .error (.conflictError .schemaConflict
    (ascii "collection '" ++ requested.name ++ ascii "' schema upgrade from version " ++
      Bytes.decimal existing.schemaVersion ++ ascii " to version " ++
      Bytes.decimal requested.schemaVersion ++ ascii " is incompatible" ++
      differencesText (ascii ": ") result.differences))

/-! ## What an accepted upgrade keeps -/

theorem indexDescriptorsEqual_iff (left right : IndexDescriptor) :
    indexDescriptorsEqual left right = true ↔ left = right := by
  obtain ⟨n, f, u⟩ := left
  obtain ⟨n', f', u'⟩ := right
  simp [indexDescriptorsEqual, and_assoc]

theorem fieldDescriptorsEqual_iff (left right : FieldDescriptor) :
    fieldDescriptorsEqual left right = true ↔ left = right := by
  obtain ⟨n, t, tn, r⟩ := left
  obtain ⟨n', t', tn', r'⟩ := right
  simp [fieldDescriptorsEqual, and_assoc]

/-- Two lists of one length that agree position by position are equal. -/
theorem eq_of_zip_all {β : Type} {same : β → β → Bool} (hsame : ∀ a b, same a b = true ↔ a = b) :
    ∀ {left right : List β}, left.length = right.length →
      (left.zip right).all (fun p => same p.1 p.2) = true → left = right
  | [], [], _, _ => rfl
  | a :: left, b :: right, hlen, hall => by
    simp only [List.zip_cons_cons, List.all_cons, Bool.and_eq_true] at hall
    rw [(hsame a b).mp hall.1, eq_of_zip_all hsame (Nat.succ_inj.mp hlen) hall.2]

theorem zip_self_all {β : Type} {same : β → β → Bool} (hsame : ∀ a, same a a = true) :
    ∀ l : List β, (l.zip l).all (fun p => same p.1 p.2) = true
  | [] => rfl
  | a :: l => by
    rw [List.zip_cons_cons, List.all_cons, hsame a, zip_self_all hsame l]
    rfl

theorem collectionDescriptorsEqual_iff (left right : CollectionDescriptor) :
    collectionDescriptorsEqual left right = true ↔ left = right := by
  constructor
  · intro h
    rw [collectionDescriptorsEqual] at h
    split at h
    · cases h
    · rename_i hhead
      simp only [Bool.or_eq_true, bne_iff_ne, ne_eq, not_or, Decidable.not_not] at hhead
      obtain ⟨⟨⟨⟨hname, hkeys⟩, hversion⟩, hfields⟩, hindexes⟩ := hhead
      rw [Bool.and_eq_true] at h
      have hf := eq_of_zip_all fieldDescriptorsEqual_iff hfields h.1
      have hi := eq_of_zip_all indexDescriptorsEqual_iff hindexes h.2
      cases left
      cases right
      simp_all
  · rintro rfl
    have hf := zip_self_all (fun a => (fieldDescriptorsEqual_iff a a).mpr rfl) left.fields
    have hi := zip_self_all (fun a => (indexDescriptorsEqual_iff a a).mpr rfl) left.indexes
    simp [collectionDescriptorsEqual, hf, hi]

/-- An upgrade is accepted when the descriptors are equal or have no reported difference. -/
theorem validate_ok_iff (existing requested : CollectionDescriptor) :
    validateCollectionDescriptorUpgrade existing requested = .ok () ↔
      existing = requested ∨ descriptorDifferences existing requested = [] := by
  rw [validateCollectionDescriptorUpgrade, compareCollectionDescriptors]
  by_cases heq : collectionDescriptorsEqual existing requested = true
  · rw [if_pos heq]
    simp [SchemaCompatibilityResult.compatible, (collectionDescriptorsEqual_iff _ _).mp heq]
  · have hne : existing ≠ requested := fun h =>
      heq ((collectionDescriptorsEqual_iff _ _).mpr h)
    rw [if_neg heq]
    cases hd : descriptorDifferences existing requested with
    | nil => simp [SchemaCompatibilityResult.compatible]
    | cons d ds => simp [SchemaCompatibilityResult.compatible, hne]

/-- **An accepted upgrade keeps every index**, with its fields and its uniqueness. -/
theorem indexes_kept {existing requested : CollectionDescriptor}
    (h : validateCollectionDescriptorUpgrade existing requested = .ok ())
    {index : IndexDescriptor} (hindex : index ∈ existing.indexes) :
    existing = requested ∨ findIndexDescriptor requested.indexes index.name = some index := by
  rcases (validate_ok_iff existing requested).mp h with heq | hnil
  · exact Or.inl heq
  · refine Or.inr ?_
    simp only [descriptorDifferences, List.append_eq_nil_iff, List.flatMap_eq_nil_iff] at hnil
    have hix := hnil.1.2 index hindex
    rw [existingIndexDifferences] at hix
    cases hfind : findIndexDescriptor requested.indexes index.name with
    | none => simp [hfind] at hix
    | some found =>
      have hname : found.name = index.name := by
        simpa using List.find?_some hfind
      simp only [hfind, List.append_eq_nil_iff] at hix
      have hfields : index.fields = found.fields := by
        by_contra hne
        simp [hne] at hix
      have hunique : index.unique = found.unique := by
        by_contra hne
        simp [hne] at hix
      cases index
      cases found
      simp_all

end StateSpec
