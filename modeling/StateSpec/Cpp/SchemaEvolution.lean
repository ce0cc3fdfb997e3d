/-
  SCHEMA EVOLUTION — what any sequence of `ensure_collection` and `ensure_collections` calls does to the
  descriptor of a collection.

  An accepted descriptor is compared with the one it replaces, and with no earlier one.  That is enough
  (`schema_evolution_monotone`): with distinct field and index names an upgrade is a relation,
  `Upgrades`, and it is transitive (`Upgrades.trans`).  The names matter there: what the middle
  descriptor relaxes is found in the last one by its name, and has to be the field that is there.
-/
import Mathlib.Data.List.Nodup
import StateSpec.Cpp.Backend

set_option linter.unusedSectionVars false

namespace StateSpec.Cpp

open Memory

variable {δ : Type} [Decimal δ]

/-! ## Upgrades -/

/-- No two fields and no two indexes of the descriptor have one name. -/
structure DistinctNames (descriptor : CollectionDescriptor) : Prop where
  fields : (descriptor.fields.map FieldDescriptor.name).Nodup
  indexes : (descriptor.indexes.map IndexDescriptor.name).Nodup

/-- **What `compare_collection_descriptors` asks of a descriptor that is not the existing one.** -/
structure Upgrades (existing requested : CollectionDescriptor) : Prop where
  name : existing.name = requested.name
  version : existing.schemaVersion < requested.schemaVersion
  keyFields : existing.keyFields = requested.keyFields
  fieldKept : ∀ field ∈ existing.fields, ∃ found,
    findFieldDescriptor requested.fields field.name = some found ∧ field.type = found.type ∧
      field.typeName = found.typeName ∧ (found.required = true → field.required = true)
  fieldAdded : ∀ field ∈ requested.fields, findFieldDescriptor existing.fields field.name = none →
    field.required = false
  indexKept : ∀ index ∈ existing.indexes, ∃ found,
    findIndexDescriptor requested.indexes index.name = some found ∧ index.fields = found.fields ∧
      index.unique = found.unique
  indexAdded : ∀ index ∈ requested.indexes, findIndexDescriptor existing.indexes index.name = none →
    index.unique = false

theorem headDifferences_eq_nil {existing requested : CollectionDescriptor} :
    headDifferences existing requested = [] ↔ existing.name = requested.name ∧
      existing.schemaVersion < requested.schemaVersion ∧
      existing.keyFields = requested.keyFields := by
  have hversion : (if requested.schemaVersion < existing.schemaVersion then
      [schemaDifference .schemaVersionDecreased (ascii "schema_version")
        (ascii "schema_version decreased")]
      else if requested.schemaVersion == existing.schemaVersion then
      [schemaDifference .schemaVersionNotIncremented (ascii "schema_version")
        (ascii "schema_version must increase when descriptor shape changes")] else []) = [] ↔
      existing.schemaVersion < requested.schemaVersion := by
    split
    · simp only [reduceCtorEq, false_iff]
      omega
    · split
      · rename_i heq
        have heq' : requested.schemaVersion = existing.schemaVersion := by simpa using heq
        simp only [reduceCtorEq, false_iff]
        omega
      · rename_i hne
        have hne' : requested.schemaVersion ≠ existing.schemaVersion := by simpa using hne
        simp only [true_iff]
        omega
  rw [headDifferences, List.append_eq_nil_iff, List.append_eq_nil_iff, hversion, and_assoc]
  simp

theorem existingFieldDifferences_eq_nil {requested : CollectionDescriptor} {field : FieldDescriptor} :
    existingFieldDifferences requested field = [] ↔ ∃ found,
      findFieldDescriptor requested.fields field.name = some found ∧ field.type = found.type ∧
        field.typeName = found.typeName ∧ (found.required = true → field.required = true) := by
  rw [existingFieldDifferences]
  cases findFieldDescriptor requested.fields field.name with
  | none => simp
  | some found => cases hrequired : field.required <;> simp

theorem requestedFieldDifferences_eq_nil {existing : CollectionDescriptor} {field : FieldDescriptor} :
    requestedFieldDifferences existing field = [] ↔
      (findFieldDescriptor existing.fields field.name = none → field.required = false) := by
  rw [requestedFieldDifferences]
  cases findFieldDescriptor existing.fields field.name with
  | none => simp
  | some found => simp

theorem existingIndexDifferences_eq_nil {requested : CollectionDescriptor} {index : IndexDescriptor} :
    existingIndexDifferences requested index = [] ↔ ∃ found,
      findIndexDescriptor requested.indexes index.name = some found ∧ index.fields = found.fields ∧
        index.unique = found.unique := by
  rw [existingIndexDifferences]
  cases findIndexDescriptor requested.indexes index.name with
  | none => simp
  | some found => simp

theorem requestedIndexDifferences_eq_nil {existing : CollectionDescriptor} {index : IndexDescriptor} :
    requestedIndexDifferences existing index = [] ↔
      (findIndexDescriptor existing.indexes index.name = none → index.unique = false) := by
  rw [requestedIndexDifferences]
  cases findIndexDescriptor existing.indexes index.name with
  | none => simp
  | some found => simp

/-- **No difference is reported for exactly the upgrades.** -/
theorem descriptorDifferences_eq_nil {existing requested : CollectionDescriptor} :
    descriptorDifferences existing requested = [] ↔ Upgrades existing requested := by
  simp only [descriptorDifferences, List.append_eq_nil_iff, List.flatMap_eq_nil_iff,
    headDifferences_eq_nil, existingFieldDifferences_eq_nil, requestedFieldDifferences_eq_nil,
    existingIndexDifferences_eq_nil, requestedIndexDifferences_eq_nil]
  constructor
  · rintro ⟨⟨⟨⟨⟨hname, hversion, hkeys⟩, hkept⟩, hadded⟩, hindexes⟩, hnew⟩
    exact ⟨hname, hversion, hkeys, hkept, hadded, hindexes, hnew⟩
  · intro h
    exact ⟨⟨⟨⟨⟨h.name, h.version, h.keyFields⟩, h.fieldKept⟩, h.fieldAdded⟩, h.indexKept⟩, h.indexAdded⟩

/-- A descriptor may be replaced by itself and by its upgrades. -/
theorem status_ne_incompatible_iff {existing requested : CollectionDescriptor} :
    (compareCollectionDescriptors existing requested).status ≠ .incompatible ↔
      existing = requested ∨ Upgrades existing requested := by
  rw [compareCollectionDescriptors, ← collectionDescriptorsEqual_iff, ← descriptorDifferences_eq_nil]
  by_cases hequal : collectionDescriptorsEqual existing requested = true
  · simp [hequal]
  · cases hdifferences : descriptorDifferences existing requested <;> simp [hequal]

theorem upgrades_of_validate {existing requested : CollectionDescriptor}
    (h : validateCollectionDescriptorUpgrade existing requested = .ok ()) :
    existing = requested ∨ Upgrades existing requested :=
  (validate_ok_iff existing requested).mp h |>.imp_right descriptorDifferences_eq_nil.mp

/-- With distinct names a field is found by its name. -/
theorem findFieldDescriptor_of_mem {fields : List FieldDescriptor} {field : FieldDescriptor}
    (hnodup : (fields.map FieldDescriptor.name).Nodup) (hmem : field ∈ fields) :
    findFieldDescriptor fields field.name = some field := by
  refine (find?_eq_some_of_unique fun a ha b hb h h' => ?_).mpr ⟨hmem, beq_self_eq_true _⟩
  exact List.inj_on_of_nodup_map hnodup ha hb ((eq_of_beq h).trans (eq_of_beq h').symm)

theorem findIndexDescriptor_of_mem {indexes : List IndexDescriptor} {index : IndexDescriptor}
    (hnodup : (indexes.map IndexDescriptor.name).Nodup) (hmem : index ∈ indexes) :
    findIndexDescriptor indexes index.name = some index := by
  refine (find?_eq_some_of_unique fun a ha b hb h h' => ?_).mpr ⟨hmem, beq_self_eq_true _⟩
  exact List.inj_on_of_nodup_map hnodup ha hb ((eq_of_beq h).trans (eq_of_beq h').symm)

/-- **Upgrades compose**, as long as names are distinct in the last descriptor. -/
theorem Upgrades.trans {first middle last : CollectionDescriptor} (hlast : DistinctNames last)
    (h : Upgrades first middle) (h' : Upgrades middle last) : Upgrades first last where
  name := h.name.trans h'.name
  version := Nat.lt_trans h.version h'.version
  keyFields := h.keyFields.trans h'.keyFields
  fieldKept field hfield := by
    obtain ⟨mid, hmid, htype, htypeName, hrequired⟩ := h.fieldKept field hfield
    have hname : mid.name = field.name := by simpa using List.find?_some hmid
    obtain ⟨found, hfound, htype', htypeName', hrequired'⟩ :=
      h'.fieldKept mid (List.mem_of_find?_eq_some hmid)
    refine ⟨found, hname ▸ hfound, htype.trans htype', htypeName.trans htypeName', ?_⟩
    exact fun hfoundRequired => hrequired (hrequired' hfoundRequired)
  fieldAdded field hfield hnone := by
    cases hmid : findFieldDescriptor middle.fields field.name with
    | none => exact h'.fieldAdded field hfield hmid
    | some mid =>
      -- the field came with the middle descriptor, and was not required there
      have hname : mid.name = field.name := by simpa using List.find?_some hmid
      have hmem := List.mem_of_find?_eq_some hmid
      have hoptional : mid.required = false := h.fieldAdded mid hmem (hname ▸ hnone)
      obtain ⟨found, hfound, -, -, hrequired⟩ := h'.fieldKept mid hmem
      rw [hname, findFieldDescriptor_of_mem hlast.fields hfield] at hfound
      obtain rfl := Option.some_inj.mp hfound
      by_contra hne
      rw [hrequired (by simpa using hne)] at hoptional
      cases hoptional
  indexKept index hindex := by
    obtain ⟨mid, hmid, hfields, hunique⟩ := h.indexKept index hindex
    have hname : mid.name = index.name := by simpa using List.find?_some hmid
    obtain ⟨found, hfound, hfields', hunique'⟩ := h'.indexKept mid (List.mem_of_find?_eq_some hmid)
    exact ⟨found, hname ▸ hfound, hfields.trans hfields', hunique.trans hunique'⟩
  indexAdded index hindex hnone := by
    cases hmid : findIndexDescriptor middle.indexes index.name with
    | none => exact h'.indexAdded index hindex hmid
    | some mid =>
      have hname : mid.name = index.name := by simpa using List.find?_some hmid
      have hmem := List.mem_of_find?_eq_some hmid
      obtain ⟨found, hfound, -, hunique⟩ := h'.indexKept mid hmem
      rw [hname, findIndexDescriptor_of_mem hlast.indexes hindex] at hfound
      obtain rfl := Option.some_inj.mp hfound
      exact hunique ▸ h.indexAdded mid hmem (hname ▸ hnone)

/-! ## Calls -/

inductive EnsureCall where
  | ensureCollection (descriptor : CollectionDescriptor)
  | ensureCollections (descriptors : List CollectionDescriptor)

def EnsureCall.descriptors : EnsureCall → List CollectionDescriptor
  | .ensureCollection descriptor => [descriptor]
  | .ensureCollections descriptors => descriptors

def EnsureCall.run (s : State δ) : EnsureCall → Except Error (State δ)
  | .ensureCollection descriptor => Cpp.ensureCollection s descriptor
  | .ensureCollections descriptors => Cpp.ensureCollections s descriptors

/-- The calls one after the other; one that throws changes nothing. -/
def ensured (s : State δ) : List EnsureCall → State δ
  | [] => s
  | call :: rest =>
    match call.run s with
    | .ok s' => ensured s' rest
    | .error _ => ensured s rest

/-- The descriptors of the calls that returned. -/
def accepted (s : State δ) : List EnsureCall → List CollectionDescriptor
  | [] => []
  | call :: rest =>
    match call.run s with
    | .ok s' => call.descriptors ++ accepted s' rest
    | .error _ => accepted s rest

theorem EnsureCall.run_eq (s : State δ) (call : EnsureCall) :
    call.run s = Cpp.ensureCollections s call.descriptors := by
  cases call with
  | ensureCollection descriptor => exact ensureCollection_eq s descriptor
  | ensureCollections descriptors => rfl

/-! ## The invariant -/

/-- Every descriptor of the list may be replaced by the one that is registered for its collection. -/
structure Evolved (done : List CollectionDescriptor)
    (collections : OrderedMap CollectionName CollectionDescriptor) : Prop where
  current : ∀ c d, collections[c]? = some d → d.name = c ∧ DistinctNames d
  covered : ∀ d ∈ done, ∃ current, collections[d.name]? = some current ∧
    (d = current ∨ Upgrades d current)

/-- **One descriptor of a batch** keeps the invariant. -/
theorem Evolved.stage {done : List CollectionDescriptor}
    {staged staged' : OrderedMap CollectionName CollectionDescriptor}
    {descriptor : CollectionDescriptor} (h : Evolved done staged)
    (hdistinct : DistinctNames descriptor) (hstage : stageDescriptor staged descriptor = .ok staged') :
    Evolved (done ++ [descriptor]) staged' := by
  obtain ⟨rfl, hvalid⟩ := stageDescriptor_ok hstage
  refine ⟨fun c d hd => ?_, fun d hd => ?_⟩
  · rw [OrderedMap.find_insert] at hd
    by_cases hc : c = descriptor.name
    · rw [if_pos hc, Option.some_inj] at hd
      exact hd ▸ ⟨hc.symm, hdistinct⟩
    · rw [if_neg hc] at hd
      exact h.current c d hd
  · rw [OrderedMap.find_insert]
    rcases List.mem_append.mp hd with hold | hnew
    · obtain ⟨current, hcurrent, hcovers⟩ := h.covered d hold
      by_cases hname : d.name = descriptor.name
      · -- the registered descriptor is replaced by one that upgrades it
        rw [if_pos hname]
        refine ⟨descriptor, rfl, ?_⟩
        rcases upgrades_of_validate (hvalid current (hname ▸ hcurrent)) with rfl | hupgrade
        · exact hcovers
        · rcases hcovers with rfl | hearlier
          · exact Or.inr hupgrade
          · exact Or.inr (hearlier.trans hdistinct hupgrade)
      · rw [if_neg hname]
        exact ⟨current, hcurrent, hcovers⟩
    · rw [List.mem_singleton.mp hnew, if_pos rfl]
      exact ⟨descriptor, rfl, Or.inl rfl⟩

/-- A batch keeps the invariant. -/
theorem Evolved.batch {done descriptors : List CollectionDescriptor}
    {collections staged : OrderedMap CollectionName CollectionDescriptor} (h : Evolved done collections)
    (hdistinct : ∀ d ∈ descriptors, DistinctNames d)
    (hstage : descriptors.foldlM stageDescriptor collections = .ok staged) :
    Evolved (done ++ descriptors) staged := by
  refine foldlM_invariant (fun batch staged => Evolved (done ++ batch) staged)
    (by rwa [List.append_nil]) ?_ hstage
  intro batch descriptor rest mid mid' hdescriptors hmid hstep
  rw [← List.append_assoc]
  exact hmid.stage (hdistinct descriptor (by simp [hdescriptors])) hstep

/-- **The calls keep the invariant.** -/
theorem evolved_ensured {s : State δ} {done : List CollectionDescriptor}
    (h : Evolved done s.collections) (calls : List EnsureCall)
    (hdistinct : ∀ call ∈ calls, ∀ d ∈ call.descriptors, DistinctNames d) :
    Evolved (done ++ accepted s calls) (ensured s calls).collections := by
  induction calls generalizing s done with
  | nil => rwa [accepted, ensured, List.append_nil]
  | cons call rest ih =>
    have hrest : ∀ call ∈ rest, ∀ d ∈ call.descriptors, DistinctNames d :=
      fun call hcall => hdistinct call (List.mem_cons_of_mem _ hcall)
    rw [accepted, ensured]
    cases hrun : call.run s with
    | error e => exact ih h hrest
    | ok s' =>
      rw [call.run_eq] at hrun
      obtain ⟨staged, hstage, rfl⟩ := ensureCollections_ok hrun
      rw [← List.append_assoc]
      exact ih (h.batch (hdistinct call List.mem_cons_self) hstage) hrest

theorem ensured_append (s : State δ) (calls calls' : List EnsureCall) :
    ensured s (calls ++ calls') = ensured (ensured s calls) calls' := by
  induction calls generalizing s with
  | nil => rfl
  | cons call rest ih =>
    rw [List.cons_append, ensured, ensured]
    cases call.run s with
    | error e => exact ih s
    | ok s' => exact ih s'

/-- What is registered now may be replaced by what is registered later. -/
theorem registered_ensured {s : State δ} {done : List CollectionDescriptor}
    (h : Evolved done s.collections) (calls : List EnsureCall)
    (hdistinct : ∀ call ∈ calls, ∀ d ∈ call.descriptors, DistinctNames d) {c : CollectionName}
    {d : CollectionDescriptor} (hd : s.collections[c]? = some d) :
    ∃ current, (ensured s calls).collections[c]? = some current ∧
      d.schemaVersion ≤ current.schemaVersion := by
  have hname := (h.current c d hd).1
  have hadd : Evolved (done ++ [d]) s.collections := by
    refine ⟨h.current, fun d' hd' => ?_⟩
    rcases List.mem_append.mp hd' with hold | hnew
    · exact h.covered d' hold
    · rw [List.mem_singleton.mp hnew]
      exact ⟨d, hname ▸ hd, Or.inl rfl⟩
  obtain ⟨current, hcurrent, hcovers⟩ := (evolved_ensured hadd calls hdistinct).covered d (by simp)
  refine ⟨current, hname ▸ hcurrent, ?_⟩
  rcases hcovers with rfl | hupgrade
  · exact Nat.le_refl _
  · exact Nat.le_of_lt hupgrade.version

theorem evolved_empty : Evolved [] (InMemoryState.empty : State δ).collections :=
  ⟨fun c d hd => by simp [InMemoryState.empty] at hd, nofun⟩

/-- **Schema evolution is monotone**: every descriptor that was ever accepted may still be replaced by
    the one that is registered, and the registered schema version never decreases. -/
theorem schema_evolution_monotone (calls : List EnsureCall)
    (hdistinct : ∀ call ∈ calls, ∀ d ∈ call.descriptors, DistinctNames d) :
    (∀ d ∈ accepted (InMemoryState.empty : State δ) calls, ∃ current,
      (ensured (InMemoryState.empty : State δ) calls).collections[d.name]? = some current ∧
        (compareCollectionDescriptors d current).status ≠ .incompatible) ∧
    ∀ before after, calls = before ++ after → ∀ (c : CollectionName) (d : CollectionDescriptor),
      (ensured (InMemoryState.empty : State δ) before).collections[c]? = some d →
        ∃ current : CollectionDescriptor,
        (ensured (InMemoryState.empty : State δ) calls).collections[c]? = some current ∧
          d.schemaVersion ≤ current.schemaVersion := by
  refine ⟨fun d hd => ?_, ?_⟩
  · have hall := evolved_ensured (δ := δ) evolved_empty calls hdistinct
    obtain ⟨current, hcurrent, hcovers⟩ := hall.covered d (by rwa [List.nil_append])
    exact ⟨current, hcurrent, status_ne_incompatible_iff.mpr hcovers⟩
  · rintro before after rfl c d hd
    have hbefore := evolved_ensured (δ := δ) evolved_empty before fun call hcall =>
      hdistinct call (List.mem_append_left _ hcall)
    rw [ensured_append]
    exact registered_ensured hbefore after
      (fun call hcall => hdistinct call (List.mem_append_right _ hcall)) hd

/-! ## An index that is added -/

/-- The collection of users, then with an optional field and an index on it, the second time in one
    batch with a refused attempt behind it. -/
def userUpgrades : List EnsureCall :=
  [.ensureCollection { name := ascii "users", fields := [{ name := ascii "id", required := true }] },
   .ensureCollections
    [{ name := ascii "users", schemaVersion := 2,
       fields := [{ name := ascii "id", required := true }, { name := ascii "city" }] },
     { name := ascii "users", schemaVersion := 3,
       fields := [{ name := ascii "city" }, { name := ascii "id" }],
       indexes := [{ name := ascii "by_city", fields := [ascii "city"] }] }],
   .ensureCollection { name := ascii "users", schemaVersion := 4 }]

theorem distinct_userUpgrades : ∀ call ∈ userUpgrades, ∀ d ∈ call.descriptors, DistinctNames d := by
  have hboth : ∀ call ∈ userUpgrades, ∀ d ∈ call.descriptors,
      (d.fields.map FieldDescriptor.name).Nodup ∧ (d.indexes.map IndexDescriptor.name).Nodup := by
    decide
  exact fun call hcall d hd => ⟨(hboth call hcall d hd).1, (hboth call hcall d hd).2⟩

/-- Three of the four descriptors were accepted, and the last of them is registered. -/
theorem schema_evolution_monotone_users :
    (accepted (InMemoryState.empty : State Empty) userUpgrades).length = 3 ∧
    ((ensured (InMemoryState.empty : State Empty) userUpgrades).collections[ascii "users"]?).map
      CollectionDescriptor.schemaVersion = some 3 ∧
    ∀ d ∈ accepted (InMemoryState.empty : State Empty) userUpgrades, ∃ current,
      (ensured (InMemoryState.empty : State Empty) userUpgrades).collections[d.name]? = some current ∧
        (compareCollectionDescriptors d current).status ≠ .incompatible :=
  ⟨by decide, by decide, (schema_evolution_monotone userUpgrades distinct_userUpgrades).1⟩

end StateSpec.Cpp
