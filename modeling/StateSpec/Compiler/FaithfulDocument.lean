/-
  THE OPENAPI DOCUMENT OF AN ACCEPTED SYSTEM.

  1. A document is faithful exactly when no object of it repeats a name (`faithfulDocument_iff_distinct`): its
     text is that of a layout, and a layout without repetitions is read back as what is laid out.
  2. What the validator sees to: types and declared shapes have distinct names, and so have the fields of
     entities and of declared shapes.  Of the derived shapes only the responses of lists may repeat a field.
  3. `faithfulDocument_iff`: what it does not see to is that no two APIs have the same method and path, and that
     derived shapes take no names of values or enums.
-/
import StateSpec.Compiler.LoweredApis
import StateSpec.Compiler.OpenApiDocument

namespace StateSpec.Compiler

/-- A document that the bindings read: every reference is to a component, and every API is an operation. -/
def FaithfulDocument (δ : Type) [Strtod δ] (system : IrSystem) : Prop :=
  ∃ document : Json δ, JsonParser.parse (renderOpenapi system) = .ok document ∧
    (∀ reference, Json.Under (ascii "$ref") reference document → ∃ name, reference = componentRef name ∧
      (locate document [ascii "components", ascii "schemas", name]).isSome = true) ∧
    ∀ api ∈ system.apis,
      locate document [ascii "paths", openapiApiPath api, openapiApiMethod api, ascii "operationId"] =
        some (.string api.name)

/-- The names of values and enums. -/
def declaredTypes (system : SystemDecl) : List Bytes :=
  system.values.map ValueDecl.name ++ system.enums.map EnumDecl.name

/-- The field of a list's response with its items. -/
def listField (entity : EntityDecl) : Bytes :=
  lowerCamelIdentifier (pluralPascalIdentifier entity.name) (ascii "entities")

/-- Nothing takes the place or the name of another. -/
structure NamesApart (system : SystemDecl) : Prop where
  places : ((lowerToIr system).apis.map apiKey).Nodup
  shapes : ∀ shape ∈ derivedShapes system, shape.name ∉ declaredTypes system
  lists : ∀ entity ∈ system.entities, ∀ api ∈ entity.api, ∀ list ∈ api.lists,
    listResponse entity list ∈ (lowerToIr system).shapes → listField entity ∉ listSelectorFields entity list
  operators : ∀ externalSystem ∈ system.externalSystems, ∀ metadata ∈ externalSystem.metadata,
    ∀ entity ∈ metadata.entity,
      entity ++ ascii "Request" ∉ declaredTypes system ∧ entity ++ ascii "Response" ∉ declaredTypes system

/-! ## Documents and layouts -/

/-- **Faithful is distinct.** -/
theorem faithfulDocument_iff_distinct {δ : Type} [Strtod δ] (system : IrSystem) : FaithfulDocument δ system ↔
    (documentLayout (withGeneratedOperatorMetadataOpenapi system)).Distinct := by
  have hparse : JsonParser.parse (δ := δ) (renderOpenapi system) =
      (documentLayout (withGeneratedOperatorMetadataOpenapi system)).read := by
    rw [renderOpenapi, renderDocument_eq, JsonParser.parse_text]
  constructor
  · rintro ⟨document, hread, -, -⟩
    by_contra hrepeated
    rw [hparse, Layout.read_of_not_distinct hrepeated] at hread
    cases hread
  · intro hdistinct
    refine ⟨_, hparse.trans (Layout.read_of_distinct hdistinct), fun reference hunder => ?_, fun api hapi => ?_⟩
    · obtain ⟨name, hname, rfl⟩ := refersTo_document _ reference (Layout.under_of_value hunder)
      exact ⟨name, rfl, locate_component hdistinct hname⟩
    · exact locate_operation hdistinct ((extends_generated system).apis api hapi)

/-! ## Fields of derived shapes -/

section Fields

variable {entity : EntityDecl} {fields : List IrField}

theorem containsField_iff {name : Bytes} : containsField fields name = true ↔ name ∈ fields.map IrField.name := by
  rw [containsField, List.any_eq_true, List.mem_map]
  simp only [decide_eq_true_iff]

/-- A field with a new name keeps the names apart. -/
theorem nodup_concatField {field : IrField} (h : (fields.map IrField.name).Nodup)
    (hnew : field.name ∉ fields.map IrField.name) : ((fields ++ [field]).map IrField.name).Nodup := by
  rw [List.map_append, List.map_singleton]
  exact List.nodup_append.mpr ⟨h, List.nodup_singleton _, fun name hname name' hname' heq =>
    hnew (List.mem_singleton.mp hname' ▸ heq ▸ hname)⟩

theorem nodup_appendField (h : (fields.map IrField.name).Nodup) (name : Bytes) :
    ((appendField entity fields name).map IrField.name).Nodup := by
  unfold appendField
  split
  · exact h
  · rename_i hnew
    exact nodup_concatField h fun hmem => hnew (containsField_iff.mpr hmem)

theorem nodup_appendFields (names : List Bytes) (h : (fields.map IrField.name).Nodup) :
    ((names.foldl (appendField entity) fields).map IrField.name).Nodup := by
  induction names generalizing fields with
  | nil => exact h
  | cons name rest ih => exact ih (nodup_appendField h name)

/-- What is appended is there. -/
theorem mem_appendFields {names : List Bytes} {name : Bytes} :
    name ∈ (names.foldl (appendField entity) fields).map IrField.name ↔
      name ∈ fields.map IrField.name ∨ name ∈ names := by
  induction names generalizing fields with
  | nil => simp
  | cons first rest ih =>
    have hstep : name ∈ (appendField entity fields first).map IrField.name ↔
        name ∈ fields.map IrField.name ∨ name = first := by
      unfold appendField
      split
      · rename_i hold
        exact ⟨.inl, fun h => h.elim id fun heq => heq ▸ containsField_iff.mp hold⟩
      · rw [List.map_append, List.mem_append, List.map_singleton, List.mem_singleton]
    rw [List.foldl_cons, ih, hstep, List.mem_cons, or_assoc]

theorem nodup_responseFields (entity : EntityDecl) : ((entityResponseFields entity).map IrField.name).Nodup := by
  have hothers : ∀ (declared : List FieldDecl) {fields : List IrField}, (fields.map IrField.name).Nodup →
      ((declared.foldl appendOtherField fields).map IrField.name).Nodup := by
    intro declared
    induction declared with
    | nil => exact fun h => h
    | cons field rest ih =>
      intro fields h
      refine ih ?_
      unfold appendOtherField
      split
      · exact h
      · rename_i hnew
        exact nodup_concatField h fun hmem => hnew (.inl (containsField_iff.mpr hmem))
  have hfoundational : ∀ {fields : List IrField} (name : Bytes), (fields.map IrField.name).Nodup →
      ((appendFoundationalField entity fields name).map IrField.name).Nodup := by
    intro fields name h
    unfold appendFoundationalField
    split
    · exact nodup_appendField h name
    · exact h
  have hkeys := @nodup_appendFields entity [] entity.keyFields List.nodup_nil
  exact hfoundational _ (hfoundational _ (hfoundational _ (hothers entity.fields hkeys)))

theorem nodup_listResponse {list : EntityApiListDecl} :
    ((listResponse entity list).fields.map IrField.name).Nodup ↔
      listField entity ∉ listSelectorFields entity list := by
  have hselector := @nodup_appendFields entity [] (listSelectorFields entity list) List.nodup_nil
  have hmem : listField entity ∈ ((listSelectorFields entity list).foldl (appendField entity) []).map
      IrField.name ↔ listField entity ∈ listSelectorFields entity list :=
    mem_appendFields.trans (or_iff_right List.not_mem_nil)
  constructor
  · intro h hlisted
    rw [listResponse, List.map_append, List.map_singleton, List.nodup_append] at h
    exact h.2.2 _ (hmem.mpr hlisted) _ (List.mem_singleton_self _) rfl
  · intro h
    exact nodup_concatField hselector fun hlisted => h (hmem.mp hlisted)

/-- The fields of a derived shape, but for a list. -/
theorem mem_entityApiShapes {shape : IrShape} (h : shape ∈ entityApiShapes entity) :
    (shape.fields.map IrField.name).Nodup ∨
      ∃ api ∈ entity.api, ∃ list ∈ api.lists, shape = listResponse entity list := by
  unfold entityApiShapes at h
  cases hapi : entity.api with
  | none =>
    rw [hapi] at h
    exact absurd h List.not_mem_nil
  | some api =>
    rw [hapi, Option.elim_some, List.mem_cons, List.mem_append, List.mem_append] at h
    rcases h with rfl | (h | h) | h
    · exact .inl (nodup_responseFields entity)
    · obtain ⟨create, -, rfl⟩ := List.mem_map.mp h
      exact .inl (nodup_appendFields _ List.nodup_nil)
    · obtain ⟨update, -, rfl⟩ := List.mem_map.mp h
      exact .inl (nodup_appendFields _ List.nodup_nil)
    · obtain ⟨list, hlist, rfl⟩ := List.mem_map.mp h
      exact .inr ⟨api, rfl, list, hlist, rfl⟩

end Fields

/-! ## What the validator sees to -/

theorem nodup_of_clean {fields : List FieldDecl} (h : Clean (validateFieldDuplicates fields)) :
    (fieldNames fields).Nodup := (clean_eachSeen_names.mp h).1

theorem names_lowerFields (fields : List FieldDecl) : (lowerFields fields).map IrField.name = fieldNames fields := by
  rw [lowerFields, List.map_map]
  rfl

/-- A symbol of an entity is one that the system declares. -/
theorem entity_of_symbol {system : SystemDecl} {symbol : Symbol} (h : symbol ∈ declaredSymbols system)
    (hkind : symbol.kind = .entity) : ∃ entity ∈ system.entities, symbol = ⟨.entity, entity.name, entity.range⟩ := by
  simp only [declaredSymbols, List.mem_append, List.mem_map, List.mem_flatMap, List.mem_cons, List.not_mem_nil,
    or_false] at h
  rcases h with (((((((((((((((h | h) | h) | h) | h) | h) | h) | h) | h) | h) | h) | h) | h) | h) | h) | h) | h
  · rw [h] at hkind
    cases hkind
  · obtain ⟨entity, hentity, rfl⟩ := h
    exact ⟨entity, hentity, rfl⟩
  -- symbols of other kinds
  all_goals first
    | obtain ⟨_, _, rfl⟩ := h
      cases hkind
    | obtain ⟨_, _, rfl | ⟨_, _, rfl⟩⟩ := h
      · cases hkind
      · cases hkind

namespace Accepted

variable {system : SystemDecl} (h : Accepted system)

include h

/-- Types and declared shapes have names of their own. -/
theorem typeAndShapeNames : (declaredTypes system ++ system.shapes.map ShapeDecl.name).Nodup := by
  refine h.table.2.sublist ?_
  simp only [declaredSymbols, List.map_append, List.map_map]
  iterate 11 refine List.Sublist.trans ?_ (List.sublist_append_left _ _)
  have htypes := (List.sublist_append_right
    ([system.name] ++ system.entities.map EntityDecl.name) (system.values.map ValueDecl.name)).append
    (List.Sublist.refl (system.enums.map EnumDecl.name))
  exact (htypes.trans (List.sublist_append_left _ _)).append (List.Sublist.refl _)

theorem entityFieldNames {entity : EntityDecl} (hentity : entity ∈ system.entities) :
    (fieldNames entity.fields).Nodup := by
  have hclean := h.entities entity hentity
  simp only [validateEntity, clean_append] at hclean
  obtain ⟨⟨⟨⟨⟨⟨⟨⟨⟨⟨⟨⟨⟨-, hduplicates⟩, -⟩, -⟩, -⟩, -⟩, -⟩, -⟩, -⟩, -⟩, -⟩, -⟩, -⟩, -⟩ := hclean
  exact nodup_of_clean hduplicates

theorem shapeFieldNames {shape : ShapeDecl} (hshape : shape ∈ system.shapes) :
    (fieldNames shape.fields).Nodup := by
  have hclean := clean_flatMap.mp h.shapes shape hshape
  simp only [clean_append] at hclean
  exact nodup_of_clean hclean.1.2

/-- The metadata of an external system is an entity's. -/
theorem metadataEntity {externalSystem : ExternalSystemDecl} (hexternal : externalSystem ∈ system.externalSystems)
    {metadata : ExternalSystemMetadataDecl} (hmetadata : externalSystem.metadata = some metadata) :
    ∃ entity ∈ system.entities, metadata.entity = some entity.name := by
  have hclean := clean_flatMap.mp h.externalSystems externalSystem hexternal
  rw [hmetadata] at hclean
  simp only [clean_append, Option.elim_some, validateExternalSystemMetadata, clean_reportIf] at hclean
  obtain ⟨-, hmetadataClean⟩ := hclean
  cases hentity : metadata.entity with
  | none => exact absurd (hmetadataClean.1.1.1.1.1 (by rw [hentity]; rfl)) (not_clean_requiredError _ _ _)
  | some name =>
    have hreference := hmetadataClean.2
    rw [hentity] at hreference
    simp only [clean_append, validateSymbolReference] at hreference
    obtain ⟨hreference, -⟩ := hreference
    rcases hfind : SymbolTable.find (declaredSymbols system) name with _ | symbol
    · rw [hfind] at hreference
      exact absurd hreference (not_clean_unknownReferenceError _ _ _)
    · rw [hfind, clean_reportIf] at hreference
      have hkind : symbol.kind = .entity := by
        by_contra hother
        exact not_clean_unknownReferenceError _ _ _
          (hreference fun hmem => hother (List.mem_singleton.mp hmem))
      obtain ⟨hmem, rfl⟩ := (find_eq_some h.table.2).mp hfind
      obtain ⟨entity, hdeclared, rfl⟩ := entity_of_symbol hmem hkind
      exact ⟨entity, hdeclared, rfl⟩

end Accepted

/-! ## The lowered system -/

section Lowered

variable (system : SystemDecl)

theorem typeNames_lowerToIr : typeNames (lowerToIr system) = declaredTypes system := by
  obtain ⟨apiServers, heq⟩ := lowerToIr_eq system
  rw [heq, typeNames, declaredTypes]
  simp only [lowerDeclarations, List.map_map]
  rfl

theorem shapes_lowerToIr :
    (lowerToIr system).shapes = (derivedShapes system).foldl addShape (system.shapes.map lowerShape) := by
  rw [lowerToIr_shapes, derivedShapes, List.foldl_flatMap]
  rfl

theorem externalSystems_lowerToIr :
    (lowerToIr system).externalSystems = system.externalSystems.map (lowerExternalSystem system) := by
  obtain ⟨apiServers, heq⟩ := lowerToIr_eq system
  rw [heq]
  rfl

variable {system}

theorem forall_operatorShapes {P : IrShape → Prop} : (∀ shape ∈ allOperatorShapes (lowerToIr system), P shape) ↔
    ∀ externalSystem ∈ system.externalSystems, ∀ lowered ∈ (lowerExternalSystem system externalSystem).metadata,
      ∀ shape ∈ operatorShapes (lowerToIr system) lowered, P shape := by
  rw [allOperatorShapes, externalSystems_lowerToIr, List.forall_mem_flatMap, List.forall_mem_map]
  refine forall₂_congr fun externalSystem _ => ?_
  cases (lowerExternalSystem system externalSystem).metadata with
  | none => simp
  | some lowered => simp

variable (h : Accepted system)

include h

/-- The shapes of an external system with metadata. -/
theorem operatorShapes_lowered {externalSystem : ExternalSystemDecl}
    (hexternal : externalSystem ∈ system.externalSystems) {lowered : IrExternalSystemMetadata}
    (hlowered : (lowerExternalSystem system externalSystem).metadata = some lowered) :
    ∃ metadata ∈ externalSystem.metadata, ∃ entity ∈ system.entities, metadata.entity = some entity.name ∧
      operatorShapes (lowerToIr system) lowered =
        [⟨entity.name ++ ascii "Request", operatorRequestFields (lowerEntity entity) lowered⟩,
          ⟨entity.name ++ ascii "Response", lowerFields entity.fields⟩] := by
  obtain ⟨metadata, hmetadata, rfl⟩ := Option.map_eq_some_iff.mp hlowered
  obtain ⟨entity, hentity, hname⟩ := h.metadataEntity hexternal hmetadata
  refine ⟨metadata, hmetadata, entity, hentity, hname, ?_⟩
  have hfind := (findEntity_iff h).mpr ⟨entity, hentity, rfl, rfl⟩
  rw [operatorShapes, lowerToIr_findEntity, hname, Option.getD_some, hfind]
  rfl

theorem nodup_operatorFields {entity : EntityDecl} (hentity : entity ∈ system.entities)
    (metadata : IrExternalSystemMetadata) :
    ((operatorRequestFields (lowerEntity entity) metadata).map IrField.name).Nodup := by
  have hnames : (lowerEntity entity).fields.map IrField.name = fieldNames entity.fields :=
    names_lowerFields entity.fields
  have hkept : (operatorRequestFields (lowerEntity entity) metadata).map IrField.name =
      ((lowerEntity entity).fields.filter fun field =>
        decide (field.name ∉ (lowerEntity entity).keyFields ∧ field.name ∉ canonicalFields)).map IrField.name := by
    rw [operatorRequestFields, List.map_map]
    refine List.map_congr_left fun field _ => ?_
    rw [Function.comp_apply]
    split
    · rfl
    · rfl
  rw [hkept]
  refine List.Nodup.sublist (List.filter_sublist.map _) ?_
  rw [hnames]
  exact h.entityFieldNames hentity

theorem operatorNames_iff : (∀ shape ∈ allOperatorShapes (lowerToIr system), shape.name ∉ declaredTypes system) ↔
    ∀ externalSystem ∈ system.externalSystems, ∀ metadata ∈ externalSystem.metadata,
      ∀ entity ∈ metadata.entity,
        entity ++ ascii "Request" ∉ declaredTypes system ∧ entity ++ ascii "Response" ∉ declaredTypes system := by
  rw [forall_operatorShapes]
  refine forall₂_congr fun externalSystem hexternal => ⟨fun hall metadata hmetadata entity hentity => ?_,
    fun hall lowered hlowered => ?_⟩
  · obtain ⟨lowered, hlowered⟩ : ∃ lowered, (lowerExternalSystem system externalSystem).metadata = some lowered := by
      rw [lowerExternalSystem, hmetadata]
      exact ⟨_, rfl⟩
    obtain ⟨metadata', hmetadata', declared, -, hname, hshapes⟩ := operatorShapes_lowered h hexternal hlowered
    obtain rfl : metadata = metadata' := Option.some.inj (hmetadata.symm.trans hmetadata')
    obtain rfl : declared.name = entity := Option.some.inj (hname.symm.trans hentity)
    have hnames := hall lowered hlowered
    rw [hshapes, List.forall_mem_cons, List.forall_mem_singleton] at hnames
    exact hnames
  · obtain ⟨metadata, hmetadata, declared, -, hname, hshapes⟩ := operatorShapes_lowered h hexternal hlowered
    rw [hshapes, List.forall_mem_cons, List.forall_mem_singleton]
    exact hall metadata hmetadata declared.name hname

theorem nodup_operatorShapes : ∀ shape ∈ allOperatorShapes (lowerToIr system),
    (shape.fields.map IrField.name).Nodup := by
  rw [forall_operatorShapes]
  intro externalSystem hexternal lowered hlowered
  obtain ⟨-, -, declared, hdeclared, -, hshapes⟩ := operatorShapes_lowered h hexternal hlowered
  rw [hshapes, List.forall_mem_cons, List.forall_mem_singleton]
  refine ⟨nodup_operatorFields h hdeclared lowered, ?_⟩
  show ((lowerFields declared.fields).map IrField.name).Nodup
  rw [names_lowerFields]
  exact h.entityFieldNames hdeclared

/-- Of the shapes of the lowered system, only responses of lists may repeat a field. -/
theorem shapeFields_iff : (∀ shape ∈ (lowerToIr system).shapes, (shape.fields.map IrField.name).Nodup) ↔
    ∀ entity ∈ system.entities, ∀ api ∈ entity.api, ∀ list ∈ api.lists,
      listResponse entity list ∈ (lowerToIr system).shapes → listField entity ∉ listSelectorFields entity list := by
  constructor
  · intro hall entity _ api _ list _ hkept
    exact nodup_listResponse.mp (hall _ hkept)
  · intro hlists shape hshape
    have hfrom := hshape
    rw [lowerToIr_shapes, lowerDeclarations_shapes, List.mem_append] at hfrom
    rcases hfrom with hdeclared | hderived
    · obtain ⟨declared, hmem, rfl⟩ := List.mem_map.mp hdeclared
      show ((lowerFields declared.fields).map IrField.name).Nodup
      rw [names_lowerFields]
      exact h.shapeFieldNames hmem
    · obtain ⟨entity, hentity, hshapeOf⟩ := List.mem_flatMap.mp (mem_of_fresh hderived)
      rcases mem_entityApiShapes hshapeOf with hnodup | ⟨api, hapi, list, hlist, rfl⟩
      · exact hnodup
      · exact nodup_listResponse.mpr (hlists entity hentity api hapi list hlist hshape)

/-- **When the document of a system is faithful.** -/
theorem faithfulDocument_iff (δ : Type) [Strtod δ] : FaithfulDocument δ (lowerToIr system) ↔ NamesApart system := by
  have hextends := extends_generated (lowerToIr system)
  have hnames : (componentNames (withGeneratedOperatorMetadataOpenapi (lowerToIr system))).Nodup ↔
      (∀ shape ∈ derivedShapes system, shape.name ∉ declaredTypes system) ∧
        ∀ shape ∈ allOperatorShapes (lowerToIr system), shape.name ∉ declaredTypes system := by
    show (typeNames _ ++ _).Nodup ↔ _
    rw [hextends.typeNames, hextends.shapes, typeNames_lowerToIr, nodup_addShapes, shapes_lowerToIr,
      nodup_addShapes, List.map_map]
    exact and_congr_left' (and_iff_right h.typeAndShapeNames)
  rw [faithfulDocument_iff_distinct, distinct_document, hextends.places, hnames, hextends.shapes,
    forall_addShapes (nodup_operatorShapes h), shapeFields_iff h, operatorNames_iff h]
  constructor
  · rintro ⟨hplaces, ⟨hshapes, hoperators⟩, hlists⟩
    exact ⟨hplaces, hshapes, hlists, hoperators⟩
  · intro happart
    exact ⟨happart.places, ⟨happart.shapes, happart.operators⟩, happart.lists⟩

end Lowered

theorem namesApart_order : NamesApart (orderSystem orderOperations) where
  places := by decide +kernel
  shapes := by decide +kernel
  lists := by decide +kernel
  operators := by decide +kernel

theorem faithfulDocument_order : FaithfulDocument Empty (lowerToIr (orderSystem orderOperations)) :=
  (faithfulDocument_iff (by decide +kernel) Empty).mpr namesApart_order

/-- Of two lists on one path, the document has two members for one method. -/
theorem lists_on_one_path : ¬ ∀ system, Accepted system → FaithfulDocument Empty (lowerToIr system) := by
  intro hfaithful
  have hdocument := hfaithful
    (orderSystem
      { lists := [
          { name := some (ascii "ListOrders"), path := some (ascii "/v1/\x7btenant_id\x7d/orders")
            by' := [ascii "tenant_id"] },
          { name := some (ascii "BrowseOrders"), path := some (ascii "/v1/\x7btenant_id\x7d/orders")
            by' := [ascii "tenant_id"] }] })
    (by decide +kernel)
  have hplaces := (distinct_document _).mp ((faithfulDocument_iff_distinct _).mp hdocument) |>.1
  rw [(extends_generated _).places] at hplaces
  revert hplaces
  decide +kernel

end StateSpec.Compiler
