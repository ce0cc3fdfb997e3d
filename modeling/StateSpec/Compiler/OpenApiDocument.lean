/-
  THE OPENAPI DOCUMENT IS FAITHFUL — when `render_openapi` writes a document that the bindings can read, with every
  reference a component and every operation in its place.

  1. The text is always laid out as JSON, so the only thing that may go wrong is that an object repeats a member
     name.  The objects with names of their own are those of a path, of the components and of the fields of a
     shape (`distinct_document`).
  2. The paths of a document are in order, and each has the APIs on it (`mem_apisByPath`).
  3. What is generated for operators adds no operation that is there already, and no shape; it may take the name
     of a value or of an enum (`componentNames_extended`).
  4. A DOCUMENT IS FAITHFUL exactly when no two APIs have the same path and method, no two components the same name
     and no two fields of a shape the same name (`faithfulDocument_iff`).
-/
import StateSpec.Compiler.OpenApiText
import StateSpec.Compiler.LoweredApis

namespace StateSpec.Compiler

open Generated (isOptionalType stripOptionalType)

variable {δ : Type}

/-! ## Objects and arrays -/

section Objects

variable {lead close : Nat} {members : List (Bytes × Layout)} {name text : Bytes}

theorem distinct_object {gap lead close : Blanks} :
    (Layout.object (members.map fun member => (gap, lead, member)) close).Distinct ↔
      (members.map Prod.fst).Nodup ∧ ∀ member ∈ members, member.2.Distinct := by
  rw [Layout.Distinct, Layout.distinctMembers_iff, List.map_map, List.forall_mem_map]
  exact Iff.rfl

theorem distinct_block : (block lead close members).Distinct ↔
    (members.map Prod.fst).Nodup ∧ ∀ member ∈ members, member.2.Distinct := distinct_object

theorem distinct_inline : (inline members).Distinct ↔
    (members.map Prod.fst).Nodup ∧ ∀ member ∈ members, member.2.Distinct := distinct_object

theorem distinct_blockArray {items : List Layout} :
    (blockArray lead close items).Distinct ↔ ∀ item ∈ items, item.Distinct := by
  rw [blockArray, Layout.Distinct, Layout.distinctItems_iff, List.forall_mem_map]

/-- An array of strings. -/
theorem distinct_quotedArray {α : Type} (name : α → Bytes) (items : List α) :
    (inlineArray (items.map fun item => .string (name item))).Distinct := by
  cases items with
  | nil => trivial
  | cons first rest =>
    rw [List.map_cons, inlineArray, Layout.Distinct, Layout.distinctItems_iff, List.forall_mem_cons,
      List.forall_mem_map, List.forall_mem_map]
    exact ⟨trivial, fun _ _ => trivial⟩

theorem under_object {gap lead close : Blanks}
    (h : Layout.Under name text (.object (members.map fun member => (gap, lead, member)) close)) :
    ∃ member ∈ members, (member.1 = name ∧ member.2 = .string text) ∨ Layout.Under name text member.2 := by
  cases h with
  | here hmem =>
    obtain ⟨member, hmember, heq⟩ := List.mem_map.mp hmem
    cases heq
    exact ⟨_, hmember, .inl ⟨rfl, rfl⟩⟩
  | member hmem hunder =>
    obtain ⟨member, hmember, heq⟩ := List.mem_map.mp hmem
    cases heq
    exact ⟨_, hmember, .inr hunder⟩

theorem under_block (h : Layout.Under name text (block lead close members)) :
    ∃ member ∈ members, (member.1 = name ∧ member.2 = .string text) ∨ Layout.Under name text member.2 :=
  under_object h

theorem under_inline (h : Layout.Under name text (inline members)) :
    ∃ member ∈ members, (member.1 = name ∧ member.2 = .string text) ∨ Layout.Under name text member.2 :=
  under_object h

theorem not_under_string {value : Bytes} : ¬ Layout.Under name text (.string value) := nofun

theorem not_under_yes : ¬ Layout.Under name text .yes := nofun

theorem not_under_quotedArray {α : Type} (item : α → Bytes) (items : List α) :
    ¬ Layout.Under name text (inlineArray (items.map fun a => .string (item a))) := by
  intro h
  cases items with
  | nil =>
    cases h with
    | item hmem _ => exact absurd hmem List.not_mem_nil
  | cons first rest =>
    cases h with
    | item hmem hunder =>
      rcases List.mem_cons.mp hmem with heq | hmem
      · cases heq
        exact not_under_string hunder
      · obtain ⟨other, hother, heq⟩ := List.mem_map.mp hmem
        cases heq
        obtain ⟨a, -, rfl⟩ := List.mem_map.mp hother
        exact not_under_string hunder

/-- A member of an object is found under its name. -/
theorem find_block (hnodup : (members.map Prod.fst).Nodup) {layout : Layout} (h : (name, layout) ∈ members) :
    ((block lead close members).value (δ := δ)).find name = some layout.value := by
  rw [block, Layout.find_value, List.map_map]
  obtain ⟨before, after, rfl⟩ := List.append_of_mem h
  rw [List.map_append, List.map_cons, List.lookup_eq_some_iff]
  refine ⟨_, _, rfl, fun other hother => ?_⟩
  obtain ⟨member, hmember, rfl⟩ := List.mem_map.mp hother
  rw [List.map_append, List.map_cons, List.nodup_append] at hnodup
  rw [bne_iff_ne]
  exact fun heq => hnodup.2.2 member.1 (List.mem_map_of_mem hmember) name List.mem_cons_self heq.symm

end Objects

/-! ## Schemas -/

/-- The names that the members of a schema have. -/
def schemaNames : List (List Bytes) :=
  [[ascii "$ref"], [ascii "type", ascii "items"], [ascii "type", ascii "uniqueItems", ascii "items"],
    [ascii "type", ascii "additionalProperties"], [ascii "type"], [ascii "type", ascii "format"]]

theorem names_schemaMembers (system : IrSystem) (rawType : Bytes) :
    (schemaMembers system rawType).map Prod.fst ∈ schemaNames := by
  rw [schemaMembers_eq]
  cases typeForm system (stripOptionalType rawType) with
  | scalar lowered =>
    have hform := scalarMembers_form lowered
    rw [formMembers]
    generalize scalarMembers lowered = members at hform ⊢
    cases hform with
    | plain name => exact List.mem_of_elem_eq_true rfl
    | format name format => exact List.mem_of_elem_eq_true rfl
    | anything name => exact List.mem_of_elem_eq_true rfl
  | _ => exact List.mem_of_elem_eq_true rfl

/-- They are distinct, also from that of a constraint. -/
theorem nodup_schemaNames : ∀ names ∈ schemaNames, (names ++ [ascii "x-statespec-constraint"]).Nodup := by
  decide

theorem typeForm_ref {system : IrSystem} {type name : Bytes} (h : typeForm system type = .ref name) :
    name ∈ componentNames system := by
  unfold typeForm at h
  split at h
  · rename_i hmem
    obtain rfl : type = name := TypeForm.ref.inj h
    exact hmem
  · repeat' split at h
    all_goals cases h

/-- What stands in a schema: texts and flags, and the schema of the items.  The text of a reference is that of a
    component. -/
theorem mem_schemaMembers {system : IrSystem} {rawType : Bytes} {member : Bytes × Layout}
    (h : member ∈ schemaMembers system rawType) :
    member.2 = .yes ∨
    (∃ text, member.2 = .string text ∧
      (member.1 = ascii "$ref" → ∃ name ∈ componentNames system, text = componentRef name)) ∨
    ∃ item ∈ (typeForm system (stripOptionalType rawType)).item,
      member.2 = inline (schemaMembers system item) := by
  have hplain : ∀ name, member = typeMember name ∨ member = formatMember name →
      ∃ text, member.2 = .string text ∧
        (member.1 = ascii "$ref" → ∃ name ∈ componentNames system, text = componentRef name) := by
    have htype : ascii "type" ≠ ascii "$ref" := by decide
    have hformat : ascii "format" ≠ ascii "$ref" := by decide
    rintro name (rfl | rfl)
    · exact ⟨_, rfl, fun h => absurd h htype⟩
    · exact ⟨_, rfl, fun h => absurd h hformat⟩
  rw [schemaMembers_eq] at h
  cases hform : typeForm system (stripOptionalType rawType) with
  | ref name =>
    rw [hform] at h
    obtain rfl := List.mem_singleton.mp h
    exact .inr (.inl ⟨_, rfl, fun _ => ⟨name, typeForm_ref hform, rfl⟩⟩)
  | list item =>
    rw [hform] at h
    simp only [formMembers, List.mem_cons, List.not_mem_nil, or_false] at h
    rcases h with h | rfl
    · exact .inr (.inl (hplain _ (.inl h)))
    · exact .inr (.inr ⟨item, rfl, rfl⟩)
  | set item =>
    rw [hform] at h
    simp only [formMembers, List.mem_cons, List.not_mem_nil, or_false] at h
    rcases h with h | rfl | rfl
    · exact .inr (.inl (hplain _ (.inl h)))
    · exact .inl rfl
    · exact .inr (.inr ⟨item, rfl, rfl⟩)
  | map value =>
    rw [hform] at h
    simp only [formMembers, List.mem_cons, List.not_mem_nil, or_false] at h
    rcases h with h | rfl
    · exact .inr (.inl (hplain _ (.inl h)))
    · exact .inr (.inr ⟨value, rfl, rfl⟩)
  | anything =>
    rw [hform] at h
    simp only [formMembers, List.mem_cons, List.not_mem_nil, or_false] at h
    rcases h with h | rfl
    · exact .inr (.inl (hplain _ (.inl h)))
    · exact .inl rfl
  | scalar lowered =>
    have hscalar := scalarMembers_form lowered
    rw [hform, formMembers] at h
    generalize scalarMembers lowered = members at hscalar h
    cases hscalar with
    | plain name => exact .inr (.inl (hplain _ (.inl (List.mem_singleton.mp h))))
    | format name format =>
      rcases List.mem_cons.mp h with h | h
      · exact .inr (.inl (hplain _ (.inl h)))
      · exact .inr (.inl (hplain _ (.inr (List.mem_singleton.mp h))))
    | anything name =>
      rcases List.mem_cons.mp h with h | h
      · exact .inr (.inl (hplain _ (.inl h)))
      · obtain rfl := List.mem_singleton.mp h
        exact .inl rfl

theorem distinct_schema (system : IrSystem) (rawType : Bytes) : (inline (schemaMembers system rawType)).Distinct := by
  induction rawType using schema_induction with
  | step rawType ih =>
    rw [distinct_inline]
    refine ⟨(List.nodup_append.mp (nodup_schemaNames _ (names_schemaMembers system rawType))).1, ?_⟩
    intro member hmember
    rcases mem_schemaMembers hmember with hyes | ⟨text, htext, -⟩ | ⟨item, hitem, hsame⟩
    · rw [hyes]
      trivial
    · rw [htext]
      trivial
    · rw [hsame]
      exact ih item hitem

/-- The references of a layout are to components. -/
def RefersTo (names : List Bytes) (layout : Layout) : Prop :=
  ∀ text, Layout.Under (ascii "$ref") text layout → ∃ name ∈ names, text = componentRef name

theorem refersTo_schema (system : IrSystem) (rawType : Bytes) :
    RefersTo (componentNames system) (inline (schemaMembers system rawType)) := by
  induction rawType using schema_induction with
  | step rawType ih =>
    intro text hunder
    obtain ⟨member, hmember, ⟨hname, htext⟩ | hunder⟩ := under_inline hunder
    · rcases mem_schemaMembers hmember with hyes | ⟨text', htext', href⟩ | ⟨item, hitem, hsame⟩
      · rw [htext] at hyes
        cases hyes
      · obtain rfl : text = text' := by
          rw [htext] at htext'
          exact Layout.string.inj htext'
        exact href hname
      · rw [htext] at hsame
        cases hsame
    · rcases mem_schemaMembers hmember with hyes | ⟨text', htext', -⟩ | ⟨item, hitem, hsame⟩
      · rw [hyes] at hunder
        exact absurd hunder not_under_yes
      · rw [htext'] at hunder
        exact absurd hunder not_under_string
      · rw [hsame] at hunder
        exact ih item hitem text hunder

section References

variable {names : List Bytes} {lead close : Nat} {members : List (Bytes × Layout)}

/-- The references of an object are those of its members, if it is none itself. -/
theorem refersTo_block (h : ∀ member ∈ members,
    (∀ text, member ≠ (ascii "$ref", .string text)) ∧ RefersTo names member.2) :
    RefersTo names (block lead close members) := by
  intro text hunder
  obtain ⟨member, hmember, ⟨hname, htext⟩ | hunder⟩ := under_block hunder
  · exact absurd (Prod.ext hname htext) ((h member hmember).1 text)
  · exact (h member hmember).2 text hunder

theorem refersTo_string (value : Bytes) : RefersTo names (.string value) :=
  fun _ hunder => absurd hunder not_under_string

theorem refersTo_yes : RefersTo names .yes := fun _ hunder => absurd hunder not_under_yes

theorem refersTo_quotedArray {α : Type} (name : α → Bytes) (items : List α) :
    RefersTo names (inlineArray (items.map fun item => .string (name item))) :=
  fun _ hunder => absurd hunder (not_under_quotedArray name items)

theorem refersTo_blockArray {items : List Layout} (h : ∀ item ∈ items, RefersTo names item) :
    RefersTo names (blockArray lead close items) := by
  intro text hunder
  cases hunder with
  | item hmem hunder =>
    obtain ⟨item, hitem, heq⟩ := List.mem_map.mp hmem
    cases heq
    exact h _ hitem text hunder

/-- A member under another name. -/
theorem ne_ref {name : String} (h : ascii name ≠ ascii "$ref") (layout : Layout) (text : Bytes) :
    (ascii name, layout) ≠ (ascii "$ref", .string text) := fun heq => h (Prod.mk.inj heq).1

/-- A member that is no text. -/
theorem block_ne_ref (name : Bytes) (text : Bytes) :
    (name, block lead close members) ≠ (ascii "$ref", .string text) := by
  intro heq
  cases (Prod.mk.inj heq).2

end References

/-! ## Components -/

section Components

variable (system : IrSystem)

theorem distinct_value (value : IrValue) : (valueLayout system value).Distinct := by
  have hmembers := distinct_inline.mp (distinct_schema system value.type)
  unfold valueLayout
  split
  · exact distinct_schema system value.type
  · rw [constrainedSchema, Layout.Distinct, Layout.distinctMembers_iff, List.map_append, List.map_map]
    refine ⟨nodup_schemaNames _ (names_schemaMembers system value.type), fun member hmember => ?_⟩
    rcases List.mem_append.mp hmember with hmember | hmember
    · obtain ⟨listed, hlisted, rfl⟩ := List.mem_map.mp hmember
      exact hmembers.2 listed hlisted
    · obtain rfl := List.mem_singleton.mp hmember
      trivial

theorem distinct_enum (enumDecl : IrEnum) : (enumLayout enumDecl).Distinct := by
  rw [enumLayout, distinct_block, List.forall_mem_cons, List.forall_mem_singleton]
  exact ⟨(by decide : [ascii "type", ascii "enum"].Nodup), trivial, distinct_quotedArray _ _⟩

/-- The fields of a shape are the properties of its schema. -/
theorem distinct_shape (shape : IrShape) :
    (shapeLayout system shape).Distinct ↔ (shape.fields.map IrField.name).Nodup := by
  have hproperties : (block 10 8 (shape.fields.map (fieldMember system))).Distinct ↔
      (shape.fields.map IrField.name).Nodup := by
    rw [distinct_block, List.map_map, List.forall_mem_map]
    exact ⟨fun h => h.1, fun h => ⟨h, fun field _ => distinct_schema system field.type⟩⟩
  rw [shapeLayout, distinct_block, requiredMembers]
  split
  · rw [List.append_nil, List.forall_mem_cons, List.forall_mem_singleton, hproperties]
    exact ⟨fun h => h.2.2,
      fun h => ⟨(by decide : [ascii "type", ascii "properties"].Nodup), trivial, h⟩⟩
  · rw [List.forall_mem_append, List.forall_mem_cons, List.forall_mem_singleton, List.forall_mem_singleton,
      hproperties]
    exact ⟨fun h => h.2.1.2,
      fun h => ⟨(by decide : [ascii "type", ascii "properties", ascii "required"].Nodup), ⟨trivial, h⟩,
        distinct_quotedArray id _⟩⟩

theorem refersTo_value (value : IrValue) : RefersTo (componentNames system) (valueLayout system value) := by
  have hschema := refersTo_schema system value.type
  unfold valueLayout
  split
  · exact hschema
  · intro text hunder
    cases hunder with
    | here hmem =>
      rcases List.mem_append.mp hmem with hmem | hmem
      · obtain ⟨member, hmember, heq⟩ := List.mem_map.mp hmem
        cases heq
        exact hschema text (.here hmem)
      · have hconstraint : ascii "$ref" ≠ ascii "x-statespec-constraint" := by decide
        have hname := List.mem_singleton.mp hmem
        simp only [Prod.mk.injEq] at hname
        exact absurd hname.2.2.1 hconstraint
    | member hmem hunder =>
      rcases List.mem_append.mp hmem with hmem | hmem
      · exact hschema text (.member hmem hunder)
      · have hvalue := List.mem_singleton.mp hmem
        simp only [Prod.mk.injEq] at hvalue
        rw [hvalue.2.2.2] at hunder
        exact absurd hunder not_under_string

theorem refersTo_enum (enumDecl : IrEnum) : RefersTo (componentNames system) (enumLayout enumDecl) := by
  refine refersTo_block ?_
  rw [List.forall_mem_cons, List.forall_mem_singleton]
  exact ⟨⟨ne_ref (by decide) _, refersTo_string _⟩, ne_ref (by decide) _,
    refersTo_quotedArray _ _⟩

theorem refersTo_shape (shape : IrShape) : RefersTo (componentNames system) (shapeLayout system shape) := by
  have hproperties : RefersTo (componentNames system) (block 10 8 (shape.fields.map (fieldMember system))) := by
    refine refersTo_block fun member hmember => ?_
    obtain ⟨field, -, rfl⟩ := List.mem_map.mp hmember
    refine ⟨fun text heq => ?_, refersTo_schema system field.type⟩
    cases (Prod.mk.inj heq).2
  refine refersTo_block ?_
  rw [List.forall_mem_append, List.forall_mem_cons, List.forall_mem_singleton, requiredMembers]
  refine ⟨⟨⟨ne_ref (by decide) _, refersTo_string _⟩, ne_ref (by decide) _, hproperties⟩, ?_⟩
  split
  · exact List.forall_mem_nil _
  · rw [List.forall_mem_singleton]
    exact ⟨ne_ref (by decide) _, refersTo_quotedArray id _⟩

end Components

/-! ## Operations -/

section Operations

variable (system : IrSystem)

theorem distinct_media (type : Bytes) (indent : Nat) : (mediaMember system type indent).2.Distinct := by
  rw [mediaMember, distinct_block, List.forall_mem_singleton, distinct_block, List.forall_mem_singleton]
  exact ⟨List.nodup_singleton _, List.nodup_singleton _, distinct_schema system type⟩

theorem refersTo_media (type : Bytes) (indent : Nat) :
    RefersTo (componentNames system) (mediaMember system type indent).2 := by
  refine refersTo_block ?_
  rw [List.forall_mem_singleton]
  refine ⟨ne_ref (by decide) _, refersTo_block ?_⟩
  rw [List.forall_mem_singleton]
  exact ⟨ne_ref (by decide) _, refersTo_schema system type⟩

theorem distinct_response (status description : String) (type : Option Bytes) :
    (responseMember system status description type).2.Distinct := by
  rw [responseMember, distinct_block, List.forall_mem_cons]
  cases type with
  | none => exact ⟨List.nodup_singleton _, trivial, List.forall_mem_nil _⟩
  | some type =>
    rw [Option.toList_some, List.map_singleton, List.forall_mem_singleton]
    exact ⟨(by decide : [ascii "description", ascii "content"].Nodup), trivial,
      distinct_media system type 10⟩

theorem refersTo_response (status description : String) (type : Option Bytes) :
    RefersTo (componentNames system) (responseMember system status description type).2 := by
  refine refersTo_block ?_
  rw [List.forall_mem_cons]
  refine ⟨⟨ne_ref (by decide) _, refersTo_string _⟩, fun member hmember => ?_⟩
  obtain ⟨type, -, rfl⟩ := List.mem_map.mp hmember
  exact ⟨block_ne_ref _, refersTo_media system type 10⟩

theorem distinct_responses (api : IrApi) : (responsesMember system api).2.Distinct := by
  rw [responsesMember, distinct_block, List.forall_mem_cons]
  cases api.error with
  | none => exact ⟨List.nodup_singleton _, distinct_response system _ _ _, List.forall_mem_nil _⟩
  | some error =>
    rw [Option.toList_some, List.map_singleton, List.forall_mem_singleton]
    exact ⟨(by decide : [ascii "200", ascii "default"].Nodup), distinct_response system _ _ _,
      distinct_response system _ _ _⟩

theorem refersTo_responses (api : IrApi) :
    RefersTo (componentNames system) (responsesMember system api).2 := by
  refine refersTo_block ?_
  rw [List.forall_mem_cons]
  refine ⟨⟨block_ne_ref _, refersTo_response system _ _ _⟩, fun member hmember => ?_⟩
  obtain ⟨error, -, rfl⟩ := List.mem_map.mp hmember
  exact ⟨block_ne_ref _, refersTo_response system _ _ _⟩

theorem distinct_parameter (parameter : Bytes) : (parameterLayout parameter).Distinct := by
  rw [parameterLayout, distinct_block, List.forall_mem_cons, List.forall_mem_cons, List.forall_mem_cons,
    List.forall_mem_singleton, distinct_inline, List.forall_mem_singleton]
  exact ⟨(by decide : [ascii "name", ascii "in", ascii "required", ascii "schema"].Nodup), trivial, trivial,
    trivial, List.nodup_singleton _, trivial⟩

theorem refersTo_parameter (parameter : Bytes) :
    RefersTo (componentNames system) (parameterLayout parameter) := by
  have hschema : RefersTo (componentNames system) (inline [typeMember "string"]) := by
    intro text hunder
    obtain ⟨member, hmember, ⟨hname, -⟩ | hunder⟩ := under_inline hunder
    · obtain rfl := List.mem_singleton.mp hmember
      exact absurd hname (by decide)
    · obtain rfl := List.mem_singleton.mp hmember
      exact absurd hunder not_under_string
  refine refersTo_block ?_
  rw [List.forall_mem_cons, List.forall_mem_cons, List.forall_mem_cons, List.forall_mem_singleton]
  exact ⟨⟨ne_ref (by decide) _, refersTo_string _⟩, ⟨ne_ref (by decide) _, refersTo_string _⟩,
    ⟨ne_ref (by decide) _, refersTo_yes⟩, ne_ref (by decide) _, hschema⟩

/-- The names of the members of an operation. -/
theorem nodup_operation (api : IrApi) : ((operationMembers system api).map Prod.fst).Nodup := by
  have hall : [ascii "operationId", ascii "parameters", ascii "requestBody", ascii "responses"].Nodup := by
    decide
  refine List.Nodup.sublist ?_ hall
  rw [operationMembers, List.map_cons, List.map_append, List.map_append]
  have hparameters : ((parametersMembers (pathParameters (openapiApiPath api))).map Prod.fst).Sublist
      [ascii "parameters"] := by
    unfold parametersMembers
    split
    · exact List.nil_sublist _
    · exact List.Sublist.refl _
  have hrequest : ((requestMembers system api.input).map Prod.fst).Sublist [ascii "requestBody"] := by
    unfold requestMembers
    cases api.input with
    | none => exact List.nil_sublist _
    | some input => exact List.Sublist.refl _
  exact ((hparameters.append hrequest).append (List.Sublist.refl [ascii "responses"])).cons_cons _

theorem distinct_operation (api : IrApi) : (operationMember system api).2.Distinct := by
  rw [operationMember, distinct_block]
  refine ⟨nodup_operation system api, fun member hmember => ?_⟩
  rcases List.mem_cons.mp hmember with rfl | hmember
  · trivial
  rcases List.mem_append.mp hmember with hmember | hmember
  · rcases List.mem_append.mp hmember with hmember | hmember
    · unfold parametersMembers at hmember
      split at hmember
      · cases hmember
      · obtain rfl := List.mem_singleton.mp hmember
        rw [distinct_blockArray, List.forall_mem_map]
        exact fun parameter _ => distinct_parameter parameter
    · obtain ⟨input, -, rfl⟩ := List.mem_map.mp hmember
      rw [distinct_block, List.forall_mem_cons, List.forall_mem_singleton]
      exact ⟨(by decide : [ascii "required", ascii "content"].Nodup), trivial,
        distinct_media system input 8⟩
  · obtain rfl := List.mem_singleton.mp hmember
    exact distinct_responses system api

theorem refersTo_operation (api : IrApi) : RefersTo (componentNames system) (operationMember system api).2 := by
  refine refersTo_block fun member hmember => ?_
  rcases List.mem_cons.mp hmember with rfl | hmember
  · exact ⟨ne_ref (by decide) _, refersTo_string _⟩
  rcases List.mem_append.mp hmember with hmember | hmember
  · rcases List.mem_append.mp hmember with hmember | hmember
    · unfold parametersMembers at hmember
      split at hmember
      · cases hmember
      · obtain rfl := List.mem_singleton.mp hmember
        refine ⟨ne_ref (by decide) _, refersTo_blockArray ?_⟩
        rw [List.forall_mem_map]
        exact fun parameter _ => refersTo_parameter system parameter
    · obtain ⟨input, -, rfl⟩ := List.mem_map.mp hmember
      refine ⟨block_ne_ref _, refersTo_block ?_⟩
      rw [List.forall_mem_cons, List.forall_mem_singleton]
      exact ⟨⟨ne_ref (by decide) _, refersTo_yes⟩, block_ne_ref _, refersTo_media system input 8⟩
  · obtain rfl := List.mem_singleton.mp hmember
    exact ⟨block_ne_ref _, refersTo_responses system api⟩

end Operations

/-! ## The document -/

section Document

variable (system : IrSystem)

/-- Where an API is in the document. -/
def apiKey (api : IrApi) : Bytes × Bytes := (openapiApiPath api, openapiApiMethod api)

/-- Each path has the APIs on it. -/
theorem mem_apisByPath {apis : List IrApi} {entry : Bytes × List IrApi} (h : entry ∈ apisByPath apis) :
    entry.2 = apis.filter fun api => decide (openapiApiPath api = entry.1) :=
  (groups_spec openapiApiPath apis).2.1 entry h

theorem exists_apisByPath {apis : List IrApi} {api : IrApi} (h : api ∈ apis) :
    ∃ entry ∈ apisByPath apis, entry.1 = openapiApiPath api ∧ api ∈ entry.2 := by
  obtain ⟨entry, hentry, hpath⟩ := List.mem_map.mp ((groups_spec openapiApiPath apis).2.2 api h)
  refine ⟨entry, hentry, hpath, ?_⟩
  rw [mem_apisByPath hentry, List.mem_filter]
  exact ⟨h, decide_eq_true hpath.symm⟩

/-- The methods on each path are distinct, when no two APIs have the same place. -/
theorem nodup_apiKeys (apis : List IrApi) : (apis.map apiKey).Nodup ↔
    ∀ entry ∈ apisByPath apis, (entry.2.map openapiApiMethod).Nodup := by
  have hplaces : (apis.map apiKey).Nodup ↔
      apis.Pairwise fun a b => openapiApiPath a = openapiApiPath b → openapiApiMethod a ≠ openapiApiMethod b := by
    rw [List.Nodup, List.pairwise_map]
    refine List.Pairwise.iff fun {a b} => ?_
    rw [apiKey, apiKey, ne_eq, Prod.mk.injEq, not_and]
  have hpath : ∀ path, ((apis.filter fun api => decide (openapiApiPath api = path)).map openapiApiMethod).Nodup ↔
      apis.Pairwise fun a b => openapiApiPath a = path → openapiApiPath b = path →
        openapiApiMethod a ≠ openapiApiMethod b := by
    intro path
    rw [List.Nodup, List.pairwise_map, List.pairwise_filter]
    simp only [decide_eq_true_iff]
  rw [hplaces]
  constructor
  · intro h entry hentry
    rw [mem_apisByPath hentry, hpath]
    exact h.imp fun hne ha hb => hne (ha.trans hb.symm)
  · intro h
    rw [List.pairwise_iff_forall_sublist]
    intro a b hsublist hsame
    obtain ⟨entry, hentry, hpathEntry, -⟩ := exists_apisByPath (hsublist.subset List.mem_cons_self)
    have hnodup := h entry hentry
    rw [mem_apisByPath hentry, hpath, List.pairwise_iff_forall_sublist] at hnodup
    exact hnodup hsublist hpathEntry.symm (hsame ▸ hpathEntry.symm)

theorem names_componentMembers : (componentMembers system).map Prod.fst = componentNames system := by
  simp only [componentMembers, componentNames, List.map_append, List.map_map]
  rfl

/-- **When no object of the document repeats a name.** -/
theorem distinct_document : (documentLayout system).Distinct ↔
    (system.apis.map apiKey).Nodup ∧ (componentNames system).Nodup ∧
      ∀ shape ∈ system.shapes, (shape.fields.map IrField.name).Nodup := by
  have hpaths : (block 4 2 ((apisByPath system.apis).map (pathMember system))).Distinct ↔
      (system.apis.map apiKey).Nodup := by
    have hordered := (groups_spec openapiApiPath system.apis).1.nodup
    rw [nodup_apiKeys, distinct_block, List.map_map, List.forall_mem_map]
    refine ⟨fun h entry hentry => ?_, fun h => ⟨hordered, fun entry hentry => ?_⟩⟩
    · have hmethods := (distinct_block.mp (h.2 entry hentry)).1
      rwa [List.map_map] at hmethods
    · rw [pathMember, distinct_block, List.map_map, List.forall_mem_map]
      exact ⟨h entry hentry, fun api _ => distinct_operation system api⟩
  have hcomponents : (block 6 4 (componentMembers system)).Distinct ↔
      (componentNames system).Nodup ∧ ∀ shape ∈ system.shapes, (shape.fields.map IrField.name).Nodup := by
    rw [distinct_block, names_componentMembers, componentMembers, List.forall_mem_append, List.forall_mem_append,
      List.forall_mem_map, List.forall_mem_map, List.forall_mem_map]
    simp only [distinct_shape]
    exact ⟨fun h => ⟨h.1, h.2.2⟩, fun h =>
      ⟨h.1, ⟨fun value _ => distinct_value system value, fun enumDecl _ => distinct_enum enumDecl⟩, h.2⟩⟩
  have hinfo : (block 4 2 [(ascii "title", .string (system.name ++ ascii " API")),
      (ascii "version", .string (ascii "0.1.0"))]).Distinct := by
    rw [distinct_block, List.forall_mem_cons, List.forall_mem_singleton]
    exact ⟨(by decide : [ascii "title", ascii "version"].Nodup), trivial, trivial⟩
  have hschemas : (block 4 2 [(ascii "schemas", block 6 4 (componentMembers system))]).Distinct ↔
      (block 6 4 (componentMembers system)).Distinct := by
    rw [distinct_block, List.forall_mem_singleton]
    exact and_iff_right (List.nodup_singleton _)
  rw [documentLayout, distinct_block, documentMembers, List.forall_mem_cons, List.forall_mem_cons,
    List.forall_mem_cons, List.forall_mem_singleton, hpaths, hschemas, hcomponents]
  have hnames : [ascii "openapi", ascii "info", ascii "paths", ascii "components"].Nodup := by decide
  exact ⟨fun h => h.2.2.2, fun h => ⟨hnames, trivial, hinfo, h⟩⟩

/-- **Every reference is a component.** -/
theorem refersTo_document : RefersTo (componentNames system) (documentLayout system) := by
  have hpaths : RefersTo (componentNames system) (block 4 2 ((apisByPath system.apis).map (pathMember system))) := by
    refine refersTo_block fun member hmember => ?_
    obtain ⟨entry, -, rfl⟩ := List.mem_map.mp hmember
    refine ⟨block_ne_ref _, refersTo_block fun member hmember => ?_⟩
    obtain ⟨api, -, rfl⟩ := List.mem_map.mp hmember
    exact ⟨block_ne_ref _, refersTo_operation system api⟩
  have hcomponents : RefersTo (componentNames system) (block 6 4 (componentMembers system)) := by
    refine refersTo_block fun member hmember => ?_
    rcases List.mem_append.mp hmember with hmember | hmember
    · rcases List.mem_append.mp hmember with hmember | hmember
      · obtain ⟨value, -, rfl⟩ := List.mem_map.mp hmember
        refine ⟨fun text heq => ?_, refersTo_value system value⟩
        obtain ⟨members, close, hobject⟩ : ∃ members close, valueLayout system value = .object members close := by
          unfold valueLayout
          split
          · exact ⟨_, _, rfl⟩
          · exact ⟨_, _, rfl⟩
        rw [hobject] at heq
        cases (Prod.mk.inj heq).2
      · obtain ⟨enumDecl, -, rfl⟩ := List.mem_map.mp hmember
        exact ⟨block_ne_ref _, refersTo_enum system enumDecl⟩
    · obtain ⟨shape, -, rfl⟩ := List.mem_map.mp hmember
      exact ⟨block_ne_ref _, refersTo_shape system shape⟩
  have hinfo : RefersTo (componentNames system) (block 4 2 [(ascii "title", .string (system.name ++ ascii " API")),
      (ascii "version", .string (ascii "0.1.0"))]) := by
    refine refersTo_block ?_
    rw [List.forall_mem_cons, List.forall_mem_singleton]
    exact ⟨⟨ne_ref (by decide) _, refersTo_string _⟩, ne_ref (by decide) _, refersTo_string _⟩
  refine refersTo_block ?_
  rw [documentMembers, List.forall_mem_cons, List.forall_mem_cons, List.forall_mem_cons, List.forall_mem_singleton]
  refine ⟨⟨ne_ref (by decide) _, refersTo_string _⟩, ⟨block_ne_ref _, hinfo⟩, ⟨block_ne_ref _, hpaths⟩,
    block_ne_ref _, refersTo_block ?_⟩
  rw [List.forall_mem_singleton]
  exact ⟨block_ne_ref _, hcomponents⟩

/-- What is found under the names, one in the other. -/
def locate (document : Json δ) (names : List Bytes) : Option (Json δ) := names.foldlM Json.find document

theorem locate_cons (document : Json δ) (name : Bytes) (names : List Bytes) :
    locate document (name :: names) = (document.find name).bind fun found => locate found names := rfl

variable {system}

/-- **Every operation is in its place.** -/
theorem locate_operation (hdistinct : (documentLayout system).Distinct) {api : IrApi} (hapi : api ∈ system.apis) :
    locate ((documentLayout system).value (δ := δ))
      [ascii "paths", openapiApiPath api, openapiApiMethod api, ascii "operationId"] =
      some (.string api.name) := by
  obtain ⟨hdocument, hmembers⟩ := distinct_block.mp hdistinct
  have hpaths : (ascii "paths", block 4 2 ((apisByPath system.apis).map (pathMember system))) ∈
      documentMembers system := List.mem_cons_of_mem _ (List.mem_cons_of_mem _ List.mem_cons_self)
  obtain ⟨hpathNames, hpathMembers⟩ := distinct_block.mp (hmembers _ hpaths)
  obtain ⟨entry, hentry, hpath, hgroup⟩ := exists_apisByPath hapi
  have hpathMember : (openapiApiPath api, block 6 4 (entry.2.map (operationMember system))) ∈
      (apisByPath system.apis).map (pathMember system) := List.mem_map.mpr ⟨entry, hentry, by rw [pathMember, hpath]⟩
  obtain ⟨hmethods, -⟩ := distinct_block.mp (hpathMembers _ hpathMember)
  have hoperation : (openapiApiMethod api, block 6 6 (operationMembers system api)) ∈
      entry.2.map (operationMember system) := List.mem_map_of_mem hgroup
  have hid : (ascii "operationId", Layout.string api.name) ∈ operationMembers system api := List.mem_cons_self
  rw [documentLayout, locate_cons, find_block hdocument hpaths, Option.bind_some, locate_cons,
    find_block hpathNames hpathMember, Option.bind_some, locate_cons, find_block hmethods hoperation,
    Option.bind_some, locate_cons, find_block (nodup_operation system api) hid, Option.bind_some, Layout.value]
  rfl

/-- **Every component is there.** -/
theorem locate_component (hdistinct : (documentLayout system).Distinct) {name : Bytes}
    (hname : name ∈ componentNames system) :
    (locate ((documentLayout system).value (δ := δ)) [ascii "components", ascii "schemas", name]).isSome = true := by
  obtain ⟨hdocument, hmembers⟩ := distinct_block.mp hdistinct
  have hcomponents : (ascii "components", block 4 2 [(ascii "schemas", block 6 4 (componentMembers system))]) ∈
      documentMembers system :=
    List.mem_cons_of_mem _ (List.mem_cons_of_mem _ (List.mem_cons_of_mem _ List.mem_cons_self))
  obtain ⟨hschemasNames, hschemas⟩ := distinct_block.mp (hmembers _ hcomponents)
  obtain ⟨hnames, -⟩ := distinct_block.mp (hschemas _ List.mem_cons_self)
  rw [← names_componentMembers] at hname
  obtain ⟨⟨_, layout⟩, hmember, rfl⟩ := List.mem_map.mp hname
  rw [documentLayout, locate_cons, find_block hdocument hcomponents, Option.bind_some, locate_cons,
    find_block hschemasNames List.mem_cons_self, Option.bind_some, locate_cons, find_block hnames hmember]
  rfl

end Document

/-! ## What is generated for operators -/

section Operators

/-- Names of values and enums. -/
def typeNames (system : IrSystem) : List Bytes :=
  system.values.map IrValue.name ++ system.enums.map IrEnum.name

/-- What an extension of a system keeps, and what it adds. -/
structure Extends (system extended : IrSystem) (added : List IrShape) : Prop where
  typeNames : typeNames extended = typeNames system
  entities : extended.entities = system.entities
  shapes : extended.shapes = added.foldl addShape system.shapes
  apis : ∀ api ∈ system.apis, api ∈ extended.apis
  places : (extended.apis.map apiKey).Nodup ↔ (system.apis.map apiKey).Nodup

/-- The shapes that are generated for operators. -/
def operatorShapes (system : IrSystem) (metadata : IrExternalSystemMetadata) : List IrShape :=
  (system.findEntity metadata.entity).elim [] fun entity =>
    [⟨metadata.entity ++ ascii "Request", operatorRequestFields entity metadata⟩,
      ⟨metadata.entity ++ ascii "Response", entity.fields⟩]

section OperatorApi

variable (metadata : IrExternalSystemMetadata) (name : String) {method : String} (path : Bytes)
  (input : Option Bytes)

theorem method_operatorApi (hne : ascii method ≠ []) :
    openapiApiMethod (operatorApi metadata name method path input) = lowerAscii (ascii method) := by
  unfold openapiApiMethod operatorApi
  rw [Option.getD_some, if_neg hne]

/-- An operation is added only where there is none. -/
theorem nodup_appendOperatorApi (hne : ascii method ≠ []) {methods : List String} (hmethod : method ∈ methods)
    (system : IrSystem) :
    ((appendOperatorApi methods (operatorApi metadata name method path input) system).apis.map apiKey).Nodup ↔
      (system.apis.map apiKey).Nodup := by
  unfold appendOperatorApi
  split
  · exact Iff.rfl
  · rename_i hnone
    rw [List.map_append, List.map_singleton, List.nodup_append]
    refine ⟨fun h => h.1, fun h => ⟨h, List.nodup_singleton _, ?_⟩⟩
    intro place hplace place' hplace' heq
    obtain rfl := List.mem_singleton.mp hplace'
    obtain ⟨other, hother, rfl⟩ := List.mem_map.mp hplace
    obtain ⟨hpath, hsame⟩ := Prod.mk.inj heq
    refine hnone (List.any_eq_true.mpr ⟨method, hmethod, ?_⟩)
    rw [openapiHasApiOperation, List.any_eq_true]
    exact ⟨other, hother, decide_eq_true ⟨hsame.trans (method_operatorApi metadata name path input hne), hpath⟩⟩

end OperatorApi

theorem appendOperatorApi_keeps (methods : List String) (api : IrApi) (system : IrSystem) :
    ∃ apis, appendOperatorApi methods api system = { system with apis := apis } ∧
      ∀ other ∈ system.apis, other ∈ apis := by
  unfold appendOperatorApi
  split
  · exact ⟨system.apis, rfl, fun _ h => h⟩
  · exact ⟨_, rfl, fun _ h => List.mem_append_left _ h⟩

theorem Extends.refl (system : IrSystem) : Extends system system [] := ⟨rfl, rfl, rfl, fun _ h => h, Iff.rfl⟩

theorem Extends.trans {system middle extended : IrSystem} {added more : List IrShape}
    (h : Extends system middle added) (hmore : Extends middle extended more) :
    Extends system extended (added ++ more) :=
  ⟨hmore.typeNames.trans h.typeNames, hmore.entities.trans h.entities,
    by rw [hmore.shapes, h.shapes, List.foldl_append],
    fun api hapi => hmore.apis api (h.apis api hapi), hmore.places.trans h.places⟩

theorem Extends.appendOperatorApi {system extended : IrSystem} {added : List IrShape}
    (h : Extends system extended added) (metadata : IrExternalSystemMetadata) (name method : String)
    (hne : ascii method ≠ []) (methods : List String) (hmethod : method ∈ methods) (path : Bytes)
    (input : Option Bytes) :
    Extends system (appendOperatorApi methods (operatorApi metadata name method path input) extended) added := by
  have hplaces := nodup_appendOperatorApi metadata name path input hne hmethod extended
  obtain ⟨apis, heq, hkept⟩ := appendOperatorApi_keeps methods (operatorApi metadata name method path input) extended
  rw [heq] at hplaces ⊢
  exact ⟨h.typeNames, h.entities, h.shapes, fun api hapi => hkept api (h.apis api hapi),
    hplaces.trans h.places⟩

theorem extends_metadataShapes (system : IrSystem) (metadata : IrExternalSystemMetadata) :
    Extends system (appendOperatorMetadataShapes system metadata) (operatorShapes system metadata) := by
  unfold appendOperatorMetadataShapes operatorShapes
  cases system.findEntity metadata.entity with
  | none => exact Extends.refl system
  | some entity => exact ⟨rfl, rfl, rfl, fun _ h => h, Iff.rfl⟩

theorem extends_operatorMetadata (system : IrSystem) (metadata : IrExternalSystemMetadata) :
    Extends system (appendOperatorMetadata system metadata) (operatorShapes system metadata) := by
  have hshapes := extends_metadataShapes system metadata
  have hupsert := hshapes.appendOperatorApi metadata "Upsert" "PUT" (by decide) ["PUT"]
    List.mem_cons_self (operatorMetadataBasePath metadata) (some (metadata.entity ++ ascii "Request"))
  have hget := hupsert.appendOperatorApi metadata "Get" "GET" (by decide) ["GET"]
    List.mem_cons_self (operatorMetadataBasePath metadata) none
  have hdisable := hget.appendOperatorApi metadata "Disable" "POST" (by decide) ["POST", "PATCH"]
    List.mem_cons_self (operatorMetadataBasePath metadata ++ ascii "/disable") none
  exact hdisable.appendOperatorApi metadata "Delete" "DELETE" (by decide) ["DELETE"]
    List.mem_cons_self (operatorMetadataBasePath metadata) none

/-- The shapes that are generated for the operators of all external systems. -/
def allOperatorShapes (system : IrSystem) : List IrShape :=
  system.externalSystems.flatMap fun externalSystem => externalSystem.metadata.elim [] (operatorShapes system)

/-- **The extension of a system.** -/
theorem extends_generated (system : IrSystem) :
    Extends system (withGeneratedOperatorMetadataOpenapi system) (allOperatorShapes system) := by
  unfold withGeneratedOperatorMetadataOpenapi allOperatorShapes
  suffices hall : ∀ (externalSystems : List IrExternalSystem) (current : IrSystem) (added : List IrShape),
      Extends system current added →
      Extends system
        (externalSystems.foldl
          (fun system externalSystem => externalSystem.metadata.elim system (appendOperatorMetadata system)) current)
        (added ++ externalSystems.flatMap fun externalSystem =>
          externalSystem.metadata.elim [] (operatorShapes system)) from
    hall system.externalSystems system [] (Extends.refl system)
  intro externalSystems
  induction externalSystems with
  | nil =>
    intro current added h
    rw [List.flatMap_nil, List.append_nil]
    exact h
  | cons externalSystem rest ih =>
    intro current added h
    rw [List.foldl_cons, List.flatMap_cons, ← List.append_assoc]
    refine ih _ _ ?_
    cases externalSystem.metadata with
    | none =>
      rw [Option.elim_none, Option.elim_none, List.append_nil]
      exact h
    | some metadata =>
      have hsame : operatorShapes current metadata = operatorShapes system metadata := by
        rw [operatorShapes, operatorShapes, IrSystem.findEntity, IrSystem.findEntity, h.entities]
      have hstep := extends_operatorMetadata current metadata
      rw [hsame] at hstep
      exact h.trans hstep

/-- Shapes that are added keep names apart when they are no names of types. -/
theorem nodup_addShapes {names : List Bytes} {shapes added : List IrShape} :
    (names ++ (added.foldl addShape shapes).map IrShape.name).Nodup ↔
      (names ++ shapes.map IrShape.name).Nodup ∧ ∀ shape ∈ added, shape.name ∉ names := by
  induction added generalizing shapes with
  | nil => simp
  | cons shape added ih =>
    have hstep : (names ++ (addShape shapes shape).map IrShape.name).Nodup ↔
        (names ++ shapes.map IrShape.name).Nodup ∧ shape.name ∉ names := by
      by_cases hold : shape.name ∈ shapes.map IrShape.name
      · have hsame : addShape shapes shape = shapes := enlist_old hold
        rw [hsame]
        refine ⟨fun h => ⟨h, fun hmem => ?_⟩, fun h => h.1⟩
        exact (List.nodup_append.mp h).2.2 _ hmem _ hold rfl
      · have hnew : addShape shapes shape = shapes ++ [shape] := enlist_new hold
        rw [hnew, List.map_append, List.map_singleton, ← List.append_assoc, List.nodup_append]
        constructor
        · rintro ⟨h, -, hapart⟩
          exact ⟨h, fun hmem => hapart _ (List.mem_append_left _ hmem) _ (List.mem_singleton_self _) rfl⟩
        · rintro ⟨h, hname⟩
          refine ⟨h, List.nodup_singleton _, fun other hother name hsame => ?_⟩
          obtain rfl := List.mem_singleton.mp hsame
          rintro rfl
          exact (List.mem_append.mp hother).elim hname hold
    rw [List.foldl_cons, ih, hstep, List.forall_mem_cons, and_assoc]

theorem forall_addShapes {P : IrShape → Prop} {shapes added : List IrShape} (h : ∀ shape ∈ added, P shape) :
    (∀ shape ∈ added.foldl addShape shapes, P shape) ↔ ∀ shape ∈ shapes, P shape := by
  induction added generalizing shapes with
  | nil => exact Iff.rfl
  | cons shape added ih =>
    rw [List.forall_mem_cons] at h
    rw [List.foldl_cons, ih h.2, addShape]
    split
    · exact Iff.rfl
    · rw [List.forall_mem_append, List.forall_mem_singleton]
      exact and_iff_left h.1

end Operators

end StateSpec.Compiler
