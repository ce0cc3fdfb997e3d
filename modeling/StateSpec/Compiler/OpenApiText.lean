/-
  THE TEXT OF THE OPENAPI DOCUMENT — the document that `render_openapi` writes is a laid-out JSON text.

  Each piece that is written is the text of a member of a layout (`memberText`).  Objects are written on one
  line (`inline`) or over lines (`block`), and the two loops of the renderer write the members of the one and of
  the other.  So the rendered text is that of `documentLayout` (`renderDocument_eq`).
-/
import StateSpec.JsonLayout
import StateSpec.Compiler.OpenApi

namespace StateSpec.Compiler

open Generated (isOptionalType stripOptionalType)

/-! ## Layouts -/

/-- An object on one line. -/
def inline (members : List (Bytes × Layout)) : Layout :=
  .object (members.map fun member => (.none, .space, member)) .space

/-- An object over lines. -/
def block (lead close : Nat) (members : List (Bytes × Layout)) : Layout :=
  .object (members.map fun member => (.none, .newline lead, member)) (.newline close)

/-- An array over lines. -/
def blockArray (lead close : Nat) (items : List Layout) : Layout :=
  .array (items.map fun item => (.newline lead, item)) (.newline close)

/-- An array on one line. -/
def inlineArray : List Layout → Layout
  | [] => .array [] .none
  | item :: rest => .array ((.none, item) :: rest.map fun other => (.space, other)) .none

def spaces (indent : Nat) : Bytes := List.replicate indent 32

/-- The text of a member without the blanks in front of it. -/
def memberText (member : Bytes × Layout) : Bytes := openapiQuoted member.1 ++ ascii ": " ++ member.2.text

theorem openapiQuoted_eq (value : Bytes) : openapiQuoted value = Json.escapedString value := rfl

theorem writeLines_cons {α : Type} (item : α → Bytes) (first : α) (rest : List α) :
    writeLines item (first :: rest) = item first ++ (rest.flatMap fun other => ascii ",\n" ++ item other) ++ ascii "\n" := by
  induction rest generalizing first with
  | nil => rw [writeLines, List.flatMap_nil, List.append_nil]
  | cons second rest ih =>
    rw [writeLines, ih, List.flatMap_cons]
    · simp only [List.append_assoc]
    · exact List.cons_ne_nil second rest

theorem writeLines_map {α β : Type} (f : α → β) (item : β → Bytes) (items : List α) :
    writeLines item (items.map f) = writeLines (fun a => item (f a)) items := by
  cases items with
  | nil => rfl
  | cons first rest => rw [List.map_cons, writeLines_cons, writeLines_cons, List.flatMap_map]

/-- Members behind the first. -/
theorem membersText_false (lead : Blanks) (members : List (Bytes × Layout)) :
    Layout.membersText false (members.map fun member => (.none, lead, member)) =
      members.flatMap fun member => ascii "," ++ (lead.text ++ memberText member) := by
  induction members with
  | nil => rw [List.map_nil, Layout.membersText, List.flatMap_nil]
  | cons member members ih =>
    rw [List.map_cons, Layout.membersText, ih, List.flatMap_cons, memberText, openapiQuoted_eq]
    simp only [List.append_assoc]
    rfl

theorem membersText_true (lead : Blanks) (first : Bytes × Layout) (members : List (Bytes × Layout)) :
    Layout.membersText true ((first :: members).map fun member => (.none, lead, member)) =
      lead.text ++ memberText first ++
        members.flatMap fun member => ascii "," ++ (lead.text ++ memberText member) := by
  rw [List.map_cons, Layout.membersText, membersText_false, memberText, openapiQuoted_eq]
  simp only [List.append_assoc]
  rfl

theorem newline_text (indent : Nat) : (Blanks.newline indent).text = ascii "\n" ++ spaces indent := rfl

/-- An object over lines is written line by line. -/
theorem text_block (lead close : Nat) (members : List (Bytes × Layout)) :
    (block lead close members).text = ascii "\x7b\n" ++
      writeLines (fun member => spaces lead ++ memberText member) members ++ spaces close ++ ascii "\x7d" := by
  cases members with
  | nil =>
    rw [block, Layout.text, List.map_nil, Layout.membersText, newline_text]
    rfl
  | cons first members =>
    rw [block, Layout.text, membersText_true, writeLines_cons, newline_text, newline_text]
    simp only [List.append_assoc]
    rfl

/-- An object on one line. -/
theorem text_inline (first : Bytes × Layout) (members : List (Bytes × Layout)) :
    (inline (first :: members)).text = ascii "\x7b " ++ memberText first ++
      (members.flatMap fun member => ascii ", " ++ memberText member) ++ ascii " \x7d" := by
  rw [inline, Layout.text, membersText_true]
  simp only [List.append_assoc]
  rfl

theorem itemsText_false (lead : Blanks) (items : List Layout) :
    Layout.itemsText false (items.map fun item => (lead, item)) =
      items.flatMap fun item => ascii "," ++ (lead.text ++ item.text) := by
  induction items with
  | nil => rw [List.map_nil, Layout.itemsText, List.flatMap_nil]
  | cons item items ih =>
    rw [List.map_cons, Layout.itemsText, ih, List.flatMap_cons]
    simp only [List.append_assoc]
    rfl

/-- An array over lines. -/
theorem text_blockArray (lead close : Nat) (items : List Layout) :
    (blockArray lead close items).text = ascii "[\n" ++
      writeLines (fun item => spaces lead ++ item.text) items ++ spaces close ++ ascii "]" := by
  cases items with
  | nil =>
    rw [blockArray, Layout.text, List.map_nil, Layout.itemsText, newline_text]
    rfl
  | cons first items =>
    rw [blockArray, Layout.text, List.map_cons, Layout.itemsText, itemsText_false, writeLines_cons, newline_text,
      newline_text]
    simp only [List.append_assoc]
    rfl

/-- An array on one line. -/
theorem text_inlineArray (items : List Layout) :
    (inlineArray items).text = ascii "[" ++ writeSpaced Layout.text items ++ ascii "]" := by
  cases items with
  | nil =>
    rw [inlineArray, Layout.text, Layout.itemsText]
    rfl
  | cons first items =>
    rw [inlineArray, Layout.text, Layout.itemsText, itemsText_false, writeSpaced]
    simp only [List.append_assoc]
    rfl

/-! ## Schemas -/

def typeMember (name : String) : Bytes × Layout := (ascii "type", .string (ascii name))

def formatMember (name : String) : Bytes × Layout := (ascii "format", .string (ascii name))

def scalarMembers (lowered : Bytes) : List (Bytes × Layout) :=
  if lowered = ascii "json" ∨ lowered = ascii "object" then
    [typeMember "object", (ascii "additionalProperties", .yes)]
  else if lowered = ascii "bool" ∨ lowered = ascii "boolean" then [typeMember "boolean"]
  else if lowered = ascii "int" ∨ lowered = ascii "int32" then [typeMember "integer", formatMember "int32"]
  else if lowered = ascii "int64" ∨ lowered = ascii "long" then [typeMember "integer", formatMember "int64"]
  else if lowered = ascii "float" then [typeMember "number", formatMember "float"]
  else if lowered = ascii "double" then [typeMember "number", formatMember "double"]
  else if lowered = ascii "decimal" then [typeMember "number"]
  else if lowered = ascii "uuid" then [typeMember "string", formatMember "uuid"]
  else if lowered = ascii "timestamp" ∨ lowered = ascii "datetime" then
    [typeMember "string", formatMember "date-time"]
  else if lowered = ascii "date" then [typeMember "string", formatMember "date"]
  else if lowered = ascii "duration" then [typeMember "string", formatMember "duration"]
  else [typeMember "string"]

/-- What a reference to a component is written as. -/
def componentRef (name : Bytes) : Bytes := ascii "#/components/schemas/" ++ name

/-- The members of the schema of a type. -/
def schemaMembers (system : IrSystem) (rawType : Bytes) : List (Bytes × Layout) :=
  match _hform : typeForm system (stripOptionalType rawType) with
  | .ref name => [(ascii "$ref", .string (componentRef name))]
  | .list item => [typeMember "array", (ascii "items", inline (schemaMembers system item))]
  | .set item =>
    [typeMember "array", (ascii "uniqueItems", .yes), (ascii "items", inline (schemaMembers system item))]
  | .map value => [typeMember "object", (ascii "additionalProperties", inline (schemaMembers system value))]
  | .anything => [typeMember "object", (ascii "additionalProperties", .yes)]
  | .scalar lowered => scalarMembers lowered
termination_by rawType.length
decreasing_by
  all_goals
    refine Nat.lt_of_lt_of_le (@typeForm_length system _ _ ?_) (stripOptionalType_length rawType)
    rw [_hform]
    rfl

/-- The schema of a type with the constraint of a value; the blank before the last brace stands before the
    comma. -/
def constrainedSchema (members : List (Bytes × Layout)) (constraint : Bytes) : Layout :=
  .object
    ((members.map fun member => (.none, .space, member)) ++
      [(.space, .space, ascii "x-statespec-constraint", .string constraint)])
    .space

def valueLayout (system : IrSystem) (value : IrValue) : Layout :=
  if value.constraint.getD [] = [] then inline (schemaMembers system value.type)
  else constrainedSchema (schemaMembers system value.type) (value.constraint.getD [])

def enumLayout (enumDecl : IrEnum) : Layout :=
  block 8 6 [typeMember "string",
    (ascii "enum", inlineArray (enumDecl.members.map fun member => .string (member.value.getD member.name)))]

def requiredMembers (shape : IrShape) : List (Bytes × Layout) :=
  if requiredNames shape = [] then []
  else [(ascii "required", inlineArray ((requiredNames shape).map .string))]

def fieldMember (system : IrSystem) (field : IrField) : Bytes × Layout :=
  (field.name, inline (schemaMembers system field.type))

def shapeLayout (system : IrSystem) (shape : IrShape) : Layout :=
  block 8 6 ([typeMember "object", (ascii "properties", block 10 8 (shape.fields.map (fieldMember system)))] ++
    requiredMembers shape)

/-- A type, perhaps with a format or with anything in it. -/
inductive ScalarMembers : List (Bytes × Layout) → Prop where
  | plain (name : String) : ScalarMembers [typeMember name]
  | format (name format : String) : ScalarMembers [typeMember name, formatMember format]
  | anything (name : String) : ScalarMembers [typeMember name, (ascii "additionalProperties", .yes)]

theorem ScalarMembers.of_ite {c : Prop} [Decidable c] {members others : List (Bytes × Layout)}
    (h : ScalarMembers members) (hother : ScalarMembers others) :
    ScalarMembers (if c then members else others) := by
  split
  · exact h
  · exact hother

theorem scalarMembers_form (lowered : Bytes) : ScalarMembers (scalarMembers lowered) := by
  unfold scalarMembers
  repeat' apply ScalarMembers.of_ite
  all_goals constructor

theorem text_ite {c : Prop} [Decidable c] {text other : Bytes} {members others : List (Bytes × Layout)}
    (h : text = (inline members).text) (hother : other = (inline others).text) :
    (if c then text else other) = (inline (if c then members else others)).text := by
  split
  · exact h
  · exact hother

theorem text_scalarMembers (lowered : Bytes) :
    openapiScalarSchema lowered = (inline (scalarMembers lowered)).text := by
  unfold openapiScalarSchema scalarMembers
  repeat' apply text_ite
  all_goals
    rw [text_inline]
    rfl

/-- The schema of a form. -/
def formSchema (system : IrSystem) : TypeForm → Bytes
  | .ref name => openapiRefSchema name
  | .list item =>
    ascii "\x7b \"type\": \"array\", \"items\": " ++ openapiSchemaForType system item ++ ascii " \x7d"
  | .set item =>
    ascii "\x7b \"type\": \"array\", \"uniqueItems\": true, \"items\": " ++
      openapiSchemaForType system item ++ ascii " \x7d"
  | .map value =>
    ascii "\x7b \"type\": \"object\", \"additionalProperties\": " ++ openapiSchemaForType system value ++
      ascii " \x7d"
  | .anything => ascii "\x7b \"type\": \"object\", \"additionalProperties\": true \x7d"
  | .scalar lowered => openapiScalarSchema lowered

def formMembers (system : IrSystem) : TypeForm → List (Bytes × Layout)
  | .ref name => [(ascii "$ref", .string (componentRef name))]
  | .list item => [typeMember "array", (ascii "items", inline (schemaMembers system item))]
  | .set item =>
    [typeMember "array", (ascii "uniqueItems", .yes), (ascii "items", inline (schemaMembers system item))]
  | .map value => [typeMember "object", (ascii "additionalProperties", inline (schemaMembers system value))]
  | .anything => [typeMember "object", (ascii "additionalProperties", .yes)]
  | .scalar lowered => scalarMembers lowered

theorem openapiSchemaForType_eq (system : IrSystem) (rawType : Bytes) :
    openapiSchemaForType system rawType = formSchema system (typeForm system (stripOptionalType rawType)) := by
  rw [openapiSchemaForType]
  split
  all_goals
    rename_i hform
    rw [hform]
    rfl

theorem schemaMembers_eq (system : IrSystem) (rawType : Bytes) :
    schemaMembers system rawType = formMembers system (typeForm system (stripOptionalType rawType)) := by
  rw [schemaMembers]
  split
  all_goals
    rename_i hform
    rw [hform]
    rfl

/-- Induction over the items of types. -/
theorem schema_induction {system : IrSystem} {P : Bytes → Prop}
    (step : ∀ rawType, (∀ item ∈ (typeForm system (stripOptionalType rawType)).item, P item) → P rawType)
    (rawType : Bytes) : P rawType := by
  induction hlength : rawType.length using Nat.strong_induction_on generalizing rawType with
  | _ n ih =>
    refine step rawType fun item hitem => ih item.length ?_ item rfl
    rw [← hlength]
    exact (typeForm_length hitem).trans_le (stripOptionalType_length rawType)

/-- **The schema of a type.** -/
theorem text_schemaMembers (system : IrSystem) (rawType : Bytes) :
    openapiSchemaForType system rawType = (inline (schemaMembers system rawType)).text := by
  induction rawType using schema_induction with
  | step rawType ih =>
    rw [openapiSchemaForType_eq, schemaMembers_eq]
    cases hform : typeForm system (stripOptionalType rawType) with
    | ref name =>
      rw [formMembers, text_inline, memberText, Layout.text, componentRef, ← openapiQuoted_eq, openapiQuoted,
        openapiQuoted, openapiJsonEscape, openapiJsonEscape, List.flatMap_append]
      simp only [List.append_assoc]
      rfl
    | list item =>
      rw [hform] at ih
      rw [formSchema, ih item rfl, formMembers, text_inline]
      simp only [List.flatMap_cons, List.flatMap_nil, List.append_assoc, memberText]
      rfl
    | set item =>
      rw [hform] at ih
      rw [formSchema, ih item rfl, formMembers, text_inline]
      simp only [List.flatMap_cons, List.flatMap_nil, List.append_assoc, memberText]
      rfl
    | map value =>
      rw [hform] at ih
      rw [formSchema, ih value rfl, formMembers, text_inline]
      simp only [List.flatMap_cons, List.flatMap_nil, List.append_assoc, memberText]
      rfl
    | anything =>
      rw [formMembers, text_inline]
      rfl
    | scalar lowered => exact text_scalarMembers lowered

/-! ### Components -/

/-- A property goes in front of the last brace. -/
theorem addOpenapiSchemaProperty_append (front property : Bytes) :
    addOpenapiSchemaProperty (front ++ ascii " \x7d") property =
      front ++ ascii " , " ++ property ++ ascii " \x7d" := by
  have hbrace : byte '\x7d' ∈ front ++ ascii " \x7d" := List.mem_append_right _ (by decide)
  have hsplit : front ++ ascii " \x7d" = (front ++ ascii " ") ++ [byte '\x7d'] := by
    rw [List.append_assoc]
    rfl
  have hlast : ¬ (fun ch => ch != byte '\x7d') (byte '\x7d') = true := by decide
  rw [addOpenapiSchemaProperty, if_neg (not_not.mpr hbrace), hsplit,
    List.rdropWhile_concat_neg (fun ch => ch != byte '\x7d') _ _ hlast,
    List.rtakeWhile_concat_neg (fun ch => ch != byte '\x7d') _ _ hlast, List.dropLast_concat]
  simp only [List.append_assoc]
  rfl

theorem membersText_append (members : List (Blanks × Blanks × Bytes × Layout))
    (last : Blanks × Blanks × Bytes × Layout) :
    Layout.membersText false (members ++ [last]) =
      Layout.membersText false members ++ Layout.membersText false [last] := by
  induction members with
  | nil =>
    rw [List.nil_append, Layout.membersText.eq_def false []]
    rfl
  | cons member members ih =>
    obtain ⟨gap, lead, name, value⟩ := member
    rw [List.cons_append, Layout.membersText, ih, Layout.membersText.eq_def false ((gap, lead, name, value) :: _)]
    simp only [List.append_assoc]

theorem schemaMembers_ne_nil (system : IrSystem) (rawType : Bytes) :
    ∃ first rest, schemaMembers system rawType = first :: rest := by
  rw [schemaMembers_eq]
  cases typeForm system (stripOptionalType rawType) with
  | scalar lowered =>
    have hform := scalarMembers_form lowered
    rw [formMembers]
    generalize scalarMembers lowered = members at hform ⊢
    cases hform with
    | _ => exact ⟨_, _, rfl⟩
  | _ => exact ⟨_, _, rfl⟩

theorem text_constrainedSchema (first : Bytes × Layout) (rest : List (Bytes × Layout)) (constraint : Bytes) :
    (constrainedSchema (first :: rest) constraint).text = ascii "\x7b " ++ memberText first ++
      (rest.flatMap fun member => ascii ", " ++ memberText member) ++ ascii " , " ++
      (ascii "\"x-statespec-constraint\": " ++ openapiQuoted constraint) ++ ascii " \x7d" := by
  rw [constrainedSchema, Layout.text, List.map_cons, List.cons_append, Layout.membersText, membersText_append,
    membersText_false, Layout.membersText, Layout.membersText, Layout.text, memberText, ← openapiQuoted_eq]
  simp only [List.append_assoc]
  rfl

theorem text_value (system : IrSystem) (value : IrValue) :
    writeOpenapiValueSchema system value = spaces 6 ++ memberText (value.name, valueLayout system value) := by
  simp only [writeOpenapiValueSchema, valueLayout, memberText, text_schemaMembers]
  by_cases hconstraint : value.constraint.getD [] = []
  · rw [if_pos hconstraint, if_pos hconstraint]
    simp only [List.append_assoc]
    rfl
  · obtain ⟨first, rest, hmembers⟩ := schemaMembers_ne_nil system value.type
    rw [if_neg hconstraint, if_neg hconstraint, hmembers, text_inline, addOpenapiSchemaProperty_append,
      text_constrainedSchema]
    simp only [List.append_assoc]
    rfl

theorem text_quotedArray {α : Type} (name : α → Bytes) (items : List α) :
    (inlineArray (items.map fun item => .string (name item))).text =
      ascii "[" ++ writeSpaced (fun item => openapiQuoted (name item)) items ++ ascii "]" := by
  rw [text_inlineArray]
  cases items with
  | nil => rfl
  | cons first rest =>
    rw [List.map_cons, writeSpaced, writeSpaced, List.flatMap_map]
    simp only [Layout.text, openapiQuoted_eq]

theorem text_enum (enumDecl : IrEnum) :
    writeOpenapiEnumSchema enumDecl = spaces 6 ++ memberText (enumDecl.name, enumLayout enumDecl) := by
  rw [writeOpenapiEnumSchema, memberText, enumLayout, text_block, writeLines_cons, List.flatMap_cons,
    List.flatMap_nil]
  simp only [memberText, text_quotedArray, List.append_assoc]
  rfl

theorem text_shape (system : IrSystem) (shape : IrShape) :
    writeOpenapiShapeSchema system shape = spaces 6 ++ memberText (shape.name, shapeLayout system shape) := by
  have hfields : writeLines (fun field => ascii "          " ++ openapiQuoted field.name ++ ascii ": " ++
        openapiSchemaForType system field.type) shape.fields =
      writeLines (fun field => spaces 10 ++ memberText (fieldMember system field)) shape.fields := by
    congr
    funext field
    rw [text_schemaMembers, memberText, fieldMember]
    simp only [List.append_assoc]
    rfl
  rw [writeOpenapiShapeSchema, hfields, memberText, shapeLayout, text_block, List.cons_append, writeLines_cons,
    List.singleton_append, List.flatMap_cons]
  simp only [memberText, text_block, writeLines_map]
  by_cases hrequired : requiredNames shape = []
  · rw [if_pos hrequired, requiredMembers, if_pos hrequired, List.flatMap_nil]
    simp only [List.append_assoc]
    rfl
  · have harray : (inlineArray ((requiredNames shape).map .string)).text =
        ascii "[" ++ writeSpaced openapiQuoted (requiredNames shape) ++ ascii "]" := text_quotedArray id _
    rw [if_neg hrequired, requiredMembers, if_neg hrequired, List.flatMap_cons, List.flatMap_nil, harray]
    simp only [List.append_assoc]
    rfl

/-! ## Operations -/

def mediaMember (system : IrSystem) (type : Bytes) (indent : Nat) : Bytes × Layout :=
  (ascii "content", block (indent + 2) indent
    [(ascii "application/json", block (indent + 4) (indent + 2)
      [(ascii "schema", inline (schemaMembers system type))])])

def parameterLayout (parameter : Bytes) : Layout :=
  block 10 8 [(ascii "name", .string parameter), (ascii "in", .string (ascii "path")), (ascii "required", .yes),
    (ascii "schema", inline [typeMember "string"])]

def parametersMembers (parameters : List Bytes) : List (Bytes × Layout) :=
  if parameters = [] then [] else [(ascii "parameters", blockArray 8 6 (parameters.map parameterLayout))]

def requestMembers (system : IrSystem) (input : Option Bytes) : List (Bytes × Layout) :=
  input.toList.map fun input =>
    (ascii "requestBody", block 8 6 [(ascii "required", .yes), mediaMember system input 8])

/-- A response with the description, and with what is in it. -/
def responseMember (system : IrSystem) (status description : String) (type : Option Bytes) : Bytes × Layout :=
  (ascii status, block 10 8 ((ascii "description", .string (ascii description)) ::
    type.toList.map fun type => mediaMember system type 10))

def responsesMember (system : IrSystem) (api : IrApi) : Bytes × Layout :=
  (ascii "responses", block 8 6 (responseMember system "200" "OK" api.output ::
    api.error.toList.map fun error => responseMember system "default" "Error" (some error)))

def operationMembers (system : IrSystem) (api : IrApi) : List (Bytes × Layout) :=
  (ascii "operationId", .string api.name) ::
    (parametersMembers (pathParameters (openapiApiPath api)) ++ requestMembers system api.input ++
      [responsesMember system api])

theorem spaces_add (indent more : Nat) : spaces (indent + more) = spaces indent ++ spaces more :=
  List.replicate_add indent more 32

theorem text_media (system : IrSystem) (type : Bytes) (indent : Nat) :
    writeOpenapiMediaSchema system type (spaces indent) = spaces indent ++ memberText (mediaMember system type indent) := by
  rw [writeOpenapiMediaSchema, mediaMember, memberText, text_block, writeLines, memberText, text_block, writeLines,
    memberText, text_schemaMembers, spaces_add indent 2, spaces_add indent 4]
  simp only [List.append_assoc]
  rfl

theorem text_parameters (parameters : List Bytes) :
    writeOpenapiParameters parameters =
      (parametersMembers parameters).flatMap fun member => ascii ",\n" ++ (spaces 6 ++ memberText member) := by
  have hparameter : ∀ parameter, ascii "        \x7b\n" ++
          ascii "          \"name\": " ++ openapiQuoted parameter ++ ascii ",\n" ++
          ascii "          \"in\": \"path\",\n" ++
          ascii "          \"required\": true,\n" ++
          ascii "          \"schema\": \x7b \"type\": \"string\" \x7d\n" ++
          ascii "        \x7d" = spaces 8 ++ (parameterLayout parameter).text := by
    intro parameter
    rw [parameterLayout, text_block, writeLines_cons]
    simp only [List.flatMap_cons, List.flatMap_nil, memberText, Layout.text, List.append_assoc]
    rfl
  unfold writeOpenapiParameters parametersMembers
  by_cases hnone : parameters = []
  · rw [if_pos hnone, if_pos hnone, List.flatMap_nil]
  · rw [if_neg hnone, if_neg hnone, List.flatMap_cons, List.flatMap_nil, memberText, text_blockArray, writeLines_map]
    rw [funext hparameter]
    simp only [List.append_assoc]
    rfl

theorem text_requestBody (system : IrSystem) (input : Option Bytes) :
    writeOpenapiRequestBody system input =
      (requestMembers system input).flatMap fun member => ascii ",\n" ++ (spaces 6 ++ memberText member) := by
  cases input with
  | none => rfl
  | some input =>
    have hmedia : writeOpenapiMediaSchema system input (ascii "        ") =
        spaces 8 ++ memberText (mediaMember system input 8) := text_media system input 8
    have hbody : memberText (ascii "requestBody", block 8 6 [(ascii "required", .yes), mediaMember system input 8]) =
        openapiQuoted (ascii "requestBody") ++ ascii ": " ++ (ascii "\x7b\n" ++
          (spaces 8 ++ memberText (ascii "required", .yes) ++
            (ascii ",\n" ++ (spaces 8 ++ memberText (mediaMember system input 8))) ++ ascii "\n") ++ spaces 6 ++
          ascii "\x7d") := by
      rw [memberText, text_block, writeLines_cons, List.flatMap_cons, List.flatMap_nil, List.append_nil]
    have hrequired : memberText (ascii "required", .yes) = ascii "\"required\": true" := by
      rw [memberText, Layout.text]
      rfl
    rw [writeOpenapiRequestBody, hmedia]
    simp only [requestMembers, Option.toList_some, List.map_cons, List.map_nil, List.flatMap_cons,
      List.flatMap_nil, hbody, hrequired, List.append_assoc]
    rfl

/-- The response, with its description. -/
theorem text_output (system : IrSystem) (output : Option Bytes) :
    spaces 8 ++ memberText (responseMember system "200" "OK" output) =
      ascii "        \"200\": \x7b\n" ++ (ascii "          \"description\": \"OK\"" ++
        writeOpenapiOutput system output) := by
  rw [responseMember, memberText, text_block, writeLines_cons, memberText]
  cases output with
  | none =>
    simp only [Option.toList_none, List.map_nil, List.flatMap_nil, List.append_assoc, Layout.text]
    rfl
  | some output =>
    have hmedia : writeOpenapiMediaSchema system output (ascii "          ") =
        spaces 10 ++ memberText (mediaMember system output 10) := text_media system output 10
    simp only [writeOpenapiOutput, hmedia, Option.toList_some, List.map_cons, List.map_nil, List.flatMap_cons,
      List.flatMap_nil, List.append_assoc, Layout.text]
    rfl

/-- The error, behind the response. -/
theorem text_error (system : IrSystem) (error : Option Bytes) :
    (error.toList.map fun error => responseMember system "default" "Error" (some error)).flatMap
        (fun member => ascii ",\n" ++ (spaces 8 ++ memberText member)) ++ ascii "\n" =
      writeOpenapiError system error := by
  cases error with
  | none => rfl
  | some error =>
    have hmedia : writeOpenapiMediaSchema system error (ascii "          ") =
        spaces 10 ++ memberText (mediaMember system error 10) := text_media system error 10
    rw [Option.toList_some, List.map_cons, List.map_nil, List.flatMap_cons, List.flatMap_nil, responseMember,
      memberText, text_block, writeLines_cons, memberText]
    simp only [writeOpenapiError, hmedia, Option.toList_some, List.map_cons, List.map_nil, List.flatMap_cons,
      List.flatMap_nil, List.append_assoc, Layout.text]
    rfl

/-- **An operation** is written member by member. -/
theorem text_operation (system : IrSystem) (api : IrApi) :
    writeOpenapiOperation system api =
      writeLines (fun member => spaces 6 ++ memberText member) (operationMembers system api) := by
  have hresponses : spaces 6 ++ memberText (responsesMember system api) =
      ascii "      \"responses\": \x7b\n" ++ (ascii "        \"200\": \x7b\n" ++
        (ascii "          \"description\": \"OK\"" ++ (writeOpenapiOutput system api.output ++
          (writeOpenapiError system api.error ++ ascii "      \x7d")))) := by
    rw [responsesMember, memberText, text_block, writeLines_cons, text_output, ← text_error]
    simp only [List.append_assoc]
    rfl
  rw [writeOpenapiOperation, operationMembers, writeLines_cons, List.flatMap_append, List.flatMap_append,
    ← text_parameters, ← text_requestBody, List.flatMap_cons, List.flatMap_nil, memberText, Layout.text,
    hresponses]
  simp only [List.append_assoc]
  rfl

/-! ## The document -/

def operationMember (system : IrSystem) (api : IrApi) : Bytes × Layout :=
  (openapiApiMethod api, block 6 6 (operationMembers system api))

def pathMember (system : IrSystem) (entry : Bytes × List IrApi) : Bytes × Layout :=
  (entry.1, block 6 4 (entry.2.map (operationMember system)))

/-- The components, under their names. -/
def componentMembers (system : IrSystem) : List (Bytes × Layout) :=
  (system.values.map fun value => (value.name, valueLayout system value)) ++
    (system.enums.map fun enumDecl => (enumDecl.name, enumLayout enumDecl)) ++
    system.shapes.map fun shape => (shape.name, shapeLayout system shape)

def documentMembers (system : IrSystem) : List (Bytes × Layout) :=
  [(ascii "openapi", .string (ascii "3.0.3")),
    (ascii "info", block 4 2 [(ascii "title", .string (system.name ++ ascii " API")),
      (ascii "version", .string (ascii "0.1.0"))]),
    (ascii "paths", block 4 2 ((apisByPath system.apis).map (pathMember system))),
    (ascii "components", block 4 2 [(ascii "schemas", block 6 4 (componentMembers system))])]

def documentLayout (system : IrSystem) : Layout := block 2 0 (documentMembers system)

theorem text_path (system : IrSystem) (entry : Bytes × List IrApi) :
    writePath system entry = spaces 4 ++ memberText (pathMember system entry) := by
  have hoperation : ∀ api, ascii "      " ++ openapiQuoted (openapiApiMethod api) ++ ascii ": \x7b\n" ++
        writeOpenapiOperation system api ++ ascii "      \x7d" =
      spaces 6 ++ memberText (operationMember system api) := by
    intro api
    rw [operationMember, memberText, text_block, ← text_operation]
    simp only [List.append_assoc]
    rfl
  rw [writePath, funext hoperation, pathMember, memberText, text_block, writeLines_map]
  simp only [List.append_assoc]
  rfl

theorem text_components (system : IrSystem) :
    writeSchemas system = writeLines (fun member => spaces 6 ++ memberText member) (componentMembers system) := by
  have hpieces : system.values.map (writeOpenapiValueSchema system) ++
      system.enums.map writeOpenapiEnumSchema ++ system.shapes.map (writeOpenapiShapeSchema system) =
      (componentMembers system).map fun member => spaces 6 ++ memberText member := by
    rw [componentMembers, List.map_append, List.map_append, List.map_map, List.map_map, List.map_map,
      funext (text_value system), funext text_enum, funext (text_shape system)]
    rfl
  rw [writeSchemas, hpieces, writeLines_map]
  rfl

/-- **The rendered document** is the text of the layout, with a line end behind it. -/
theorem renderDocument_eq (system : IrSystem) :
    renderDocument system = (documentLayout system).text ++ (Blanks.newline 0).text := by
  have hinfo : memberText (ascii "info", block 4 2 [(ascii "title", .string (system.name ++ ascii " API")),
      (ascii "version", .string (ascii "0.1.0"))]) =
      ascii "\"info\": \x7b\n" ++ (ascii "    \"title\": " ++ (openapiQuoted (system.name ++ ascii " API") ++
        ascii ",\n    \"version\": \"0.1.0\"\n  \x7d")) := by
    rw [memberText, text_block, writeLines_cons, List.flatMap_cons, List.flatMap_nil, memberText, memberText,
      Layout.text, Layout.text, ← openapiQuoted_eq]
    simp only [List.append_assoc]
    rfl
  have hpaths : memberText (ascii "paths", block 4 2 ((apisByPath system.apis).map (pathMember system))) =
      ascii "\"paths\": \x7b\n" ++ (writeLines (writePath system) (apisByPath system.apis) ++ ascii "  \x7d") := by
    rw [memberText, text_block, writeLines_map, ← funext (text_path system)]
    simp only [List.append_assoc]
    rfl
  have hcomponents : memberText
      (ascii "components", block 4 2 [(ascii "schemas", block 6 4 (componentMembers system))]) =
      ascii "\"components\": \x7b\n" ++ (ascii "    \"schemas\": \x7b\n" ++ (writeSchemas system ++
        ascii "    \x7d\n  \x7d")) := by
    rw [memberText, text_block, writeLines_cons, List.flatMap_nil, memberText, text_block, ← text_components]
    simp only [List.append_assoc]
    rfl
  have hversion : memberText (ascii "openapi", .string (ascii "3.0.3")) = ascii "\"openapi\": \"3.0.3\"" := by
    rw [memberText, Layout.text]
    rfl
  rw [renderDocument, documentLayout, text_block, documentMembers, writeLines_cons]
  simp only [List.flatMap_cons, List.flatMap_nil, hversion, hinfo, hpaths, hcomponents, List.append_assoc]
  rfl

end StateSpec.Compiler
