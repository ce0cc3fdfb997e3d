/-
  THE METADATA OF A WORKFLOW — `generator_workflow_metadata.cpp`: the JSON text that goes with a workflow to the
  run time.

  1. **Program** — `workflowDescriptorMetadataJson` writes the child workflows, one object for each, with its
     names as strings and `null` for what it has none of.
  2. **Specification** — `readChildWorkflows`: how the child workflows are read back from a document.
  3. **Correctness** — what is written is a text of the JSON grammar (`Writes`), so the parser reads it as the
     document that is meant (`metadataJson`); and from that the child workflows are read
     (`workflowMetadata_roundTrip`).
-/
import StateSpec.JsonRoundTrip
import StateSpec.Compiler.ChildWorkflows
import StateSpec.Compiler.OpenApi

namespace StateSpec.Compiler

open JsonGrammar

/-! ## The program -/

/-- A comma between one item and the next. -/
def writeItems {α : Type} (item : α → Bytes) : List α → Bytes
  | [] => []
  | [a] => item a
  | a :: rest => item a ++ ascii "," ++ writeItems item rest

/-- `append_json_optional_member`, behind the colon. -/
def optionalText (value : Option Bytes) : Bytes := value.elim (ascii "null") openapiQuoted

/-- `append_json_string` and a colon, and the text of the value behind it. -/
def memberOf (member : String × Bytes) : Bytes := openapiQuoted (ascii member.1) ++ ascii ":" ++ member.2

/-- Members in braces. -/
def writeObject (members : List (String × Bytes)) : Bytes :=
  ascii "\x7b" ++ writeItems memberOf members ++ ascii "\x7d"

def writeAssignment (assignment : IrWorkflowAssignment) : Bytes :=
  writeObject [("field", openapiQuoted assignment.name), ("expression", openapiQuoted assignment.expression)]

/-- `append_child_workflow_metadata`. -/
def writeChildWorkflow (childWorkflow : IrWorkflowChildWorkflow) : Bytes :=
  writeObject
    [("name", openapiQuoted childWorkflow.name),
      ("child_entity", optionalText childWorkflow.childEntity),
      ("child_workflow", optionalText childWorkflow.childWorkflow),
      ("child_id_field", optionalText childWorkflow.childIdField),
      ("child_id_type", optionalText childWorkflow.childIdType),
      ("parent_ref_field", optionalText childWorkflow.parentRefField),
      ("parent_ref_expression", optionalText childWorkflow.parentRefExpression),
      ("desired_count", optionalText childWorkflow.desiredCount),
      ("create_assignments",
        ascii "[" ++ writeItems writeAssignment childWorkflow.createAssignments ++ ascii "]"),
      ("success_expression", optionalText childWorkflow.successExpression),
      ("failure_expression", optionalText childWorkflow.failureExpression),
      ("derived_names",
        writeObject
          [("id_bucket_base", optionalText childWorkflow.idBucketBase),
            ("pending_bucket", optionalText childWorkflow.pendingBucket),
            ("creating_bucket", optionalText childWorkflow.creatingBucket),
            ("succeeded_bucket", optionalText childWorkflow.succeededBucket),
            ("failed_bucket", optionalText childWorkflow.failedBucket),
            ("generate_ids_step", optionalText childWorkflow.generateIdsStep),
            ("create_children_step", optionalText childWorkflow.createChildrenStep),
            ("wait_children_step", optionalText childWorkflow.waitChildrenStep)])]

/-- `workflow_descriptor_metadata_json`. -/
def workflowDescriptorMetadataJson (workflow : IrWorkflow) : Bytes :=
  if workflow.childWorkflows = [] then ascii "\x7b\x7d"
  else
    ascii "\x7b\"child_workflows\":[" ++ writeItems writeChildWorkflow workflow.childWorkflows ++ ascii "]\x7d"

/-! ## Specification -/

section

variable {δ : Type}

def readText : Json δ → Option Bytes
  | .string value => some value
  | _ => none

/-- What is absent is `null`. -/
def readOptional : Json δ → Option (Option Bytes)
  | .null => some none
  | .string value => some (some value)
  | _ => none

def readItems {α : Type} (read : Json δ → Option α) : Json δ → Option (List α)
  | .array values => values.mapM read
  | _ => none

def readMember {α : Type} (json : Json δ) (name : String) (read : Json δ → Option α) : Option α :=
  (json.find (ascii name)).bind read

def readAssignment (json : Json δ) : Option IrWorkflowAssignment := do
  let name ← readMember json "field" readText
  let expression ← readMember json "expression" readText
  return { name, expression }

/-- A derived name of a child workflow. -/
def readDerived (json : Json δ) (name : String) : Option (Option Bytes) :=
  readMember json "derived_names" fun derived => readMember derived name readOptional

def readChildWorkflow (json : Json δ) : Option IrWorkflowChildWorkflow := do
  let name ← readMember json "name" readText
  let childEntity ← readMember json "child_entity" readOptional
  let childWorkflow ← readMember json "child_workflow" readOptional
  let childIdField ← readMember json "child_id_field" readOptional
  let childIdType ← readMember json "child_id_type" readOptional
  let parentRefField ← readMember json "parent_ref_field" readOptional
  let parentRefExpression ← readMember json "parent_ref_expression" readOptional
  let desiredCount ← readMember json "desired_count" readOptional
  let createAssignments ← readMember json "create_assignments" (readItems readAssignment)
  let successExpression ← readMember json "success_expression" readOptional
  let failureExpression ← readMember json "failure_expression" readOptional
  let idBucketBase ← readDerived json "id_bucket_base"
  let pendingBucket ← readDerived json "pending_bucket"
  let creatingBucket ← readDerived json "creating_bucket"
  let succeededBucket ← readDerived json "succeeded_bucket"
  let failedBucket ← readDerived json "failed_bucket"
  let generateIdsStep ← readDerived json "generate_ids_step"
  let createChildrenStep ← readDerived json "create_children_step"
  let waitChildrenStep ← readDerived json "wait_children_step"
  return {
    name, childEntity, childWorkflow, childIdField, childIdType, parentRefField, parentRefExpression,
    desiredCount, createAssignments, successExpression, failureExpression, idBucketBase, pendingBucket,
    creatingBucket, succeededBucket, failedBucket, generateIdsStep, createChildrenStep, waitChildrenStep }

/-- The child workflows of a document; one without the member has none. -/
def readChildWorkflows (json : Json δ) : Option (List IrWorkflowChildWorkflow) :=
  match json.find (ascii "child_workflows") with
  | none => some []
  | some childWorkflows => readItems readChildWorkflow childWorkflows

/-! ## The document -/

def optionalJson (value : Option Bytes) : Json δ := value.elim .null .string

/-- An object with the members, under their names. -/
def objectJson (members : List (String × Json δ)) : Json δ :=
  Json.ofMembers (members.map fun member => (ascii member.1, member.2))

def assignmentMembers (assignment : IrWorkflowAssignment) : List (String × Json δ) :=
  [("field", .string assignment.name), ("expression", .string assignment.expression)]

def assignmentJson (assignment : IrWorkflowAssignment) : Json δ := objectJson (assignmentMembers assignment)

def derivedMembers (childWorkflow : IrWorkflowChildWorkflow) : List (String × Json δ) :=
  [("id_bucket_base", optionalJson childWorkflow.idBucketBase),
    ("pending_bucket", optionalJson childWorkflow.pendingBucket),
    ("creating_bucket", optionalJson childWorkflow.creatingBucket),
    ("succeeded_bucket", optionalJson childWorkflow.succeededBucket),
    ("failed_bucket", optionalJson childWorkflow.failedBucket),
    ("generate_ids_step", optionalJson childWorkflow.generateIdsStep),
    ("create_children_step", optionalJson childWorkflow.createChildrenStep),
    ("wait_children_step", optionalJson childWorkflow.waitChildrenStep)]

def childMembers (childWorkflow : IrWorkflowChildWorkflow) : List (String × Json δ) :=
  [("name", .string childWorkflow.name),
    ("child_entity", optionalJson childWorkflow.childEntity),
    ("child_workflow", optionalJson childWorkflow.childWorkflow),
    ("child_id_field", optionalJson childWorkflow.childIdField),
    ("child_id_type", optionalJson childWorkflow.childIdType),
    ("parent_ref_field", optionalJson childWorkflow.parentRefField),
    ("parent_ref_expression", optionalJson childWorkflow.parentRefExpression),
    ("desired_count", optionalJson childWorkflow.desiredCount),
    ("create_assignments", .array (childWorkflow.createAssignments.map assignmentJson)),
    ("success_expression", optionalJson childWorkflow.successExpression),
    ("failure_expression", optionalJson childWorkflow.failureExpression),
    ("derived_names", objectJson (derivedMembers childWorkflow))]

def childWorkflowJson (childWorkflow : IrWorkflowChildWorkflow) : Json δ := objectJson (childMembers childWorkflow)

/-- The document that the metadata of a workflow are. -/
def metadataJson (workflow : IrWorkflow) : Json δ :=
  if workflow.childWorkflows = [] then .object []
  else objectJson [("child_workflows", .array (workflow.childWorkflows.map childWorkflowJson))]

/-! ## What is written -/

/-- The text is that of the document, in front of anything. -/
def Writes (text : Bytes) (json : Json δ) : Prop := ∀ rest, Value (text ++ rest) json rest

theorem writes_string (value : Bytes) : Writes (δ := δ) (openapiQuoted value) (.string value) := by
  intro rest
  obtain ⟨name, hname, hchars⟩ := exists_chars value rest
  show Value (Json.escapedString value ++ rest) _ rest
  rw [hname]
  exact .string hchars

theorem writes_optional (value : Option Bytes) : Writes (δ := δ) (optionalText value) (optionalJson value) := by
  cases value with
  | none => exact fun rest => .null rest
  | some value => exact writes_string value

theorem writeItems_cons {α : Type} (item : α → Bytes) (first next : α) (rest : List α) :
    writeItems item (first :: next :: rest) = item first ++ ascii "," ++ writeItems item (next :: rest) := rfl

/-- The loop over the items of an array. -/
theorem items_written {α : Type} {item : α → Bytes} {json : α → Json δ} {items : List α} (hne : items ≠ [])
    (h : ∀ a ∈ items, Writes (item a) (json a)) (rest : Bytes) :
    Items (writeItems item items ++ 93 :: rest) (items.map json) rest := by
  induction items with
  | nil => exact absurd rfl hne
  | cons first items ih =>
    have hfirst := h first List.mem_cons_self
    cases items with
    | nil => exact .last (.none _) (hfirst _) (.none _)
    | cons next items =>
      rw [writeItems_cons, List.append_assoc, List.append_assoc, List.map_cons]
      exact .next (.none _) (hfirst _) (.none _)
        (ih (List.cons_ne_nil _ _) fun a ha => h a (List.mem_cons_of_mem _ ha))

theorem writes_array {α : Type} {item : α → Bytes} {json : α → Json δ} {items : List α}
    (h : ∀ a ∈ items, Writes (item a) (json a)) :
    Writes (ascii "[" ++ writeItems item items ++ ascii "]") (.array (items.map json)) := by
  intro rest
  rw [List.append_assoc, List.append_assoc]
  cases items with
  | nil => exact .noItems (.none _)
  | cons first items => exact .items (items_written (List.cons_ne_nil _ _) h rest)

/-- A member is written under its name. -/
def WritesMember (member : String × Bytes) (value : String × Json δ) : Prop :=
  member.1 = value.1 ∧ Writes member.2 value.2

/-- The members of an object, one behind the other. -/
theorem members_written {members : List (String × Bytes)} {values : List (String × Json δ)}
    (hne : members ≠ []) (h : List.Forall₂ WritesMember members values) (rest : Bytes) :
    Members (writeItems memberOf members ++ 125 :: rest)
      (values.map fun value => (ascii value.1, value.2)) rest := by
  induction h with
  | nil => exact absurd rfl hne
  | @cons member value members values hmember hrest ih =>
    obtain ⟨name, text⟩ := member
    obtain ⟨name', json⟩ := value
    obtain ⟨rfl, hvalue⟩ := hmember
    have hchars : ∀ behind, ∃ input, openapiQuoted (ascii name) ++ behind = 34 :: input ∧
        Chars input (ascii name) behind := exists_chars (ascii name)
    cases hrest with
    | nil =>
      obtain ⟨input, hinput, hname⟩ := hchars (58 :: (text ++ 125 :: rest))
      have htext : writeItems memberOf [(name, text)] ++ 125 :: rest = 34 :: input := by
        rw [← hinput, writeItems, memberOf, List.append_assoc, List.append_assoc]
        rfl
      rw [htext]
      exact .last (.none _) hname (.none _) (.none _) (hvalue _) (.none _)
    | @cons next value members values hnext hrest =>
      obtain ⟨input, hinput, hname⟩ :=
        hchars (58 :: (text ++ 44 :: (writeItems memberOf (next :: members) ++ 125 :: rest)))
      have htext : writeItems memberOf ((name, text) :: next :: members) ++ 125 :: rest = 34 :: input := by
        rw [← hinput, writeItems_cons, memberOf]
        simp only [List.append_assoc]
        rfl
      rw [htext, List.map_cons]
      exact .next (.none _) hname (.none _) (.none _) (hvalue _) (.none _) (ih (List.cons_ne_nil _ _))

/-- **Members in braces are an object**, when their names are distinct. -/
theorem writes_object {members : List (String × Bytes)} {values : List (String × Json δ)} (hne : members ≠ [])
    (h : List.Forall₂ WritesMember members values) (hnames : (values.map fun value => ascii value.1).Nodup) :
    Writes (writeObject members) (objectJson values) := by
  intro rest
  rw [writeObject, List.append_assoc, List.append_assoc]
  refine .members (members_written hne h rest) ?_
  rw [List.map_map]
  exact hnames

theorem nodup_assignmentMembers (assignment : IrWorkflowAssignment) :
    ((assignmentMembers (δ := δ) assignment).map fun member => ascii member.1).Nodup :=
  (by decide : [ascii "field", ascii "expression"].Nodup)

theorem writes_assignment (assignment : IrWorkflowAssignment) :
    Writes (δ := δ) (writeAssignment assignment) (assignmentJson assignment) := by
  refine writes_object (List.cons_ne_nil _ _) ?_ (nodup_assignmentMembers assignment)
  exact .cons ⟨rfl, writes_string _⟩ (.cons ⟨rfl, writes_string _⟩ .nil)

section

variable (childWorkflow : IrWorkflowChildWorkflow)

theorem nodup_childMembers :
    ((childMembers (δ := δ) childWorkflow).map fun member => ascii member.1).Nodup := by
  show [ascii "name", ascii "child_entity", ascii "child_workflow", ascii "child_id_field", ascii "child_id_type",
    ascii "parent_ref_field", ascii "parent_ref_expression", ascii "desired_count", ascii "create_assignments",
    ascii "success_expression", ascii "failure_expression", ascii "derived_names"].Nodup
  decide +kernel

theorem nodup_derivedMembers :
    ((derivedMembers (δ := δ) childWorkflow).map fun member => ascii member.1).Nodup := by
  show [ascii "id_bucket_base", ascii "pending_bucket", ascii "creating_bucket", ascii "succeeded_bucket",
    ascii "failed_bucket", ascii "generate_ids_step", ascii "create_children_step",
    ascii "wait_children_step"].Nodup
  decide +kernel

end

theorem writes_childWorkflow (childWorkflow : IrWorkflowChildWorkflow) :
    Writes (δ := δ) (writeChildWorkflow childWorkflow) (childWorkflowJson childWorkflow) := by
  have hoptional : ∀ (name : String) (value : Option Bytes),
      WritesMember (δ := δ) (name, optionalText value) (name, optionalJson value) := fun name value =>
    ⟨rfl, writes_optional value⟩
  refine writes_object (List.cons_ne_nil _ _) ?_ (nodup_childMembers childWorkflow)
  refine .cons ⟨rfl, writes_string _⟩ ?_
  iterate 7 refine .cons (hoptional _ _) ?_
  refine .cons ⟨rfl, writes_array fun assignment _ => writes_assignment assignment⟩ ?_
  iterate 2 refine .cons (hoptional _ _) ?_
  refine .cons ⟨rfl, writes_object (List.cons_ne_nil _ _) ?_ (nodup_derivedMembers childWorkflow)⟩ .nil
  iterate 8 refine .cons (hoptional _ _) ?_
  exact .nil

/-- **The metadata are the text of their document.** -/
theorem says_metadata (workflow : IrWorkflow) :
    Says (workflowDescriptorMetadataJson workflow) (metadataJson (δ := δ) workflow) := by
  have hwrites : Writes (δ := δ) (workflowDescriptorMetadataJson workflow) (metadataJson workflow) := by
    unfold workflowDescriptorMetadataJson metadataJson
    split
    · exact fun rest => .noMembers (.none _)
    · have hmember : WritesMember (δ := δ)
          ("child_workflows", ascii "[" ++ writeItems writeChildWorkflow workflow.childWorkflows ++ ascii "]")
          ("child_workflows", .array (workflow.childWorkflows.map childWorkflowJson)) :=
        ⟨rfl, writes_array fun childWorkflow _ => writes_childWorkflow childWorkflow⟩
      have hobject := writes_object (List.cons_ne_nil _ _) (.cons hmember .nil) (List.nodup_singleton _)
      have htext : writeObject
          [("child_workflows", ascii "[" ++ writeItems writeChildWorkflow workflow.childWorkflows ++ ascii "]")] =
          ascii "\x7b\"child_workflows\":[" ++ writeItems writeChildWorkflow workflow.childWorkflows ++
            ascii "]\x7d" := by
        rw [writeObject, writeItems, memberOf]
        simp only [List.append_assoc]
        rfl
      rwa [htext] at hobject
  have hvalue := hwrites []
  rw [List.append_nil] at hvalue
  exact ⟨_, [], .none _, hvalue, .none _⟩

/-! ## What is read -/

/-- A member is found under its name. -/
theorem find_objectJson {values : List (String × Json δ)}
    (hnames : (values.map fun value => ascii value.1).Nodup) {name : String} {json : Json δ}
    (hmem : (name, json) ∈ values) : (objectJson values).find (ascii name) = some json := by
  obtain ⟨front, back, hsplit⟩ := List.append_of_mem hmem
  rw [objectJson, Json.find_ofMembers, hsplit, List.map_append, List.map_cons, List.lookup_eq_some_iff]
  refine ⟨_, _, rfl, fun member hmember => ?_⟩
  obtain ⟨value, hvalue, rfl⟩ := List.mem_map.mp hmember
  rw [hsplit, List.map_append, List.map_cons, List.nodup_append] at hnames
  have hne := hnames.2.2 (ascii value.1) (List.mem_map.mpr ⟨value, hvalue, rfl⟩) (ascii name) List.mem_cons_self
  exact bne_iff_ne.mpr hne.symm

theorem readOptional_json (value : Option Bytes) : readOptional (δ := δ) (optionalJson value) = some value := by
  cases value with
  | none => rfl
  | some value => rfl

/-- Items are read in order. -/
theorem readItems_array {α : Type} {read : Json δ → Option α} {json : α → Json δ}
    (h : ∀ a, read (json a) = some a) (items : List α) : readItems read (.array (items.map json)) = some items := by
  show (items.map json).mapM read = some items
  induction items with
  | nil => rfl
  | cons a items ih =>
    rw [List.map_cons, List.mapM_cons, h, ih]
    rfl

/-- What a member of an object is read as. -/
theorem readMember_json {α : Type} {values : List (String × Json δ)}
    (hnames : (values.map fun value => ascii value.1).Nodup) {name : String} {json : Json δ}
    {read : Json δ → Option α} {a : α} (hmem : (name, json) ∈ values) (hread : read json = some a) :
    readMember (objectJson values) name read = some a := by
  rw [readMember, find_objectJson hnames hmem]
  exact hread

theorem readAssignment_json (assignment : IrWorkflowAssignment) :
    readAssignment (δ := δ) (assignmentJson assignment) = some assignment := by
  have hread : ∀ (name : String) (value : Bytes), (name, .string value) ∈ assignmentMembers assignment →
      readMember (δ := δ) (assignmentJson assignment) name readText = some value := fun name value hmem =>
    readMember_json (nodup_assignmentMembers assignment) hmem rfl
  rw [readAssignment, hread "field" assignment.name (by simp [assignmentMembers]),
    hread "expression" assignment.expression (by simp [assignmentMembers])]
  rfl

section

variable (childWorkflow : IrWorkflowChildWorkflow)

theorem readMember_child {α : Type} {name : String} {json : Json δ} {read : Json δ → Option α} {a : α}
    (hmem : (name, json) ∈ childMembers childWorkflow) (hread : read json = some a) :
    readMember (childWorkflowJson childWorkflow) name read = some a :=
  readMember_json (nodup_childMembers childWorkflow) hmem hread

theorem readOptional_child {name : String} {value : Option Bytes}
    (hmem : (name, optionalJson (δ := δ) value) ∈ childMembers childWorkflow) :
    readMember (δ := δ) (childWorkflowJson childWorkflow) name readOptional = some value :=
  readMember_child childWorkflow hmem (readOptional_json value)

theorem readDerived_child {name : String} {value : Option Bytes}
    (hmem : (name, optionalJson (δ := δ) value) ∈ derivedMembers childWorkflow) :
    readDerived (δ := δ) (childWorkflowJson childWorkflow) name = some value := by
  have hderived : ("derived_names", objectJson (derivedMembers (δ := δ) childWorkflow)) ∈
      childMembers childWorkflow := by simp [childMembers]
  have hread := readMember_json (nodup_derivedMembers childWorkflow) hmem (readOptional_json value)
  exact readMember_child childWorkflow hderived hread

/-- **A child workflow is read back.** -/
theorem readChildWorkflow_json :
    readChildWorkflow (δ := δ) (childWorkflowJson childWorkflow) = some childWorkflow := by
  have hoptional : ∀ (name : String) (value : Option Bytes), _ → _ = some value := fun name value =>
    @readOptional_child δ childWorkflow name value
  have hderived : ∀ (name : String) (value : Option Bytes), _ → _ = some value := fun name value =>
    @readDerived_child δ childWorkflow name value
  have hname : ("name", .string childWorkflow.name) ∈ childMembers (δ := δ) childWorkflow := by
    simp [childMembers]
  have hassignments : ("create_assignments", .array (childWorkflow.createAssignments.map assignmentJson)) ∈
      childMembers (δ := δ) childWorkflow := by simp [childMembers]
  have hread := readMember_child childWorkflow hassignments (readItems_array readAssignment_json _)
  rw [readChildWorkflow, @readMember_child δ childWorkflow _ _ _ readText _ hname rfl, hread,
    hoptional "child_entity" childWorkflow.childEntity (by simp [childMembers]),
    hoptional "child_workflow" childWorkflow.childWorkflow (by simp [childMembers]),
    hoptional "child_id_field" childWorkflow.childIdField (by simp [childMembers]),
    hoptional "child_id_type" childWorkflow.childIdType (by simp [childMembers]),
    hoptional "parent_ref_field" childWorkflow.parentRefField (by simp [childMembers]),
    hoptional "parent_ref_expression" childWorkflow.parentRefExpression (by simp [childMembers]),
    hoptional "desired_count" childWorkflow.desiredCount (by simp [childMembers]),
    hoptional "success_expression" childWorkflow.successExpression (by simp [childMembers]),
    hoptional "failure_expression" childWorkflow.failureExpression (by simp [childMembers]),
    hderived "id_bucket_base" childWorkflow.idBucketBase (by simp [derivedMembers]),
    hderived "pending_bucket" childWorkflow.pendingBucket (by simp [derivedMembers]),
    hderived "creating_bucket" childWorkflow.creatingBucket (by simp [derivedMembers]),
    hderived "succeeded_bucket" childWorkflow.succeededBucket (by simp [derivedMembers]),
    hderived "failed_bucket" childWorkflow.failedBucket (by simp [derivedMembers]),
    hderived "generate_ids_step" childWorkflow.generateIdsStep (by simp [derivedMembers]),
    hderived "create_children_step" childWorkflow.createChildrenStep (by simp [derivedMembers]),
    hderived "wait_children_step" childWorkflow.waitChildrenStep (by simp [derivedMembers])]
  rfl

end

end

/-- **The metadata survive**: they are parsed, and the child workflows are read back from them. -/
theorem workflowMetadata_roundTrip {δ : Type} [Strtod δ] (workflow : IrWorkflow) :
    ∃ members : List (Bytes × Json δ),
      JsonParser.parse (workflowDescriptorMetadataJson workflow) = .ok (.object members) ∧
        readChildWorkflows (.object members) = some workflow.childWorkflows := by
  have hparse : JsonParser.parse (workflowDescriptorMetadataJson workflow) =
      .ok (metadataJson (δ := δ) workflow) := parse_of_saying (says_metadata workflow)
  have hread : readChildWorkflows (metadataJson (δ := δ) workflow) = some workflow.childWorkflows := by
    unfold metadataJson
    split
    · rename_i hnone
      rw [hnone]
      rfl
    · have hfind : (objectJson (δ := δ)
          [("child_workflows", .array (workflow.childWorkflows.map childWorkflowJson))]).find
            (ascii "child_workflows") = some (.array (workflow.childWorkflows.map childWorkflowJson)) := by
        refine find_objectJson ?_ List.mem_cons_self
        exact List.nodup_singleton (ascii "child_workflows")
      rw [readChildWorkflows, hfind]
      exact readItems_array readChildWorkflow_json _
  obtain ⟨members, hmembers⟩ : ∃ members, metadataJson (δ := δ) workflow = .object members := by
    unfold metadataJson
    split
    · exact ⟨[], rfl⟩
    · exact ⟨_, rfl⟩
  rw [hmembers] at hparse hread
  exact ⟨members, hparse, hread⟩

end StateSpec.Compiler
