/-
  ENTITY KEYS IDENTIFY ENTITIES — `entity_key`, and the key of what the repository has stored.

  1. **Texts** — documents without doubles are those of `Json Empty` (`exists_widened`), so their canonical texts
     tell them apart whatever prints a double (`canonicalString_split_doubleFree`).
  2. **Keys** — a key has one line for each key field, and a line ends with the first line feed behind the text of
     a value.  So complete lookups have one key just when they give the key fields the same values.
  3. **Stored documents** — `Stores`, what a script stores with any answers of the transaction.  The repository
     stores the document with the key fields of the lookup, and these have its key (`entityKeys_identify`).
-/
import StateSpec.Generated.EntityRepository

namespace StateSpec

/-! ## Documents without doubles -/

namespace Json

variable {δ : Type}

/-- No double at any depth. -/
inductive DoubleFree : Json δ → Prop where
  | null : DoubleFree .null
  | bool (value : Bool) : DoubleFree (.bool value)
  | int64 (value : Int) : DoubleFree (.int64 value)
  | string (value : Bytes) : DoubleFree (.string value)
  | array {values : List (Json δ)} (h : ∀ value ∈ values, DoubleFree value) : DoubleFree (.array values)
  | object {members : List (Bytes × Json δ)} (h : ∀ member ∈ members, DoubleFree member.2) :
      DoubleFree (.object members)

mutual

/-- A document that can have no doubles, among those that can. -/
def widened : Json Empty → Json δ
  | .null => .null
  | .bool value => .bool value
  | .int64 value => .int64 value
  | .double value => value.elim
  | .string value => .string value
  | .array values => .array (widenedItems values)
  | .object members => .object (widenedMembers members)

def widenedItems : List (Json Empty) → List (Json δ)
  | [] => []
  | value :: rest => widened value :: widenedItems rest

def widenedMembers : List (Bytes × Json Empty) → List (Bytes × Json δ)
  | [] => []
  | (key, value) :: rest => (key, widened value) :: widenedMembers rest

end

/-- Each document without doubles is one of those. -/
theorem exists_widened {json : Json δ} (h : DoubleFree json) : ∃ narrow, widened narrow = json := by
  induction h with
  | null => exact ⟨.null, rfl⟩
  | bool value => exact ⟨.bool value, rfl⟩
  | int64 value => exact ⟨.int64 value, rfl⟩
  | string value => exact ⟨.string value, rfl⟩
  | @array values _ ih =>
    obtain ⟨narrow, hnarrow⟩ : ∃ narrow, widenedItems narrow = values := by
      clear * - ih
      induction values with
      | nil => exact ⟨[], rfl⟩
      | cons value rest hrest =>
        obtain ⟨first, rfl⟩ := ih value List.mem_cons_self
        obtain ⟨more, rfl⟩ := hrest fun other hother => ih other (List.mem_cons_of_mem _ hother)
        exact ⟨first :: more, rfl⟩
    exact ⟨.array narrow, by rw [widened, hnarrow]⟩
  | @object members _ ih =>
    obtain ⟨narrow, hnarrow⟩ : ∃ narrow, widenedMembers narrow = members := by
      clear * - ih
      induction members with
      | nil => exact ⟨[], rfl⟩
      | cons member rest hrest =>
        obtain ⟨key, value⟩ := member
        obtain ⟨first, hfirst⟩ := ih (key, value) List.mem_cons_self
        obtain ⟨more, rfl⟩ := hrest fun other hother => ih other (List.mem_cons_of_mem _ hother)
        have hvalue : widened first = value := hfirst
        exact ⟨(key, first) :: more, by rw [widenedMembers, hvalue]⟩
    exact ⟨.object narrow, by rw [widened, hnarrow]⟩

variable [Decimal δ]

mutual

/-- It has the same text. -/
theorem canonicalString_widened : ∀ narrow : Json Empty,
    canonicalString (widened narrow : Json δ) = canonicalString narrow
  | .null => rfl
  | .bool _ => rfl
  | .int64 _ => rfl
  | .double value => value.elim
  | .string _ => rfl
  | .array values => by
    rw [widened, canonicalString, canonicalWith, canonicalItems_widened values]
    rfl
  | .object members => by
    rw [widened, canonicalString, canonicalWith, canonicalMembers_widened members]
    rfl

theorem canonicalItems_widened : ∀ values : List (Json Empty),
    canonicalItems escapedString (widenedItems values : List (Json δ)) = canonicalItems escapedString values
  | [] => rfl
  | [value] => canonicalString_widened value
  | value :: next :: rest => by
    have hvalue := canonicalString_widened value
    have hrest := canonicalItems_widened (next :: rest)
    rw [canonicalItems_cons, ← hvalue, restText, ← hrest, widenedItems, canonicalItems_cons]
    rfl

theorem canonicalMembers_widened : ∀ members : List (Bytes × Json Empty),
    canonicalMembers escapedString (widenedMembers members : List (Bytes × Json δ)) =
      canonicalMembers escapedString members
  | [] => rfl
  | (key, value) :: rest => by
    have hvalue := canonicalString_widened value
    have hrest := canonicalMembers_widened rest
    rw [widenedMembers, canonicalMembers_cons, canonicalMembers_cons, hvalue]
    cases rest with
    | nil => rfl
    | cons next rest =>
      rw [restText, ← hrest]
      rfl

end

/-- **Their texts tell them apart**, whatever follows that is no part of a number. -/
theorem canonicalString_split_doubleFree {json other : Json δ} (h : DoubleFree json) (hother : DoubleFree other)
    {x y : Bytes} (hx : Delimited x) (hy : Delimited y)
    (htext : canonicalString json ++ x = canonicalString other ++ y) : json = other ∧ x = y := by
  obtain ⟨narrow, rfl⟩ := exists_widened h
  obtain ⟨narrow', rfl⟩ := exists_widened hother
  rw [canonicalString_widened, canonicalString_widened] at htext
  obtain ⟨rfl, hrest⟩ := canonicalString_split narrow narrow' hx hy htext
  exact ⟨rfl, hrest⟩

end Json

/-! ## What a script stores -/

namespace Cpp.Script

open Memory

variable {δ ρ α β : Type}

/-- With some answers of the transaction the script stores the document. -/
def Stores (c : CollectionName) (k : Key) (document : Json δ) : Script δ ρ → Prop
  | .ret _ => False
  | .throw _ => False
  | .get _ _ next => ∃ r, (next r).Stores c k document
  | .query _ _ next => ∃ r, (next r).Stores c k document
  | .put c' k' document' next => (c = c' ∧ k = k' ∧ document = document') ∨ next.Stores c k document
  | .erase _ _ next => next.Stores c k document

/-- The repository stores one document, behind a check of the record that is there. -/
theorem stores_checked {c c' : CollectionName} {k k' : Key} {document document' : Json δ}
    {check : Option (VersionedRecord δ) → Except Error Unit} (hpasses : ∃ r, check r = .ok ()) :
    Stores c k document (getTx c' k' >>= fun existing => ofExcept (check existing) >>= fun _ =>
      putTx c' k' document' >>= fun _ => getTx c' k') ↔ c = c' ∧ k = k' ∧ document = document' := by
  show (∃ r, Stores c k document (ofExcept (check r) >>= fun _ =>
    putTx c' k' document' >>= fun _ => getTx c' k')) ↔ _
  have hstored : Stores c k document (putTx c' k' document' >>= fun _ => getTx c' k') ↔
      c = c' ∧ k = k' ∧ document = document' := by
    constructor
    · rintro (hsame | ⟨_, hnone⟩)
      · exact hsame
      · exact hnone.elim
    · exact Or.inl
  constructor
  · rintro ⟨r, hr⟩
    cases hcheck : check r with
    | error e =>
      rw [hcheck] at hr
      exact hr.elim
    | ok u =>
      rw [hcheck] at hr
      exact hstored.mp hr
  · intro hsame
    obtain ⟨r, hr⟩ := hpasses
    refine ⟨r, ?_⟩
    rw [hr]
    exact hstored.mpr hsame

end Cpp.Script

namespace Generated

open Cpp Memory

variable {δ : Type}

/-! ## Lookups -/

/-- The values of the lookup are free of doubles. -/
def EntityLookup.DoubleFree (lookup : EntityLookup δ) : Prop :=
  ∀ keyValue ∈ lookup.keyValues, keyValue.value.DoubleFree

theorem EntityLookup.DoubleFree.value {lookup : EntityLookup δ} (h : lookup.DoubleFree) {field : Bytes}
    {value : Json δ} (hvalue : entityKeyValue lookup field = some value) : value.DoubleFree := by
  obtain ⟨keyValue, hfind, rfl⟩ := Option.map_eq_some_iff.mp hvalue
  exact h keyValue (List.mem_of_find?_eq_some hfind)

/-- A complete lookup has a value for each key field. -/
theorem isSome_of_complete {lookup : EntityLookup δ} (h : lookup.keyComplete = true) :
    ∀ field ∈ lookup.keyFields, (entityKeyValue lookup field).isSome = true := by
  intro field hfield
  obtain ⟨keyValue, hmem, hsame⟩ := List.any_eq_true.mp (List.all_eq_true.mp h field hfield)
  rw [entityKeyValue, Option.isSome_map, List.find?_isSome]
  exact ⟨keyValue, hmem, hsame⟩

/-- Fields that are listed once have one value. -/
theorem consistent_of_nodup {lookup : EntityLookup δ}
    (h : (lookup.keyValues.map EntityKeyValue.field).Nodup) : Consistent lookup := by
  intro keyValue hmem
  rw [entityKeyValue]
  generalize lookup.keyValues = keyValues at h hmem
  induction keyValues with
  | nil => cases hmem
  | cons first rest ih =>
    rw [List.map_cons, List.nodup_cons] at h
    rcases List.mem_cons.mp hmem with rfl | hrest
    · rw [List.find?_cons, beq_self_eq_true]
      rfl
    · have hne : (first.field == keyValue.field) = false := by
        rw [beq_eq_false_iff_ne]
        intro hsame
        exact h.1 (hsame ▸ List.mem_map_of_mem hrest)
      rw [List.find?_cons, hne]
      exact ih h.2 hrest

/-! ## Keys -/

variable [Decimal δ]

theorem keyLine_split_doubleFree {field x y : Bytes} {value other : Json δ} (h : value.DoubleFree)
    (hother : other.DoubleFree) (hlines : keyLine field value ++ x = keyLine field other ++ y) :
    value = other ∧ x = y := by
  rw [keyLine, keyLine, List.append_assoc, List.append_assoc] at hlines
  have hvalue := (List.cons.inj (List.append_cancel_left hlines)).2
  simp only [List.append_eq, List.append_assoc, List.singleton_append] at hvalue
  obtain ⟨hsame, hrest⟩ := Json.canonicalString_split_doubleFree h hother
    (Json.delimited_cons x (by decide)) (Json.delimited_cons y (by decide)) hvalue
  exact ⟨hsame, (List.cons.inj hrest).2⟩

/-- The same lines are of the same values. -/
theorem keyLines_same {lookup other : EntityLookup δ} (h : lookup.DoubleFree) (hother : other.DoubleFree)
    {keyFields : List Bytes} {key : Bytes} (hkey : keyLines lookup keyFields = some key)
    (hkey' : keyLines other keyFields = some key) :
    ∀ field ∈ keyFields, entityKeyValue lookup field = entityKeyValue other field := by
  induction keyFields generalizing key with
  | nil => nofun
  | cons keyField rest ih =>
    obtain ⟨value, hvalue, hkey⟩ := Option.bind_eq_some_iff.mp hkey
    obtain ⟨value', hvalue', hkey'⟩ := Option.bind_eq_some_iff.mp hkey'
    obtain ⟨lines, hlines, rfl⟩ := Option.map_eq_some_iff.mp hkey
    obtain ⟨lines', hlines', heq⟩ := Option.map_eq_some_iff.mp hkey'
    obtain ⟨rfl, rfl⟩ := keyLine_split_doubleFree (hother.value hvalue') (h.value hvalue) heq
    intro field hfield
    rcases List.mem_cons.mp hfield with rfl | hmem
    · rw [hvalue, hvalue']
    · exact ih hlines hlines' field hmem

/-! ## The key of what is stored -/

section

variable {entity : IrEntity} {lookup : EntityLookup δ}

/-- The document with the key fields of the lookup has its key. -/
theorem entityKey_stored (hfields : lookup.keyFields = entity.keyFields)
    (hcomplete : lookup.keyComplete = true) (hnodup : (lookup.keyValues.map EntityKeyValue.field).Nodup)
    (document : Json δ) :
    entityKey (entityLookupFromDocument entity (entityDocumentWithKeys document lookup)) = entityKey lookup := by
  have hsame : ∀ field ∈ lookup.keyFields,
      entityKeyValue (entityLookupFromDocument entity (entityDocumentWithKeys document lookup)) field =
        entityKeyValue lookup field := by
    intro field hfield
    obtain ⟨value, hvalue⟩ := Option.isSome_iff_exists.mp (isSome_of_complete hcomplete field hfield)
    rw [entityKeyValue_fromDocument, if_pos (hfields ▸ hfield),
      find_entityDocumentWithKeys (consistent_of_nodup hnodup), hvalue, Option.some_or]
  obtain ⟨key, hkey, hlines⟩ := entityKey_of_values (isSome_of_complete hcomplete)
  obtain ⟨key', hkey', hlines'⟩ :=
    @entityKey_of_values _ _ (entityLookupFromDocument entity (entityDocumentWithKeys document lookup))
      fun field hfield => by
        have hmem : field ∈ lookup.keyFields := hfields ▸ hfield
        rw [hsame field hmem]
        exact isSome_of_complete hcomplete field hmem
  have hcongr := keyLines_congr hsame
  rw [hlines, hfields] at hcongr
  rw [hkey, hkey', ← hlines', ← hcongr]
  rfl

/-- What `create_entityTx` stores. -/
theorem stores_createEntityTx {key : Key} (hkey : entityKey lookup = some key) (document : Json δ)
    {c : CollectionName} {k : Key} {stored : Json δ} :
    (createEntityTx lookup document).Stores c k stored ↔
      c = lookup.entity ∧ k = key ∧ stored = entityDocumentWithKeys document lookup := by
  have hpasses : ∃ existing : Option (VersionedRecord δ), (if existing.isSome = true then
      Except.error (Error.conflictError .versionConflict (ascii "entity already exists")) else .ok ()) = .ok () :=
    ⟨none, rfl⟩
  rw [← Script.stores_checked hpasses, createEntityTx, hkey]
  refine exists_congr fun existing => ?_
  cases existing <;> rfl

/-- What `upsert_entityTx` stores. -/
theorem stores_upsertEntityTx {key : Key} (hkey : entityKey lookup = some key) (document : Json δ)
    (expectedVersion : Option Version) {c : CollectionName} {k : Key} {stored : Json δ} :
    (upsertEntityTx lookup document expectedVersion).Stores c k stored ↔
      c = lookup.entity ∧ k = key ∧ stored = entityDocumentWithKeys document lookup := by
  have hpasses : ∃ existing : Option (VersionedRecord δ),
      assertExpectedVersion existing expectedVersion = .ok () := by
    cases expectedVersion with
    | none => exact ⟨none, rfl⟩
    | some expected => exact ⟨some ⟨[], [], expected, .null⟩, if_pos rfl⟩
  rw [← Script.stores_checked hpasses, upsertEntityTx, hkey]

end

/-- **Entity keys identify entities.**  Complete lookups without doubles have the same key just when they give the
    key fields the same values; and the key of the document that is stored is the one it is stored under. -/
theorem entityKeys_identify (entity : IrEntity) :
    (∀ lookup other : EntityLookup δ, lookup.keyFields = entity.keyFields → other.keyFields = entity.keyFields →
      lookup.keyComplete = true → other.keyComplete = true → lookup.DoubleFree → other.DoubleFree →
      ∃ key key', entityKey lookup = some key ∧ entityKey other = some key' ∧
        (key = key' ↔
          ∀ field ∈ entity.keyFields, entityKeyValue lookup field = entityKeyValue other field)) ∧
    (∀ lookup : EntityLookup δ, lookup.keyFields = entity.keyFields → lookup.keyComplete = true →
      (lookup.keyValues.map EntityKeyValue.field).Nodup → ∀ document : Json δ,
      ∃ key stored, entityKey lookup = some key ∧
        (∀ c k d, (createEntityTx lookup document).Stores c k d ↔ c = lookup.entity ∧ k = key ∧ d = stored) ∧
        (∀ expectedVersion c k d, (upsertEntityTx lookup document expectedVersion).Stores c k d ↔
          c = lookup.entity ∧ k = key ∧ d = stored) ∧
        entityKey (entityLookupFromDocument entity stored) = some key) := by
  constructor
  · intro lookup other hfields hfields' hcomplete hcomplete' hfree hfree'
    obtain ⟨key, hkey, hlines⟩ := entityKey_of_values (isSome_of_complete hcomplete)
    obtain ⟨key', hkey', hlines'⟩ := entityKey_of_values (isSome_of_complete hcomplete')
    rw [hfields] at hlines
    rw [hfields'] at hlines'
    refine ⟨key, key', hkey, hkey', ?_, ?_⟩
    · rintro rfl
      exact keyLines_same hfree hfree' hlines hlines'
    · intro hsame
      have hcongr := keyLines_congr hsame
      rw [hlines, hlines'] at hcongr
      exact Option.some.inj hcongr
  · intro lookup hfields hcomplete hnodup document
    obtain ⟨key, hkey, -⟩ := entityKey_of_values (isSome_of_complete hcomplete)
    refine ⟨key, entityDocumentWithKeys document lookup, hkey, ?_, ?_, ?_⟩
    · intro c k d
      exact stores_createEntityTx hkey document
    · intro expectedVersion c k d
      exact stores_upsertEntityTx hkey document expectedVersion
    · rw [entityKey_stored hfields hcomplete hnodup, hkey]

/-- An entity with two key fields. -/
def keyedOrder : IrEntity where
  name := ascii "Order"
  keyFields := [ascii "tenant", ascii "id"]
  fields := []
  states := []
  initialState := none

/-- The order `line` of a tenant whose name ends a line. -/
def orderLookup (line : Int) : EntityLookup Empty where
  entity := ascii "Order"
  keyFields := [ascii "tenant", ascii "id"]
  keyValues := [⟨ascii "tenant", .string (ascii "a=1\n")⟩, ⟨ascii "id", .array [.int64 line, .null]⟩]

theorem doubleFree_orderLookup (line : Int) : (orderLookup line).DoubleFree := by
  intro keyValue hmem
  rcases List.mem_cons.mp hmem with rfl | hmem
  · exact .string _
  · obtain rfl := List.mem_singleton.mp hmem
    refine .array fun value hvalue => ?_
    rcases List.mem_cons.mp hvalue with rfl | hvalue
    · exact .int64 line
    · obtain rfl := List.mem_singleton.mp hvalue
      exact .null

/-- Two orders have two keys, and the first one is stored under its own. -/
theorem entityKeys_identify_orders : entityKey (orderLookup 7) ≠ entityKey (orderLookup 8) ∧
    ∃ stored : Json Empty, (∃ c k, (createEntityTx (orderLookup 7) .null).Stores c k stored) ∧
      entityKey (entityLookupFromDocument keyedOrder stored) = entityKey (orderLookup 7) := by
  obtain ⟨hkeys, hstored⟩ := @entityKeys_identify Empty _ keyedOrder
  constructor
  · obtain ⟨key, key', hkey, hkey', hsame⟩ := hkeys (orderLookup 7) (orderLookup 8) rfl rfl rfl rfl
      (doubleFree_orderLookup 7) (doubleFree_orderLookup 8)
    rw [hkey, hkey']
    intro hequal
    have hvalues := hsame.mp (Option.some.inj hequal) (ascii "id") (List.mem_cons_of_mem _ List.mem_cons_self)
    exact absurd hvalues (by decide)
  · obtain ⟨key, stored, hkey, hcreate, -, hdocument⟩ := hstored (orderLookup 7) rfl rfl (by decide) .null
    exact ⟨stored, ⟨_, _, (hcreate _ _ _).mpr ⟨rfl, rfl, rfl⟩⟩, hdocument.trans hkey.symm⟩

end Generated

end StateSpec
