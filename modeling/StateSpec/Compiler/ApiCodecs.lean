/-
  GENERATED CODECS AND THE PUBLISHED SCHEMAS.

  `openapi_schema_for_type` follows a type through lists, sets, maps and declared names; `cpp_decode_expr`
  looks at its text once, and takes everything that is not one of a few names for a string.  So the schema
  promises arrays, objects and numbers (`float`) that the decoder refuses.

  * `decodesRequests_iff`  — a request decoder takes every body the schema accepts, exactly when the C++ type
                             of each field reads every kind of JSON that the schema of the field admits;
  * `returnsResponses_iff` — and a response comes back under the same condition, but for integers that are
                             cut to 32 bits;
  * `codecs_accept_iff`    — so for the inputs and outputs of all APIs of a system.
-/
import StateSpec.Compiler.JsonSchema
import StateSpec.Compiler.Validator
import StateSpec.Generated.Handlers

namespace StateSpec.Compiler

open Generated (CppType cppShapeType CppValue Request isOptionalType stripOptionalType decodeExpr decodeField
  decodeRequest encodeResponse jsonExpr requireMember toInt32)

variable {δ : Type} [Widening δ]

/-! ## What is published -/

/-- The fields of a shape, as the codec generator reads them. -/
def codecFields (shape : IrShape) : List Generated.IrField :=
  shape.fields.map fun field => ⟨field.name, field.type⟩

/-- The body is valid for the schema of the shape. -/
def ValidBody (published : IrSystem) (shape : IrShape) (body : Json δ) : Prop :=
  AcceptsShape (schemaComponents published)
    (shape.fields.map fun field => (field.name, schemaFor published field.type)) (requiredNames shape) body

/-- The struct of the shape is C++: no member is declared twice. -/
def Compiles (shape : IrShape) : Prop := (shape.fields.map IrField.name).Nodup

/-- A JSON value and what it comes back as: itself, or the double that an integer converts to. -/
inductive SameJson : Json δ → Json δ → Prop where
  | same (json : Json δ) : SameJson json json
  | widened (n : Int) : SameJson (.int64 n) (.double (Widening.ofInt n))

/-- A member and what it comes back as. -/
def SameMember : Option (Json δ) → Option (Json δ) → Prop
  | none, none => True
  | some json, some json' => SameJson json json'
  | _, _ => False

/-- The members of a shape come back, and nothing else. -/
structure ComesBack (shape : IrShape) (body encoded : Json δ) : Prop where
  member : ∀ field ∈ shape.fields, SameMember (body.find field.name) (encoded.find field.name)
  other : ∀ name ∉ shape.fields.map IrField.name, encoded.find name = none

/-- `decode_<api>_request` takes every valid body. -/
def DecodesRequests (δ : Type) [Widening δ] (published : IrSystem) (shape : IrShape) : Prop :=
  ∀ body : Json δ, ValidBody published shape body →
    ∃ request, decodeRequest body (codecFields shape) = .ok request

/-- `decode_<api>_response` takes every valid body, and `encode_<api>_response` gives it back. -/
def ReturnsResponses (δ : Type) [Widening δ] (published : IrSystem) (shape : IrShape) : Prop :=
  ∀ body : Json δ, ValidBody published shape body →
    ∃ response, decodeRequest body (codecFields shape) = .ok response ∧
      ∀ statusCode, ComesBack shape body (encodeResponse statusCode response).body

/-! ## What the types read -/

/-- The kinds of JSON that a C++ type is decoded from. -/
def reads : CppType → JsonKind → Bool
  | .json, _ => true
  | .bool, .boolean => true
  | .int32, .integer _ | .int64, .integer _ => true
  | .double, .integer _ | .double, .number => true
  | .string, .string => true
  | _, _ => false

/-- The kinds that also come back. -/
def returns : CppType → JsonKind → Bool
  | .int32, .integer .int64 => false
  | type, kind => reads type kind

/-- Every kind of JSON that a member may have is one that its C++ type reads. -/
def KindsRead (δ : Type) (reads : CppType → JsonKind → Bool) (published : IrSystem) (shape : IrShape) : Prop :=
  (∃ body : Json δ, ValidBody published shape body) →
    ∀ field ∈ shape.fields, ∀ kind,
      Admits (schemaComponents published) δ (schemaFor published field.type) kind →
        reads (cppShapeType field.type) kind = true

theorem reads_of_returns {type : CppType} {kind : JsonKind} (h : returns type kind = true) :
    reads type kind = true := by
  unfold returns at h
  split at h
  · cases h
  · exact h

section Field

variable {field : Generated.IrField} {kind : JsonKind} {json : Json δ}

theorem toInt32_of_fits {n : Int} (h : IntFormat.int32.Fits n) : toInt32 n = n := by
  obtain ⟨hlow, hhigh⟩ := h
  rw [toInt32]
  exact Int.bmod_eq_of_le (by omega) (by omega)

/-- A kind that is read is decoded; one that comes back, comes back. -/
theorem decodeExpr_of_reads (h : reads (cppShapeType field.type) kind = true) (hjson : kind.Holds json) :
    ∃ value, decodeExpr field json = .ok value ∧
      (returns (cppShapeType field.type) kind = true → SameJson json (jsonExpr value)) := by
  rw [decodeExpr]
  cases htype : cppShapeType field.type with
  | json => exact ⟨_, rfl, fun _ => .same json⟩
  | bool =>
    rw [htype] at h
    cases kind <;> first | cases h; done | skip
    obtain ⟨value, rfl⟩ := hjson
    exact ⟨_, rfl, fun _ => .same _⟩
  | int64 =>
    rw [htype] at h
    cases kind <;> first | cases h; done | skip
    obtain ⟨n, rfl, -⟩ := hjson
    exact ⟨_, rfl, fun _ => .same _⟩
  | int32 =>
    rw [htype] at h
    cases kind <;> first | cases h; done | skip
    rename_i format
    obtain ⟨n, rfl, hfits⟩ := hjson
    refine ⟨_, rfl, fun hreturns => ?_⟩
    cases format with
    | int64 => cases hreturns
    | int32 =>
      rw [show jsonExpr (.int32 (toInt32 n)) = (.int64 (toInt32 n) : Json δ) from rfl, toInt32_of_fits hfits]
      exact .same _
  | double =>
    rw [htype] at h
    cases kind <;> first | cases h; done | skip
    · obtain ⟨n, rfl, -⟩ := hjson
      exact ⟨_, rfl, fun _ => .widened n⟩
    · rcases hjson with ⟨n, rfl⟩ | ⟨value, rfl⟩
      · exact ⟨_, rfl, fun _ => .widened n⟩
      · exact ⟨_, rfl, fun _ => .same _⟩
  | string =>
    rw [htype] at h
    cases kind <;> first | cases h; done | skip
    obtain ⟨value, rfl⟩ := hjson
    exact ⟨_, rfl, fun _ => .same _⟩

/-- For a kind that is not read, something is accepted that is not decoded. -/
theorem exists_undecoded {components : List (Bytes × Component)} {schema : Schema}
    (h : reads (cppShapeType field.type) kind = false) (hjson : Accepts components schema kind json) :
    ∃ json', Accepts components schema kind json' ∧
      ∀ value : CppValue δ, decodeExpr field json' ≠ .ok value := by
  -- a number that is not whole where an integer is expected; any value of the kind everywhere else
  by_cases hnumber : kind = .number
  · subst hnumber
    refine ⟨.double (Widening.ofInt 0), hjson.doubles _, fun value hvalue => ?_⟩
    rw [decodeExpr] at hvalue
    cases htype : cppShapeType field.type with
    | json | double =>
      rw [htype] at h
      cases h
    | bool | int32 | int64 | string =>
      rw [htype] at hvalue
      cases hvalue
  · refine ⟨json, hjson, fun value hvalue => ?_⟩
    have hholds := hjson.holds
    rw [decodeExpr] at hvalue
    cases htype : cppShapeType field.type with
    | json | bool | int32 | int64 | double | string =>
      rw [htype] at h hvalue
      cases kind with
      | number => exact hnumber rfl
      | boolean | integer | string | array | object =>
        first
          | (cases h; done)
          | (obtain ⟨_, rfl⟩ := hholds; cases hvalue)
          | (obtain ⟨_, rfl, -⟩ := hholds; cases hvalue)

/-- For a kind that does not come back, something is accepted that is decoded as something else. -/
theorem exists_changed {components : List (Bytes × Component)} {schema : Schema}
    (h : returns (cppShapeType field.type) kind = false) (hjson : Accepts components schema kind json) :
    ∃ json', Accepts components schema kind json' ∧
      ∀ value : CppValue δ, decodeExpr field json' = .ok value → ¬ SameJson json' (jsonExpr value) := by
  by_cases hreads : reads (cppShapeType field.type) kind = true
  · -- integers that are cut: the first one that 32 bits do not hold
    obtain ⟨htype, rfl⟩ : cppShapeType field.type = .int32 ∧ kind = .integer .int64 := by
      unfold returns at h
      split at h
      · rename_i htype
        exact ⟨htype, rfl⟩
      · rw [hreads] at h
        cases h
    refine ⟨.int64 (2 ^ 31), hjson.integers ⟨by norm_num, by norm_num⟩, fun value hvalue hsame => ?_⟩
    rw [decodeExpr, htype] at hvalue
    obtain rfl := Except.ok.inj hvalue
    cases hsame
  · obtain ⟨json', hjson', hnone⟩ := exists_undecoded (by simpa using hreads) hjson
    exact ⟨json', hjson', fun value hvalue => absurd hvalue (hnone value)⟩

end Field

/-! ## Bodies -/

section Body

variable {published : IrSystem} {shape : IrShape} {field : IrField} {kind : JsonKind} {body json : Json δ}

theorem mem_codecFields {generated : Generated.IrField} :
    generated ∈ codecFields shape ↔ ∃ field ∈ shape.fields, generated = ⟨field.name, field.type⟩ := by
  rw [codecFields, List.mem_map]
  exact exists_congr fun field => and_congr_right fun _ => eq_comm

omit [Widening δ] in
theorem mem_requiredNames {name : Bytes} : name ∈ requiredNames shape ↔
    ∃ field ∈ shape.fields, isOptionalType field.type = false ∧ field.name = name := by
  simp [requiredNames, and_assoc]

omit [Widening δ] in
/-- What a valid body has for a field is accepted by the schema of the field. -/
theorem ValidBody.accepts (h : ValidBody published shape body) (hfield : field ∈ shape.fields)
    (hjson : body.find field.name = some json) :
    ∃ kind, Accepts (schemaComponents published) (schemaFor published field.type) kind json :=
  h.properties (field.name, schemaFor published field.type)
    (List.mem_map.mpr ⟨field, hfield, rfl⟩) json hjson

omit [Widening δ] in
/-- Any other accepted value may stand in its place. -/
theorem ValidBody.replace (h : ValidBody published shape body) (hnames : Compiles shape)
    (hfield : field ∈ shape.fields)
    (hjson : Accepts (schemaComponents published) (schemaFor published field.type) kind json) :
    ∃ body', ValidBody published shape body' ∧ body'.find field.name = some json := by
  obtain ⟨members, rfl⟩ := h.object
  have hfind : ∀ name, (Json.object (Json.assign field.name json members)).find name =
      if name = field.name then some json else (Json.object members).find name := fun name =>
    Json.lookup_assign field.name name json members
  refine ⟨.object (Json.assign field.name json members), ⟨⟨_, rfl⟩, fun name hname => ?_, ?_⟩, ?_⟩
  · rw [hfind]
    split
    · exact ⟨json, rfl⟩
    · exact h.required name hname
  · intro property hproperty other hother
    obtain ⟨field', hfield', rfl⟩ := List.mem_map.mp hproperty
    rw [hfind] at hother
    split at hother
    · rename_i hname
      obtain rfl := List.inj_on_of_nodup_map hnames hfield' hfield hname
      obtain rfl := Option.some_inj.mp hother
      exact ⟨kind, hjson⟩
    · exact h.accepts hfield' hother
  · rw [hfind, if_pos rfl]

/-- A member that is there is decoded by the type of its field. -/
theorem decodeField_of_find {generated : Generated.IrField} (hjson : body.find generated.name = some json)
    (hnull : json ≠ .null) : decodeField generated body = (decodeExpr generated json).map some := by
  rw [decodeField]
  split
  · rw [hjson]
    cases json <;> first | exact absurd rfl hnull | rfl
  · have hmember : requireMember body generated.name = .ok json := by
      rw [requireMember, hjson]
      cases json <;> first | exact absurd rfl hnull | rfl
    rw [hmember]
    show (decodeExpr generated json).bind (fun value => pure (some value)) = _
    cases decodeExpr generated json <;> rfl

/-- A member that is not there is not decoded, and need not be. -/
theorem decodeField_of_absent {generated : Generated.IrField} (hjson : body.find generated.name = none)
    (hoptional : isOptionalType generated.type = true) : decodeField generated body = .ok none := by
  rw [decodeField, if_pos hoptional, hjson]

/-- **What decoding comes to**: it comes through for all fields or not at all. -/
theorem decodeRequest_ok_iff {fields : List Generated.IrField} :
    (∃ request, decodeRequest body fields = .ok request) ↔
      ∀ generated ∈ fields, ∃ value, decodeField generated body = .ok value := by
  induction fields with
  | nil => simp [decodeRequest]
  | cons generated rest ih =>
    rw [List.forall_mem_cons, ← ih, decodeRequest]
    cases decodeField generated body with
    | error e =>
      refine iff_of_false ?_ ?_
      · rintro ⟨request, ⟨⟩⟩
      · rintro ⟨⟨value, ⟨⟩⟩, -⟩
    | ok value =>
      cases decodeRequest body rest with
      | error e =>
        refine iff_of_false ?_ ?_
        · rintro ⟨request, ⟨⟩⟩
        · rintro ⟨-, request, ⟨⟩⟩
      | ok request => exact iff_of_true ⟨_, rfl⟩ ⟨⟨value, rfl⟩, request, rfl⟩

/-- What a decoded request has under each name. -/
theorem lookup_decodeRequest {fields : List Generated.IrField} {request : Request δ}
    (hnames : (fields.map Generated.IrField.name).Nodup) (h : decodeRequest body fields = .ok request) :
    (request.map Prod.fst).Sublist (fields.map Generated.IrField.name) ∧
      ∀ generated ∈ fields, decodeField generated body = .ok (request.lookup generated.name) := by
  induction fields generalizing request with
  | nil =>
    obtain rfl : [] = request := Except.ok.inj h
    exact ⟨List.Sublist.slnil, fun _ h => absurd h List.not_mem_nil⟩
  | cons generated rest ih =>
    rw [decodeRequest] at h
    cases hvalue : decodeField generated body with
    | error e =>
      rw [hvalue] at h
      cases h
    | ok value =>
      cases hrest : decodeRequest body rest with
      | error e =>
        rw [hvalue, hrest] at h
        cases h
      | ok request' =>
        rw [hvalue, hrest] at h
        obtain rfl : value.toList.map (generated.name, ·) ++ request' = request := Except.ok.inj h
        rw [List.map_cons, List.nodup_cons] at hnames
        obtain ⟨hsub, hlookup⟩ := ih hnames.2 hrest
        have hfresh : request'.lookup generated.name = none := by
          rw [List.lookup_eq_none_iff]
          intro p hp
          have hne : generated.name ≠ p.1 := fun heq =>
            hnames.1 (heq ▸ hsub.subset (List.mem_map_of_mem hp))
          simpa using hne
        cases value with
        | none =>
          refine ⟨hsub.cons _, fun other hother => ?_⟩
          rcases List.mem_cons.mp hother with rfl | hother
          · rw [hvalue]
            exact congrArg Except.ok hfresh.symm
          · exact hlookup other hother
        | some value =>
          refine ⟨hsub.cons_cons _, fun other hother => ?_⟩
          rcases List.mem_cons.mp hother with rfl | hother
          · rw [hvalue]
            simp
          · have hne : (other.name == generated.name) = false := by
              rw [beq_eq_false_iff_ne]
              exact fun heq => hnames.1 (heq ▸ List.mem_map_of_mem hother)
            rw [hlookup other hother]
            simp [List.lookup_cons, hne]

omit [Widening δ] in
/-- The members of an encoded response. -/
theorem find_encodeResponse (response : Request δ) (statusCode : Nat) (name : Bytes) :
    (encodeResponse statusCode response).body.find name = (response.lookup name).map jsonExpr := by
  rw [encodeResponse, Json.find_ofMembers]
  induction response with
  | nil => rfl
  | cons member rest ih =>
    rw [List.map_cons, List.lookup_cons, List.lookup_cons, ih]
    cases name == member.1 <;> rfl

/-- What the type of a field makes of the member that a valid body has for it, if it reads it. -/
theorem decodeField_of_valid (h : ValidBody published shape body) (hfield : field ∈ shape.fields)
    (hreads : ∀ kind, Admits (schemaComponents published) δ (schemaFor published field.type) kind →
      reads (cppShapeType field.type) kind = true) :
    ∃ value : Option (CppValue δ), decodeField ⟨field.name, field.type⟩ body = .ok value ∧
      ((∀ kind, Admits (schemaComponents published) δ (schemaFor published field.type) kind →
          returns (cppShapeType field.type) kind = true) →
        SameMember (body.find field.name) (value.map jsonExpr)) := by
  cases hfind : body.find field.name with
  | none =>
    have hoptional : isOptionalType field.type = true := by
      by_contra hrequired
      obtain ⟨json, hjson⟩ := h.required field.name
        (mem_requiredNames.mpr ⟨field, hfield, by simpa using hrequired, rfl⟩)
      rw [hfind] at hjson
      cases hjson
    exact ⟨none, decodeField_of_absent hfind hoptional, fun _ => trivial⟩
  | some json =>
    obtain ⟨kind, hjson⟩ := h.accepts hfield hfind
    obtain ⟨value, hvalue, hsame⟩ :=
      @decodeExpr_of_reads δ _ ⟨field.name, field.type⟩ kind json (hreads kind ⟨json, hjson⟩) hjson.holds
    refine ⟨some value, ?_, fun hreturns => hsame (hreturns kind ⟨json, hjson⟩)⟩
    rw [decodeField_of_find hfind hjson.ne_null, hvalue]
    rfl

/-- **What an accepted value tells about the type of its field**: where it takes the place of a member of a
    valid body, and the new body is decoded, it was decoded. -/
theorem decodeExpr_of_decodeField {generated : Generated.IrField} {value : Option (CppValue δ)}
    (hfind : body.find generated.name = some json) (hnull : json ≠ .null)
    (h : decodeField generated body = .ok value) :
    ∃ decoded, decodeExpr generated json = .ok decoded ∧ value = some decoded := by
  rw [decodeField_of_find hfind hnull] at h
  cases hdecoded : decodeExpr generated json with
  | error e =>
    rw [hdecoded] at h
    cases h
  | ok decoded =>
    rw [hdecoded] at h
    exact ⟨decoded, rfl, (Except.ok.inj h).symm⟩

/-- **When every valid body is decoded.** -/
theorem decodesRequests_iff (hnames : Compiles shape) :
    DecodesRequests δ published shape ↔ KindsRead δ reads published shape := by
  constructor
  · rintro h ⟨body, hbody⟩ field hfield kind ⟨json, hjson⟩
    by_contra hreads
    obtain ⟨json', hjson', hnone⟩ :=
      @exists_undecoded δ _ ⟨field.name, field.type⟩ kind json _ _ (by simpa using hreads) hjson
    obtain ⟨body', hbody', hfind⟩ := hbody.replace hnames hfield hjson'
    obtain ⟨value, hvalue⟩ := decodeRequest_ok_iff.mp (h body' hbody') _
      (mem_codecFields.mpr ⟨field, hfield, rfl⟩)
    obtain ⟨decoded, hdecoded, -⟩ := decodeExpr_of_decodeField hfind hjson'.ne_null hvalue
    exact hnone decoded hdecoded
  · intro h body hbody
    refine decodeRequest_ok_iff.mpr fun generated hgenerated => ?_
    obtain ⟨field, hfield, rfl⟩ := mem_codecFields.mp hgenerated
    obtain ⟨value, hvalue, -⟩ := decodeField_of_valid hbody hfield (h ⟨body, hbody⟩ field hfield)
    exact ⟨value, hvalue⟩

/-- **When every valid body comes back.** -/
theorem returnsResponses_iff (hnames : Compiles shape) :
    ReturnsResponses δ published shape ↔ KindsRead δ returns published shape := by
  have hcodec : ((codecFields shape).map Generated.IrField.name).Nodup := by
    rw [codecFields, List.map_map]
    exact hnames
  constructor
  · rintro h ⟨body, hbody⟩ field hfield kind ⟨json, hjson⟩
    by_contra hreturns
    obtain ⟨json', hjson', hchanged⟩ :=
      @exists_changed δ _ ⟨field.name, field.type⟩ kind json _ _ (by simpa using hreturns) hjson
    obtain ⟨body', hbody', hfind⟩ := hbody.replace hnames hfield hjson'
    obtain ⟨response, hresponse, hback⟩ := h body' hbody'
    have hvalue := (lookup_decodeRequest hcodec hresponse).2 _ (mem_codecFields.mpr ⟨field, hfield, rfl⟩)
    obtain ⟨decoded, hdecoded, hlookup⟩ := decodeExpr_of_decodeField hfind hjson'.ne_null hvalue
    have hmember := (hback 200).member field hfield
    rw [hfind, find_encodeResponse, hlookup] at hmember
    exact hchanged decoded hdecoded hmember
  · intro h body hbody
    have hreads : KindsRead δ reads published shape := fun hsome field hfield kind hadmits =>
      reads_of_returns (h hsome field hfield kind hadmits)
    obtain ⟨response, hresponse⟩ := (decodesRequests_iff hnames).mpr hreads body hbody
    obtain ⟨hsub, hlookup⟩ := lookup_decodeRequest hcodec hresponse
    refine ⟨response, hresponse, fun statusCode => ⟨fun field hfield => ?_, fun name hname => ?_⟩⟩
    · obtain ⟨value, hvalue, hsame⟩ :=
        decodeField_of_valid hbody hfield (hreads ⟨body, hbody⟩ field hfield)
      have hat := hlookup _ (mem_codecFields.mpr ⟨field, hfield, rfl⟩)
      rw [hvalue] at hat
      rw [find_encodeResponse, ← Except.ok.inj hat]
      exact hsame (h ⟨body, hbody⟩ field hfield)
    · have hnone : response.lookup name = none := by
        rw [List.lookup_eq_none_iff]
        intro p hp
        have hne : name ≠ p.1 := by
          rintro rfl
          obtain ⟨generated, hgenerated, heq⟩ :=
            List.mem_map.mp (hsub.subset (List.mem_map_of_mem hp))
          obtain ⟨field, hfield, rfl⟩ := mem_codecFields.mp hgenerated
          exact hname (heq ▸ List.mem_map_of_mem hfield)
        simpa using hne
      rw [find_encodeResponse, hnone]
      rfl

end Body

/-! ## All APIs -/

/-- The codecs of a system's APIs accept what the published schemas promise. -/
def CodecsAccept (δ : Type) [Widening δ] (system : IrSystem) : Prop :=
  ∀ api ∈ system.apis,
    (∀ shape, api.input.bind system.findShape = some shape → Compiles shape →
      DecodesRequests δ (withGeneratedOperatorMetadataOpenapi system) shape) ∧
    ∀ shape, api.output.bind system.findShape = some shape → Compiles shape →
      ReturnsResponses δ (withGeneratedOperatorMetadataOpenapi system) shape

/-- **When the codecs accept what the schemas promise.** -/
theorem codecs_accept_iff (system : SystemDecl) : CodecsAccept δ (lowerToIr system) ↔
    ∀ api ∈ (lowerToIr system).apis,
      (∀ shape, api.input.bind (lowerToIr system).findShape = some shape → Compiles shape →
        KindsRead δ reads (withGeneratedOperatorMetadataOpenapi (lowerToIr system)) shape) ∧
      ∀ shape, api.output.bind (lowerToIr system).findShape = some shape → Compiles shape →
        KindsRead δ returns (withGeneratedOperatorMetadataOpenapi (lowerToIr system)) shape := by
  refine forall_congr' fun api => forall_congr' fun _ => and_congr ?_ ?_
  · exact forall_congr' fun shape => forall_congr' fun _ => forall_congr' fun hnames =>
      decodesRequests_iff hnames
  · exact forall_congr' fun shape => forall_congr' fun _ => forall_congr' fun hnames =>
      returnsResponses_iff hnames

/-! ## A list of tags -/

/-- A system with an API that takes tags. -/
def tagSystem : SystemDecl :=
  { name := ascii "Tags"
    tenantScope := some {}
    systemTenant := some {}
    shapes := [{ name := ascii "TagRequest"
                 fields := [{ name := ascii "tenant_id", type := ascii "string" },
                   { name := ascii "tags", type := ascii "list<string>" }] }]
    apis := [{ name := ascii "PutTags", method := some (ascii "POST")
               path := some (ascii "/v1/\x7btenant_id\x7d/tags"), input := some (ascii "TagRequest")
               output := some (ascii "TagRequest") }] }

/-- The request shape, lowered. -/
def tagRequest : IrShape :=
  { name := ascii "TagRequest"
    fields := [⟨ascii "tenant_id", ascii "string"⟩, ⟨ascii "tags", ascii "list<string>"⟩] }

theorem componentNames_tags :
    componentNames (withGeneratedOperatorMetadataOpenapi (lowerToIr tagSystem)) = [ascii "TagRequest"] := by
  decide +kernel

/-- A request with one tag. -/
def oneTag : Json Int :=
  .object [(ascii "tags", .array [.string (ascii "new")]), (ascii "tenant_id", .string (ascii "t1"))]

theorem validBody_oneTag :
    ValidBody (withGeneratedOperatorMetadataOpenapi (lowerToIr tagSystem)) tagRequest oneTag where
  object := ⟨_, rfl⟩
  required property hproperty := by
    obtain ⟨field, hfield, -, rfl⟩ := mem_requiredNames.mp hproperty
    rcases List.mem_cons.mp hfield with rfl | hfield
    · exact ⟨_, rfl⟩
    · obtain rfl := List.mem_singleton.mp hfield
      exact ⟨_, rfl⟩
  properties property hproperty json hjson := by
    have hstring : ∀ value : Bytes, Accepts
        (schemaComponents (withGeneratedOperatorMetadataOpenapi (lowerToIr tagSystem)))
        (schemaFor (withGeneratedOperatorMetadataOpenapi (lowerToIr tagSystem)) (ascii "string")) .string
        (.string value : Json Int) := by
      intro value
      have hform : typeForm (withGeneratedOperatorMetadataOpenapi (lowerToIr tagSystem)) (ascii "string") =
          .scalar (ascii "string") := by
        rw [typeForm, componentNames_tags, if_neg (by decide)]
        rfl
      rw [schemaFor_eq, show stripOptionalType (ascii "string") = ascii "string" by decide, hform]
      exact .string none value
    obtain ⟨field, hfield, rfl⟩ := List.mem_map.mp hproperty
    rcases List.mem_cons.mp hfield with rfl | hfield
    · obtain rfl : (.string (ascii "t1") : Json Int) = json := Option.some_inj.mp hjson
      exact ⟨_, hstring _⟩
    · obtain rfl := List.mem_singleton.mp hfield
      obtain rfl : (.array [.string (ascii "new")] : Json Int) = json := Option.some_inj.mp hjson
      have hform : typeForm (withGeneratedOperatorMetadataOpenapi (lowerToIr tagSystem))
          (ascii "list<string>") = .list (ascii "string") := by
        rw [typeForm, componentNames_tags, if_neg (by decide)]
        rfl
      refine ⟨.array, ?_⟩
      rw [schemaFor_eq, show stripOptionalType (ascii "list<string>") = ascii "list<string>" by decide, hform]
      refine .array (fun _ => .string) (fun h => by cases h) fun value hvalue => ?_
      obtain rfl := List.mem_singleton.mp hvalue
      exact hstring _

/-- **A list of tags is promised, and refused.** -/
theorem tags_refused :
    Accepted tagSystem ∧
      (∃ api ∈ (lowerToIr tagSystem).apis,
        api.input.bind (lowerToIr tagSystem).findShape = some tagRequest) ∧
      ValidBody (withGeneratedOperatorMetadataOpenapi (lowerToIr tagSystem)) tagRequest oneTag ∧
      ∀ request, decodeRequest oneTag (codecFields tagRequest) ≠ .ok request := by
  refine ⟨by decide +kernel, by decide +kernel, validBody_oneTag, fun request hrequest => ?_⟩
  have htags : (⟨ascii "tags", ascii "list<string>"⟩ : Generated.IrField) ∈ codecFields tagRequest :=
    mem_codecFields.mpr ⟨⟨ascii "tags", ascii "list<string>"⟩, by simp [tagRequest], rfl⟩
  have hfind : oneTag.find (ascii "tags") = some (.array [.string (ascii "new")]) := rfl
  obtain ⟨value, hvalue⟩ := decodeRequest_ok_iff.mp ⟨request, hrequest⟩ _ htags
  obtain ⟨decoded, hdecoded, -⟩ := decodeExpr_of_decodeField hfind (by simp) hvalue
  -- the type of the field is taken for a string
  have htype : cppShapeType (ascii "list<string>") = .string := by decide
  rw [decodeExpr, htype] at hdecoded
  cases hdecoded

end StateSpec.Compiler
