/-
  THE CRUD CONTRACT — `generator_crud_contract.cpp`: what the generators want of the APIs that have an entity
  and an operation on it, and when the lowering of an accepted system gives it to them.

  `crudContract_iff` says what the validator leaves open: a create without a resource, a list whose path does
  not give its selector, and declared APIs for which the lowering guesses an operation from their method and the
  name of their output.
-/
import StateSpec.Compiler.LoweredApis

namespace StateSpec.Compiler

def crudContractError (api : IrApi) (message : String) : Diagnostics :=
  .error {} "SSPEC5105" ("generated CRUD API '" ++ text api.name ++ "' " ++ message)

def selectorIsKeyOrIndexBacked (entity : IrEntity) (selector : List Bytes) : Bool :=
  selector.isPrefixOf entity.keyFields ||
    entity.indexes.any fun index =>
      decide (selector = [index.name]) || selector.isPrefixOf index.fields

def hasAllFields (actual required : List Bytes) : Bool := required.all fun field => decide (field ∈ actual)

def requireShape (ir : IrSystem) (api : IrApi) (shapeName : Option Bytes) (role : String) : Diagnostics :=
  match shapeName with
  | none => crudContractError api ("requires " ++ role ++ " shape")
  | some name =>
    reportIf (ir.findShape name).isNone
      (crudContractError api ("references missing " ++ role ++ " shape '" ++ text name ++ "'"))

def validateKeyRoute (api : IrApi) (entity : IrEntity) : Diagnostics :=
  reportIf (¬ (api.path.isSome ∧ hasAllFields (pathParameterSet api.path) entity.keyFields = true))
    (crudContractError api "route path must include every entity key field")

def validateListSelector (api : IrApi) (entity : IrEntity) : Diagnostics :=
  if api.listSelector = [] then crudContractError api "requires a non-empty list selector"
  else
    (api.listSelector.flatMap fun field =>
      reportIf (field ∉ entity.fields.map IrField.name)
        (crudContractError api ("list selector references unknown entity field '" ++ text field ++ "'"))) ++
    reportIf (selectorIsKeyOrIndexBacked entity api.listSelector = false)
      (crudContractError api
        "list selector must be an entity key prefix, index name, or index field prefix") ++
    reportIf (hasAllFields (pathParameterSet api.path) api.listSelector = false)
      (crudContractError api "route path must include every list selector field")

def requireMethod (api : IrApi) (operation method : String) : Diagnostics :=
  reportIf (api.method.getD [] ≠ ascii method)
    (crudContractError api (operation ++ " operation must use " ++ method))

/-- What an operation on a known entity wants. -/
def validateOperation (ir : IrSystem) (api : IrApi) (entity : IrEntity) (operation : Bytes) : Diagnostics :=
  if operation = ascii "create" then
    requireShape ir api api.input "request" ++ requireShape ir api api.output "response" ++
      validateKeyRoute api entity ++ requireMethod api "create" "POST"
  else if operation = ascii "get" then
    requireShape ir api api.output "response" ++ validateKeyRoute api entity ++
      requireMethod api "get" "GET"
  else if operation = ascii "list" then
    requireShape ir api api.output "response" ++ validateListSelector api entity ++
      requireMethod api "list" "GET"
  else if operation = ascii "update_status" then
    requireShape ir api api.input "request" ++ requireShape ir api api.output "response" ++
      validateKeyRoute api entity ++ requireMethod api "update_status" "PATCH"
  else if operation = ascii "delete" then
    validateKeyRoute api entity ++ requireMethod api "delete" "DELETE"
  else crudContractError api ("uses unsupported repository operation '" ++ text operation ++ "'")

def validateCrudApi (ir : IrSystem) (api : IrApi) : Diagnostics :=
  match api.entity, api.repositoryOperation with
  | none, none => []
  | some name, some operation =>
    match ir.findEntity name with
    | none => crudContractError api ("references unknown entity '" ++ text name ++ "'")
    | some entity =>
      reportIf api.method.isNone (crudContractError api "requires an HTTP method") ++
      reportIf api.path.isNone (crudContractError api "requires a route path") ++
      validateOperation ir api entity operation
  | _, _ =>
    crudContractError api "requires both api.entity and api.repository_operation metadata or neither"

/-- `validate_crud_handler_inputs`: it is false when there is one of these errors. -/
def validateCrudHandlerInputs (ir : IrSystem) : Diagnostics := ir.apis.flatMap (validateCrudApi ir)

/-! ## What the checks want -/

@[simp]
theorem not_clean_crudContractError (api : IrApi) (message : String) :
    ¬ Clean (crudContractError api message) := not_clean_error _ _ _

section Checks

variable {ir : IrSystem} {api : IrApi} {entity : IrEntity}

theorem hasAllFields_iff {actual required : List Bytes} :
    hasAllFields actual required = true ↔ ∀ field ∈ required, field ∈ actual := by
  rw [hasAllFields, List.all_eq_true]
  exact forall₂_congr fun field _ => decide_eq_true_iff

theorem clean_requireShape {shapeName : Option Bytes} {role : String} :
    Clean (requireShape ir api shapeName role) ↔ ∃ name ∈ shapeName, (ir.findShape name).isSome = true := by
  rcases shapeName with _ | name
  · simp [requireShape]
  · simp [requireShape, Option.isSome_iff_ne_none]

theorem clean_keyRoute : Clean (validateKeyRoute api entity) ↔
    api.path.isSome = true ∧ ∀ keyField ∈ entity.keyFields, keyField ∈ pathParameterSet api.path := by
  rw [validateKeyRoute, clean_reportIf, hasAllFields_iff]
  simp

theorem clean_listSelector : Clean (validateListSelector api entity) ↔
    api.listSelector ≠ [] ∧ (∀ field ∈ api.listSelector, field ∈ entity.fields.map IrField.name) ∧
      selectorIsKeyOrIndexBacked entity api.listSelector = true ∧
      ∀ field ∈ api.listSelector, field ∈ pathParameterSet api.path := by
  unfold validateListSelector
  by_cases hempty : api.listSelector = []
  · simp [hempty]
  · rw [if_neg hempty, clean_append, clean_append, clean_flatMap]
    simp only [clean_reportIf, not_clean_crudContractError, imp_false, not_not, Bool.not_eq_false,
      hasAllFields_iff, and_assoc, ne_eq, hempty, not_false_eq_true, true_and]

theorem clean_requireMethod {operation method : String} (h : api.method = some (ascii method)) :
    Clean (requireMethod api operation method) := by
  rw [requireMethod, clean_reportIf, h]
  exact fun hne => absurd rfl hne

/-- The checks of an API with a known entity. -/
theorem clean_crudApi {name operation : Bytes} (hentity : api.entity = some name)
    (hoperation : api.repositoryOperation = some operation) (hfind : ir.findEntity name = some entity) :
    Clean (validateCrudApi ir api) ↔ api.method.isSome = true ∧ api.path.isSome = true ∧
      Clean (validateOperation ir api entity operation) := by
  simp [validateCrudApi, hentity, hoperation, hfind, Option.isSome_iff_ne_none]

end Checks

/-! ## The operations of `api` blocks -/

section Operations

variable {system : SystemDecl} {entity : EntityDecl} {api : EntityApiDecl}

/-- The shapes of an `api` block have names in the lowered system. -/
theorem derivedShape_found (hentity : entity ∈ system.entities) {shape : IrShape}
    (hshape : shape ∈ entityApiShapes entity) :
    ((lowerToIr system).findShape shape.name).isSome = true := by
  rw [findShape_isSome]
  refine List.mem_map_of_mem (List.mem_append_right _ ?_)
  exact List.mem_flatMap.mpr ⟨entity, hentity, hshape⟩

theorem responseShape_mem (hapi : entity.api = some api) : responseShape entity ∈ entityApiShapes entity := by
  rw [entityApiShapes, hapi]
  exact List.mem_cons_self

theorem createRequest_mem (hapi : entity.api = some api) {create : EntityApiCreateDecl}
    (hcreate : create ∈ api.create) :
    createRequest entity api.resource create ∈ entityApiShapes entity := by
  rw [entityApiShapes, hapi]
  simp [Option.mem_def.mp hcreate]

theorem updateRequest_mem (hapi : entity.api = some api) {updateStatus : EntityApiOperationDecl}
    (hupdate : updateStatus ∈ api.updateStatus) :
    updateRequest entity api.resource updateStatus ∈ entityApiShapes entity := by
  rw [entityApiShapes, hapi]
  simp [Option.mem_def.mp hupdate]

theorem listResponse_mem (hapi : entity.api = some api) {list : EntityApiListDecl} (hlist : list ∈ api.lists) :
    listResponse entity list ∈ entityApiShapes entity := by
  rw [entityApiShapes, hapi]
  refine List.mem_cons_of_mem _ (List.mem_append_right _ ?_)
  exact List.mem_map_of_mem hlist

/-- A suffix without braces has no parameters. -/
theorem pathParameters_append {path rest : Bytes} (hopen : byte '\x7b' ∉ rest) (hclose : byte '\x7d' ∉ rest) :
    pathParameters (path ++ rest) = pathParameters path := by
  induction pathRead path with
  | plain hplain =>
    rw [pathParameters_front hplain, pathParameters_plain hopen, pathParameters_plain hplain]
  | @unclosed front behind hfront hbehind =>
    have hboth : byte '\x7d' ∉ behind ++ rest := by
      rw [List.mem_append, not_or]
      exact ⟨hbehind, hclose⟩
    rw [List.append_assoc, List.cons_append, pathParameters_unclosed hfront hboth,
      pathParameters_unclosed hfront hbehind]
  | @closed front parameter behind hfront hparameter hbehind ih =>
    simp only [List.append_assoc, List.cons_append]
    rw [pathParameters_closed hfront hparameter, pathParameters_closed hfront hparameter, ih]

theorem pathParameters_statusPath (resource : Bytes) :
    pathParameters (statusPath resource) = pathParameters resource := by
  unfold statusPath
  split
  · exact pathParameters_append (by decide) (by decide)
  · exact pathParameters_append (by decide) (by decide)

theorem lowerEntity_fieldNames (entity : EntityDecl) :
    (lowerEntity entity).fields.map IrField.name = fieldNames entity.fields := by
  rw [lowerEntity, lowerFields, List.map_map]
  rfl

/-- What begins an index is backed by it. -/
theorem backed_of_prefix {entity : IrEntity} {index : IrIndex} (hindex : index ∈ entity.indexes)
    {selector : List Bytes} (hfront : selector <+: index.fields) :
    selectorIsKeyOrIndexBacked entity selector = true := by
  rw [selectorIsKeyOrIndexBacked, Bool.or_eq_true, List.any_eq_true]
  refine .inr ⟨index, hindex, ?_⟩
  rw [Bool.or_eq_true, List.isPrefixOf_iff_prefix]
  exact .inr hfront

/-- The selector of a list is one that the contract takes, apart from the path. -/
theorem listSelector_backed {symbols : SymbolTable} (hclean : Clean (validateEntity system symbols entity))
    (hapi : entity.api = some api) {list : EntityApiListDecl} (hlist : list ∈ api.lists) :
    listSelectorFields entity list ≠ [] ∧
      (∀ field ∈ listSelectorFields entity list, field ∈ (lowerEntity entity).fields.map IrField.name) ∧
      selectorIsKeyOrIndexBacked (lowerEntity entity) (listSelectorFields entity list) = true := by
  have hindexed : ∀ index ∈ entity.indexes, ∀ selector : List Bytes, selector <+: index.fields →
      selector ≠ [] → (∀ field ∈ selector, field ∈ fieldNames entity.fields) ∧
        selectorIsKeyOrIndexBacked (lowerEntity entity) selector = true := by
    intro index hindex selector hfront hne
    refine ⟨fun field hfield => (clean_index hclean hindex).2 field (hfront.subset hfield), ?_⟩
    exact backed_of_prefix (List.mem_map_of_mem hindex) hfront
  have hallowed := clean_list hclean hapi hlist
  rw [lowerEntity_fieldNames]
  rcases hfound : selectedIndex entity list with _ | index
  · -- no index of this name: the selector is what the list is by
    have hby : listSelectorFields entity list = list.by' := by
      rw [listSelectorFields, hfound]
    rw [hby]
    simp only [entityApiListSelectorIsAllowed, isNonemptyPrefix, Bool.or_eq_true, Bool.and_eq_true,
      List.any_eq_true, decide_eq_true_eq, List.isPrefixOf_iff_prefix] at hallowed
    rcases hallowed with ⟨hne, hfront⟩ | ⟨index, hindex, hname | ⟨hne, hfront⟩⟩
    · refine ⟨hne, fun field hfield => (clean_keyFields hclean).2 field (hfront.subset hfield), ?_⟩
      rw [selectorIsKeyOrIndexBacked, Bool.or_eq_true, List.isPrefixOf_iff_prefix]
      exact .inl hfront
    · rw [selectedIndex, hname] at hfound
      exact absurd (decide_eq_true rfl) (List.find?_eq_none.mp hfound index hindex)
    · exact ⟨hne, hindexed index hindex _ hfront hne⟩
  · have hindex : index ∈ entity.indexes := by
      unfold selectedIndex at hfound
      split at hfound
      · exact List.mem_of_find?_eq_some hfound
      · cases hfound
    have hne := (clean_index hclean hindex).1
    rw [listSelectorFields, hfound]
    exact ⟨hne, hindexed index hindex _ (List.prefix_refl _) hne⟩

/-- The key of an entity is not empty, so it is not in an empty path. -/
theorem not_clean_emptyRoute {symbols : SymbolTable} (hclean : Clean (validateEntity system symbols entity))
    {operation : IrApi} (hpath : operation.path = some []) :
    ¬ Clean (validateKeyRoute operation (lowerEntity entity)) := by
  intro hroute
  obtain ⟨-, hkeys⟩ := clean_keyRoute.mp hroute
  obtain ⟨keyField, hkey⟩ := List.exists_mem_of_ne_nil _ (clean_keyFields hclean).1
  have hnone := hkeys keyField hkey
  rw [hpath] at hnone
  exact absurd hnone List.not_mem_nil

/-- An operation is not another one. -/
theorem otherOperation {operation operation' : String} (h : ascii operation ≠ ascii operation') {P : Prop} :
    some (ascii operation) = some (ascii operation') → P :=
  fun heq => absurd (Option.some.inj heq) h

/-- What the contract wants of a synthesized operation: a create has a resource, and the path of a list gives
    its selector. -/
theorem clean_operation (h : Accepted system) {operation : IrApi}
    (hmem : operation ∈ systemApiOperations system) :
    Clean (validateCrudApi (lowerToIr system) operation) ↔
      (operation.repositoryOperation = some (ascii "create") → operation.path ≠ some []) ∧
      (operation.repositoryOperation = some (ascii "list") →
        ∀ field ∈ operation.listSelector, field ∈ pathParameterSet operation.path) := by
  obtain ⟨entity, hentity, hmem⟩ := List.mem_flatMap.mp hmem
  obtain ⟨api, hapi, hcases⟩ := mem_entityApiOperations.mp hmem
  have hclean := h.entities entity hentity
  have hfind : (lowerToIr system).findEntity entity.name = some (lowerEntity entity) := by
    rw [lowerToIr_findEntity]
    exact (findEntity_iff h).mpr ⟨entity, hentity, rfl, rfl⟩
  have hresponse := derivedShape_found hentity (responseShape_mem hapi)
  have hkeyed : api.hasKeyedOperation = true → ∃ resource, api.resource = some resource ∧
      ∀ keyField ∈ entity.keyFields, keyField ∈ pathParameters resource := by
    intro hkeyed
    obtain ⟨resource, hresource⟩ := clean_keyedOperation hclean hapi hkeyed
    exact ⟨resource, hresource, clean_resource hclean hapi hresource⟩
  rcases hcases with ⟨create, hcreate, rfl⟩ | ⟨get, hget, rfl⟩ | ⟨list, hlist, rfl⟩ |
    ⟨updateStatus, hupdate, rfl⟩ | ⟨delete', hdelete, rfl⟩
  · -- a create
    have hrequest := derivedShape_found hentity (createRequest_mem hapi hcreate)
    rw [clean_crudApi rfl rfl hfind, validateOperation, if_pos rfl]
    simp only [clean_append]
    constructor
    · rintro ⟨-, -, ⟨⟨-, -⟩, hroute⟩, -⟩
      exact ⟨fun _ hpath => not_clean_emptyRoute hclean hpath hroute, otherOperation (by decide)⟩
    · rintro ⟨hpath, -⟩
      rcases hresource : api.resource with _ | resource
      · rw [hresource] at hpath
        exact absurd rfl (hpath rfl)
      · refine ⟨rfl, rfl, ⟨⟨clean_requireShape.mpr ⟨_, rfl, hrequest⟩,
          clean_requireShape.mpr ⟨_, rfl, hresponse⟩⟩, clean_keyRoute.mpr ⟨rfl, ?_⟩⟩,
          clean_requireMethod rfl⟩
        exact clean_resource hclean hapi hresource
  · -- a get
    obtain ⟨resource, hresource, hkeys⟩ :=
      hkeyed (by simp [EntityApiDecl.hasKeyedOperation, Option.mem_def.mp hget])
    rw [clean_crudApi rfl rfl hfind, validateOperation, if_neg (by decide), if_pos rfl, hresource]
    simp only [clean_append]
    refine ⟨fun _ => ⟨otherOperation (by decide), otherOperation (by decide)⟩,
      fun _ => ⟨rfl, rfl, ⟨clean_requireShape.mpr ⟨_, rfl, hresponse⟩, clean_keyRoute.mpr ⟨rfl, hkeys⟩⟩,
        clean_requireMethod rfl⟩⟩
  · -- a list
    have hlisted := derivedShape_found hentity (listResponse_mem hapi hlist)
    obtain ⟨hne, hfields, hbacked⟩ := listSelector_backed hclean hapi hlist
    rw [clean_crudApi rfl rfl hfind, validateOperation, if_neg (by decide), if_neg (by decide), if_pos rfl]
    simp only [clean_append, clean_listSelector]
    constructor
    · rintro ⟨-, -, ⟨-, -, -, -, hpath⟩, -⟩
      exact ⟨otherOperation (by decide), fun _ => hpath⟩
    · rintro ⟨-, hpath⟩
      have hgiven := hpath rfl
      have hsome : (listOperation entity list).path.isSome = true := by
        rcases hvalue : (listOperation entity list).path with _ | path
        · obtain ⟨field, hfield⟩ := List.exists_mem_of_ne_nil _ hne
          have hnone := hgiven field hfield
          rw [hvalue] at hnone
          exact absurd hnone List.not_mem_nil
        · rfl
      exact ⟨rfl, hsome, ⟨clean_requireShape.mpr ⟨_, rfl, hlisted⟩, hne, hfields, hbacked, hgiven⟩,
        clean_requireMethod rfl⟩
  · -- a status update
    obtain ⟨resource, hresource, hkeys⟩ :=
      hkeyed (by simp [EntityApiDecl.hasKeyedOperation, Option.mem_def.mp hupdate])
    have hrequest := derivedShape_found hentity (updateRequest_mem hapi hupdate)
    rw [clean_crudApi rfl rfl hfind, validateOperation, if_neg (by decide), if_neg (by decide),
      if_neg (by decide), if_pos rfl, hresource]
    simp only [clean_append]
    refine ⟨fun _ => ⟨otherOperation (by decide), otherOperation (by decide)⟩,
      fun _ => ⟨rfl, rfl, ⟨⟨clean_requireShape.mpr ⟨_, rfl, hrequest⟩,
        clean_requireShape.mpr ⟨_, rfl, hresponse⟩⟩, clean_keyRoute.mpr ⟨rfl, ?_⟩⟩,
        clean_requireMethod rfl⟩⟩
    intro keyField hkey
    show keyField ∈ pathParameters (statusPath resource)
    rw [pathParameters_statusPath]
    exact hkeys keyField hkey
  · -- a delete
    obtain ⟨resource, hresource, hkeys⟩ :=
      hkeyed (by simp [EntityApiDecl.hasKeyedOperation, Option.mem_def.mp hdelete])
    rw [clean_crudApi rfl rfl hfind, validateOperation, if_neg (by decide), if_neg (by decide),
      if_neg (by decide), if_neg (by decide), if_pos rfl, hresource]
    simp only [clean_append]
    exact ⟨fun _ => ⟨otherOperation (by decide), otherOperation (by decide)⟩,
      fun _ => ⟨rfl, rfl, clean_keyRoute.mpr ⟨rfl, hkeys⟩, clean_requireMethod rfl⟩⟩

end Operations

/-! ## Declared APIs -/

/-- The contract of a declared API, where the lowering takes it for an operation on an entity. -/
structure DeclaredContract (system : SystemDecl) (api : ApiDecl) : Prop where
  request : api.method = some (ascii "POST") ∨ api.method = some (ascii "PATCH") →
    ∀ input ∈ api.input, ∀ entity ∈ system.entities, api.output = some (entity.name ++ ascii "Response") →
      input ∈ (allShapes system).map IrShape.name ∧
      entity.name ++ ascii "Response" ∈ (allShapes system).map IrShape.name ∧
      ∀ keyField ∈ entity.keyFields, keyField ∈ pathParameterSet api.path
  list : api.method = some (ascii "GET") →
    ∀ entity ∈ listResponseEntity (lowerDeclarations system) (lowerApi api),
      ∃ index ∈ entity.indexes, ∃ field ∈ index.fields.head?, field ∈ pathParameterSet api.path
  get : api.method = some (ascii "GET") →
    listResponseEntity (lowerDeclarations system) (lowerApi api) = none →
    ∀ entity ∈ system.entities, api.output = some (entity.name ++ ascii "Response") →
      entity.name ++ ascii "Response" ∈ (allShapes system).map IrShape.name ∧
      ∀ keyField ∈ entity.keyFields, keyField ∈ pathParameterSet api.path
  delete : api.method = some (ascii "DELETE") →
    ∀ entity ∈ system.entities, api.name = ascii "Delete" ++ entity.name →
      ∀ keyField ∈ entity.keyFields, keyField ∈ pathParameterSet api.path

theorem stripSuffix_iff {suffix value rest : Bytes} :
    stripSuffix suffix value = some rest ↔ value = rest ++ suffix := by
  unfold stripSuffix endsWith
  constructor
  · intro h
    split at h
    · rename_i hsuffix
      obtain ⟨front, rfl⟩ := of_decide_eq_true hsuffix
      rw [List.length_append, Nat.add_sub_cancel, List.take_left'] at h
      · rw [Option.some.inj h]
      · rfl
    · cases h
  · rintro rfl
    rw [if_pos (decide_eq_true (List.suffix_append rest suffix)), List.length_append, Nat.add_sub_cancel,
      List.take_left' rfl]

section Declared

variable {system : SystemDecl} {decl : ApiDecl}

/-- `XResponse` is a response of the entity `X`. -/
theorem responseEntity_iff (h : Accepted system) {output : Option Bytes} {entity : IrEntity} :
    responseEntity (lowerDeclarations system) output = some entity ↔
      ∃ decl ∈ system.entities, output = some (decl.name ++ ascii "Response") ∧
        lowerEntity decl = entity := by
  rw [responseEntity, Option.bind_eq_some_iff]
  constructor
  · rintro ⟨name, hname, hfind⟩
    obtain ⟨decl, hdecl, rfl, rfl⟩ := (findEntity_iff h).mp hfind
    obtain ⟨text, rfl, htext⟩ := Option.bind_eq_some_iff.mp hname
    rw [stripSuffix_iff.mp htext]
    exact ⟨decl, hdecl, rfl, rfl⟩
  · rintro ⟨decl, hdecl, rfl, rfl⟩
    exact ⟨decl.name, stripSuffix_iff.mpr rfl, (findEntity_iff h).mpr ⟨decl, hdecl, rfl, rfl⟩⟩

/-- The selector that a path gives begins an index, and is all in the path. -/
theorem indexBackedPathSelector_mem (entity : IrEntity) (api : IrApi) :
    indexBackedPathSelector entity api = [] ∨ ∃ index ∈ entity.indexes,
      indexBackedPathSelector entity api <+: index.fields ∧
        ∀ field ∈ indexBackedPathSelector entity api, field ∈ pathParameterSet api.path := by
  unfold indexBackedPathSelector
  refine foldl_invariant
    (fun (seen : List IrIndex) (selected : List Bytes) => selected = [] ∨ ∃ index ∈ seen,
      selected <+: index.fields ∧
      ∀ field ∈ selected, field ∈ pathParameterSet api.path) (.inl rfl) ?_
  intro seen index rest selected _ hselected
  split
  · refine .inr ⟨index, List.mem_append_right _ List.mem_cons_self, List.takeWhile_prefix _, ?_⟩
    intro field hfield
    have hgiven := List.mem_takeWhile_imp hfield
    exact of_decide_eq_true hgiven
  · rcases hselected with hempty | ⟨other, hother, hfront⟩
    · exact .inl hempty
    · exact .inr ⟨other, List.mem_append_left _ hother, hfront⟩

/-- There is one when the first field of an index is in the path. -/
theorem indexBackedPathSelector_ne_nil {entity : IrEntity} {api : IrApi} {index : IrIndex}
    (hindex : index ∈ entity.indexes) {field : Bytes} (hfirst : index.fields.head? = some field)
    (hgiven : field ∈ pathParameterSet api.path) : indexBackedPathSelector entity api ≠ [] := by
  have hlong : ∀ index ∈ entity.indexes, (givenPrefix (pathParameterSet api.path) index).length ≤
      (indexBackedPathSelector entity api).length := by
    unfold indexBackedPathSelector
    refine foldl_invariant
      (fun (seen : List IrIndex) (selected : List Bytes) => ∀ index ∈ seen,
        (givenPrefix (pathParameterSet api.path) index).length ≤ selected.length) nofun ?_
    intro seen index rest selected _ hselected other hother
    rcases List.mem_append.mp hother with hother | hother
    · have hle := hselected other hother
      split
      · omega
      · exact hle
    · obtain rfl := List.mem_singleton.mp hother
      split
      · exact Nat.le_refl _
      · omega
  have hle := hlong index hindex
  intro hempty
  rw [hempty] at hle
  rcases hfields : index.fields with _ | ⟨first, rest⟩
  · rw [hfields] at hfirst
    cases hfirst
  · rw [hfields] at hfirst
    obtain rfl : first = field := Option.some.inj hfirst
    rw [givenPrefix, hfields, List.takeWhile_cons, if_pos (decide_eq_true hgiven)] at hle
    exact absurd hle (by simp)

/-- The selector of a declared list, if it is not empty, begins an index. -/
theorem explicitListSelector_prefix {ir : IrSystem} {api : IrApi} {entity : IrEntity}
    (hne : explicitListSelector ir api entity ≠ []) :
    ∃ index ∈ entity.indexes, explicitListSelector ir api entity <+: index.fields := by
  unfold explicitListSelector at hne ⊢
  split
  · rename_i hempty
    rw [if_pos hempty] at hne
    split
    · rename_i hbacked
      simp only [selectorHasBackingIndex, Bool.and_eq_true, List.any_eq_true,
        List.isPrefixOf_iff_prefix] at hbacked
      exact hbacked.2
    · rename_i hbacked
      rw [if_neg hbacked] at hne
      exact absurd rfl hne
  · rename_i hnonempty
    obtain ⟨index, hindex, hfront, -⟩ := (indexBackedPathSelector_mem entity api).resolve_left hnonempty
    exact ⟨index, hindex, hfront⟩

/-- What stands between the validator and the contract of a declared API. -/
theorem clean_attached (h : Accepted system) (hdecl : decl ∈ system.apis) {entity : IrEntity}
    (hfind : (lowerDeclarations system).findEntity entity.name = some entity) (operation : String)
    (selector : List Bytes) :
    Clean (validateCrudApi (lowerToIr system) ((lowerApi decl).attach entity operation selector)) ↔
      Clean (validateOperation (lowerToIr system) ((lowerApi decl).attach entity operation selector) entity
        (ascii operation)) := by
  obtain ⟨⟨method, hmethod⟩, path, hpath, -⟩ := clean_api (h.apis decl hdecl)
  rw [← lowerToIr_findEntity] at hfind
  rw [clean_crudApi rfl rfl hfind]
  exact ⟨fun hall => hall.2.2,
    fun hall => ⟨Option.isSome_of_eq_some hmethod, Option.isSome_of_eq_some hpath, hall⟩⟩

theorem clean_lowerApi (ir : IrSystem) : Clean (validateCrudApi ir (lowerApi decl)) := rfl

theorem clean_shapeNamed {api : IrApi} {shapeName : Option Bytes} {role : String} :
    Clean (requireShape (lowerToIr system) api shapeName role) ↔
      ∃ name ∈ shapeName, name ∈ (allShapes system).map IrShape.name := by
  simp only [clean_requireShape, findShape_isSome]

/-- A declared list keeps the contract when its path gives the first field of an index. -/
theorem clean_declaredList (h : Accepted system) (hdecl : decl ∈ system.apis)
    (hget : decl.method = some (ascii "GET")) {entity : IrEntity}
    (hlist : listResponseEntity (lowerDeclarations system) (lowerApi decl) = some entity) :
    Clean (validateCrudApi (lowerToIr system) ((lowerApi decl).attach entity "list"
        (explicitListSelector (lowerDeclarations system) (lowerApi decl) entity))) ↔
      ∃ index ∈ entity.indexes, ∃ field ∈ index.fields.head?, field ∈ pathParameterSet decl.path := by
  obtain ⟨found, hfound, hfind⟩ := Option.bind_eq_some_iff.mp hlist
  obtain ⟨entityDecl, hentity, hname, rfl⟩ := (findEntity_iff h).mp hfind
  obtain ⟨shape, hshape, -⟩ := Option.bind_eq_some_iff.mp hfound
  obtain ⟨output, houtput, hshape⟩ := Option.bind_eq_some_iff.mp hshape
  have hnamed : ∃ name ∈ decl.output, name ∈ (allShapes system).map IrShape.name := by
    refine ⟨output, houtput, findShape_isSome.mp ?_⟩
    rw [IrSystem.findShape, lowerToIr_shapes]
    exact Option.isSome_iff_exists.mpr ⟨shape, hshape⟩
  have hself : (lowerDeclarations system).findEntity (lowerEntity entityDecl).name =
      some (lowerEntity entityDecl) := (findEntity_iff h).mpr ⟨entityDecl, hentity, rfl, rfl⟩
  rw [clean_attached h hdecl hself, validateOperation, if_neg (by decide), if_neg (by decide), if_pos rfl,
    clean_append, clean_append, clean_shapeNamed, clean_listSelector]
  constructor
  · rintro ⟨⟨-, hne, -, -, hgiven⟩, -⟩
    obtain ⟨index, hindex, more, hmore⟩ := explicitListSelector_prefix hne
    obtain ⟨field, rest, hselector⟩ : ∃ field rest, explicitListSelector (lowerDeclarations system)
        (lowerApi decl) (lowerEntity entityDecl) = field :: rest := List.exists_cons_of_ne_nil hne
    refine ⟨index, hindex, field, ?_, hgiven field ?_⟩
    · rw [Option.mem_def, ← hmore, hselector]
      rfl
    · show field ∈ explicitListSelector _ _ _
      rw [hselector]
      exact List.mem_cons_self
  · rintro ⟨index, hindex, field, hfirst, hgiven⟩
    have hne : indexBackedPathSelector (lowerEntity entityDecl) (lowerApi decl) ≠ [] :=
      indexBackedPathSelector_ne_nil hindex hfirst hgiven
    have hselector : explicitListSelector (lowerDeclarations system) (lowerApi decl) (lowerEntity entityDecl) =
        indexBackedPathSelector (lowerEntity entityDecl) (lowerApi decl) := by
      rw [explicitListSelector, if_neg hne]
    obtain ⟨index', hindex', hfront, hgiven'⟩ :=
      (indexBackedPathSelector_mem (lowerEntity entityDecl) (lowerApi decl)).resolve_left hne
    obtain ⟨indexDecl, hindexDecl, rfl⟩ := List.mem_map.mp hindex'
    have hfields := (clean_index (h.entities entityDecl hentity) hindexDecl).2
    rw [hselector]
    refine ⟨⟨hnamed, hne, fun field hfield => ?_, backed_of_prefix hindex' hfront, hgiven'⟩,
      clean_requireMethod hget⟩
    rw [lowerEntity_fieldNames]
    exact hfields field (hfront.subset hfield)

/-- A declared create or status update keeps the contract when its shapes are shapes and its path gives the
    key. -/
theorem clean_declaredRequest (h : Accepted system) (hdecl : decl ∈ system.apis) {operation method : String}
    (hoperation : (operation = "create" ∧ method = "POST") ∨ (operation = "update_status" ∧ method = "PATCH"))
    (hmethod : decl.method = some (ascii method)) {entity : EntityDecl} (hentity : entity ∈ system.entities)
    {selector : List Bytes} (houtput : decl.output = some (entity.name ++ ascii "Response")) :
    Clean (validateCrudApi (lowerToIr system) ((lowerApi decl).attach (lowerEntity entity) operation selector)) ↔
      (∃ input ∈ decl.input, input ∈ (allShapes system).map IrShape.name) ∧
      entity.name ++ ascii "Response" ∈ (allShapes system).map IrShape.name ∧
      ∀ keyField ∈ entity.keyFields, keyField ∈ pathParameterSet decl.path := by
  have hself : (lowerDeclarations system).findEntity (lowerEntity entity).name = some (lowerEntity entity) :=
    (findEntity_iff h).mpr ⟨entity, hentity, rfl, rfl⟩
  obtain ⟨-, path, hpath, -⟩ := clean_api (h.apis decl hdecl)
  have hbody : validateOperation (lowerToIr system)
      ((lowerApi decl).attach (lowerEntity entity) operation selector) (lowerEntity entity)
        (ascii operation) =
      requireShape (lowerToIr system) ((lowerApi decl).attach (lowerEntity entity) operation selector)
        decl.input "request" ++
      requireShape (lowerToIr system) ((lowerApi decl).attach (lowerEntity entity) operation selector)
        decl.output "response" ++
      validateKeyRoute ((lowerApi decl).attach (lowerEntity entity) operation selector)
        (lowerEntity entity) ++
      requireMethod ((lowerApi decl).attach (lowerEntity entity) operation selector) operation method := by
    rcases hoperation with ⟨rfl, rfl⟩ | ⟨rfl, rfl⟩
    · rw [validateOperation, if_pos rfl]
      rfl
    · rw [validateOperation, if_neg (by decide), if_neg (by decide), if_neg (by decide), if_pos rfl]
      rfl
  rw [clean_attached h hdecl hself, hbody, clean_append, clean_append, clean_append, clean_shapeNamed,
    clean_shapeNamed, clean_keyRoute, houtput]
  constructor
  · rintro ⟨⟨⟨hinput, ⟨output, hsame, hnamed⟩⟩, -, hkeys⟩, -⟩
    cases hsame
    exact ⟨hinput, hnamed, hkeys⟩
  · rintro ⟨hinput, hnamed, hkeys⟩
    exact ⟨⟨⟨hinput, _, rfl, hnamed⟩, Option.isSome_of_eq_some hpath, hkeys⟩, clean_requireMethod hmethod⟩

/-- A declared get, when its output is a shape and its path gives the key. -/
theorem clean_declaredGet (h : Accepted system) (hdecl : decl ∈ system.apis)
    (hget : decl.method = some (ascii "GET")) {entity : EntityDecl} (hentity : entity ∈ system.entities)
    {selector : List Bytes} (houtput : decl.output = some (entity.name ++ ascii "Response")) :
    Clean (validateCrudApi (lowerToIr system) ((lowerApi decl).attach (lowerEntity entity) "get" selector)) ↔
      entity.name ++ ascii "Response" ∈ (allShapes system).map IrShape.name ∧
      ∀ keyField ∈ entity.keyFields, keyField ∈ pathParameterSet decl.path := by
  have hself : (lowerDeclarations system).findEntity (lowerEntity entity).name = some (lowerEntity entity) :=
    (findEntity_iff h).mpr ⟨entity, hentity, rfl, rfl⟩
  obtain ⟨-, path, hpath, -⟩ := clean_api (h.apis decl hdecl)
  rw [clean_attached h hdecl hself, validateOperation, if_neg (by decide), if_pos rfl, clean_append,
    clean_append, clean_shapeNamed, clean_keyRoute]
  show ((∃ name ∈ decl.output, _) ∧ decl.path.isSome = true ∧ _) ∧ _ ↔ _
  rw [houtput]
  constructor
  · rintro ⟨⟨⟨output, hsame, hnamed⟩, -, hkeys⟩, -⟩
    cases hsame
    exact ⟨hnamed, hkeys⟩
  · rintro ⟨hnamed, hkeys⟩
    exact ⟨⟨⟨_, rfl, hnamed⟩, Option.isSome_of_eq_some hpath, hkeys⟩, clean_requireMethod hget⟩

/-- A declared delete, when its path gives the key. -/
theorem clean_declaredDelete (h : Accepted system) (hdecl : decl ∈ system.apis)
    (hdelete : decl.method = some (ascii "DELETE")) {entity : EntityDecl} (hentity : entity ∈ system.entities)
    {selector : List Bytes} :
    Clean (validateCrudApi (lowerToIr system) ((lowerApi decl).attach (lowerEntity entity) "delete" selector)) ↔
      ∀ keyField ∈ entity.keyFields, keyField ∈ pathParameterSet decl.path := by
  have hself : (lowerDeclarations system).findEntity (lowerEntity entity).name = some (lowerEntity entity) :=
    (findEntity_iff h).mpr ⟨entity, hentity, rfl, rfl⟩
  obtain ⟨-, path, hpath, -⟩ := clean_api (h.apis decl hdecl)
  rw [clean_attached h hdecl hself, validateOperation, if_neg (by decide), if_neg (by decide),
    if_neg (by decide), if_neg (by decide), if_pos rfl, clean_append, clean_keyRoute]
  constructor
  · rintro ⟨⟨-, hkeys⟩, -⟩
    exact hkeys
  · intro hkeys
    exact ⟨⟨Option.isSome_of_eq_some hpath, hkeys⟩, clean_requireMethod hdelete⟩

/-- Entities with the same response are the same. -/
theorem entity_of_response (h : Accepted system) {entity entity' : EntityDecl}
    (hentity : entity ∈ system.entities) (hentity' : entity' ∈ system.entities)
    (houtput : decl.output = some (entity.name ++ ascii "Response"))
    (houtput' : decl.output = some (entity'.name ++ ascii "Response")) : entity' = entity := by
  rw [houtput, Option.some_inj, List.append_cancel_right_eq] at houtput'
  exact (List.inj_on_of_nodup_map h.entityNames hentity hentity' houtput').symm

/-- The guess of a create or a status update. -/
theorem clean_guessRequest (h : Accepted system) (hdecl : decl ∈ system.apis) {operation method : String}
    (hoperation : (operation = "create" ∧ method = "POST") ∨ (operation = "update_status" ∧ method = "PATCH"))
    (hmethod : decl.method = some (ascii method)) (hsome : decl.input.isSome = true) (selector : List Bytes) :
    Clean (validateCrudApi (lowerToIr system)
        (match responseEntity (lowerDeclarations system) decl.output with
          | some entity => (lowerApi decl).attach entity operation selector
          | none => lowerApi decl)) ↔
      ∀ input ∈ decl.input, ∀ entity ∈ system.entities,
        decl.output = some (entity.name ++ ascii "Response") →
        input ∈ (allShapes system).map IrShape.name ∧
        entity.name ++ ascii "Response" ∈ (allShapes system).map IrShape.name ∧
        ∀ keyField ∈ entity.keyFields, keyField ∈ pathParameterSet decl.path := by
  obtain ⟨input, hinput⟩ := Option.isSome_iff_exists.mp hsome
  rcases hresponse : responseEntity (lowerDeclarations system) decl.output with _ | found
  · refine ⟨fun _ input _ entity hentity houtput => ?_, fun _ => clean_lowerApi _⟩
    rw [(responseEntity_iff h).mpr ⟨entity, hentity, houtput, rfl⟩] at hresponse
    cases hresponse
  · obtain ⟨entity, hentity, houtput, rfl⟩ := (responseEntity_iff h).mp hresponse
    show Clean (validateCrudApi _ ((lowerApi decl).attach _ _ _)) ↔ _
    rw [clean_declaredRequest h hdecl hoperation hmethod hentity houtput]
    constructor
    · rintro ⟨⟨input', hinput', hnamed⟩, hrest⟩ input'' hinput'' entity' hentity' houtput'
      obtain rfl := entity_of_response h hentity hentity' houtput houtput'
      obtain rfl := Option.some.inj (hinput'.symm.trans hinput'')
      exact ⟨hnamed, hrest⟩
    · intro hall
      obtain ⟨hnamed, hrest⟩ := hall input hinput entity hentity houtput
      exact ⟨⟨input, hinput, hnamed⟩, hrest⟩

/-- The guess of a get. -/
theorem clean_guessGet (h : Accepted system) (hdecl : decl ∈ system.apis)
    (hget : decl.method = some (ascii "GET")) (selector : List Bytes) :
    Clean (validateCrudApi (lowerToIr system)
        (match responseEntity (lowerDeclarations system) decl.output with
          | some entity => (lowerApi decl).attach entity "get" selector
          | none => lowerApi decl)) ↔
      ∀ entity ∈ system.entities, decl.output = some (entity.name ++ ascii "Response") →
        entity.name ++ ascii "Response" ∈ (allShapes system).map IrShape.name ∧
        ∀ keyField ∈ entity.keyFields, keyField ∈ pathParameterSet decl.path := by
  rcases hresponse : responseEntity (lowerDeclarations system) decl.output with _ | found
  · refine ⟨fun _ entity hentity houtput => ?_, fun _ => clean_lowerApi _⟩
    rw [(responseEntity_iff h).mpr ⟨entity, hentity, houtput, rfl⟩] at hresponse
    cases hresponse
  · obtain ⟨entity, hentity, houtput, rfl⟩ := (responseEntity_iff h).mp hresponse
    show Clean (validateCrudApi _ ((lowerApi decl).attach _ _ _)) ↔ _
    rw [clean_declaredGet h hdecl hget hentity houtput]
    constructor
    · intro hrest entity' hentity' houtput'
      obtain rfl := entity_of_response h hentity hentity' houtput houtput'
      exact hrest
    · exact fun hall => hall entity hentity houtput

/-- The guess of a delete. -/
theorem clean_guessDelete (h : Accepted system) (hdecl : decl ∈ system.apis)
    (hdelete : decl.method = some (ascii "DELETE")) (selector : List Bytes) :
    Clean (validateCrudApi (lowerToIr system)
        (match (Bytes.stripPrefix (ascii "Delete") decl.name).bind
            (lowerDeclarations system).findEntity with
          | some entity => (lowerApi decl).attach entity "delete" selector
          | none => lowerApi decl)) ↔
      ∀ entity ∈ system.entities, decl.name = ascii "Delete" ++ entity.name →
        ∀ keyField ∈ entity.keyFields, keyField ∈ pathParameterSet decl.path := by
  have hfind : ∀ {entity : EntityDecl}, entity ∈ system.entities → decl.name = ascii "Delete" ++ entity.name →
      (Bytes.stripPrefix (ascii "Delete") decl.name).bind (lowerDeclarations system).findEntity =
        some (lowerEntity entity) := by
    intro entity hentity hname
    rw [Bytes.stripPrefix_iff.mpr hname]
    exact (findEntity_iff h).mpr ⟨entity, hentity, rfl, rfl⟩
  rcases hfound : (Bytes.stripPrefix (ascii "Delete") decl.name).bind
      (lowerDeclarations system).findEntity with _ | found
  · refine ⟨fun _ entity hentity hname => ?_, fun _ => clean_lowerApi _⟩
    rw [hfind hentity hname] at hfound
    cases hfound
  · obtain ⟨rest, hrest, hfindEntity⟩ := Option.bind_eq_some_iff.mp hfound
    obtain ⟨entity, hentity, rfl, rfl⟩ := (findEntity_iff h).mp hfindEntity
    have hname := Bytes.stripPrefix_iff.mp hrest
    show Clean (validateCrudApi _ ((lowerApi decl).attach _ _ _)) ↔ _
    rw [clean_declaredDelete h hdecl hdelete hentity]
    constructor
    · intro hkeys entity' hentity' hname'
      rw [hname, List.append_cancel_left_eq] at hname'
      obtain rfl := List.inj_on_of_nodup_map h.entityNames hentity hentity' hname'
      exact hkeys
    · exact fun hall => hall entity hentity hname

/-- The guess, read off the declaration: a declared API names no entity of its own. -/
theorem attach_lowerApi (ir : IrSystem) :
    attachExplicitCrudMetadata ir (lowerApi decl) =
      if decl.method = some (ascii "POST") ∧ decl.input.isSome then
        match responseEntity ir decl.output with
        | some entity => (lowerApi decl).attach entity "create" []
        | none => lowerApi decl
      else if decl.method = some (ascii "GET") then
        match listResponseEntity ir (lowerApi decl) with
        | some entity =>
          (lowerApi decl).attach entity "list" (explicitListSelector ir (lowerApi decl) entity)
        | none =>
          match responseEntity ir decl.output with
          | some entity => (lowerApi decl).attach entity "get" []
          | none => lowerApi decl
      else if decl.method = some (ascii "PATCH") ∧ decl.input.isSome then
        match responseEntity ir decl.output with
        | some entity => (lowerApi decl).attach entity "update_status" []
        | none => lowerApi decl
      else if decl.method = some (ascii "DELETE") then
        match (Bytes.stripPrefix (ascii "Delete") decl.name).bind ir.findEntity with
        | some entity => (lowerApi decl).attach entity "delete" []
        | none => lowerApi decl
      else lowerApi decl := by
  unfold attachExplicitCrudMetadata
  rw [if_neg (by simp [lowerApi])]
  rfl

/-- **The contract of a declared API**, method by method. -/
theorem clean_declared (h : Accepted system) (hdecl : decl ∈ system.apis) :
    Clean (validateCrudApi (lowerToIr system)
        (attachExplicitCrudMetadata (lowerDeclarations system) (lowerApi decl))) ↔
      DeclaredContract system decl := by
  have hother : ∀ {method method' : Bytes}, decl.method = some method → method ≠ method' →
      decl.method ≠ some method' :=
    fun hmethod hne hmethod' => hne (Option.some.inj (hmethod.symm.trans hmethod'))
  rw [attach_lowerApi]
  by_cases hpost : decl.method = some (ascii "POST")
  · -- a create, when it has an input
    have hvacuous : DeclaredContract system decl ↔ ∀ input ∈ decl.input, ∀ entity ∈ system.entities,
        decl.output = some (entity.name ++ ascii "Response") →
        input ∈ (allShapes system).map IrShape.name ∧
        entity.name ++ ascii "Response" ∈ (allShapes system).map IrShape.name ∧
        ∀ keyField ∈ entity.keyFields, keyField ∈ pathParameterSet decl.path :=
      ⟨fun hcontract => hcontract.request (.inl hpost), fun hall =>
        ⟨fun _ => hall, fun hmethod => absurd hmethod (hother hpost (by decide)),
          fun hmethod => absurd hmethod (hother hpost (by decide)),
          fun hmethod => absurd hmethod (hother hpost (by decide))⟩⟩
    rw [hvacuous]
    by_cases hinput : decl.input.isSome = true
    · rw [if_pos ⟨hpost, hinput⟩]
      exact clean_guessRequest h hdecl (.inl ⟨rfl, rfl⟩) hpost hinput _
    · rw [if_neg fun hboth => hinput hboth.2, if_neg (hother hpost (by decide)),
        if_neg fun hboth => hother hpost (by decide) hboth.1, if_neg (hother hpost (by decide))]
      refine ⟨fun _ input hmem => ?_, fun _ => clean_lowerApi _⟩
      exact absurd (Option.isSome_of_eq_some hmem) hinput
  rw [if_neg fun hboth => hpost hboth.1]
  by_cases hget : decl.method = some (ascii "GET")
  · rw [if_pos hget]
    rcases hlist : listResponseEntity (lowerDeclarations system) (lowerApi decl) with _ | entity
    · have hvacuous : DeclaredContract system decl ↔ ∀ entity ∈ system.entities,
          decl.output = some (entity.name ++ ascii "Response") →
          entity.name ++ ascii "Response" ∈ (allShapes system).map IrShape.name ∧
          ∀ keyField ∈ entity.keyFields, keyField ∈ pathParameterSet decl.path := by
        refine ⟨fun hcontract => hcontract.get hget hlist, fun hall => ⟨?_, ?_, fun _ _ => hall, ?_⟩⟩
        · rintro (hmethod | hmethod)
          · exact absurd hmethod hpost
          · exact absurd hmethod (hother hget (by decide))
        · intro _ entity hmem
          rw [hlist] at hmem
          cases hmem
        · exact fun hmethod => absurd hmethod (hother hget (by decide))
      rw [hvacuous]
      exact clean_guessGet h hdecl hget _
    · have hvacuous : DeclaredContract system decl ↔ ∃ index ∈ entity.indexes,
          ∃ field ∈ index.fields.head?, field ∈ pathParameterSet decl.path := by
        refine ⟨fun hcontract => hcontract.list hget entity hlist, fun hall => ⟨?_, ?_, ?_, ?_⟩⟩
        · rintro (hmethod | hmethod)
          · exact absurd hmethod hpost
          · exact absurd hmethod (hother hget (by decide))
        · intro _ entity' hmem
          obtain rfl := Option.some.inj (hlist.symm.trans hmem)
          exact hall
        · intro _ hnone
          rw [hlist] at hnone
          cases hnone
        · exact fun hmethod => absurd hmethod (hother hget (by decide))
      rw [hvacuous]
      exact clean_declaredList h hdecl hget hlist
  rw [if_neg hget]
  by_cases hpatch : decl.method = some (ascii "PATCH")
  · have hvacuous : DeclaredContract system decl ↔ ∀ input ∈ decl.input, ∀ entity ∈ system.entities,
        decl.output = some (entity.name ++ ascii "Response") →
        input ∈ (allShapes system).map IrShape.name ∧
        entity.name ++ ascii "Response" ∈ (allShapes system).map IrShape.name ∧
        ∀ keyField ∈ entity.keyFields, keyField ∈ pathParameterSet decl.path :=
      ⟨fun hcontract => hcontract.request (.inr hpatch), fun hall =>
        ⟨fun _ => hall, fun hmethod => absurd hmethod hget, fun hmethod => absurd hmethod hget,
          fun hmethod => absurd hmethod (hother hpatch (by decide))⟩⟩
    rw [hvacuous]
    by_cases hinput : decl.input.isSome = true
    · rw [if_pos ⟨hpatch, hinput⟩]
      exact clean_guessRequest h hdecl (.inr ⟨rfl, rfl⟩) hpatch hinput _
    · rw [if_neg fun hboth => hinput hboth.2, if_neg (hother hpatch (by decide))]
      refine ⟨fun _ input hmem => ?_, fun _ => clean_lowerApi _⟩
      exact absurd (Option.isSome_of_eq_some hmem) hinput
  rw [if_neg fun hboth => hpatch hboth.1]
  have hvacuous : DeclaredContract system decl ↔ (decl.method = some (ascii "DELETE") →
      ∀ entity ∈ system.entities, decl.name = ascii "Delete" ++ entity.name →
        ∀ keyField ∈ entity.keyFields, keyField ∈ pathParameterSet decl.path) := by
    refine ⟨fun hcontract => hcontract.delete, fun hall => ⟨?_, ?_, ?_, hall⟩⟩
    · exact fun hmethod => hmethod.elim (absurd · hpost) (absurd · hpatch)
    · exact fun hmethod => absurd hmethod hget
    · exact fun hmethod => absurd hmethod hget
  rw [hvacuous]
  by_cases hdelete : decl.method = some (ascii "DELETE")
  · rw [if_pos hdelete, clean_guessDelete h hdecl hdelete]
    exact ⟨fun hall _ => hall, fun hall => hall hdelete⟩
  · rw [if_neg hdelete]
    exact ⟨fun _ hmethod => absurd hmethod hdelete, fun _ => clean_lowerApi _⟩

end Declared

/-! ## Every API -/

/-- **Validation implies the contract** exactly when each declared API keeps its part of it, no create lacks a
    resource, and the path of each list gives the fields of its selector. -/
theorem crudContract_iff {system : SystemDecl} (h : Accepted system) :
    Clean (validateCrudHandlerInputs (lowerToIr system)) ↔
      (∀ api ∈ system.apis, DeclaredContract system api) ∧
      ∀ operation ∈ operationsKept system,
        (operation.repositoryOperation = some (ascii "create") → operation.path ≠ some []) ∧
        (operation.repositoryOperation = some (ascii "list") →
          ∀ field ∈ operation.listSelector, field ∈ pathParameterSet operation.path) := by
  unfold validateCrudHandlerInputs
  rw [clean_flatMap, lowerToIr_apis]
  constructor
  · intro hall
    constructor
    · intro decl hdecl
      exact (clean_declared h hdecl).mp
        (hall _ (List.mem_append_left _ (List.mem_map.mpr ⟨decl, hdecl, rfl⟩)))
    · intro operation hoperation
      exact (clean_operation h (mem_of_fresh hoperation)).mp (hall _ (List.mem_append_right _ hoperation))
  · rintro ⟨hdeclared, hoperations⟩ api hapi
    rcases List.mem_append.mp hapi with hapi | hapi
    · obtain ⟨decl, hdecl, rfl⟩ := List.mem_map.mp hapi
      exact (clean_declared h hdecl).mpr (hdeclared decl hdecl)
    · exact (clean_operation h (mem_of_fresh hapi)).mpr (hoperations api hapi)

/-- The contract of orders. -/
theorem crudContract_order : Clean (validateCrudHandlerInputs (lowerToIr (orderSystem orderOperations))) :=
  (crudContract_iff (by decide +kernel)).mpr ⟨nofun, by decide +kernel⟩

/-- The path of a list need not give the selector. -/
theorem list_without_selector :
    ¬ ∀ system, Accepted system → Clean (validateCrudHandlerInputs (lowerToIr system)) := by
  intro hcontract
  have hclean := hcontract
    (orderSystem
      { lists := [{ path := some (ascii "/v1/\x7btenant_id\x7d/orders"), by' := [ascii "by_status"] }] })
    (by decide +kernel)
  revert hclean
  decide +kernel

end StateSpec.Compiler
