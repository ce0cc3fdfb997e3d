/-
  LOWERED APIS — which APIs and shapes the lowering makes of a system.

  Declared APIs come first and are all there.  Of the operations of the `api` blocks the lowering keeps those
  whose name is new (`operationsKept`); of the shapes, declared or derived, the first of each name
  (`findShape_eq`).
  1. `operationsLowered_iff`: nothing is lost or merged exactly when no name is used twice.
  2. `tenantRoutes_iff`: every route has the tenant, but for creates without a `resource` and for lists, whose
     paths are only checked for what stands in their braces.
-/
import StateSpec.Lib.FirstOfKey
import StateSpec.Compiler.Ir
import StateSpec.Compiler.PathParameters

namespace StateSpec.Compiler

/-- The operations with new names: neither of a declared API nor of an operation before them. -/
def operationsKept (system : SystemDecl) : List IrApi :=
  fresh IrApi.name (system.apis.map ApiDecl.name) (systemApiOperations system)

/-- The shapes of all `api` blocks, in order. -/
def derivedShapes (system : SystemDecl) : List IrShape := system.entities.flatMap entityApiShapes

/-- The declared shapes, and behind them the derived ones. -/
def allShapes (system : SystemDecl) : List IrShape := system.shapes.map lowerShape ++ derivedShapes system

/-! ## What the lowering makes -/

theorem foldl_appendSyntheticApi (operations : List IrApi) (ir : IrSystem) :
    operations.foldl appendSyntheticApi ir =
      { ir with apis := ir.apis ++ fresh IrApi.name (ir.apis.map IrApi.name) operations } := by
  rw [← foldl_enlist]
  induction operations generalizing ir with
  | nil => rfl
  | cons operation rest ih =>
    have hstep : appendSyntheticApi ir operation =
        { ir with apis := enlist IrApi.name ir.apis operation } := by
      unfold appendSyntheticApi IrSystem.hasApi enlist
      split
      · rfl
      · rfl
    rw [List.foldl_cons, hstep, ih]
    rfl

theorem appendMemberships_eq (ir : IrSystem) (names : List Bytes) :
    ∃ apiServers, appendEntityApiServerMemberships ir names = { ir with apiServers := apiServers } := by
  unfold appendEntityApiServerMemberships
  split
  · exact ⟨_, rfl⟩
  · split
    · exact ⟨_, rfl⟩
    · exact ⟨_, rfl⟩

/-- The guess adds metadata and changes nothing else. -/
theorem attach_keeps (ir : IrSystem) (api : IrApi) : ∃ entity operation selector,
    attachExplicitCrudMetadata ir api =
      { api with entity := entity, repositoryOperation := operation, listSelector := selector } := by
  unfold attachExplicitCrudMetadata IrApi.attach
  repeat' split
  all_goals exact ⟨_, _, _, rfl⟩

theorem declaredApis_names (system : SystemDecl) :
    (declaredApis system).map IrApi.name = system.apis.map ApiDecl.name := by
  rw [declaredApis, List.map_map]
  refine List.map_congr_left fun api _ => ?_
  obtain ⟨entity, operation, selector, heq⟩ := attach_keeps (lowerDeclarations system) (lowerApi api)
  rw [Function.comp_apply, heq]
  rfl

theorem lowerToIr_eq (system : SystemDecl) : ∃ apiServers, lowerToIr system =
    { lowerDeclarations system with
      apis := declaredApis system ++ operationsKept system
      apiServers := apiServers } := by
  obtain ⟨apiServers, heq⟩ := appendMemberships_eq
    ((systemApiOperations system).foldl appendSyntheticApi
      { lowerDeclarations system with apis := declaredApis system })
    ((systemApiOperations system).map IrApi.name)
  refine ⟨apiServers, ?_⟩
  show appendEntityApiServerMemberships _ _ = _
  rw [heq, foldl_appendSyntheticApi, operationsKept, ← declaredApis_names]

theorem lowerToIr_apis (system : SystemDecl) :
    (lowerToIr system).apis = declaredApis system ++ operationsKept system := by
  obtain ⟨apiServers, heq⟩ := lowerToIr_eq system
  rw [heq]

theorem lowerToIr_entities (system : SystemDecl) :
    (lowerToIr system).entities = system.entities.map lowerEntity := by
  obtain ⟨apiServers, heq⟩ := lowerToIr_eq system
  rw [heq]
  rfl

theorem lowerToIr_shapes (system : SystemDecl) :
    (lowerToIr system).shapes = (lowerDeclarations system).shapes := by
  obtain ⟨apiServers, heq⟩ := lowerToIr_eq system
  rw [heq]

theorem lowerDeclarations_shapes (system : SystemDecl) : (lowerDeclarations system).shapes =
    system.shapes.map lowerShape ++
      fresh IrShape.name ((system.shapes.map lowerShape).map IrShape.name) (derivedShapes system) := by
  rw [← foldl_enlist, derivedShapes, List.foldl_flatMap]
  rfl

/-- A name stands for the first shape that has it. -/
theorem findShape_eq (system : SystemDecl) (name : Bytes) : (lowerToIr system).findShape name =
    (allShapes system).find? fun shape => decide (shape.name = name) := by
  rw [IrSystem.findShape, lowerToIr_shapes, lowerDeclarations_shapes, find_fresh]
  rfl

/-- Distinct names, since all declarations have distinct names. -/
theorem Accepted.entityNames {system : SystemDecl} (h : Accepted system) :
    (system.entities.map EntityDecl.name).Nodup := by
  have hnodup := h.table.2
  simp only [declaredSymbols, List.map_append, List.nodup_append, List.map_map] at hnodup
  obtain ⟨⟨⟨⟨⟨⟨⟨⟨⟨⟨⟨⟨⟨⟨⟨⟨-, hentities, -⟩, -⟩, -⟩, -⟩, -⟩, -⟩, -⟩, -⟩, -⟩, -⟩, -⟩, -⟩, -⟩, -⟩, -⟩, -⟩ :=
    hnodup
  exact hentities

/-- A name stands for the entity that has it. -/
theorem findEntity_iff {system : SystemDecl} (h : Accepted system) {name : Bytes} {entity : IrEntity} :
    (lowerDeclarations system).findEntity name = some entity ↔
      ∃ decl ∈ system.entities, decl.name = name ∧ lowerEntity decl = entity := by
  have hunique : ∀ a ∈ system.entities.map lowerEntity, ∀ b ∈ system.entities.map lowerEntity,
      decide (a.name = name) = true → decide (b.name = name) = true → a = b := by
    intro a ha b hb hname hname'
    obtain ⟨decl, hdecl, rfl⟩ := List.mem_map.mp ha
    obtain ⟨decl', hdecl', rfl⟩ := List.mem_map.mp hb
    have hsame : decl.name = decl'.name := (of_decide_eq_true hname).trans (of_decide_eq_true hname').symm
    rw [List.inj_on_of_nodup_map h.entityNames hdecl hdecl' hsame]
  show (system.entities.map lowerEntity).find? _ = some entity ↔ _
  rw [find?_eq_some_of_unique hunique, List.mem_map, decide_eq_true_iff]
  constructor
  · rintro ⟨⟨decl, hdecl, rfl⟩, hname⟩
    exact ⟨decl, hdecl, hname, rfl⟩
  · rintro ⟨decl, hdecl, hname, rfl⟩
    exact ⟨⟨decl, hdecl, rfl⟩, hname⟩

theorem lowerToIr_findEntity (system : SystemDecl) (name : Bytes) :
    (lowerToIr system).findEntity name = (lowerDeclarations system).findEntity name := by
  rw [IrSystem.findEntity, lowerToIr_entities]
  rfl

/-- A name stands for a shape when a shape has it. -/
theorem findShape_isSome {system : SystemDecl} {name : Bytes} :
    ((lowerToIr system).findShape name).isSome = true ↔ name ∈ (allShapes system).map IrShape.name := by
  rw [findShape_eq, List.find?_isSome, List.mem_map]
  simp only [decide_eq_true_iff]

/-! ## Nothing is lost -/

/-- The request and response shapes of the operations of an `api` block. -/
def operationShapes (entity : EntityDecl) : List IrShape :=
  entity.api.elim [] fun api =>
    (api.create.toList.flatMap fun create =>
      [createRequest entity api.resource create, responseShape entity]) ++
    (api.get.toList.map fun _ => responseShape entity) ++
    api.lists.map (listResponse entity) ++
    api.updateStatus.toList.flatMap fun updateStatus =>
      [updateRequest entity api.resource updateStatus, responseShape entity]

/-- The lowering loses and merges no API. -/
structure OperationsLowered (system : SystemDecl) : Prop where
  declared : ∀ api ∈ system.apis, ∃ lowered ∈ (lowerToIr system).apis,
    lowered.name = api.name ∧ lowered.method = api.method ∧ lowered.path = api.path ∧
      lowered.input = api.input ∧ lowered.output = api.output
  operations : ∀ operation ∈ systemApiOperations system, ∃ lowered ∈ (lowerToIr system).apis,
    lowered.method = operation.method ∧ lowered.path = operation.path ∧
      lowered.entity = operation.entity ∧ lowered.repositoryOperation = operation.repositoryOperation ∧
      lowered.listSelector = operation.listSelector
  distinct :
    (system.apis.map ApiDecl.name ++ (systemApiOperations system).map IrApi.name).Nodup
  shapes : ∀ entity ∈ system.entities, ∀ shape ∈ operationShapes entity,
    (lowerToIr system).findShape shape.name = some shape

/-- The names of declared APIs are among those of all declarations. -/
theorem Accepted.apiNames {system : SystemDecl} (h : Accepted system) :
    (system.apis.map ApiDecl.name).Nodup := by
  have hnodup := h.table.2
  simp only [declaredSymbols, List.map_append, List.nodup_append, List.map_map] at hnodup
  exact hnodup.1.1.2.1

/-- The operations on orders, each once. -/
def orderOperations : EntityApiDecl :=
  { resource := some (ascii "/v1/\x7btenant_id\x7d/orders/\x7border_id\x7d")
    create := some {}
    get := some {}
    lists := [
      { path := some (ascii "/v1/\x7btenant_id\x7d/orders"), by' := [ascii "tenant_id"] }]
    updateStatus := some {}
    delete' := some {} }

/-- The operations of an `api` block, one by one. -/
theorem mem_entityApiOperations {entity : EntityDecl} {operation : IrApi} :
    operation ∈ entityApiOperations entity ↔ ∃ api, entity.api = some api ∧
      ((∃ create ∈ api.create, operation = createOperation entity (api.resource.getD []) create) ∨
        (∃ get ∈ api.get, operation = getOperation entity (api.resource.getD []) get) ∨
        (∃ list ∈ api.lists, operation = listOperation entity list) ∨
        (∃ updateStatus ∈ api.updateStatus,
          operation = updateOperation entity (api.resource.getD []) updateStatus) ∨
        ∃ delete' ∈ api.delete', operation = deleteOperation entity (api.resource.getD []) delete') := by
  unfold entityApiOperations
  rcases entity.api with _ | api
  · simp
  · simp only [Option.elim_some, List.mem_append, List.mem_map, Option.mem_toList, Option.mem_def,
      Option.some.injEq, exists_eq_left', or_assoc, eq_comm]

/-- A parameter stands in its path in braces. -/
theorem placeholder_within {path name : Bytes} (h : name ∈ pathParameters path) :
    placeholder name <:+: path := by
  induction pathRead path with
  | plain hopen =>
    rw [pathParameters_plain hopen] at h
    cases h
  | unclosed hfront hbehind =>
    rw [pathParameters_unclosed hfront hbehind] at h
    cases h
  | @closed front parameter rest hfront hparameter hrest ih =>
    rw [pathParameters_closed hfront hparameter, List.mem_append] at h
    rcases h with h | h
    · split at h
      · cases h
      · obtain rfl := List.mem_singleton.mp h
        refine ⟨front, rest, ?_⟩
        rw [placeholder_eq]
        simp only [List.nil_append, List.append_assoc, List.cons_append]
    · obtain ⟨before, after, rfl⟩ := ih h
      refine ⟨front ++ byte '\x7b' :: (parameter ++ byte '\x7d' :: before), after, ?_⟩
      simp only [List.append_assoc, List.cons_append]

theorem hasTenantIdentity_of_parameter {tenantField path : Bytes} (h : tenantField ∈ pathParameters path) :
    hasTenantIdentity tenantField path = true := by
  simp only [hasTenantIdentity, containsText, Bool.or_eq_true, decide_eq_true_eq]
  exact .inl (.inr (placeholder_within h))

theorem hasTenantIdentity_append {tenantField path : Bytes} (h : hasTenantIdentity tenantField path = true)
    (rest : Bytes) : hasTenantIdentity tenantField (path ++ rest) = true := by
  have hmore : ∀ part : Bytes, part <:+: path → part <:+: path ++ rest :=
    fun part hpart => hpart.trans (List.infix_append' [] path rest)
  simp only [hasTenantIdentity, containsText, Bool.or_eq_true, decide_eq_true_eq] at h ⊢
  rcases h with (h | h) | h
  · exact .inl (.inl (hmore _ h))
  · exact .inl (.inr (hmore _ h))
  · exact .inr (hmore _ h)

theorem hasTenantIdentity_nil (tenantField : Bytes) : hasTenantIdentity tenantField [] = false := by
  simp [hasTenantIdentity, containsText, placeholder, ascii]

theorem statusPath_append (resource : Bytes) : ∃ rest, statusPath resource = resource ++ rest := by
  unfold statusPath
  split
  · exact ⟨_, rfl⟩
  · exact ⟨_, rfl⟩

/-- An API has a path, and it says which tenant it is about. -/
def TenantRoute (tenantField : Bytes) (api : IrApi) : Prop :=
  ∃ path ∈ api.path, hasTenantIdentity tenantField path = true

instance (tenantField : Bytes) (api : IrApi) : Decidable (TenantRoute tenantField api) :=
  match hpath : api.path with
  | none => isFalse (by simp [TenantRoute, hpath])
  | some path => decidable_of_iff (hasTenantIdentity tenantField path = true) (by simp [TenantRoute, hpath])

section Tenant

variable {system : SystemDecl} {scope : TenantScopeDecl}

/-- Declared APIs are checked for the tenant. -/
theorem declared_tenantRoute (h : Accepted system) (hscope : system.tenantScope = some scope) {api : IrApi}
    (hapi : api ∈ declaredApis system) : TenantRoute scope.fieldName api := by
  obtain ⟨decl, hdecl, rfl⟩ := List.mem_map.mp hapi
  obtain ⟨entity, operation, selector, heq⟩ := attach_keeps (lowerDeclarations system) (lowerApi decl)
  rw [heq]
  obtain ⟨-, path, hpath, htenant⟩ := clean_api (h.apis decl hdecl)
  exact ⟨path, hpath, htenant scope hscope⟩

/-- So are resources, through the key of their entity. -/
theorem resource_tenantRoute (h : Accepted system) (hscope : system.tenantScope = some scope)
    {entity : EntityDecl} (hentity : entity ∈ system.entities) {api : EntityApiDecl}
    (hapi : entity.api = some api) {resource : Bytes} (hresource : api.resource = some resource) :
    hasTenantIdentity scope.fieldName resource = true := by
  have hclean := h.entities entity hentity
  exact hasTenantIdentity_of_parameter
    (clean_resource hclean hapi hresource _ (clean_tenantKey hclean hscope))

/-- **The tenant in every route**: it is missing only from creates without a resource, and from lists whose
    own path has none. -/
theorem tenantRoutes_iff (h : Accepted system) (hscope : system.tenantScope = some scope) :
    (∀ api ∈ (lowerToIr system).apis, TenantRoute scope.fieldName api) ↔
      ∀ operation ∈ operationsKept system,
        (operation.repositoryOperation = some (ascii "create") → operation.path ≠ some []) ∧
        (operation.repositoryOperation = some (ascii "list") → TenantRoute scope.fieldName operation) := by
  rw [lowerToIr_apis]
  constructor
  · intro hall operation hoperation
    have hroute := hall operation (List.mem_append_right _ hoperation)
    refine ⟨fun _ hempty => ?_, fun _ => hroute⟩
    obtain ⟨path, hpath, htenant⟩ := hroute
    rw [hempty] at hpath
    cases hpath
    rw [hasTenantIdentity_nil] at htenant
    cases htenant
  · intro hall operation hmem
    rcases List.mem_append.mp hmem with hdeclared | hoperation
    · exact declared_tenantRoute h hscope hdeclared
    obtain ⟨hcreate, hlist⟩ := hall operation hoperation
    obtain ⟨entity, hentity, hmem⟩ := List.mem_flatMap.mp (mem_of_fresh hoperation)
    obtain ⟨api, hapi, hcases⟩ := mem_entityApiOperations.mp hmem
    have hkeyed : api.hasKeyedOperation = true →
        ∃ resource, api.resource = some resource ∧ hasTenantIdentity scope.fieldName resource = true := by
      intro hkeyed
      obtain ⟨resource, hresource⟩ := clean_keyedOperation (h.entities entity hentity) hapi hkeyed
      exact ⟨resource, hresource, resource_tenantRoute h hscope hentity hapi hresource⟩
    rcases hcases with ⟨create, -, rfl⟩ | ⟨get, hget, rfl⟩ | ⟨list, -, rfl⟩ | ⟨updateStatus, hupdate, rfl⟩ |
      ⟨delete', hdelete, rfl⟩
    · rcases hresource : api.resource with _ | resource
      · rw [hresource] at hcreate
        exact absurd rfl (hcreate rfl)
      · exact ⟨resource, rfl, resource_tenantRoute h hscope hentity hapi hresource⟩
    · obtain ⟨resource, hresource, htenant⟩ := hkeyed (by simp [EntityApiDecl.hasKeyedOperation, Option.mem_def.mp hget])
      refine ⟨resource, ?_, htenant⟩
      rw [hresource]
      rfl
    · exact hlist rfl
    · obtain ⟨resource, hresource, htenant⟩ := hkeyed (by simp [EntityApiDecl.hasKeyedOperation, Option.mem_def.mp hupdate])
      obtain ⟨rest, hrest⟩ := statusPath_append resource
      refine ⟨statusPath resource, ?_, ?_⟩
      · rw [hresource]
        rfl
      · rw [hrest]
        exact hasTenantIdentity_append htenant rest
    · obtain ⟨resource, hresource, htenant⟩ := hkeyed (by simp [EntityApiDecl.hasKeyedOperation, Option.mem_def.mp hdelete])
      refine ⟨resource, ?_, htenant⟩
      rw [hresource]
      rfl

end Tenant

/-- There are routes to orders, and they have the tenant. -/
theorem tenantRoutes_order : (lowerToIr (orderSystem orderOperations)).apis ≠ [] ∧
    ∀ api ∈ (lowerToIr (orderSystem orderOperations)).apis, TenantRoute (ascii "tenant_id") api :=
  ⟨by decide +kernel,
    (@tenantRoutes_iff (orderSystem orderOperations) {} (by decide +kernel) rfl).mpr (by decide +kernel)⟩

/-- A list by an index may leave the tenant out of its path. -/
theorem list_without_tenant : ¬ ∀ system scope, Accepted system → system.tenantScope = some scope →
    ∀ api ∈ (lowerToIr system).apis, TenantRoute scope.fieldName api := by
  intro hroutes
  have hall := hroutes
    (orderSystem
      { lists := [{ path := some (ascii "/v1/orders/\x7bstatus\x7d"), by' := [ascii "by_status"] }] })
    {} (by decide +kernel) rfl
  revert hall
  decide +kernel

end StateSpec.Compiler
