/-
  INCLUDES — `load_composed_spec` of `cmd/statespec.cpp`: a file and what it includes become one system.

  Loading is a depth-first search of the include directives.  A file on the stack is a cycle, and a file
  that was loaded before is an empty specification; after the first error nothing more is included.  So
  without errors the files come in a postorder of the directives, each once, and the members of the
  composed system are theirs in this order (`LoadsAll`).

  What is meant to be reported: a missing file, a cycle, two tenant scopes that differ, and a directive that
  joins files whose StateSpec versions differ.  But a file is compared only with the one that loads it, which
  the `Leftmost` chain of directives to it ends at; a second includer finds the empty specification, which
  has no version.  Whether such a directive is reported depends on the order of the directives.
-/
import StateSpec.Compiler.Parser
import StateSpec.Compiler.Lexer
import StateSpec.Compiler.Diagnostics
import StateSpec.Lib.DepthFirst

namespace StateSpec.Compiler

open Reading

/-! ## Files -/

/-- `parse_file`, on what the file contains: the specification and the diagnostics. -/
def parseFile (fuel : Nat) (contents : Bytes) : Option (Spec × List Diagnostic) :=
  (lex contents).bind fun (tokens, diagnostics) =>
    (parse ⟨fuel, tokens⟩ start).result.map fun (spec, cursor) => (spec, diagnostics ++ cursor.reports)

/-- A file that parses without errors. -/
structure SourceFile where
  contents : Bytes
  spec : Spec
  diagnostics : List Diagnostic
  parses : ∃ fuel, parseFile fuel contents = some (spec, diagnostics)
  clean : hasErrors diagnostics = false

/-- A normalised path. -/
abbrev Path := Bytes

/-- The files there are, and `normalized_existing_path(path.parent_path() / include.path)`. -/
structure FileSystem where
  file : Path → Option SourceFile
  includePath : Path → Bytes → Path
  paths : List Path
  mem_paths : ∀ path, file path ≠ none → path ∈ paths

/-! ## `append_system_members` and `merge_system_level_declarations` -/

def appendSystemMembers (target source : SystemDecl) : SystemDecl :=
  { target with
    featureFlags := target.featureFlags ++ source.featureFlags
    values := target.values ++ source.values
    enums := target.enums ++ source.enums
    events := target.events ++ source.events
    shapes := target.shapes ++ source.shapes
    externalSystems := target.externalSystems ++ source.externalSystems
    logs := target.logs ++ source.logs
    metrics := target.metrics ++ source.metrics
    entities := target.entities ++ source.entities
    queues := target.queues ++ source.queues
    leases := target.leases ++ source.leases
    workers := target.workers ++ source.workers
    apiServers := target.apiServers ++ source.apiServers
    apis := target.apis ++ source.apis
    workflows := target.workflows ++ source.workflows
    policies := target.policies ++ source.policies }

/-- The system whose members are yet to be collected. -/
def SystemDecl.clearMembers (system : SystemDecl) : SystemDecl :=
  { system with
    featureFlags := [], values := [], enums := [], events := [], shapes := [], externalSystems := []
    logs := [], metrics := [], entities := [], queues := [], leases := [], workers := [], apiServers := []
    apis := [], workflows := [], policies := [] }

/-- What loading goes along with: the diagnostics and the paths that were loaded. -/
structure Loading where
  diagnostics : List Diagnostic := []
  loadedPaths : List Path := []

def Loading.error (s : Loading) (range : SourceRange) (code message : String) : Loading :=
  { s with diagnostics := s.diagnostics ++ [{ severity := .error, range, code, message }] }

/-- The tenant scope of the composed system, with that of an included one. -/
def mergeTenantScope (target source : Option TenantScopeDecl) (s : Loading) :
    Option TenantScopeDecl × Loading :=
  match source, target with
  | none, _ => (target, s)
  | some scope, none => (some scope, s)
  | some scope, some targetScope =>
    (target,
      if targetScope.fieldName ≠ scope.fieldName then
        s.error scope.range "SSPEC5004"
          "included system tenant scope conflicts with root system tenant scope"
      else s)

def mergeSystemLevelDeclarations (target source : SystemDecl) (s : Loading) : SystemDecl × Loading :=
  let scope := mergeTenantScope target.tenantScope source.tenantScope s
  ({ target with
      tenantScope := scope.1
      systemTenant :=
        if source.systemTenant.isSome ∧ target.systemTenant.isNone then source.systemTenant
        else target.systemTenant },
    scope.2)

/-! ## `load_composed_spec` -/

/-- The versions of a file and of what it includes, where both have one. -/
def checkVersion (spec included : Spec) (directive : IncludeDecl) (s : Loading) : Loading :=
  match spec.version, included.version with
  | some version, some includedVersion =>
    if version ≠ includedVersion then
      s.error directive.range "SSPEC5003"
        ("included file '" ++ text directive.path ++ "' has incompatible StateSpec version " ++
          text includedVersion)
    else s
  | _, _ => s

def includeSystem (composed : SystemDecl) (included : Spec) (s : Loading) : SystemDecl × Loading :=
  match included.system with
  | none => (composed, s)
  | some system =>
    let merged := mergeSystemLevelDeclarations composed system s
    (appendSystemMembers merged.1 system, merged.2)

/-- An include directive of a file, where `load` loads what it includes. -/
def composeInclude (files : FileSystem) (load : Path → Loading → Option (Spec × Loading))
    (includeStack : List Path) (path : Path) (spec : Spec) (acc : SystemDecl × Loading)
    (directive : IncludeDecl) : Option (SystemDecl × Loading) :=
  let (composed, s) := acc
  let includePath := files.includePath path directive.path
  if (files.file includePath).isNone then
    some (composed, s.error directive.range "SSPEC5001"
      ("included file does not exist: '" ++ text includePath ++ "'"))
  else if includePath ∈ includeStack then
    some (composed, s.error directive.range "SSPEC5002"
      ("include cycle detected at '" ++ text includePath ++ "'"))
  else
    (load includePath s).map fun (included, s) =>
      if hasErrors s.diagnostics then (composed, s)
      else includeSystem composed included (checkVersion spec included directive s)

/-- `load_composed_spec` of a path, as deep as there is fuel. -/
def loadComposedSpec (files : FileSystem) :
    Nat → List Path → Path → Loading → Option (Spec × Loading)
  | 0, _, _, _ => none
  | fuel + 1, includeStack, path, s =>
    if path ∈ includeStack then
      some ({}, s.error {} "SSPEC5002" ("include cycle detected at '" ++ text path ++ "'"))
    else
      match files.file path with
      | none =>
        some ({}, s.error {} "SSPEC5001" ("included file does not exist: '" ++ text path ++ "'"))
      | some file =>
        if path ∈ s.loadedPaths then some ({}, s)
        else
          let s : Loading := ⟨s.diagnostics ++ file.diagnostics, path :: s.loadedPaths⟩
          if hasErrors s.diagnostics then some (file.spec, s)
          else
            match file.spec.system with
            | none => some ({ version := file.spec.version }, s)
            | some system =>
              let load := loadComposedSpec files fuel (includeStack ++ [path])
              (file.spec.includes.foldlM
                  (composeInclude files load (includeStack ++ [path]) path file.spec)
                  (system.clearMembers, s)).map fun (composed, s) =>
                ({ version := file.spec.version, system := some (appendSystemMembers composed system) },
                  s)

/-! ## The graph of the include directives -/

inductive MemberKind where
  | featureFlag | value | enum | event | shape | externalSystem | log | metric | entity | queue | lease
  | worker | apiServer | api | workflow | policy

@[reducible]
def MemberKind.Decl : MemberKind → Type
  | .featureFlag => FeatureFlagDecl
  | .value => ValueDecl
  | .enum => EnumDecl
  | .event => EventDecl
  | .shape => ShapeDecl
  | .externalSystem => ExternalSystemDecl
  | .log => LogDecl
  | .metric => MetricDecl
  | .entity => EntityDecl
  | .queue => QueueDecl
  | .lease => LeaseDecl
  | .worker => WorkerDecl
  | .apiServer => ApiServerDecl
  | .api => ApiDecl
  | .workflow => WorkflowDecl
  | .policy => PolicyDecl

def SystemDecl.membersOf (system : SystemDecl) : (kind : MemberKind) → List kind.Decl
  | .featureFlag => system.featureFlags
  | .value => system.values
  | .enum => system.enums
  | .event => system.events
  | .shape => system.shapes
  | .externalSystem => system.externalSystems
  | .log => system.logs
  | .metric => system.metrics
  | .entity => system.entities
  | .queue => system.queues
  | .lease => system.leases
  | .worker => system.workers
  | .apiServer => system.apiServers
  | .api => system.apis
  | .workflow => system.workflows
  | .policy => system.policies

/-- The field the tenants of a system are told apart by. -/
def SystemDecl.scope (system : SystemDecl) : Option Bytes :=
  system.tenantScope.map TenantScopeDecl.fieldName

def Spec.membersOf (spec : Spec) (kind : MemberKind) : List kind.Decl :=
  spec.system.elim [] (SystemDecl.membersOf · kind)

def Spec.scope (spec : Spec) : Option Bytes := spec.system.bind SystemDecl.scope

namespace FileSystem

/-- Every file with its include directives, in order. -/
def graph (files : FileSystem) : Network Path IncludeDecl where
  out path := (files.file path).elim [] fun file => file.spec.includes
  target path directive := files.includePath path directive.path

def version (files : FileSystem) (path : Path) : Option Bytes :=
  (files.file path).bind fun file => file.spec.version

def scope (files : FileSystem) (path : Path) : Option Bytes :=
  (files.file path).bind fun file => file.spec.scope

def membersOf (files : FileSystem) (kind : MemberKind) (path : Path) : List kind.Decl :=
  (files.file path).elim [] fun file => file.spec.membersOf kind

end FileSystem

/-- The two do not differ: one of them is missing, or they are equal. -/
def Compatible (a b : Option Bytes) : Prop := ∀ x, a = some x → ∀ y, b = some y → x = y

/-! ## What loading keeps -/

@[simp]
theorem hasErrors_error (s : Loading) (range : SourceRange) (code message : String) :
    hasErrors (s.error range code message).diagnostics = true := by
  show hasErrors (s.diagnostics ++ _) = true
  rw [hasErrors_append, Bool.or_eq_true]
  exact Or.inr rfl

@[simp]
theorem loadedPaths_error (s : Loading) (range : SourceRange) (code message : String) :
    (s.error range code message).loadedPaths = s.loadedPaths := rfl

/-- Where there is no system, an error says so, and nothing that comes later takes it back. -/
theorem parseSpec_system {i : Input Token} {c c' : Cursor Diagnostic} {spec : Spec}
    (h : (parseSpec i c).result = some (spec, c')) (hclean : hasErrors c'.reports = false) :
    spec.system ≠ none := by
  unfold parseSpec at h
  obtain ⟨version, c₁, -, h, -⟩ := bind_result h
  obtain ⟨includes, c₂, -, h, -⟩ := bind_result h
  obtain ⟨system, c₃, hsystem, h, -⟩ := bind_result h
  obtain ⟨_, c₄, hloop, h, -⟩ := bind_result h
  cases h
  show system ≠ none
  have hkept : hasErrors c₃.reports = true → hasErrors c'.reports = true := by
    refine LoopRun.keeps (P := fun c => hasErrors c.reports = true)
      (loopRun_iterate i.fuel () c₃) ?_ hloop
    intro _ c _ c' hbody hc
    obtain ⟨_, c₁, herror, hbody, -⟩ := bind_result hbody
    obtain ⟨_, c₂, hadvance, hbody, -⟩ := bind_result hbody
    cases hbody
    cases herror
    rw [advance_eq] at hadvance
    cases hadvance
    show hasErrors (c.reports ++ _) = true
    rw [hasErrors_append, hc, Bool.true_or]
  rintro rfl
  rcases hcheck : check .keywordSystem i.tokens c₂.current with _ | _
  · rw [ifCheck, choose_false hcheck] at hsystem
    obtain ⟨_, c₅, herror, hpure, -⟩ := bind_result hsystem
    cases hpure
    cases herror
    have herrors := hkept (by
      show hasErrors (c₂.reports ++ _) = true
      rw [hasErrors_append, Bool.or_eq_true]
      exact .inr rfl)
    rw [hclean] at herrors
    cases herrors
  · rw [ifCheck, choose_true hcheck] at hsystem
    obtain ⟨system, c₅, -, hpure, -⟩ := bind_result hsystem
    cases hpure

/-- A file that parses without errors has a system. -/
theorem SourceFile.system_ne_none (file : SourceFile) : file.spec.system ≠ none := by
  obtain ⟨fuel, hparse⟩ := file.parses
  obtain ⟨⟨tokens, diagnostics⟩, -, hmap⟩ := Option.bind_eq_some_iff.mp hparse
  obtain ⟨⟨spec, cursor⟩, hresult, heq⟩ := Option.map_eq_some_iff.mp hmap
  rw [Prod.mk.injEq] at heq
  have hclean := file.clean
  rw [← heq.2, hasErrors_append, Bool.or_eq_false_iff] at hclean
  rw [← heq.1]
  exact parseSpec_system hresult hclean.2

/-- Errors stay, and so do loaded paths. -/
structure Loading.Grows (s s' : Loading) : Prop where
  errors : hasErrors s.diagnostics = true → hasErrors s'.diagnostics = true
  paths : s.loadedPaths ⊆ s'.loadedPaths

theorem Loading.Grows.refl (s : Loading) : s.Grows s := ⟨id, fun _ => id⟩

theorem Loading.Grows.trans {s s' s'' : Loading} (h : s.Grows s') (h' : s'.Grows s'') : s.Grows s'' :=
  ⟨h'.errors ∘ h.errors, fun _ hp => h'.paths (h.paths hp)⟩

theorem Loading.grows_error (s : Loading) (range : SourceRange) (code message : String) :
    s.Grows (s.error range code message) :=
  ⟨fun _ => hasErrors_error s range code message, fun _ => id⟩

theorem checkVersion_grows (spec included : Spec) (directive : IncludeDecl) (s : Loading) :
    s.Grows (checkVersion spec included directive s) := by
  unfold checkVersion
  split
  · split
    · exact s.grows_error _ _ _
    · exact .refl s
  · exact .refl s

theorem mergeTenantScope_grows (target source : Option TenantScopeDecl) (s : Loading) :
    s.Grows (mergeTenantScope target source s).2 := by
  unfold mergeTenantScope
  split
  · exact .refl s
  · exact .refl s
  · show s.Grows (if _ then _ else s)
    split
    · exact s.grows_error _ _ _
    · exact .refl s

theorem includeSystem_grows (composed : SystemDecl) (included : Spec) (s : Loading) :
    s.Grows (includeSystem composed included s).2 := by
  unfold includeSystem
  split
  · exact .refl s
  · exact mergeTenantScope_grows composed.tenantScope _ s

section

variable {files : FileSystem} {load : Path → Loading → Option (Spec × Loading)} {includeStack : List Path}
  {path : Path} {spec : Spec} {composed composed' : SystemDecl} {s s' : Loading} {directive : IncludeDecl}

/-- What a directive can do: its file is missing, it is on the stack, or it is loaded, perhaps with errors. -/
theorem composeInclude_cases
    (h : composeInclude files load includeStack path spec (composed, s) directive =
      some (composed', s')) :
    let includePath := files.includePath path directive.path
    (files.file includePath = none ∧ s.Grows s' ∧ hasErrors s'.diagnostics = true) ∨
    (includePath ∈ includeStack ∧ s.Grows s' ∧ hasErrors s'.diagnostics = true) ∨
    (files.file includePath ≠ none ∧ includePath ∉ includeStack ∧ ∃ included s₁,
      load includePath s = some (included, s₁) ∧
      (hasErrors s₁.diagnostics = true ∧ s' = s₁ ∨
        hasErrors s₁.diagnostics = false ∧
          (composed', s') =
            includeSystem composed included (checkVersion spec included directive s₁))) := by
  intro includePath
  rw [composeInclude] at h
  by_cases hmissing : files.file includePath = none
  · rw [if_pos (by rw [hmissing]; rfl)] at h
    cases h
    exact .inl ⟨hmissing, s.grows_error _ _ _, hasErrors_error _ _ _ _⟩
  rw [if_neg (by rw [Option.isNone_iff_eq_none]; exact hmissing)] at h
  by_cases hstack : includePath ∈ includeStack
  · rw [if_pos hstack] at h
    cases h
    exact .inr (.inl ⟨hstack, s.grows_error _ _ _, hasErrors_error _ _ _ _⟩)
  rw [if_neg hstack, Option.map_eq_some_iff] at h
  obtain ⟨⟨included, s₁⟩, hload, hresult⟩ := h
  refine .inr (.inr ⟨hmissing, hstack, included, s₁, hload, ?_⟩)
  by_cases herrors : hasErrors s₁.diagnostics = true
  · dsimp only at hresult
    rw [if_pos herrors] at hresult
    cases hresult
    exact .inl ⟨herrors, rfl⟩
  · dsimp only at hresult
    rw [if_neg herrors] at hresult
    exact .inr ⟨Bool.eq_false_iff.mpr herrors, hresult.symm⟩

theorem composeInclude_grows
    (hload : ∀ {path s spec s'}, load path s = some (spec, s') → s.Grows s')
    (h : composeInclude files load includeStack path spec (composed, s) directive =
      some (composed', s')) : s.Grows s' := by
  rcases composeInclude_cases h with ⟨-, hgrows, -⟩ | ⟨-, hgrows, -⟩ | ⟨-, -, included, s₁, h₁, hrest⟩
  · exact hgrows
  · exact hgrows
  · rcases hrest with ⟨-, rfl⟩ | ⟨-, heq⟩
    · exact hload h₁
    · have hs' : s' = (includeSystem composed included (checkVersion spec included directive s₁)).2 :=
        congrArg Prod.snd heq
      rw [hs']
      exact ((hload h₁).trans (checkVersion_grows spec included directive s₁)).trans
        (includeSystem_grows composed included _)

/-- The directives of a file, one after another. -/
theorem includes_grow {directives : List IncludeDecl}
    (hload : ∀ {path s spec s'}, load path s = some (spec, s') → s.Grows s')
    (h : directives.foldlM (composeInclude files load includeStack path spec) (composed, s) =
      some (composed', s')) : s.Grows s' := by
  induction directives generalizing composed s with
  | nil =>
    cases h
    exact .refl _
  | cons directive rest ih =>
    rw [List.foldlM_cons] at h
    obtain ⟨⟨composed₁, s₁⟩, hstep, hrest⟩ := Option.bind_eq_some_iff.mp h
    exact (composeInclude_grows hload hstep).trans (ih hrest)

/-- What loading a path can do: it is on the stack, its file is missing, it was loaded before, or it is
    read, perhaps after errors. -/
theorem loadComposedSpec_cases {fuel : Nat} {includeStack : List Path} {path : Path} {s s' : Loading}
    {spec : Spec} (h : loadComposedSpec files (fuel + 1) includeStack path s = some (spec, s')) :
    (path ∈ includeStack ∧ spec = {} ∧ s.Grows s' ∧ hasErrors s'.diagnostics = true) ∨
    (files.file path = none ∧ spec = {} ∧ s.Grows s' ∧ hasErrors s'.diagnostics = true) ∨
    ∃ file, files.file path = some file ∧ path ∉ includeStack ∧
      (path ∈ s.loadedPaths ∧ spec = {} ∧ s' = s ∨
        path ∉ s.loadedPaths ∧
          (hasErrors s.diagnostics = true ∧ spec = file.spec ∧
              s' = ⟨s.diagnostics ++ file.diagnostics, path :: s.loadedPaths⟩ ∨
            hasErrors s.diagnostics = false ∧ ∃ system composed, file.spec.system = some system ∧
              file.spec.includes.foldlM
                  (composeInclude files (loadComposedSpec files fuel (includeStack ++ [path]))
                    (includeStack ++ [path]) path file.spec)
                  (system.clearMembers, ⟨s.diagnostics ++ file.diagnostics, path :: s.loadedPaths⟩) =
                some (composed, s') ∧
              spec = { version := file.spec.version,
                       system := some (appendSystemMembers composed system) })) := by
  rw [loadComposedSpec] at h
  by_cases hstack : path ∈ includeStack
  · rw [if_pos hstack] at h
    cases h
    exact .inl ⟨hstack, rfl, s.grows_error _ _ _, hasErrors_error _ _ _ _⟩
  rw [if_neg hstack] at h
  rcases hfile : files.file path with _ | file
  · rw [hfile] at h
    cases h
    exact .inr (.inl ⟨rfl, rfl, s.grows_error _ _ _, hasErrors_error _ _ _ _⟩)
  rw [hfile] at h
  refine .inr (.inr ⟨file, rfl, hstack, ?_⟩)
  dsimp only at h
  by_cases hloaded : path ∈ s.loadedPaths
  · rw [if_pos hloaded] at h
    cases h
    exact .inl ⟨hloaded, rfl, rfl⟩
  rw [if_neg hloaded, hasErrors_append, file.clean, Bool.or_false] at h
  refine .inr ⟨hloaded, ?_⟩
  by_cases herrors : hasErrors s.diagnostics = true
  · rw [if_pos herrors] at h
    cases h
    exact .inl ⟨herrors, rfl, rfl⟩
  rw [if_neg herrors] at h
  rcases hsystem : file.spec.system with _ | system
  · exact absurd hsystem file.system_ne_none
  rw [hsystem] at h
  obtain ⟨⟨composed, s₁⟩, hfold, heq⟩ := Option.map_eq_some_iff.mp h
  cases heq
  exact .inr ⟨Bool.eq_false_iff.mpr herrors, system, composed, rfl, hfold, rfl⟩

theorem loadComposedSpec_grows {fuel : Nat} {includeStack : List Path} {path : Path} {s s' : Loading}
    {spec : Spec} (h : loadComposedSpec files fuel includeStack path s = some (spec, s')) :
    s.Grows s' := by
  induction fuel generalizing includeStack path s spec s' with
  | zero => cases h
  | succ fuel ih =>
    rcases loadComposedSpec_cases h with ⟨-, -, hgrows, -⟩ | ⟨-, -, hgrows, -⟩ | ⟨file, hfile, -, hrest⟩
    · exact hgrows
    · exact hgrows
    have hread : s.Grows ⟨s.diagnostics ++ file.diagnostics, path :: s.loadedPaths⟩ := by
      constructor
      · intro herrors
        rw [hasErrors_append, herrors, Bool.true_or]
      · exact List.subset_cons_self path s.loadedPaths
    rcases hrest with ⟨-, -, rfl⟩ | ⟨-, ⟨-, -, rfl⟩ | ⟨-, system, composed, -, hfold, -⟩⟩
    · exact .refl _
    · exact hread
    · exact hread.trans (includes_grow ih hfold)

end

/-! ## Directives without errors -/

section

variable {files : FileSystem} {load : Path → Loading → Option (Spec × Loading)} {includeStack : List Path}
  {path : Path} {spec included : Spec} {composed composed' : SystemDecl} {s s' s₁ : Loading}
  {directive : IncludeDecl}

theorem checkVersion_clean_iff : hasErrors (checkVersion spec included directive s).diagnostics = false ↔
    hasErrors s.diagnostics = false ∧ Compatible spec.version included.version := by
  unfold checkVersion Compatible
  rcases hversion : spec.version with _ | version
  · simp
  rcases hincluded : included.version with _ | includedVersion
  · simp
  by_cases heq : version = includedVersion
  · simp [heq]
  · simp [heq]

@[simp]
theorem checkVersion_loadedPaths : (checkVersion spec included directive s).loadedPaths = s.loadedPaths := by
  unfold checkVersion
  split
  · split <;> rfl
  · rfl

theorem mergeTenantScope_clean_iff {target source : Option TenantScopeDecl} :
    hasErrors (mergeTenantScope target source s).2.diagnostics = false ↔
      hasErrors s.diagnostics = false ∧
        Compatible (target.map TenantScopeDecl.fieldName) (source.map TenantScopeDecl.fieldName) := by
  unfold mergeTenantScope Compatible
  rcases source with _ | scope
  · simp
  rcases target with _ | targetScope
  · simp
  by_cases heq : targetScope.fieldName = scope.fieldName
  · simp [heq]
  · simp [heq]

theorem mergeTenantScope_scope (target source : Option TenantScopeDecl) (s : Loading) :
    (mergeTenantScope target source s).1.map TenantScopeDecl.fieldName =
      (target.map TenantScopeDecl.fieldName).or (source.map TenantScopeDecl.fieldName) := by
  rcases source with _ | scope
  · rcases target with _ | targetScope <;> rfl
  · rcases target with _ | targetScope <;> rfl

theorem mergeTenantScope_loadedPaths (target source : Option TenantScopeDecl) (s : Loading) :
    (mergeTenantScope target source s).2.loadedPaths = s.loadedPaths := by
  unfold mergeTenantScope
  split
  · rfl
  · rfl
  · show (if _ then _ else s).loadedPaths = s.loadedPaths
    split <;> rfl

theorem membersOf_appendSystemMembers (target source : SystemDecl) (kind : MemberKind) :
    (appendSystemMembers target source).membersOf kind =
      target.membersOf kind ++ source.membersOf kind := by
  cases kind <;> rfl

theorem includeSystem_clean_iff : hasErrors (includeSystem composed included s).2.diagnostics = false ↔
    hasErrors s.diagnostics = false ∧ Compatible composed.scope included.scope := by
  unfold includeSystem Spec.scope
  rcases hsystem : included.system with _ | system
  · simp [Compatible]
  · exact mergeTenantScope_clean_iff

theorem includeSystem_scope :
    (includeSystem composed included s).1.scope = composed.scope.or included.scope := by
  unfold includeSystem Spec.scope
  rcases hsystem : included.system with _ | system
  · exact Option.or_none.symm
  · exact mergeTenantScope_scope composed.tenantScope system.tenantScope s

theorem includeSystem_membersOf (kind : MemberKind) :
    (includeSystem composed included s).1.membersOf kind =
      composed.membersOf kind ++ included.membersOf kind := by
  unfold includeSystem Spec.membersOf
  rcases hsystem : included.system with _ | system
  · exact (List.append_nil _).symm
  · show (appendSystemMembers _ system).membersOf kind = _
    rw [membersOf_appendSystemMembers]
    cases kind <;> rfl

theorem includeSystem_loadedPaths :
    (includeSystem composed included s).2.loadedPaths = s.loadedPaths := by
  unfold includeSystem
  rcases included.system with _ | system
  · rfl
  · exact mergeTenantScope_loadedPaths composed.tenantScope system.tenantScope s

/-- A directive without errors: its file is there and not on the stack, and it is loaded without errors, in
    a version and with a tenant scope that do not differ. -/
theorem composeInclude_clean
    (h : composeInclude files load includeStack path spec (composed, s) directive = some (composed', s'))
    (hclean : hasErrors s'.diagnostics = false) :
    files.file (files.includePath path directive.path) ≠ none ∧
    files.includePath path directive.path ∉ includeStack ∧ ∃ included s₁,
      load (files.includePath path directive.path) s = some (included, s₁) ∧
      hasErrors s₁.diagnostics = false ∧ s'.loadedPaths = s₁.loadedPaths ∧
      Compatible spec.version included.version ∧ Compatible composed.scope included.scope ∧
      (∀ kind, composed'.membersOf kind = composed.membersOf kind ++ included.membersOf kind) ∧
      composed'.scope = composed.scope.or included.scope := by
  rcases composeInclude_cases h with ⟨-, -, herrors⟩ | ⟨-, -, herrors⟩ | ⟨hfile, hstack, included, s₁, hload, hrest⟩
  · rw [hclean] at herrors
    cases herrors
  · rw [hclean] at herrors
    cases herrors
  · rcases hrest with ⟨herrors, rfl⟩ | ⟨hclean₁, heq⟩
    · rw [hclean] at herrors
      cases herrors
    · rw [Prod.mk.injEq] at heq
      obtain ⟨rfl, rfl⟩ := heq
      obtain ⟨hversion, hscope⟩ := includeSystem_clean_iff.mp hclean
      obtain ⟨-, hversion⟩ := checkVersion_clean_iff.mp hversion
      exact ⟨hfile, hstack, included, s₁, hload, hclean₁,
        includeSystem_loadedPaths.trans checkVersion_loadedPaths, hversion, hscope,
        includeSystem_membersOf, includeSystem_scope⟩

/-- Such a directive makes no errors. -/
theorem composeInclude_clean_of
    (h : composeInclude files load includeStack path spec (composed, s) directive = some (composed', s'))
    (hfile : files.file (files.includePath path directive.path) ≠ none)
    (hstack : files.includePath path directive.path ∉ includeStack)
    (hload : load (files.includePath path directive.path) s = some (included, s₁))
    (hclean : hasErrors s₁.diagnostics = false) (hversion : Compatible spec.version included.version)
    (hscope : Compatible composed.scope included.scope) : hasErrors s'.diagnostics = false := by
  rcases composeInclude_cases h with ⟨hmissing, -⟩ | ⟨hmem, -⟩ | ⟨-, -, included', s₁', hload', hrest⟩
  · exact absurd hmissing hfile
  · exact absurd hmem hstack
  · rw [hload] at hload'
    cases hload'
    rcases hrest with ⟨herrors, -⟩ | ⟨-, heq⟩
    · rw [hclean] at herrors
      cases herrors
    · rw [Prod.mk.injEq] at heq
      rw [heq.2, includeSystem_clean_iff, checkVersion_clean_iff]
      exact ⟨⟨hclean, hversion⟩, hscope⟩

end

end StateSpec.Compiler
