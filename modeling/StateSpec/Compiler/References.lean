/-
  REFERENCES — which kind of declaration the targets of APIs, queues and workers are.

  All declarations share one table.  The passes over APIs, queues and workers look a target up in it and take
  whatever they find; only what a queue's `dead_letter` makes the queue depend on is looked at again, by
  `validate_runtime_domain_dependencies`, and that rules out five kinds (`ReferenceSite.dependencyKinds`).
-/
import StateSpec.Compiler.Validator

namespace StateSpec.Compiler

/-- The places where a declaration is named. -/
inductive ReferenceSite where
  | starts | enqueues | deadLetter | lease | polls | executes
deriving DecidableEq

/-- What each of them is about. -/
def ReferenceSite.kinds : ReferenceSite → List SymbolKind
  | .starts => [.workflow]
  | .enqueues => [.message]
  | .deadLetter => [.queue, .message]
  | .lease => [.lease]
  | .polls => [.queue, .message]
  | .executes => [.workflow, .workflowStep]

/-- The kinds that the check of dependencies rules out at a place. -/
def ReferenceSite.dependencyKinds : ReferenceSite → List SymbolKind
  | .deadLetter => [.featureFlag, .lease, .workflow, .log, .metric]
  | _ => []

/-- Every name at one of these places. -/
def references (system : SystemDecl) : List (ReferenceSite × Bytes) :=
  (system.apis.flatMap fun api =>
    api.startsWorkflow.toList.map (Prod.mk .starts) ++ api.enqueues.toList.map (Prod.mk .enqueues)) ++
  (system.queues.flatMap fun queue => queue.deadLetter.toList.map (Prod.mk .deadLetter)) ++
  system.workers.flatMap fun worker =>
    worker.lease.toList.map (Prod.mk .lease) ++ worker.polls.toList.map (Prod.mk .polls) ++
      worker.executes.toList.map (Prod.mk .executes)

/-- Every name is that of a declaration of a kind its place is about. -/
def ReferencesKept (system : SystemDecl) : Prop :=
  ∀ reference ∈ references system,
    ∃ symbol ∈ declaredSymbols system, symbol.name = reference.2 ∧ symbol.kind ∈ reference.1.kinds

theorem mem_option_pair {site site' : ReferenceSite} {name : Bytes} {reference : Option Bytes} :
    (site, name) ∈ reference.toList.map (Prod.mk site') ↔ site = site' ∧ reference = some name := by
  rw [List.mem_map]
  constructor
  · rintro ⟨found, hfound, heq⟩
    cases heq
    exact ⟨rfl, Option.mem_toList.mp hfound⟩
  · rintro ⟨rfl, rfl⟩
    exact ⟨name, List.mem_cons_self, rfl⟩

theorem clean_validateDeclared {symbols : SymbolTable} {range : SourceRange} {kind : String} {name : Bytes}
    (h : Clean (validateDeclared symbols range kind (some name))) :
    ∃ symbol ∈ symbols, symbol.name = name := by
  rw [validateDeclared, clean_reportIf] at h
  rcases hfind : symbols.find name with _ | symbol
  · exact absurd (h (by rw [hfind]; rfl)) (not_clean_unknownReferenceError _ _ _)
  · have hname := List.find?_some hfind
    exact ⟨symbol, List.mem_of_find?_eq_some hfind, of_decide_eq_true hname⟩

/-- The names at all these places are looked up. -/
theorem Accepted.declared {system : SystemDecl} (h : Accepted system) {site : ReferenceSite} {name : Bytes}
    (hmem : (site, name) ∈ references system) : ∃ symbol ∈ declaredSymbols system, symbol.name = name := by
  simp only [references, List.mem_append, List.mem_flatMap, mem_option_pair] at hmem
  rcases hmem with (⟨api, hapi, hname⟩ | ⟨queue, hqueue, -, hname⟩) | ⟨worker, hworker, hname⟩
  · have hclean := h.apis api hapi
    simp only [validateApi, clean_append] at hclean
    obtain ⟨⟨-, hstarts⟩, henqueues⟩ := hclean
    rcases hname with ⟨-, hname⟩ | ⟨-, hname⟩
    · rw [hname] at hstarts
      exact clean_validateDeclared hstarts
    · rw [hname] at henqueues
      exact clean_validateDeclared henqueues
  · have hclean := h.queues queue hqueue
    simp only [validateQueue, clean_append] at hclean
    obtain ⟨-, hdead⟩ := hclean
    rw [hname] at hdead
    exact clean_validateDeclared hdead
  · have hclean := h.workers worker hworker
    simp only [validateWorker, clean_append] at hclean
    obtain ⟨⟨⟨-, hlease⟩, hpolls⟩, hexecutes⟩ := hclean
    rcases hname with (⟨-, hname⟩ | ⟨-, hname⟩) | ⟨-, hname⟩
    · rw [hname] at hlease
      exact clean_validateDeclared hlease
    · rw [hname] at hpolls
      exact clean_validateDeclared hpolls
    · rw [hname] at hexecutes
      exact clean_validateDeclared hexecutes

/-- A queue depends on the domain of its `dead_letter`. -/
theorem deadLetter_dependency {system : SystemDecl} {symbols : SymbolTable} {queue : QueueDecl}
    (hqueue : queue ∈ system.queues) {name : Bytes} (hname : queue.deadLetter = some name) {symbol : Symbol}
    (hfind : symbols.find name = some symbol) {target : RuntimeDomain}
    (htarget : runtimeDomainForSymbol symbol = some target) :
    ⟨.queues, target, queue.range, "queue '" ++ text queue.name ++ "' dead_letter"⟩ ∈
      runtimeDomainDependencies system symbols := by
  have hmem : (⟨.queues, target, queue.range, "queue '" ++ text queue.name ++ "' dead_letter"⟩ :
      RuntimeDependency) ∈ system.queues.flatMap fun queue => queue.deadLetter.elim [] fun target =>
        symbolDependency .queues symbols queue.range ("queue '" ++ text queue.name ++ "' dead_letter")
          target := by
    refine List.mem_flatMap.mpr ⟨queue, hqueue, ?_⟩
    rw [hname]
    show _ ∈ symbolDependency _ _ _ _ _
    rw [symbolDependency, hfind, Option.bind_some, htarget]
    exact List.mem_cons_self
  unfold runtimeDomainDependencies
  rw [List.append_assoc]
  exact List.mem_append_left _ hmem

/-- It may depend on queues, and on nothing in another domain. -/
theorem Accepted.dependency {system : SystemDecl} (h : Accepted system) {site : ReferenceSite}
    {symbol : Symbol} (hsymbol : symbol ∈ declaredSymbols system)
    (hmem : (site, symbol.name) ∈ references system) : symbol.kind ∉ site.dependencyKinds := by
  intro hkind
  obtain rfl : site = .deadLetter := by
    cases site with
    | deadLetter => rfl
    | _ => cases hkind
  simp only [references, List.mem_append, List.mem_flatMap, mem_option_pair] at hmem
  rcases hmem with (⟨api, -, (⟨hsite, -⟩ | ⟨hsite, -⟩)⟩ | ⟨queue, hqueue, -, hname⟩) |
    ⟨worker, -, ((⟨hsite, -⟩ | ⟨hsite, -⟩) | ⟨hsite, -⟩)⟩
  · cases hsite
  · cases hsite
  · have hfind := (find_eq_some h.table.2).mpr ⟨hsymbol, rfl⟩
    have hdenied : ∃ target, runtimeDomainForSymbol symbol = some target ∧
        runtimeDependencyAllowed .queues target = false := by
      unfold runtimeDomainForSymbol
      simp only [ReferenceSite.dependencyKinds, List.mem_cons, List.not_mem_nil, or_false] at hkind
      rcases hkind with hkind | hkind | hkind | hkind | hkind <;> rw [hkind]
      · exact ⟨_, rfl, rfl⟩
      · exact ⟨_, rfl, rfl⟩
      · exact ⟨_, rfl, rfl⟩
      · exact ⟨_, rfl, rfl⟩
      · exact ⟨_, rfl, rfl⟩
    obtain ⟨target, htarget, hdenied⟩ := hdenied
    have hdependency := deadLetter_dependency hqueue hname hfind htarget
    have hclean := clean_flatMap.mp h.runtimeDependencies _ hdependency
    exact not_clean_error _ _ _ (clean_reportIf.mp hclean hdenied)
  · cases hsite
  · cases hsite
  · cases hsite

/-- **References of the right kind**: an accepted system has them exactly when no declaration of another kind
    has the name, those apart that a `dead_letter` may not depend on. -/
theorem referencesKept_iff {system : SystemDecl} (h : Accepted system) :
    ReferencesKept system ↔
      ∀ reference ∈ references system, ∀ symbol ∈ declaredSymbols system, symbol.name = reference.2 →
        symbol.kind ∈ reference.1.kinds ∨ symbol.kind ∈ reference.1.dependencyKinds := by
  constructor
  · intro hkept reference hmem symbol hsymbol hname
    obtain ⟨other, hother, hsame, hkind⟩ := hkept reference hmem
    have hfind := (find_eq_some h.table.2).mpr ⟨hother, hsame⟩
    have hfind' := (find_eq_some h.table.2).mpr ⟨hsymbol, hname⟩
    obtain rfl : other = symbol := Option.some.inj (hfind.symm.trans hfind')
    exact .inl hkind
  · rintro hall ⟨site, name⟩ hmem
    obtain ⟨symbol, hsymbol, rfl⟩ := h.declared hmem
    refine ⟨symbol, hsymbol, rfl, ?_⟩
    rcases hall _ hmem symbol hsymbol rfl with hkind | hkind
    · exact hkind
    · exact absurd hkind (h.dependency hsymbol hmem)

/-- A system with a worker that executes its workflow, or something else. -/
def executingSystem (target : Bytes) : SystemDecl :=
  { name := ascii "S"
    tenantScope := some {}
    systemTenant := some {}
    workflows := [
      { name := ascii "Launch", version := some 1, singleton := some true
        expectedExecutionTime := some (ascii "PT1M"), startStep := some (ascii "run")
        steps := [
          { name := ascii "run", expectedExecutionTime := some (ascii "PT1M"), maxRetries := some 3 }] }]
    workers := [{ name := ascii "W", executes := some target }] }

/-- The workflow is one it may execute. -/
theorem referencesKept_executing : ReferencesKept (executingSystem (ascii "Launch")) :=
  (referencesKept_iff (by decide +kernel)).mpr (by decide +kernel)

/-- A worker may execute the system. -/
theorem system_executed : ¬ ∀ system, Accepted system → ReferencesKept system := by
  intro hkept
  obtain ⟨symbol, hsymbol, hname, hkind⟩ :=
    hkept (executingSystem (ascii "S")) (by decide +kernel) (.executes, ascii "S") (by decide +kernel)
  have hnone : ∀ symbol ∈ declaredSymbols (executingSystem (ascii "S")), symbol.name = ascii "S" →
      symbol.kind ∉ ReferenceSite.executes.kinds := by decide +kernel
  exact hnone symbol hsymbol hname hkind

end StateSpec.Compiler
