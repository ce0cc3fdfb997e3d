/-
  THE VALIDATOR — `validator.cpp`: the passes of the compiler over a system, in the order in which they run.

  A system is ACCEPTED when they report no error.  Each of the lemmas behind the definition hands out what one
  pass has seen to.
-/
import StateSpec.Compiler.ValidatorEntities
import StateSpec.Compiler.ValidatorRuntime
import StateSpec.Compiler.ValidatorWorkflows

namespace StateSpec.Compiler

/-- The passes of `Validator::validate` over a system, with its table of symbols. -/
def passes (system : SystemDecl) (symbols : SymbolTable) : List Diagnostics :=
  [validateSystemMemberOrder system,
    validateSystemTenancy system,
    validateFeatureFlags system symbols,
    validateValues system symbols,
    validateEnums system,
    validateEvents system symbols,
    validateExternalSystems system symbols,
    validateShapes system symbols,
    validateLogs system symbols,
    validateMetrics system symbols,
    validateEntities system symbols,
    validateQueues system symbols,
    validateLeases system,
    validateWorkflows system symbols,
    validateWorkers system symbols,
    validateApis system symbols,
    validateApiServers system symbols,
    validateRuntimeDomainDependencies system symbols,
    validatePolicies system symbols]

/-- What `Validator::validate` reports about a system. -/
def validateSystem (system : SystemDecl) : Diagnostics :=
  (buildSymbolTable system).2 ++ (passes system (buildSymbolTable system).1).flatten

/-- `Validator::validate`. -/
def validate (spec : Spec) : Diagnostics :=
  match spec.system with
  | none => .error {} "SSPEC1001" "spec must contain a system declaration"
  | some system => validateSystem system

/-- A system that the validator reports no error about. -/
def Accepted (system : SystemDecl) : Prop := Clean (validateSystem system)

instance (system : SystemDecl) : Decidable (Accepted system) :=
  inferInstanceAs (Decidable (Clean _))

/-- The spec of an accepted system is one that `validate` has nothing against. -/
theorem clean_validate {spec : Spec} :
    Clean (validate spec) ↔ ∃ system, spec.system = some system ∧ Accepted system := by
  unfold validate Accepted
  rcases spec.system with _ | system
  · simp
  · simp

namespace Accepted

variable {system : SystemDecl}

/-- The table that the passes look names up in. -/
theorem table (h : Accepted system) : (buildSymbolTable system).1 = declaredSymbols system ∧
    ((declaredSymbols system).map Symbol.name).Nodup := by
  rw [Accepted, validateSystem, clean_append] at h
  exact clean_buildSymbolTable h.1

/-- Each pass has nothing against the system. -/
theorem pass (h : Accepted system) {pass : Diagnostics}
    (hpass : pass ∈ passes system (declaredSymbols system)) : Clean pass := by
  rw [← h.table.1] at hpass
  rw [Accepted, validateSystem, clean_append, ← List.flatMap_id, clean_flatMap] at h
  exact h.2 pass hpass

theorem externalSystems (h : Accepted system) :
    Clean (validateExternalSystems system (declaredSymbols system)) :=
  h.pass (by simp [passes])

theorem shapes (h : Accepted system) : Clean (validateShapes system (declaredSymbols system)) :=
  h.pass (by simp [passes])

theorem entities (h : Accepted system) :
    ∀ entity ∈ system.entities, Clean (validateEntity system (declaredSymbols system) entity) :=
  clean_flatMap.mp (h.pass (by simp [passes]) : Clean (validateEntities _ _))

theorem queues (h : Accepted system) :
    ∀ queue ∈ system.queues, Clean (validateQueue system (declaredSymbols system) queue) :=
  clean_flatMap.mp (h.pass (by simp [passes]) : Clean (validateQueues _ _))

theorem workers (h : Accepted system) :
    ∀ worker ∈ system.workers, Clean (validateWorker (declaredSymbols system) worker) :=
  clean_flatMap.mp (h.pass (by simp [passes]) : Clean (validateWorkers _ _))

theorem apis (h : Accepted system) :
    ∀ api ∈ system.apis, Clean (validateApi system (declaredSymbols system) api) :=
  clean_flatMap.mp (h.pass (by simp [passes]) : Clean (validateApis _ _))

theorem runtimeDependencies (h : Accepted system) :
    Clean (validateRuntimeDomainDependencies system (declaredSymbols system)) :=
  h.pass (by simp [passes])

end Accepted

/-! ## A system -/

/-- Orders, with an `api` block. -/
def orderEntity (api : EntityApiDecl) : EntityDecl :=
  { name := ascii "Order"
    keyFields := [ascii "tenant_id", ascii "order_id"]
    fields := [
      { name := ascii "created_at", type := ascii "timestamp" },
      { name := ascii "updated_at", type := ascii "timestamp" },
      { name := ascii "status", type := ascii "string" },
      { name := ascii "tenant_id", type := ascii "string" },
      { name := ascii "order_id", type := ascii "string" }]
    indexes := [{ name := ascii "by_status", fields := [ascii "status"] }]
    ownership := some
      { authority := some (ascii "system"), systemOfRecord := some (ascii "self")
        lifecycle := some (ascii "authoritative") }
    stateMachine := some
      { states := [
          { name := ascii "Open" },
          { name := ascii "Deleted", terminal := true
            garbageCollection := some { after := some (ascii "P90D"), mode := some (ascii "delete") } }]
        initialState := some (ascii "Open")
        terminalStates := [ascii "Deleted"]
        transitions := [{ source := ascii "Open", target := ascii "Deleted" }] }
    api := some api }

/-- A system of orders. -/
def orderSystem (api : EntityApiDecl) : SystemDecl :=
  { name := ascii "Orders"
    tenantScope := some {}
    systemTenant := some {}
    entities := [orderEntity api] }

example : Accepted (orderSystem {}) := by decide +kernel

end StateSpec.Compiler
