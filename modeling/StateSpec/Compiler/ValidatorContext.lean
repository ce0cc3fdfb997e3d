/-
  THE VALIDATOR'S CONTEXT — `symbol_table.hpp`, `validator_symbols.cpp` and `validator_helpers.hpp`.

  All declarations of a system stand in one table of symbols, by name.  A name that is declared again is an
  error, so in a clean table the names are distinct and a name has one kind (`clean_buildSymbolTable`,
  `find_symbol`).
-/
import Mathlib.Data.List.Infix
import Mathlib.Data.List.Nodup
import StateSpec.Compiler.Ast
import StateSpec.Compiler.Diagnostics
import StateSpec.Compiler.Lexer

namespace StateSpec.Compiler

/-! ## `string_utils.cpp` and `<cctype>` -/

/-- `std::tolower`, in the locale of a program that sets none. -/
def toLower (ch : UInt8) : UInt8 := if 65 ≤ ch ∧ ch ≤ 90 then ch + 32 else ch

/-- `std::toupper`. -/
def toUpper (ch : UInt8) : UInt8 := if 97 ≤ ch ∧ ch ≤ 122 then ch - 32 else ch

def isUpper (ch : UInt8) : Bool := 65 ≤ ch && ch ≤ 90

def isAlnum (ch : UInt8) : Bool := isIdentifierStart ch || isDigit ch

def lowerAscii (value : Bytes) : Bytes := value.map toLower

/-- `value.find(part) != std::string::npos`. -/
def containsText (value part : Bytes) : Bool := decide (part <:+: value)

/-! ## `symbol_table.hpp` -/

inductive SymbolKind where
  | system | value | enum | shape | externalSystem | featureFlag | log | metric | entity | event | queue
  | message | lease | worker | apiServer | api | workflow | workflowStep | policy | generateTarget
deriving DecidableEq

structure Symbol where
  kind : SymbolKind
  name : Bytes
  range : SourceRange

/-- The symbols, by name. -/
abbrev SymbolTable := List Symbol

def SymbolTable.find (symbols : SymbolTable) (name : Bytes) : Option Symbol :=
  List.find? (fun symbol => decide (symbol.name = name)) symbols

/-- `insert`, with whether the name is new. -/
def SymbolTable.insert (symbols : SymbolTable) (symbol : Symbol) : SymbolTable × Bool :=
  if (symbols.find symbol.name).isSome then (symbols, false) else (symbols ++ [symbol], true)

/-! ## `validator_symbols.cpp` -/

def findEntity (system : SystemDecl) (name : Bytes) : Option EntityDecl :=
  system.entities.find? fun entity => decide (entity.name = name)

def validateSymbolReference (symbols : SymbolTable) (range : SourceRange) (kind : String) (name : Bytes)
    (allowedKinds : List SymbolKind) : Diagnostics :=
  match symbols.find name with
  | none => unknownReferenceError range kind name
  | some symbol => reportIf (symbol.kind ∉ allowedKinds) (unknownReferenceError range kind name)

def entityStateNames (entity : EntityDecl) : List Bytes :=
  entity.stateMachine.elim [] fun machine => machine.states.map StateDecl.name

def queueMessageName (queue : QueueDecl) (message : MessageDecl) : Bytes :=
  queue.name ++ ascii "." ++ message.name

def workflowStepName (workflow : WorkflowDecl) (step : WorkflowStepDecl) : Bytes :=
  workflow.name ++ ascii "." ++ step.name

def addSymbol (acc : SymbolTable × Diagnostics) (symbol : Symbol) : SymbolTable × Diagnostics :=
  let inserted := acc.1.insert symbol
  (inserted.1, acc.2 ++ reportIf (inserted.2 = false) (duplicateError symbol.range symbol.name))

/-- The symbols of a system, in the order in which `build_symbol_table` adds them. -/
def declaredSymbols (system : SystemDecl) : List Symbol :=
  [⟨.system, system.name, system.range⟩] ++
  system.entities.map (fun entity => ⟨.entity, entity.name, entity.range⟩) ++
  system.values.map (fun value => ⟨.value, value.name, value.range⟩) ++
  system.enums.map (fun enumDecl => ⟨.enum, enumDecl.name, enumDecl.range⟩) ++
  system.events.map (fun event => ⟨.event, event.name, event.range⟩) ++
  system.shapes.map (fun shape => ⟨.shape, shape.name, shape.range⟩) ++
  system.externalSystems.map (fun external => ⟨.externalSystem, external.name, external.range⟩) ++
  system.featureFlags.map (fun flag => ⟨.featureFlag, flag.name, flag.range⟩) ++
  system.logs.map (fun log => ⟨.log, log.name, log.range⟩) ++
  system.metrics.map (fun metric => ⟨.metric, metric.name, metric.range⟩) ++
  system.queues.flatMap (fun queue => ⟨.queue, queue.name, queue.range⟩ ::
    queue.messages.map fun message => ⟨.message, queueMessageName queue message, message.range⟩) ++
  system.leases.map (fun lease => ⟨.lease, lease.name, lease.range⟩) ++
  system.workers.map (fun worker => ⟨.worker, worker.name, worker.range⟩) ++
  system.apiServers.map (fun apiServer => ⟨.apiServer, apiServer.name, apiServer.range⟩) ++
  system.apis.map (fun api => ⟨.api, api.name, api.range⟩) ++
  system.workflows.flatMap (fun workflow => ⟨.workflow, workflow.name, workflow.range⟩ ::
    workflow.steps.map fun step => ⟨.workflowStep, workflowStepName workflow step, step.range⟩) ++
  system.policies.map (fun policy => ⟨.policy, policy.name, policy.range⟩)

def buildSymbolTable (system : SystemDecl) : SymbolTable × Diagnostics :=
  (declaredSymbols system).foldl addSymbol ([], [])

/-! ## `validator_helpers.hpp` -/

def builtinTypes : List Bytes :=
  [ascii "string", ascii "bool", ascii "int", ascii "int32", ascii "int64", ascii "long", ascii "double",
    ascii "decimal", ascii "json", ascii "timestamp", ascii "duration", ascii "uuid", ascii "list",
    ascii "set", ascii "map", ascii "optional", ascii "ref"]

def isBuiltinType (type : Bytes) : Bool :=
  if type.getLast? = some (byte '?') then decide (type.dropLast ∈ builtinTypes)
  else decide (type ∈ builtinTypes)

def baseTypeName (type : Bytes) : Bytes :=
  if byte '<' ∈ type then type.takeWhile (· ≠ byte '<')
  else if 2 ≤ type.length ∧ type.drop (type.length - 2) = ascii "[]" then type.take (type.length - 2)
  else if type.getLast? = some (byte '?') then type.dropLast
  else type

def isPascalCaseName (name : Bytes) : Bool :=
  (name.head?.any isUpper) && name.all isAlnum

/-- Names that are separated by dots; a dot at the end is followed by nothing. -/
def isQualifiedPascalCaseName (name : Bytes) : Bool :=
  decide (name ≠ []) && (List.splitOn (byte '.') name).all isPascalCaseName

def isPositiveInteger (value : Int) : Bool := decide (0 < value)

def isNonNegativeInteger (value : Int) : Bool := decide (0 ≤ value)

def fieldNames (fields : List FieldDecl) : List Bytes := fields.map FieldDecl.name

/-- What a relation refers to: `Entity`, `Entity?`, `optional Entity` or `ref<Entity>`. -/
def relationTargetName (target : Bytes) : Bytes :=
  let target := if target.getLast? = some (byte '?') then target.dropLast else target
  let target := (Bytes.stripPrefix (ascii "optional ") target).getD target
  match Bytes.stripPrefix (ascii "ref<") target with
  | some rest => if target.getLast? = some (byte '>') then rest.dropLast else target
  | none => target

/-! ## Clean tables -/

theorem find_eq_none {symbols : SymbolTable} {name : Bytes} :
    symbols.find name = none ↔ name ∉ symbols.map Symbol.name := by
  rw [SymbolTable.find, List.find?_eq_none, List.mem_map]
  constructor
  · rintro h ⟨symbol, hmem, rfl⟩
    exact h symbol hmem (decide_eq_true rfl)
  · intro h symbol hmem heq
    exact h ⟨symbol, hmem, of_decide_eq_true heq⟩

theorem insert_new {symbols : SymbolTable} {symbol : Symbol}
    (h : symbol.name ∉ symbols.map Symbol.name) :
    symbols.insert symbol = (symbols ++ [symbol], true) := by
  rw [SymbolTable.insert, find_eq_none.mpr h]
  rfl

theorem insert_old {symbols : SymbolTable} {symbol : Symbol}
    (h : symbol.name ∈ symbols.map Symbol.name) : symbols.insert symbol = (symbols, false) := by
  rw [SymbolTable.insert, if_pos]
  rw [Option.isSome_iff_ne_none, ne_eq, find_eq_none, not_not]
  exact h

/-- Symbols whose names are new are all added, and no others without an error. -/
theorem foldl_addSymbol {symbols table : SymbolTable} {diagnostics : Diagnostics} :
    Clean (symbols.foldl addSymbol (table, diagnostics)).2 ↔
      Clean diagnostics ∧ (symbols.map Symbol.name).Nodup ∧
        ∀ symbol ∈ symbols, symbol.name ∉ table.map Symbol.name := by
  induction symbols generalizing table diagnostics with
  | nil => simp
  | cons symbol rest ih =>
    rw [List.foldl_cons, List.map_cons, List.nodup_cons, List.forall_mem_cons]
    by_cases hmem : symbol.name ∈ table.map Symbol.name
    · have hadd : addSymbol (table, diagnostics) symbol =
          (table, diagnostics ++ duplicateError symbol.range symbol.name) := by
        rw [addSymbol, insert_old hmem]
        rfl
      rw [hadd, ih]
      simp [hmem]
    · have hadd : addSymbol (table, diagnostics) symbol = (table ++ [symbol], diagnostics ++ []) := by
        rw [addSymbol, insert_new hmem]
        rfl
      rw [hadd, ih, List.append_nil]
      simp only [List.map_append, List.map_cons, List.map_nil, List.mem_append, List.mem_singleton,
        not_or, hmem, not_false_eq_true, true_and]
      constructor
      · rintro ⟨hclean, hnodup, hall⟩
        refine ⟨hclean, ⟨?_, hnodup⟩, fun other hother => (hall other hother).1⟩
        intro hsame
        obtain ⟨other, hother, heq⟩ := List.mem_map.mp hsame
        exact (hall other hother).2 heq
      · rintro ⟨hclean, ⟨hnew, hnodup⟩, hall⟩
        refine ⟨hclean, hnodup, fun other hother => ⟨hall other hother, fun heq => ?_⟩⟩
        exact hnew (heq ▸ List.mem_map_of_mem hother)

theorem foldl_addSymbol_table {symbols table : SymbolTable} {diagnostics : Diagnostics}
    (h : Clean (symbols.foldl addSymbol (table, diagnostics)).2) :
    (symbols.foldl addSymbol (table, diagnostics)).1 = table ++ symbols := by
  induction symbols generalizing table diagnostics with
  | nil => exact (List.append_nil table).symm
  | cons symbol rest ih =>
    obtain ⟨-, -, hall⟩ := foldl_addSymbol.mp h
    have hadd : addSymbol (table, diagnostics) symbol = (table ++ [symbol], diagnostics ++ []) := by
      rw [addSymbol, insert_new (hall symbol List.mem_cons_self)]
      rfl
    rw [List.foldl_cons, hadd] at h ⊢
    rw [ih h, List.append_assoc, List.singleton_append]

/-- A clean table is that of all declarations, and their names are distinct. -/
theorem clean_buildSymbolTable {system : SystemDecl} (h : Clean (buildSymbolTable system).2) :
    (buildSymbolTable system).1 = declaredSymbols system ∧
      ((declaredSymbols system).map Symbol.name).Nodup := by
  refine ⟨?_, (foldl_addSymbol.mp h).2.1⟩
  have htable := foldl_addSymbol_table h
  rwa [List.nil_append] at htable

/-- In such a table a name stands for one symbol. -/
theorem find_eq_some {symbols : SymbolTable} (hnodup : (symbols.map Symbol.name).Nodup) {name : Bytes}
    {symbol : Symbol} : symbols.find name = some symbol ↔ symbol ∈ symbols ∧ symbol.name = name := by
  constructor
  · intro h
    have hname := List.find?_some h
    exact ⟨List.mem_of_find?_eq_some h, of_decide_eq_true hname⟩
  · rintro ⟨hmem, rfl⟩
    rcases hfind : symbols.find symbol.name with _ | other
    · exact absurd (List.mem_map_of_mem hmem) (find_eq_none.mp hfind)
    · have hname := List.find?_some hfind
      have hother : other.name = symbol.name := of_decide_eq_true hname
      rw [List.inj_on_of_nodup_map hnodup (List.mem_of_find?_eq_some hfind) hmem hother]

end StateSpec.Compiler
