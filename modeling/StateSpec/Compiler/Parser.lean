/-
  THE PARSER — `parser_top_level.cpp` and `parser.cpp`: a specification is a version, includes and a system.

  `Parser::parse` is meant to return on every list of tokens.  It does not: the loops of `enum`,
  `external_system`, `children` and `indexes` blocks are stuck at a token they do not take.  They report
  it and leave it to the next iteration, which finds the same token.  Every other loop moves the cursor with
  every iteration, on any tokens; so the parser returns exactly when none of these four loops comes to such
  a token.
-/
import StateSpec.Compiler.ParserEntities
import StateSpec.Compiler.ParserRuntime
import StateSpec.Compiler.ParserWorkflows

namespace StateSpec.Compiler

open Reading

/-! ## `parser_top_level.cpp` -/

def parseIncludeDecl : Parser IncludeDecl := do
  let start ← consume .keywordInclude "expected include declaration"
  let path ← consume .stringLiteral "expected include path"
  let _ ← consume .semicolon "expected ';' after include declaration"
  let range ← rangeFrom start
  pure { path := stripQuotes path.lexeme, range }

def SystemDecl.withMember (system : SystemDecl) (kind : Bytes) (range : SourceRange) : SystemDecl :=
  { system with memberOrder := system.memberOrder ++ [⟨kind, range⟩] }

def parseSystemMember (system : SystemDecl) : Parser SystemDecl :=
  ifMatch .keywordTenant
    (do
      let tenantStart ← previousToken
      let _ ← consume .keywordScopedBy "expected scoped_by after tenant"
      let fieldName ← consume .identifier "expected tenant scope field"
      let range ← rangeFrom tenantStart
      consumeOptionalSemicolon
      pure { system.withMember (ascii "tenant") tenantStart.range with
        tenantScope := some { fieldName := fieldName.lexeme, range } }) <|
  ifNamed (ascii "system_tenant")
    (do
      let systemTenantStart ← advance
      ifNamed (ascii "configured") skipToken
        (error "SSPEC0200" "expected configured after system_tenant")
      let range ← rangeFrom systemTenantStart
      consumeOptionalSemicolon
      pure { system.withMember (ascii "system_tenant") systemTenantStart.range with
        systemTenant := some { range } }) <|
  ifCheck .keywordEntity
    (do
      let member ← peekToken
      let entity ← parseEntityDecl
      pure { system.withMember (ascii "entity") member.range with
        entities := system.entities ++ [entity] }) <|
  ifCheck .keywordValue
    (do
      let member ← peekToken
      let value ← parseValueDecl
      pure { system.withMember (ascii "value") member.range with
        values := system.values ++ [value] }) <|
  ifCheck .keywordEnum
    (do
      let member ← peekToken
      let enumDecl ← parseEnumDecl
      pure { system.withMember (ascii "enum") member.range with
        enums := system.enums ++ [enumDecl] }) <|
  ifCheck .keywordEvent
    (do
      let member ← peekToken
      let event ← parseEventDecl
      pure { system.withMember (ascii "event") member.range with
        events := system.events ++ [event] }) <|
  ifCheck .keywordShape
    (do
      let member ← peekToken
      let shape ← parseShapeDecl
      pure { system.withMember (ascii "shape") member.range with
        shapes := system.shapes ++ [shape] }) <|
  ifCheck .keywordExternalSystem
    (do
      let member ← peekToken
      let externalSystem ← parseExternalSystemDecl
      pure { system.withMember (ascii "external_system") member.range with
        externalSystems := system.externalSystems ++ [externalSystem] }) <|
  ifCheck .keywordFeatureFlag
    (do
      let member ← peekToken
      let featureFlag ← parseFeatureFlagDecl
      pure { system.withMember (ascii "feature_flag") member.range with
        featureFlags := system.featureFlags ++ [featureFlag] }) <|
  ifCheck .keywordLog
    (do
      let member ← peekToken
      let log ← parseLogDecl
      pure { system.withMember (ascii "log") member.range with
        logs := system.logs ++ [log] }) <|
  ifCheck .keywordMetric
    (do
      let member ← peekToken
      let metric ← parseMetricDecl
      pure { system.withMember (ascii "metric") member.range with
        metrics := system.metrics ++ [metric] }) <|
  ifCheck .keywordQueue
    (do
      let member ← peekToken
      let queue ← parseQueueDecl
      pure { system.withMember (ascii "queue") member.range with
        queues := system.queues ++ [queue] }) <|
  ifCheck .keywordLease
    (do
      let member ← peekToken
      let lease ← parseLeaseDecl
      pure { system.withMember (ascii "lease") member.range with
        leases := system.leases ++ [lease] }) <|
  ifCheck .keywordWorker
    (do
      let member ← peekToken
      let worker ← parseWorkerDecl
      pure { system.withMember (ascii "worker") member.range with
        workers := system.workers ++ [worker] }) <|
  ifCheck .keywordApiServer
    (do
      let member ← peekToken
      let apiServer ← parseApiServerDecl
      pure { system.withMember (ascii "api_server") member.range with
        apiServers := system.apiServers ++ [apiServer] }) <|
  ifCheck .keywordApi
    (do
      let member ← peekToken
      let api ← parseApiDecl
      pure { system.withMember (ascii "api") member.range with
        apis := system.apis ++ [api] }) <|
  ifCheck .keywordWorkflow
    (do
      let member ← peekToken
      let workflow ← parseWorkflowDecl
      pure { system.withMember (ascii "workflow") member.range with
        workflows := system.workflows ++ [workflow] }) <|
  ifCheck .keywordPolicy
    (do
      let member ← peekToken
      let policy ← parsePolicyDecl
      pure { system.withMember (ascii "policy") member.range with
        policies := system.policies ++ [policy] })
    (do
      skipUnknownDeclaration
      pure system)

def parseSystemDecl : Parser SystemDecl := do
  let start ← consume .keywordSystem "expected system declaration"
  let name ← consume .identifier "expected system name"
  let _ ← consume .leftBrace "expected '\x7b' after system name"
  let system ← members .system parseSystemMember { name := name.lexeme }
  let _ ← consume .rightBrace "expected '\x7d' after system block"
  let range ← rangeFrom start
  pure { system with range }

def parseSpec : Parser Spec := do
  let version ← ifMatch .keywordStatespec
    (do
      let version ← consume .decimalLiteral "expected StateSpec version"
      let _ ← consume .semicolon "expected ';' after StateSpec version"
      pure (some version.lexeme))
    (pure none)
  -- `match` and `rewind_one` are a `check`
  let includes ← loop .includes (fun _ => check .keywordInclude) (andAppend parseIncludeDecl) []
  let system ← ifCheck .keywordSystem
    (do
      let system ← parseSystemDecl
      pure (some system))
    (do
      error "SSPEC0201" "expected system declaration"
      pure none)
  let _ ← loop .afterSystem (fun _ _ _ => true)
    (fun _ => do
      error "SSPEC0202" "unexpected token after system declaration"
      let _ ← advance
      pure ())
    ()
  pure { version, includes, system }

/-- `Parser::parse`. -/
def parse : Parser Spec := parseSpec

/-! ## What they do to the cursor -/

set_option synthInstance.maxSize 4096

variable {m : Nat}

instance : Sound parseIncludeDecl := by
  unfold parseIncludeDecl
  infer_instance

instance : Returns m parseIncludeDecl := by
  unfold parseIncludeDecl
  infer_instance

instance : MovesIf (check .keywordInclude) parseIncludeDecl := by
  unfold parseIncludeDecl
  infer_instance

instance (system : SystemDecl) : Sound (parseSystemMember system) := by
  unfold parseSystemMember
  infer_instance

instance (system : SystemDecl) : Returns m (parseSystemMember system) := by
  unfold parseSystemMember
  infer_instance

instance (system : SystemDecl) : Moves (parseSystemMember system) := by
  unfold parseSystemMember
  infer_instance

instance : Sound parseSystemDecl := by
  unfold parseSystemDecl
  infer_instance

instance : Returns m parseSystemDecl := by
  unfold parseSystemDecl
  infer_instance

instance : Sound parse := by
  unfold parse parseSpec
  infer_instance

instance : Returns m parse := by
  unfold parse parseSpec
  infer_instance

/-! ## When the parser returns -/

/-- The list ends in `EndOfFile`. -/
def EndsInEndOfFile (tokens : List Token) : Prop :=
  (tokens.getLast?.map Token.kind) = some .endOfFile

instance (tokens : List Token) : Decidable (EndsInEndOfFile tokens) :=
  inferInstanceAs (Decidable (_ = _))

theorem EndsInEndOfFile.last_lt {tokens : List Token} (h : EndsInEndOfFile tokens) :
    last tokens < tokens.length := by
  rw [EndsInEndOfFile, Option.map_eq_some_iff] at h
  obtain ⟨token, hlast, hkind⟩ := h
  apply List.findIdx_lt_length_of_exists
  refine ⟨token, List.mem_of_getLast? hlast, ?_⟩
  show (token.kind == .endOfFile) = true
  rw [hkind]
  rfl

/-- **The parser returns exactly when none of its loops is stuck**: every iteration of every loop takes a
    token, except those of `enum`, `external_system`, `children` and `indexes` blocks that begin at a token
    their loop does not take. -/
theorem parse_returns_iff {tokens : List Token} (h : EndsInEndOfFile tokens) :
    (∀ it, IterationOf parse tokens it → (it.before < it.after ↔ ¬ Stuck it.loop it.token)) ∧
    (ReturnsOn parse tokens ↔ ∀ it, IterationOf parse tokens it → ¬ Stuck it.loop it.token) := by
  constructor
  · intro it hit
    exact iteration_moves_iff h.last_lt hit
  · exact returns_iff h.last_lt

/-- A token on the first line. -/
def tokenAt (offset : Nat) (kind : TokenKind) (lexeme : Bytes) : Token where
  kind := kind
  lexeme := lexeme
  range := ⟨⟨offset, 1, offset + 1⟩, ⟨offset + lexeme.length, 1, offset + lexeme.length + 1⟩⟩

/-- `system S { enum E { A } }`. -/
def enumOfName : List Token :=
  [tokenAt 0 .keywordSystem (ascii "system"), tokenAt 7 .identifier (ascii "S"),
    tokenAt 9 .leftBrace (ascii "\x7b"), tokenAt 11 .keywordEnum (ascii "enum"),
    tokenAt 16 .identifier (ascii "E"), tokenAt 18 .leftBrace (ascii "\x7b"),
    tokenAt 20 .identifier (ascii "A"), tokenAt 22 .rightBrace (ascii "\x7d"),
    tokenAt 24 .rightBrace (ascii "\x7d"), tokenAt 25 .endOfFile []]

/-- `system S { enum E { 5 } }`. -/
def enumOfNumber : List Token :=
  [tokenAt 0 .keywordSystem (ascii "system"), tokenAt 7 .identifier (ascii "S"),
    tokenAt 9 .leftBrace (ascii "\x7b"), tokenAt 11 .keywordEnum (ascii "enum"),
    tokenAt 16 .identifier (ascii "E"), tokenAt 18 .leftBrace (ascii "\x7b"),
    tokenAt 20 .integerLiteral (ascii "5"), tokenAt 22 .rightBrace (ascii "\x7d"),
    tokenAt 24 .rightBrace (ascii "\x7d"), tokenAt 25 .endOfFile []]

/-- The parser is through with a system of one `enum` after some iterations, all of which take a token. -/
theorem enumOfName_returns :
    EndsInEndOfFile enumOfName ∧ ReturnsOn parse enumOfName ∧
      ∀ it, IterationOf parse enumOfName it → it.before < it.after := by
  have hends : EndsInEndOfFile enumOfName := by decide
  have hreturns : ReturnsOn parse enumOfName := ⟨2, by decide +kernel⟩
  obtain ⟨hmoves, hiff⟩ := parse_returns_iff hends
  exact ⟨hends, hreturns, fun it hit => (hmoves it hit).mpr (hiff.mp hreturns it hit)⟩

/-- At the number the loop of the `enum` is stuck: the parser does not return, whatever the fuel. -/
theorem enumOfNumber_hangs : ¬ ∀ tokens, EndsInEndOfFile tokens → ReturnsOn parse tokens := by
  intro hreturns
  have hends : EndsInEndOfFile enumOfNumber := by decide
  have hcalm := (returns_iff hends.last_lt).mp (hreturns enumOfNumber hends)
  have hit : ⟨.enumMembers, tokenAt 20 .integerLiteral (ascii "5"), 6, 6⟩ ∈
      (parse ⟨1, enumOfNumber⟩ start).iterations := by decide +kernel
  exact hcalm _ ⟨1, hit⟩ ⟨_, rfl, by decide⟩

end StateSpec.Compiler
