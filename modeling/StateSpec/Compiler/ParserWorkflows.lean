/-
  WORKFLOWS — `parser_workflows.cpp`: workflows with their loads, child sets, child workflows and steps, and
  the statements of a step.

  A statement may hold a block of statements.  It takes a token before it comes to its block, and a block
  parses no statement at the end of the tokens: so there is no use for more levels of blocks than there
  are tokens, and `parseWorkflowStatementBlock` has that many.
-/
import StateSpec.Compiler.ParserDeclarations

namespace StateSpec.Compiler

open Reading

/-! ## Loads, child sets and child workflows -/

def parseWorkflowLoadDecl : Parser WorkflowLoadDecl := do
  let start ← previousToken
  let entity ← parseQualifiedName "workflow load entity"
  ifNamed (ascii "by") skipToken (error "SSPEC0200" "expected by in workflow load")
  let keyField ← consume .identifier "expected workflow load key"
  let _ ← consume .keywordAs "expected as in workflow load"
  let binding ← consume .identifier "expected workflow load binding"
  consumeOptionalSemicolon
  let range ← rangeFrom start
  pure { entity, keyField := keyField.lexeme, binding := binding.lexeme, range }

def parseChildSetMember (childSet : WorkflowChildSetDecl) : Parser WorkflowChildSetDecl :=
  ifMatch .keywordEntity
    (do
      let entity ← parseQualifiedName "child_set entity"
      consumeOptionalSemicolon
      pure { childSet with entity := some entity }) <|
  ifNamed (ascii "parent_field")
    (do
      let _ ← advance
      let parentField ← consume .identifier "expected child_set parent field"
      consumeOptionalSemicolon
      pure { childSet with parentField := some parentField.lexeme }) <|
  ifNamed (ascii "id_type")
    (do
      let _ ← advance
      let idType ← parseTypeName
      consumeOptionalSemicolon
      pure { childSet with idType := some idType }) <|
  ifNamed (ascii "pending")
    (do
      let _ ← advance
      let pending ← consume .identifier "expected child_set pending field"
      consumeOptionalSemicolon
      pure { childSet with pending := some pending.lexeme }) <|
  ifNamed (ascii "creating")
    (do
      let _ ← advance
      let creating ← consume .identifier "expected child_set creating field"
      consumeOptionalSemicolon
      pure { childSet with creating := some creating.lexeme }) <|
  ifNamed (ascii "succeeded")
    (do
      let _ ← advance
      let succeeded ← consume .identifier "expected child_set succeeded field"
      consumeOptionalSemicolon
      pure { childSet with succeeded := some succeeded.lexeme }) <|
  ifNamed (ascii "failed")
    (do
      let _ ← advance
      let failed ← consume .identifier "expected child_set failed field"
      consumeOptionalSemicolon
      pure { childSet with failed := some failed.lexeme }) <|
  ifNamed (ascii "desired_count")
    (do
      let _ ← advance
      let desiredCount ← parseSimpleExpressionUntilBoundary
      consumeOptionalSemicolon
      pure { childSet with desiredCount := some desiredCount }) <|
  ifCheck .keywordAnnotations
    (do
      let _ ← advance
      skipBalancedBlock
      pure childSet)
    (do
      skipUnknownDeclaration
      pure childSet)

def parseWorkflowChildSetDecl : Parser WorkflowChildSetDecl := do
  let start ← consume .keywordChildSet "expected child_set"
  let name ← consume .identifier "expected child_set name"
  let _ ← consume .leftBrace "expected '\x7b' after child_set name"
  let childSet ← members .childSet parseChildSetMember { name := name.lexeme }
  let _ ← consume .rightBrace "expected '\x7d' after child_set block"
  let range ← rangeFrom start
  pure { childSet with range }

def parseCreateAssignment : Parser WorkflowAssignmentDecl := do
  let field ← consume .identifier "expected create field name"
  let _ ← consume .colon "expected ':' after create field name"
  let expression ← parseSimpleExpressionUntilLineBoundary
  consumeOptionalSemicolon
  let range ← rangeFrom field
  pure { name := field.lexeme, expression, range }

def parseChildWorkflowMember (childWorkflow : WorkflowChildWorkflowDecl) :
    Parser WorkflowChildWorkflowDecl :=
  ifNamed (ascii "child_entity")
    (do
      let _ ← advance
      let childEntity ← parseQualifiedName "child entity"
      consumeOptionalSemicolon
      pure { childWorkflow with childEntity := some childEntity }) <|
  ifCheck .keywordChildWorkflow
    (do
      let _ ← advance
      let target ← parseQualifiedName "child workflow"
      consumeOptionalSemicolon
      pure { childWorkflow with childWorkflow := some target }) <|
  ifNamed (ascii "child_id")
    (do
      let _ ← advance
      let childIdField ← consume .identifier "expected child_id field"
      let childIdType ← parseTypeName
      consumeOptionalSemicolon
      pure { childWorkflow with
        childIdField := some childIdField.lexeme, childIdType := some childIdType }) <|
  ifNamed (ascii "parent_ref")
    (do
      let _ ← advance
      let parentRefField ← consume .identifier "expected parent_ref field"
      let _ ← consume .equals "expected '=' after parent_ref field"
      let parentRefExpression ← parseSimpleExpressionUntilLineBoundary
      consumeOptionalSemicolon
      pure { childWorkflow with
        parentRefField := some parentRefField.lexeme,
        parentRefExpression := some parentRefExpression }) <|
  ifNamed (ascii "desired_count")
    (do
      let _ ← advance
      let desiredCount ← parseSimpleExpressionUntilLineBoundary
      consumeOptionalSemicolon
      pure { childWorkflow with desiredCount := some desiredCount }) <|
  ifCheck .keywordCreate
    (do
      let _ ← advance
      let createAssignments ← parseBlockOf .createAssignments parseCreateAssignment
        "expected '\x7b' after child_workflow create" "expected '\x7d' after child_workflow create"
        childWorkflow.createAssignments
      pure { childWorkflow with createAssignments }) <|
  ifNamed (ascii "success")
    (do
      let _ ← advance
      let _ ← consume .keywordWhen "expected when after success"
      let successExpression ← parseSimpleExpressionUntilLineBoundary
      consumeOptionalSemicolon
      pure { childWorkflow with successExpression := some successExpression }) <|
  ifNamed (ascii "failure")
    (do
      let _ ← advance
      let _ ← consume .keywordWhen "expected when after failure"
      let failureExpression ← parseSimpleExpressionUntilLineBoundary
      consumeOptionalSemicolon
      pure { childWorkflow with failureExpression := some failureExpression }) <|
  ifCheck .keywordAnnotations
    (do
      let _ ← advance
      skipBalancedBlock
      pure childWorkflow)
    (do
      skipUnknownDeclaration
      pure childWorkflow)

def parseWorkflowChildWorkflowDecl : Parser WorkflowChildWorkflowDecl := do
  let start ← consume .keywordChildWorkflow "expected child_workflow"
  let name ← consume .identifier "expected child_workflow name"
  let _ ← consume .leftBrace "expected '\x7b' after child_workflow name"
  let childWorkflow ← members .childWorkflow parseChildWorkflowMember { name := name.lexeme }
  let _ ← consume .rightBrace "expected '\x7d' after child_workflow block"
  let range ← rangeFrom start
  pure { childWorkflow with range }

/-! ## Statements -/

def parsePayloadAssignment : Parser WorkflowAssignmentDecl := do
  let name ← choose (checkAny [.keywordKey, .keywordParent]) advance
    (consume .identifier "expected payload field")
  let _ ← consume .equals "expected '=' in payload assignment"
  let expression ← parseSimpleExpressionUntilBoundary
  consumeOptionalSemicolon
  let range ← rangeFrom name
  pure { name := name.lexeme, expression, range }

def parseWorkflowPayload : Parser (List WorkflowAssignmentDecl) :=
  ifMatch .leftBrace
    (do
      let payload ← members .payload (andAppend parsePayloadAssignment) []
      let _ ← consume .rightBrace "expected '\x7d' after workflow payload"
      pure payload)
    (pure [])

/-- The words a statement begins with. -/
abbrev statementKinds : List TokenKind :=
  [.keywordRequire, .keywordSet, .keywordEmit, .keywordEnqueue, .keywordAcquire, .keywordRenew,
    .keywordRelease, .keywordStart, .keywordTransitionTo, .keywordComplete, .keywordFail,
    .keywordAtomic, .keywordForEach, .keywordWhen, .keywordCreate, .keywordObserve, .keywordMove,
    .keywordReserve, .keywordMaterialize, .keywordReconcile]

/-- A statement that names a lease behind its word. -/
def parseLeaseStatement (kind : Bytes) (message context : String) : Parser WorkflowStatementDecl := do
  let _ ← consume .keywordLease message
  let target ← parseQualifiedName context
  pure { kind, target := some target }

/-- A statement that names a child set behind its word. -/
def parseChildSetStatement (kind : Bytes) (message : String) : Parser WorkflowStatementDecl := do
  let _ ← consume .keywordChildSet message
  let target ← consume .identifier "expected child_set name"
  pure { kind, target := some target.lexeme }

/-- A statement that names what it sends, and its payload. -/
def parsePayloadStatement (kind : Bytes) (context : String) : Parser WorkflowStatementDecl := do
  let target ← parseQualifiedName context
  let payload ← parseWorkflowPayload
  pure { kind, target := some target, payload }

/-- What a statement says behind its first word; its block of statements is parsed by `block`. -/
def parseStatementOf (block : Parser (List WorkflowStatementDecl)) :
    TokenKind → Parser WorkflowStatementDecl
  | .keywordRequire => do
    let expression ← parseSimpleExpressionUntilBoundary
    pure { kind := ascii "require", expression := some expression }
  | .keywordSet => do
    let assignable ← parseExpressionUntil .equals
    let _ ← consume .equals "expected '=' in set statement"
    let expression ← parseSimpleExpressionUntilBoundary
    pure { kind := ascii "set", assignable := some assignable, expression := some expression }
  | .keywordEmit => parsePayloadStatement (ascii "emit") "emitted event"
  | .keywordEnqueue => parsePayloadStatement (ascii "enqueue") "enqueued message"
  | .keywordAcquire => do
    let statement ← parseLeaseStatement (ascii "acquire_lease") "expected lease after acquire"
      "acquired lease"
    ifMatch .keywordAs
      (do
        let binding ← consume .identifier "expected lease binding"
        pure { statement with binding := some binding.lexeme })
      (pure statement)
  | .keywordRenew =>
    parseLeaseStatement (ascii "renew_lease") "expected lease after renew" "renewed lease"
  | .keywordRelease =>
    parseLeaseStatement (ascii "release_lease") "expected lease after release" "released lease"
  | .keywordStart => do
    let _ ← consume .keywordWorkflow "expected workflow after start"
    parsePayloadStatement (ascii "start_workflow") "started workflow"
  | .keywordTransitionTo => do
    let target ← consume .identifier "expected transition_to target"
    pure { kind := ascii "transition_to", target := some target.lexeme }
  | .keywordComplete => pure { kind := ascii "complete" }
  | .keywordFail =>
    choose beforeBoundary
      (do
        let expression ← parseSimpleExpressionUntilBoundary
        pure { kind := ascii "fail", expression := some expression })
      (pure { kind := ascii "fail" })
  | .keywordAtomic => do
    let statements ← block
    pure { kind := ascii "atomic", statements }
  | .keywordForEach => do
    let binding ← consume .identifier "expected for_each iterator name"
    let _ ← consume .keywordIn "expected in after for_each iterator"
    let expression ← parseExpressionUntil .leftBrace
    let statements ← block
    pure { kind := ascii "for_each", binding := some binding.lexeme, expression := some expression,
           statements }
  | .keywordWhen => do
    let expression ← parseExpressionUntil .leftBrace
    let statements ← block
    pure { kind := ascii "when", expression := some expression, statements }
  | .keywordCreate => do
    let _ ← consume .keywordChild "expected child after create"
    parsePayloadStatement (ascii "create_child") "created child entity"
  | .keywordObserve => do
    let _ ← consume .keywordChild "expected child after observe"
    let target ← parseQualifiedName "observed child entity"
    ifNamed (ascii "by") skipToken (error "SSPEC0200" "expected by in observe child")
    let binding ← consume .identifier "expected observe child field"
    let _ ← consume .equals "expected '=' in observe child"
    let expression ← parseSimpleExpressionUntilBoundary
    pure { kind := ascii "observe_child", target := some target, binding := some binding.lexeme,
           expression := some expression }
  | .keywordMove => do
    let expression ← parseExpressionUntil .keywordFrom
    let _ ← consume .keywordFrom "expected from in move statement"
    let fromAssignable ← parseExpressionUntil .keywordTo
    let _ ← consume .keywordTo "expected to in move statement"
    let toAssignable ← parseSimpleExpressionUntilBoundary
    pure { kind := ascii "move", expression := some expression,
           fromAssignable := some fromAssignable, toAssignable := some toAssignable }
  | .keywordReserve =>
    parseChildSetStatement (ascii "reserve_child_set") "expected child_set after reserve"
  | .keywordMaterialize =>
    parseChildSetStatement (ascii "materialize_child_set") "expected child_set after materialize"
  | .keywordReconcile =>
    parseChildSetStatement (ascii "reconcile_child_set") "expected child_set after reconcile"
  | _ => do
    synchronizeToMemberBoundary
    pure { kind := ascii "unknown" }

def parseWorkflowStatementDecl (block : Parser (List WorkflowStatementDecl)) :
    Parser WorkflowStatementDecl := do
  let start ← advance
  let statement ← parseStatementOf block start.kind
  consumeOptionalSemicolon
  let range ← rangeFrom start
  pure { statement with range }

def parseStatementBlockOf (statement : Parser WorkflowStatementDecl) :
    Parser (List WorkflowStatementDecl) := do
  let _ ← consume .leftBrace "expected workflow statement block"
  let statements ← members .statementBlock
    (fun statements =>
      choose (checkAny statementKinds) (andAppend statement statements) do
        skipUnknownDeclaration
        pure statements)
    []
  let _ ← consume .rightBrace "expected '\x7d' after workflow statement block"
  pure statements

/-- A block of statements with `levels` blocks at most within each other. -/
def parseStatementBlock : Nat → Parser (List WorkflowStatementDecl)
  | 0 => parseStatementBlockOf unfinished
  | levels + 1 => parseStatementBlockOf (parseWorkflowStatementDecl (parseStatementBlock levels))

def parseWorkflowStatementBlock : Parser (List WorkflowStatementDecl) := fun i c =>
  parseStatementBlock i.tokens.length i c

/-! ## Steps and workflows -/

def parseStepMember (step : WorkflowStepDecl) : Parser WorkflowStepDecl :=
  ifNamed (ascii "expected_execution_time")
    (do
      let _ ← advance
      let value ← consume .durationLiteral "expected step duration"
      consumeOptionalSemicolon
      pure { step with expectedExecutionTime := some value.lexeme }) <|
  ifNamed (ascii "max_retries")
    (do
      let _ ← advance
      let maxRetries ← consume .integerLiteral "expected max_retries integer"
      consumeOptionalSemicolon
      pure { step with maxRetries := some (parseIntOrZero maxRetries) }) <|
  choose (checkAny statementKinds)
    (do
      let statement ← parseWorkflowStatementDecl parseWorkflowStatementBlock
      pure { step with statements := step.statements ++ [statement] })
    (do
      skipUnknownDeclaration
      pure step)

def parseWorkflowStepDecl : Parser WorkflowStepDecl := do
  let start ← consume .keywordStep "expected workflow step"
  let name ← consume .identifier "expected workflow step name"
  let _ ← consume .leftBrace "expected '\x7b' after workflow step name"
  let step ← members .step parseStepMember { name := name.lexeme }
  let _ ← consume .rightBrace "expected '\x7d' after workflow step block"
  let range ← rangeFrom start
  pure { step with range }

def WorkflowDecl.withMember (workflow : WorkflowDecl) (kind : Bytes) (range : SourceRange) :
    WorkflowDecl :=
  { workflow with memberOrder := workflow.memberOrder ++ [⟨kind, range⟩] }

def parseWorkflowMember (workflow : WorkflowDecl) : Parser WorkflowDecl :=
  ifMatch .keywordVersion
    (do
      let member ← previousToken
      let version ← consume .integerLiteral "expected workflow version integer"
      consumeOptionalSemicolon
      pure { workflow.withMember (ascii "version") member.range with
        version := some (parseIntOrZero version) }) <|
  ifMatch .keywordSingleton
    (do
      let member ← previousToken
      let value ← consume .booleanLiteral "expected singleton boolean"
      consumeOptionalSemicolon
      pure { workflow.withMember (ascii "singleton") member.range with
        singleton := some (value.lexeme == ascii "true") }) <|
  ifNamed (ascii "expected_execution_time")
    (do
      let member ← advance
      let value ← consume .durationLiteral "expected workflow duration"
      consumeOptionalSemicolon
      pure { workflow.withMember (ascii "expected_execution_time") member.range with
        expectedExecutionTime := some value.lexeme }) <|
  ifMatch .keywordStart
    (do
      let member ← previousToken
      let startStep ← consume .identifier "expected start step name"
      consumeOptionalSemicolon
      pure { workflow.withMember (ascii "start") member.range with
        startStep := some startStep.lexeme }) <|
  ifMatch .keywordOn
    (do
      let member ← previousToken
      let on' ← parseQualifiedName "workflow trigger"
      consumeOptionalSemicolon
      pure { workflow.withMember (ascii "on") member.range with on' := some on' }) <|
  ifMatch .keywordInput
    (do
      let member ← previousToken
      let input ← parseQualifiedName "workflow input"
      consumeOptionalSemicolon
      pure { workflow.withMember (ascii "input") member.range with input := some input }) <|
  ifMatch .keywordState
    (do
      let member ← previousToken
      let state ← parseQualifiedName "workflow state"
      consumeOptionalSemicolon
      pure { workflow.withMember (ascii "state") member.range with state := some state }) <|
  ifMatch .keywordLoad
    (do
      let load ← parseWorkflowLoadDecl
      pure { workflow.withMember (ascii "load") load.range with loads := workflow.loads ++ [load] }) <|
  ifCheck .keywordChildSet
    (do
      let childSet ← parseWorkflowChildSetDecl
      pure { workflow.withMember (ascii "child_set") childSet.range with
        childSets := workflow.childSets ++ [childSet] }) <|
  ifCheck .keywordChildWorkflow
    (do
      let childWorkflow ← parseWorkflowChildWorkflowDecl
      pure { workflow.withMember (ascii "child_workflow") childWorkflow.range with
        childWorkflows := workflow.childWorkflows ++ [childWorkflow] }) <|
  ifCheck .keywordStep
    (do
      let step ← parseWorkflowStepDecl
      pure { workflow.withMember (ascii "step") step.range with steps := workflow.steps ++ [step] })
    (do
      skipUnknownDeclaration
      pure workflow)

def parseWorkflowDecl : Parser WorkflowDecl := do
  let start ← consume .keywordWorkflow "expected workflow declaration"
  let name ← consume .identifier "expected workflow name"
  let _ ← consume .leftBrace "expected '\x7b' after workflow name"
  let workflow ← members .workflow parseWorkflowMember { name := name.lexeme }
  let _ ← consume .rightBrace "expected '\x7d' after workflow block"
  let range ← rangeFrom start
  pure { workflow with range }

/-! ## What they do to the cursor -/

set_option synthInstance.maxSize 4096

variable {m : Nat}

instance : Sound parseWorkflowLoadDecl := by
  unfold parseWorkflowLoadDecl
  infer_instance

instance : Returns m parseWorkflowLoadDecl := by
  unfold parseWorkflowLoadDecl
  infer_instance

instance (childSet : WorkflowChildSetDecl) : Sound (parseChildSetMember childSet) := by
  unfold parseChildSetMember
  infer_instance

instance (childSet : WorkflowChildSetDecl) : Returns m (parseChildSetMember childSet) := by
  unfold parseChildSetMember
  infer_instance

instance (childSet : WorkflowChildSetDecl) : Moves (parseChildSetMember childSet) := by
  unfold parseChildSetMember
  infer_instance

instance : Sound parseWorkflowChildSetDecl := by
  unfold parseWorkflowChildSetDecl
  infer_instance

instance : Returns m parseWorkflowChildSetDecl := by
  unfold parseWorkflowChildSetDecl
  infer_instance

instance : MovesIf (check .keywordChildSet) parseWorkflowChildSetDecl := by
  unfold parseWorkflowChildSetDecl
  infer_instance

instance : Sound parseCreateAssignment := by
  unfold parseCreateAssignment
  infer_instance

instance : Returns m parseCreateAssignment := by
  unfold parseCreateAssignment
  infer_instance

instance : MovesIf insideBlock parseCreateAssignment := by
  unfold parseCreateAssignment
  infer_instance

instance (childWorkflow : WorkflowChildWorkflowDecl) :
    Sound (parseChildWorkflowMember childWorkflow) := by
  unfold parseChildWorkflowMember
  infer_instance

instance (childWorkflow : WorkflowChildWorkflowDecl) :
    Returns m (parseChildWorkflowMember childWorkflow) := by
  unfold parseChildWorkflowMember
  infer_instance

instance (childWorkflow : WorkflowChildWorkflowDecl) :
    Moves (parseChildWorkflowMember childWorkflow) := by
  unfold parseChildWorkflowMember
  infer_instance

instance : Sound parseWorkflowChildWorkflowDecl := by
  unfold parseWorkflowChildWorkflowDecl
  infer_instance

instance : Returns m parseWorkflowChildWorkflowDecl := by
  unfold parseWorkflowChildWorkflowDecl
  infer_instance

instance : MovesIf (check .keywordChildWorkflow) parseWorkflowChildWorkflowDecl := by
  unfold parseWorkflowChildWorkflowDecl
  infer_instance

instance : Sound parsePayloadAssignment := by
  unfold parsePayloadAssignment
  infer_instance

instance : Returns m parsePayloadAssignment := by
  unfold parsePayloadAssignment
  infer_instance

instance : MovesIf insideBlock parsePayloadAssignment := by
  unfold parsePayloadAssignment
  infer_instance

instance : Sound parseWorkflowPayload := by
  unfold parseWorkflowPayload
  infer_instance

instance : Returns m parseWorkflowPayload := by
  unfold parseWorkflowPayload
  infer_instance

instance (kind : Bytes) (message context : String) :
    Sound (parseLeaseStatement kind message context) := by
  unfold parseLeaseStatement
  infer_instance

instance (kind : Bytes) (message context : String) :
    Returns m (parseLeaseStatement kind message context) := by
  unfold parseLeaseStatement
  infer_instance

instance (kind : Bytes) (message : String) : Sound (parseChildSetStatement kind message) := by
  unfold parseChildSetStatement
  infer_instance

instance (kind : Bytes) (message : String) : Returns m (parseChildSetStatement kind message) := by
  unfold parseChildSetStatement
  infer_instance

instance (kind : Bytes) (context : String) : Sound (parsePayloadStatement kind context) := by
  unfold parsePayloadStatement
  infer_instance

instance (kind : Bytes) (context : String) : Returns m (parsePayloadStatement kind context) := by
  unfold parsePayloadStatement
  infer_instance

section

variable {block : Parser (List WorkflowStatementDecl)} {statement : Parser WorkflowStatementDecl}

instance [Sound block] (kind : TokenKind) : Sound (parseStatementOf block kind) := by
  unfold parseStatementOf
  split <;> infer_instance

instance [Sound block] [Returns m block] (kind : TokenKind) :
    Returns m (parseStatementOf block kind) := by
  unfold parseStatementOf
  split <;> infer_instance

instance [Sound block] : Sound (parseWorkflowStatementDecl block) := by
  unfold parseWorkflowStatementDecl
  infer_instance

instance [Sound block] : Moves (parseWorkflowStatementDecl block) := by
  unfold parseWorkflowStatementDecl
  infer_instance

instance [Sound block] [Returns m block] : Returns m (parseWorkflowStatementDecl block) := by
  unfold parseWorkflowStatementDecl
  infer_instance

/-- A statement takes a token before it comes to its block. -/
theorem returns_statement [Sound block] [Returns m block] :
    Returns (m + 1) (parseWorkflowStatementDecl block) := by
  unfold parseWorkflowStatementDecl
  apply Returns.bind_of (k := m) inferInstance
  · intro start
    infer_instance
  · exact left_advance

instance [Sound statement] [Moves statement] : Sound (parseStatementBlockOf statement) := by
  unfold parseStatementBlockOf
  infer_instance

theorem returns_blockOf [Sound statement] [Moves statement] [Returns m statement] :
    Returns m (parseStatementBlockOf statement) := by
  unfold parseStatementBlockOf
  infer_instance

/-- At the end of the tokens no statement is parsed. -/
theorem returns_blockOf_zero [Sound statement] [Moves statement] :
    Returns 0 (parseStatementBlockOf statement) := by
  unfold parseStatementBlockOf
  infer_instance

end

instance (levels : Nat) : Sound (parseStatementBlock levels) := by
  induction levels with
  | zero =>
    unfold parseStatementBlock
    infer_instance
  | succ levels ih =>
    unfold parseStatementBlock
    infer_instance

/-- With as many levels as there are tokens left, blocks are not cut off. -/
theorem returns_statementBlock (levels : Nat) : Returns levels (parseStatementBlock levels) := by
  induction levels with
  | zero => exact returns_blockOf_zero
  | succ levels ih =>
    have hstatement : Returns (levels + 1) (parseWorkflowStatementDecl (parseStatementBlock levels)) :=
      returns_statement
    exact returns_blockOf

instance : Sound parseWorkflowStatementBlock where
  forward h := Sound.forward (p := parseStatementBlock _) h
  stops hwithin h := Sound.stops (p := parseStatementBlock _) hwithin h
  extends' hle h := Sound.extends' (p := parseStatementBlock _) hle h
  grows hle := Sound.grows (p := parseStatementBlock _) hle
  iterates hwithin := Sound.iterates (p := parseStatementBlock _) hwithin
  passes hwithin h := Sound.passes (p := parseStatementBlock _) hwithin h

instance : Returns m parseWorkflowStatementBlock where
  returns := by
    intro i c hwithin hfuel _ hnone
    have hlevels := returns_statementBlock i.tokens.length
    exact hlevels.returns hwithin hfuel (by have := hwithin.ended; omega) hnone

instance (step : WorkflowStepDecl) : Sound (parseStepMember step) := by
  unfold parseStepMember
  infer_instance

instance (step : WorkflowStepDecl) : Returns m (parseStepMember step) := by
  unfold parseStepMember
  infer_instance

instance (step : WorkflowStepDecl) : Moves (parseStepMember step) := by
  unfold parseStepMember
  infer_instance

instance : Sound parseWorkflowStepDecl := by
  unfold parseWorkflowStepDecl
  infer_instance

instance : Returns m parseWorkflowStepDecl := by
  unfold parseWorkflowStepDecl
  infer_instance

instance : MovesIf (check .keywordStep) parseWorkflowStepDecl := by
  unfold parseWorkflowStepDecl
  infer_instance

instance (workflow : WorkflowDecl) : Sound (parseWorkflowMember workflow) := by
  unfold parseWorkflowMember
  infer_instance

instance (workflow : WorkflowDecl) : Returns m (parseWorkflowMember workflow) := by
  unfold parseWorkflowMember
  infer_instance

instance (workflow : WorkflowDecl) : Moves (parseWorkflowMember workflow) := by
  unfold parseWorkflowMember
  infer_instance

instance : Sound parseWorkflowDecl := by
  unfold parseWorkflowDecl
  infer_instance

instance : Returns m parseWorkflowDecl := by
  unfold parseWorkflowDecl
  infer_instance

instance : MovesIf (check .keywordWorkflow) parseWorkflowDecl := by
  unfold parseWorkflowDecl
  infer_instance

end StateSpec.Compiler
