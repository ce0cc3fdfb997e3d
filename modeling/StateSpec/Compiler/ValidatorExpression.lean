/-
  EXPRESSIONS — `validator_expression.cpp`: the syntax of an expression and the feature flags it names.

  `ExpressionSyntaxValidator` is a recursive-descent parser that keeps no tree.  It goes on after its first
  syntax error, and reports no second one.  Every turn of a loop and every expression within an expression
  takes a token, so there is fuel for as many as there are tokens.
-/
import StateSpec.Compiler.ValidatorContext

namespace StateSpec.Compiler

def isExpressionIdentifierToken : TokenKind → Bool
  | .identifier | .keywordSystem | .keywordNamespace | .keywordValue | .keywordEnum | .keywordShape
  | .keywordExternalSystem | .keywordFeatureFlag | .keywordLog | .keywordMetric | .keywordEntity
  | .keywordEvent | .keywordQueue | .keywordMessage | .keywordLease | .keywordWorker | .keywordApiServer
  | .keywordApi | .keywordWorkflow | .keywordStep | .keywordChildSet | .keywordChildWorkflow
  | .keywordPolicy | .keywordTenant | .keywordInput | .keywordOutput | .keywordError | .keywordStarts
  | .keywordEnqueues | .keywordPolls | .keywordExecutes | .keywordSingleton | .keywordConcurrency => true
  | _ => false

def expressionBuiltins : List Bytes :=
  [ascii "count", ascii "empty", ascii "contains", ascii "disjoint", ascii "exists",
    ascii "current_state", ascii "can_transition", ascii "changed", ascii "generate_ids",
    ascii "ordinal_of", ascii "child_state", ascii "all_children", ascii "any_child", ascii "now",
    ascii "duration", ascii "expired", ascii "feature_enabled", ascii "feature_value"]

def isAllowedExpressionBuiltin (name : Bytes) : Bool := decide (name ∈ expressionBuiltins)

/-! ## `ExpressionSyntaxValidator` -/

structure ExpressionState where
  current : Nat := 0
  failed : Bool := false
  diagnostics : Diagnostics := []

/-- The tokens of an expression, and where it stands. -/
structure ExpressionInput where
  range : SourceRange
  tokens : List Token

namespace ExpressionInput

variable (e : ExpressionInput)

def peek (s : ExpressionState) : Token := e.tokens.getD s.current default

def check (s : ExpressionState) (kind : TokenKind) : Bool := (e.peek s).kind == kind

def advance (s : ExpressionState) : ExpressionState :=
  if e.check s .endOfFile then s else { s with current := s.current + 1 }

/-- The token `advance` returns. -/
def previous (s : ExpressionState) : Token := e.tokens.getD (s.current - 1) default

def syntaxError (s : ExpressionState) (message : String) : ExpressionState :=
  if s.failed then s
  else
    { s with
      failed := true
      diagnostics := s.diagnostics ++ .error e.range "SSPEC5201" ("invalid expression: " ++ message) }

/-- `match(kind)` for the first of some kinds, and what is behind it. -/
def matchAny (kinds : List TokenKind) (s : ExpressionState) : Option ExpressionState :=
  if (e.peek s).kind ∈ kinds then some (e.advance s) else none

def consume (s : ExpressionState) (kind : TokenKind) (message : String) : ExpressionState :=
  if e.check s kind then e.advance s else e.syntaxError s message

/-- `while (match(kinds)) operand`. -/
def whileMatch (kinds : List TokenKind) (operand : ExpressionState → Option ExpressionState) :
    Nat → ExpressionState → Option ExpressionState
  | 0, _ => none
  | n + 1, s =>
    match e.matchAny kinds s with
    | none => some s
    | some s => (operand s).bind (whileMatch kinds operand n)

/-- Operands with one of some operators between them. -/
def level (kinds : List TokenKind) (operand : ExpressionState → Option ExpressionState)
    (s : ExpressionState) : Option ExpressionState :=
  (operand s).bind (e.whileMatch kinds operand (e.tokens.length + 1))

/-- `parse_unary`, above `parse_primary`. -/
def parseUnary (parsePrimary : ExpressionState → Option ExpressionState) :
    Nat → ExpressionState → Option ExpressionState
  | 0, _ => none
  | n + 1, s =>
    match e.matchAny [.bang, .minus] s with
    | some s => parseUnary parsePrimary n s
    | none => parsePrimary s

/-- Expressions separated by commas, up to a closing token. -/
def parseArguments (parseExpression : ExpressionState → Option ExpressionState) (closing : TokenKind)
    (message : String) (s : ExpressionState) : Option ExpressionState :=
  if e.check s closing then some (e.consume s closing message)
  else
    (e.level [.comma] parseExpression s).map fun s => e.consume s closing message

def parseSelectors (parseExpression : ExpressionState → Option ExpressionState) :
    Nat → ExpressionState → Option ExpressionState
  | 0, _ => none
  | n + 1, s =>
    match e.matchAny [.dot] s with
    | some s =>
      if isExpressionIdentifierToken (e.peek s).kind then
        parseSelectors parseExpression n (e.advance s)
      else some (e.syntaxError s "expected selector name after '.'")
    | none =>
      match e.matchAny [.leftBracket] s with
      | some s =>
        (parseExpression s).bind fun s =>
          parseSelectors parseExpression n
            (e.consume s .rightBracket "expected ']' after selector expression")
      | none => some s

/-- The names behind the first one of a qualified name. -/
def parseQualifiedRest : Nat → Bytes → ExpressionState → Option (Bytes × ExpressionState)
  | 0, _, _ => none
  | n + 1, name, s =>
    match e.matchAny [.dot] s with
    | none => some (name, s)
    | some s =>
      if isExpressionIdentifierToken (e.peek s).kind then
        parseQualifiedRest n (name ++ ascii "." ++ (e.previous (e.advance s)).lexeme) (e.advance s)
      else some (name, e.syntaxError s "expected name after '.'")

def parseQualifiedName (s : ExpressionState) : Option (Bytes × ExpressionState) :=
  e.parseQualifiedRest (e.tokens.length + 1) (e.previous (e.advance s)).lexeme (e.advance s)

def validateBuiltinCall (name : Bytes) (s : ExpressionState) : ExpressionState :=
  if isAllowedExpressionBuiltin name then s
  else
    { s with
      diagnostics := s.diagnostics ++ .error e.range "SSPEC5202"
        ("expression function '" ++ text name ++ "' is not an allowed built-in") }

def parsePrimary (parseExpression : ExpressionState → Option ExpressionState) (s : ExpressionState) :
    Option ExpressionState :=
  match e.matchAny [.stringLiteral, .integerLiteral, .decimalLiteral, .booleanLiteral, .durationLiteral] s with
  | some s => some s
  | none =>
  match e.matchAny [.leftParen] s with
  | some s => (parseExpression s).map fun s => e.consume s .rightParen "expected ')' after expression"
  | none =>
  match e.matchAny [.leftBracket] s with
  | some s => e.parseArguments parseExpression .rightBracket "expected ']' after list expression" s
  | none =>
    if isExpressionIdentifierToken (e.peek s).kind then
      (e.parseQualifiedName s).bind fun (name, s) =>
        match e.matchAny [.leftParen] s with
        | some s =>
          (e.parseArguments parseExpression .rightParen "expected ')' after function arguments"
            (e.validateBuiltinCall name s)).bind
            (e.parseSelectors parseExpression (e.tokens.length + 1))
        | none => e.parseSelectors parseExpression (e.tokens.length + 1) s
    else some (e.syntaxError s "expected expression")

/-- `parse_expression`, with the levels of the operators from `||` down. -/
def parseExpression : Nat → ExpressionState → Option ExpressionState
  | 0, _ => none
  | n + 1, s =>
    let unary := e.parseUnary (e.parsePrimary (parseExpression n)) (e.tokens.length + 1)
    let multiplicative := e.level [.star, .slash, .percent] unary
    let additive := e.level [.plus, .minus] multiplicative
    let comparison := e.level [.less, .lessEqual, .greater, .greaterEqual, .keywordIn] additive
    let equality := e.level [.equalEqual, .bangEqual] comparison
    let logicalAnd := e.level [.andAnd] equality
    e.level [.orOr] logicalAnd s

/-- `validate`. -/
def validate : Option ExpressionState :=
  if e.check {} .endOfFile then some (e.syntaxError {} "expression must not be empty")
  else
    (e.parseExpression (e.tokens.length + 1) {}).map fun s =>
      if s.failed = false ∧ e.check s .endOfFile = false then
        e.syntaxError s ("unexpected token '" ++ text (e.peek s).lexeme ++ "' in expression")
      else s

end ExpressionInput

/-! ## Feature flags -/

def findFeatureFlag (system : SystemDecl) (name : Bytes) : Option FeatureFlagDecl :=
  system.featureFlags.find? fun flag => decide (flag.name = name)

/-- The arguments of the calls of a function in a text: what stands between the parentheses behind its
    name, without blanks.  A name without a `(` is passed over, and one without a `)` ends the search. -/
def featureFlagFunctionArguments (functionName : Bytes) : Nat → Bytes → List Bytes
  | 0, _ => []
  | _, [] => []
  | n + 1, ch :: rest =>
    match Bytes.stripPrefix functionName (ch :: rest) with
    | none => featureFlagFunctionArguments functionName n rest
    | some behind =>
      match behind.dropWhile isSpace with
      | [] => []
      | next :: behind =>
        if next = byte '(' then
          match Bytes.splitOnce (byte ')') behind with
          | none => []
          | some (argument, behind) =>
            argument.filter (fun ch => !isSpace ch) :: featureFlagFunctionArguments functionName n behind
        else featureFlagFunctionArguments functionName n (next :: behind)

def validateFeatureFlagExpression (system : SystemDecl) (range : SourceRange) (expression : Bytes) :
    Diagnostics :=
  (featureFlagFunctionArguments (ascii "feature_enabled") (expression.length + 1) expression).flatMap
    (fun flagName =>
      match findFeatureFlag system flagName with
      | none => unknownReferenceError range "feature flag" flagName
      | some flag =>
        reportIf (flag.type.getD [] ≠ ascii "bool")
          (.error range "SSPEC4204"
            ("feature_enabled requires bool feature flag '" ++ text flagName ++ "'"))) ++
  (featureFlagFunctionArguments (ascii "feature_value") (expression.length + 1) expression).flatMap
    fun flagName =>
      reportIf (findFeatureFlag system flagName).isNone (unknownReferenceError range "feature flag" flagName)

/-- `validate_expression`. -/
def validateExpression (system : SystemDecl) (range : SourceRange) (expression : Bytes) : Diagnostics :=
  match lex expression with
  | none => []
  | some (tokens, diagnostics) =>
    if hasErrors diagnostics then
      .error range "SSPEC5201" "invalid expression: lexer rejected expression"
    else
      ((ExpressionInput.validate ⟨range, tokens⟩).map ExpressionState.diagnostics).getD [] ++
        validateFeatureFlagExpression system range expression

end StateSpec.Compiler
