/-
  THE PARSER'S GROUND — `parser_context.cpp` and `parser_common.cpp`: how the parser looks at its tokens,
  takes them, complains, and skips what it does not know; and the names, types, values and
  expressions every declaration is made of.

  A parser is a program that reads tokens and reports diagnostics (`StateSpec.Lib.Reading`).  Its loops
  are named by what they go through (`ParserLoop`).  `consume` reports a token it does not find and
  leaves the cursor where it is: whether a loop comes to its end depends on what else its body does.
-/
import StateSpec.Compiler.Ast

namespace StateSpec.Compiler

open Reading

/-! ## The loops of the parser -/

/-- Every `while` of the parser. -/
inductive ParserLoop where
  | skipBalancedBlock | synchronize
  | qualifiedName | typeArguments | identifierList | expression | lineExpression | expressionUntil
  | includes | system | afterSystem
  | enumMembers | event | eventFields | externalSystem | metadata | metadataMappings | mappingPath
  | shapeFields
  | api | policy
  | stateMachine | state | garbageCollection
  | entity | fields | relations | children | invariants | indexes | ownership | relationOptions
  | entityApi | create | list | indexFields
  | featureFlag | log | logFields | metric | metricLabels
  | queue | message | messagePayload | lease | worker | apiServer
  | workflow | childSet | childWorkflow | createAssignments | step | statementBlock | payload
deriving DecidableEq

/-- The kinds of tokens a simple value is made of. -/
abbrev literalKinds : List TokenKind :=
  [.stringLiteral, .durationLiteral, .integerLiteral, .decimalLiteral, .booleanLiteral]

/-- The kinds of tokens a property has as its value. -/
abbrev valueKinds : List TokenKind :=
  [.stringLiteral, .durationLiteral, .integerLiteral, .decimalLiteral, .booleanLiteral, .identifier]

/-- What an iteration of a loop takes, where that is not just any token: the loops of `enum`,
    `external_system`, `children` and `indexes` blocks consume what they expect and nothing else. -/
@[reducible]
def ParserLoop.takes : ParserLoop → Option (List TokenKind)
  | .enumMembers => some [.identifier, .equals, .semicolon]
  | .externalSystem => some (.keywordAnnotations :: .colon :: .semicolon :: valueKinds)
  | .children => some [.identifier, .colon, .dot, .semicolon]
  | .indexes => some [.identifier, .keywordOn, .comma, .leftBrace, .semicolon]
  | _ => none

/-- A loop is stuck at a token its iterations do not take. -/
instance : Sticking ParserLoop Token where
  Stuck l token := ∃ kinds, l.takes = some kinds ∧ token.kind ∉ kinds

/-- `o` is `none`, as instances can see. -/
class IsNone (o : Option α) : Prop where
  eq_none : o = none

instance : IsNone (none : Option α) := ⟨rfl⟩

instance (l : ParserLoop) [h : IsNone l.takes] : Calm Token l where
  never := by
    rintro token ⟨kinds, htakes, -⟩
    rw [h.eq_none] at htakes
    cases htakes

/-- A parser of the compiler. -/
abbrev Parser (α : Type) := Reading Token Diagnostic ParserLoop α

/-! ## `parser_context.cpp` -/

def check (kind : TokenKind) (tokens : List Token) (current : Nat) : Bool :=
  !isAtEnd tokens current && (peek 0 tokens current).kind == kind

def checkAny (kinds : List TokenKind) (tokens : List Token) (current : Nat) : Bool :=
  kinds.any fun kind => check kind tokens current

/-- `is_named_identifier(peek(), name)`. -/
def checkNamed (name : Bytes) (tokens : List Token) (current : Nat) : Bool :=
  isNamedIdentifier (peek 0 tokens current) name

/-- `if (check(kind)) p else p'`. -/
abbrev ifCheck (kind : TokenKind) (p p' : Parser α) : Parser α := choose (check kind) p p'

/-- `if (match(kind)) p else p'`. -/
abbrev ifMatch (kind : TokenKind) (p p' : Parser α) : Parser α :=
  choose (check kind) (advance >>= fun _ => p) p'

/-- `if (is_named_identifier(peek(), name)) p else p'`. -/
abbrev ifNamed (name : Bytes) (p p' : Parser α) : Parser α := choose (checkNamed name) p p'

def peekToken : Parser Token := view (peek 0)

def previousToken : Parser Token := view previous

/-- An error at the next token. -/
def error (code message : String) : Parser Unit := report fun tokens current =>
  { severity := .error, range := (peek 0 tokens current).range, code, message }

/-- An error somewhere else. -/
def errorAt (range : SourceRange) (code message : String) : Parser Unit := report fun _ _ =>
  { severity := .error, range, code, message }

def consume (kind : TokenKind) (message : String) : Parser Token :=
  ifCheck kind advance do
    error "SSPEC0200" message
    let token ← peekToken
    pure { kind, lexeme := [], range := token.range }

def skipBalancedBlock : Parser Unit :=
  ifMatch .leftBrace
    (do
      let _ ← loop .skipBalancedBlock (fun depth _ _ => decide (0 < depth))
        (fun depth =>
          ifMatch .leftBrace (pure (depth + 1)) <|
          ifMatch .rightBrace (pure (depth - 1)) do
            let _ ← advance
            pure depth)
        1
      pure ())
    (pure ())

/-- The loop goes on until it has met a `;`, and ends in front of a `}`. -/
def synchronizeToMemberBoundary : Parser Unit := do
  let _ ← loop .synchronize
    (fun done tokens current => !done && !check .rightBrace tokens current)
    (fun _ =>
      ifMatch .semicolon (pure true) do
        let _ ← advance
        pure false)
    false
  pure ()

def skipUnknownDeclaration : Parser Unit := do
  report fun tokens current =>
    { severity := .warning, range := (peek 0 tokens current).range, code := "SSPEC0299",
      message := "skipping unsupported declaration in current parser milestone" }
  ifCheck .leftBrace skipBalancedBlock do
    let _ ← advance
    ifCheck .leftBrace skipBalancedBlock synchronizeToMemberBoundary

/-! ## `parser_common.cpp` -/

def consumeOptionalSemicolon : Parser Unit := ifMatch .semicolon (pure ()) (pure ())

/-- `if (!is_at_end()) advance();`. -/
def skipToken : Parser Unit := do
  let _ ← advance
  pure ()

/-- `SourceRange{start.range.begin, previous().range.end}`. -/
def rangeFrom (start : Token) : Parser SourceRange := view fun tokens current =>
  { begin := start.range.begin, end' := (previous tokens current).range.end' }

/-- `while (!check(RightBrace) && !is_at_end()) body`. -/
def insideBlock (tokens : List Token) (current : Nat) : Bool := !check .rightBrace tokens current

abbrev members (l : ParserLoop) (body : β → Parser β) (b : β) : Parser β :=
  loop l (fun _ => insideBlock) body b

/-- `declared.push_back(declaration)`. -/
def andAppend (declaration : Parser β) (declared : List β) : Parser (List β) := do
  let decl ← declaration
  pure (declared ++ [decl])

/-- A block of declarations of one kind: `'{'`, declarations, `'}'`. -/
def parseBlockOf (l : ParserLoop) (declaration : Parser β) (opening closing : String)
    (declared : List β) : Parser (List β) := do
  let _ ← consume .leftBrace opening
  let declared ← members l (andAppend declaration) declared
  let _ ← consume .rightBrace closing
  pure declared

def parseQualifiedName (context : String) : Parser Bytes := do
  let name ← consume .identifier ("expected " ++ context)
  loop .qualifiedName (fun _ => check .dot)
    (fun name => do
      let _ ← advance
      let part ← consume .identifier "expected name after '.'"
      pure (name ++ ascii "." ++ part.lexeme))
    name.lexeme

def parseTypeName : Parser Bytes :=
  choose (checkAny [.identifier, .keywordOptional, .keywordRef])
    (do
      let name ← advance
      let type ← ifMatch .less
        (do
          let (_, type) ← loop .typeArguments (fun (depth, _) _ _ => decide (0 < depth))
            (fun (depth, type) =>
              ifMatch .less (pure (depth + 1, type ++ ascii "<")) <|
              ifMatch .greater (pure (depth - 1, type ++ ascii ">")) do
                let token ← advance
                pure (depth, type ++ token.lexeme))
            (1, name.lexeme ++ ascii "<")
          pure type)
        (pure name.lexeme)
      let type ← ifMatch .leftBracket
        (do
          let _ ← consume .rightBracket "expected ']' after array type"
          pure (type ++ ascii "[" ++ ascii "]"))
        (pure type)
      ifMatch .question (pure (type ++ ascii "?")) (pure type))
    (do
      error "SSPEC0200" "expected type name"
      skipToken
      pure [])

def parseIdentifierList : Parser (List Bytes) := do
  let bracketed ← ifMatch .leftBracket (pure true) (pure false)
  let first ← consume .identifier "expected identifier"
  let values ← loop .identifierList (fun _ => check .comma)
    (fun values => do
      let _ ← advance
      let value ← consume .identifier "expected identifier after ','"
      pure (values ++ [value.lexeme]))
    [first.lexeme]
  let _ ← (if bracketed then consume .rightBracket "expected ']' after identifier list"
    else previousToken)
  pure values

def parseSimpleValue (context : String) : Parser Bytes :=
  ifCheck .identifier (parseQualifiedName context) <|
  choose (checkAny literalKinds)
    (do
      let value ← advance
      pure (stripQuotes value.lexeme))
    (do
      error "SSPEC0203" ("expected " ++ context)
      pure [])

/-- An expression is kept as the lexemes of its tokens, with blanks between them. -/
def withToken (expression : Bytes) (token : Token) : Bytes :=
  (if expression = [] then [] else expression ++ ascii " ") ++ token.lexeme

/-- `!check(Semicolon) && !check(RightBrace)`. -/
def beforeBoundary (tokens : List Token) (current : Nat) : Bool :=
  !check .semicolon tokens current && !check .rightBrace tokens current

def expressionToken (expression : Bytes) : Parser Bytes := do
  let token ← peekToken
  let _ ← advance
  pure (withToken expression token)

def parseSimpleExpressionUntilBoundary : Parser Bytes :=
  loop .expression (fun _ => beforeBoundary) expressionToken []

/-- The loop breaks off where a line ends behind the first token. -/
def parseSimpleExpressionUntilLineBoundary : Parser Bytes :=
  loop .lineExpression
    (fun expression tokens current => beforeBoundary tokens current &&
      !(expression != [] && decide ((previous tokens current).range.end'.line <
        (peek 0 tokens current).range.begin.line)))
    expressionToken []

def parseExpressionUntil (kind : TokenKind) : Parser Bytes :=
  loop .expressionUntil
    (fun _ tokens current => !check kind tokens current && beforeBoundary tokens current)
    expressionToken []

/-! ## What they do to the cursor -/

set_option synthInstance.maxSize 4096

variable {kind : TokenKind} {kinds : List TokenKind} {m : Nat}

/-- `kind` is among `kinds`, as instances can see. -/
class Holds (kinds : List TokenKind) (kind : TokenKind) : Prop where
  mem : kind ∈ kinds

instance : Holds (kind :: kinds) kind := ⟨List.mem_cons_self⟩

instance {other : TokenKind} [h : Holds kinds kind] : Holds (other :: kinds) kind :=
  ⟨List.mem_cons_of_mem _ h.mem⟩

/-- The next token is of none of these kinds. -/
def outside (kinds : List TokenKind) (tokens : List Token) (current : Nat) : Bool :=
  !kinds.contains (peek 0 tokens current).kind

theorem check_eq_false {tokens : List Token} {current : Nat} (hmem : kind ∈ kinds)
    (h : outside kinds tokens current = true) : check kind tokens current = false := by
  rw [outside, Bool.not_eq_true', ← Bool.not_eq_true, List.contains_iff_mem] at h
  rw [check, Bool.and_eq_false_iff]
  right
  rw [beq_eq_false_iff_ne]
  rintro rfl
  exact h hmem

instance [hmem : Holds kinds kind] : Excludes (outside kinds) (check kind) :=
  ⟨check_eq_false hmem.mem⟩

instance (name : Bytes) [hmem : Holds kinds .identifier] : Excludes (outside kinds) (checkNamed name) where
  excludes := by
    intro tokens current h
    rw [outside, Bool.not_eq_true', ← Bool.not_eq_true, List.contains_iff_mem] at h
    rw [checkNamed, isNamedIdentifier, Bool.and_eq_false_iff]
    left
    rw [beq_eq_false_iff_ne]
    intro hkind
    rw [hkind] at h
    exact h hmem.mem

instance : Excludes (outside kinds) (checkAny []) := ⟨fun _ => rfl⟩

instance {others : List TokenKind} [hmem : Holds kinds kind]
    [hothers : Excludes (outside kinds) (checkAny others)] :
    Excludes (outside kinds) (checkAny (kind :: others)) where
  excludes := by
    intro tokens current h
    have hrest := hothers.excludes h
    rw [checkAny] at hrest ⊢
    rw [List.any_cons, check_eq_false hmem.mem h, hrest]
    rfl

/-- A block loop that takes tokens of some kinds only makes progress at those, and is stuck at the
    others. -/
theorem progress_of_kinds {l : ParserLoop} {body : β → Parser β} (htakes : l.takes = some kinds)
    [hstays : ∀ b, StaysIf (outside kinds) (body b)]
    (hmoves : ∀ b, ∀ kind ∈ kinds, MovesIf (check kind) (body b)) :
    Progress l (fun _ => insideBlock) body where
  moves := by
    intro i c b b' c' hwithin hgo hstuck h
    have hmem : (peek 0 i.tokens c.current).kind ∈ kinds := by
      by_contra hnot
      exact hstuck ⟨kinds, htakes, hnot⟩
    refine (hmoves b _ hmem).moves hwithin hgo.2 ?_ h
    rw [check, hgo.2, beq_self_eq_true]
    rfl
  sticks := by
    rintro i b c _ hgo ⟨kinds', htakes', hnot⟩
    rw [htakes, Option.some.injEq] at htakes'
    have hout : outside kinds i.tokens c.current = true := by
      rw [outside, Bool.not_eq_true', ← Bool.not_eq_true, List.contains_iff_mem, htakes']
      exact hnot
    obtain ⟨b', reports, hb⟩ := (hstays b).stays hout
    exact ⟨b', reports, hb, hgo.1⟩

theorem movesIf_of_checkAny {p : Parser α} (h : MovesIf (checkAny kinds) p) (hmem : kind ∈ kinds) :
    MovesIf (check kind) p := by
  apply h.mono
  intro tokens current hcheck
  rw [checkAny, List.any_eq_true]
  exact ⟨kind, hmem, hcheck⟩

instance : Sound peekToken := by
  unfold peekToken
  infer_instance

instance : Returns m peekToken := by
  unfold peekToken
  infer_instance

instance : Sound previousToken := by
  unfold previousToken
  infer_instance

instance : Returns m previousToken := by
  unfold previousToken
  infer_instance

instance (code message : String) : Sound (error code message) := by
  unfold error
  infer_instance

instance (code message : String) : Returns m (error code message) := by
  unfold error
  infer_instance

instance (range : SourceRange) (code message : String) : Sound (errorAt range code message) := by
  unfold errorAt
  infer_instance

instance (range : SourceRange) (code message : String) :
    Returns m (errorAt range code message) := by
  unfold errorAt
  infer_instance

instance (start : Token) : Sound (rangeFrom start) := by
  unfold rangeFrom
  infer_instance

instance (start : Token) : Returns m (rangeFrom start) := by
  unfold rangeFrom
  infer_instance

instance (message : String) : Sound (consume kind message) := by
  unfold consume
  infer_instance

instance (message : String) : Returns m (consume kind message) := by
  unfold consume
  infer_instance

section

variable {test : List Token → Nat → Bool}

instance (code message : String) : StaysIf test (error code message) := by
  unfold error
  infer_instance

instance (range : SourceRange) (code message : String) : StaysIf test (errorAt range code message) := by
  unfold errorAt
  infer_instance

instance (start : Token) : StaysIf test (rangeFrom start) := by
  unfold rangeFrom
  infer_instance

end

instance (message : String) [Holds kinds kind] : StaysIf (outside kinds) (consume kind message) := by
  unfold consume peekToken
  infer_instance

instance (message : String) : MovesIf (check kind) (consume kind message) := by
  unfold consume
  infer_instance

instance (message : String) (name : Bytes) : MovesIf (checkNamed name) (consume .identifier message) where
  moves := by
    intro i c a c' hwithin hmore hnamed h
    rw [checkNamed, isNamedIdentifier, Bool.and_eq_true] at hnamed
    have hcheck : check .identifier i.tokens c.current = true := by
      rw [check, hmore, hnamed.1]
      rfl
    exact MovesIf.moves hwithin hmore hcheck h

instance : Sound skipBalancedBlock := by
  unfold skipBalancedBlock
  infer_instance

instance : Returns m skipBalancedBlock := by
  unfold skipBalancedBlock
  infer_instance

instance : MovesIf (check .leftBrace) skipBalancedBlock := by
  unfold skipBalancedBlock
  infer_instance

instance [Holds kinds .leftBrace] : StaysIf (outside kinds) skipBalancedBlock := by
  unfold skipBalancedBlock
  infer_instance

instance : Sound synchronizeToMemberBoundary := by
  unfold synchronizeToMemberBoundary
  infer_instance

instance : Returns m synchronizeToMemberBoundary := by
  unfold synchronizeToMemberBoundary
  infer_instance

instance : Sound skipUnknownDeclaration := by
  unfold skipUnknownDeclaration
  infer_instance

instance : Returns m skipUnknownDeclaration := by
  unfold skipUnknownDeclaration
  infer_instance

instance : Moves skipUnknownDeclaration := by
  unfold skipUnknownDeclaration
  infer_instance

instance : Sound consumeOptionalSemicolon := by
  unfold consumeOptionalSemicolon
  infer_instance

instance : Returns m consumeOptionalSemicolon := by
  unfold consumeOptionalSemicolon
  infer_instance

instance : MovesIf (check .semicolon) consumeOptionalSemicolon := by
  unfold consumeOptionalSemicolon
  infer_instance

instance [Holds kinds .semicolon] : StaysIf (outside kinds) consumeOptionalSemicolon := by
  unfold consumeOptionalSemicolon
  infer_instance

section

variable {l : ParserLoop} {declaration : Parser β}

instance [Sound declaration] (declared : List β) : Sound (andAppend declaration declared) := by
  unfold andAppend
  infer_instance

instance [Returns m declaration] [Sound declaration] (declared : List β) :
    Returns m (andAppend declaration declared) := by
  unfold andAppend
  infer_instance

instance {test : List Token → Nat → Bool} [MovesIf test declaration] (declared : List β) :
    MovesIf test (andAppend declaration declared) := by
  unfold andAppend
  infer_instance

instance {test : List Token → Nat → Bool} [StaysIf test declaration] (declared : List β) :
    StaysIf test (andAppend declaration declared) := by
  unfold andAppend
  infer_instance

variable [Sound declaration] [Progress l (fun _ => insideBlock) (andAppend declaration)]

instance (opening closing : String) (declared : List β) :
    Sound (parseBlockOf l declaration opening closing declared) := by
  unfold parseBlockOf
  infer_instance

instance [Returns m declaration] (opening closing : String) (declared : List β) :
    Returns m (parseBlockOf l declaration opening closing declared) := by
  unfold parseBlockOf
  infer_instance

end

instance : Sound skipToken := by
  unfold skipToken
  infer_instance

instance : Returns m skipToken := by
  unfold skipToken
  infer_instance

instance : Moves skipToken := by
  unfold skipToken
  infer_instance

instance (context : String) : Sound (parseQualifiedName context) := by
  unfold parseQualifiedName
  infer_instance

instance (context : String) : Returns m (parseQualifiedName context) := by
  unfold parseQualifiedName
  infer_instance

instance (context : String) : MovesIf (check .identifier) (parseQualifiedName context) := by
  unfold parseQualifiedName
  infer_instance

instance (context : String) : MovesIf (check .dot) (parseQualifiedName context) := by
  unfold parseQualifiedName
  infer_instance

instance (context : String) [Holds kinds .identifier] [Holds kinds .dot] :
    StaysIf (outside kinds) (parseQualifiedName context) := by
  unfold parseQualifiedName
  infer_instance

instance : Sound parseTypeName := by
  unfold parseTypeName
  infer_instance

instance : Returns m parseTypeName := by
  unfold parseTypeName
  infer_instance

instance : Moves parseTypeName := by
  unfold parseTypeName
  infer_instance

instance : Sound parseIdentifierList := by
  unfold parseIdentifierList
  infer_instance

instance : Returns m parseIdentifierList := by
  unfold parseIdentifierList
  infer_instance

instance (context : String) : Sound (parseSimpleValue context) := by
  unfold parseSimpleValue
  infer_instance

instance (context : String) : Returns m (parseSimpleValue context) := by
  unfold parseSimpleValue
  infer_instance

instance (expression : Bytes) : Sound (expressionToken expression) := by
  unfold expressionToken
  infer_instance

instance (expression : Bytes) : Returns m (expressionToken expression) := by
  unfold expressionToken
  infer_instance

instance (expression : Bytes) : Moves (expressionToken expression) := by
  unfold expressionToken
  infer_instance

instance : Sound parseSimpleExpressionUntilBoundary := by
  unfold parseSimpleExpressionUntilBoundary
  infer_instance

instance : Returns m parseSimpleExpressionUntilBoundary := by
  unfold parseSimpleExpressionUntilBoundary
  infer_instance

instance : Sound parseSimpleExpressionUntilLineBoundary := by
  unfold parseSimpleExpressionUntilLineBoundary
  infer_instance

instance : Returns m parseSimpleExpressionUntilLineBoundary := by
  unfold parseSimpleExpressionUntilLineBoundary
  infer_instance

instance : Sound (parseExpressionUntil kind) := by
  unfold parseExpressionUntil
  infer_instance

instance : Returns m (parseExpressionUntil kind) := by
  unfold parseExpressionUntil
  infer_instance

instance : MovesIf beforeBoundary parseSimpleExpressionUntilBoundary := by
  unfold parseSimpleExpressionUntilBoundary
  infer_instance

/-- The first token of an expression belongs to it, wherever its line begins. -/
instance : MovesIf beforeBoundary parseSimpleExpressionUntilLineBoundary := by
  unfold parseSimpleExpressionUntilLineBoundary
  apply MovesIf.of_loop
  intro tokens current h
  rw [h]
  rfl

/-- An expression and the `;` behind it come past everything but the end of a block. -/
instance movesIf_expression {p : Parser Bytes} [Sound p] [hp : MovesIf beforeBoundary p]
    {rest : Bytes → Parser α} [∀ expression, Sound (rest expression)] :
    MovesIf insideBlock (p >>= fun expression => consumeOptionalSemicolon >>= fun _ => rest expression) := by
  have hrest (expression : Bytes) :
      MovesIf (check .semicolon) (consumeOptionalSemicolon >>= fun _ => rest expression) := inferInstance
  apply MovesIf.bind_cases hp hrest
  intro tokens current h
  rw [insideBlock] at h
  rcases hsemicolon : check .semicolon tokens current with _ | _
  · left
    rw [beforeBoundary, hsemicolon, h]
    rfl
  · right
    rfl

end StateSpec.Compiler
