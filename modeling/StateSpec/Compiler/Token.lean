/-
  TOKENS — `token.hpp`, `source.hpp`, `diagnostic.hpp` and `parser_helpers.hpp` of the compiler: what the
  lexer hands to the parser, and what the parser says about it.
-/
import StateSpec.Lib.Bytes
import StateSpec.Lib.Reading

namespace StateSpec.Compiler

/-! ## Where a token stands in its source -/

structure SourceLocation where
  offset : Nat := 0
  line : Nat := 1
  column : Nat := 1
deriving DecidableEq

structure SourceRange where
  begin : SourceLocation := {}
  (end' : SourceLocation := {})
deriving DecidableEq

/-! ## Tokens -/

inductive TokenKind where
  | endOfFile | identifier | stringLiteral | integerLiteral | decimalLiteral | booleanLiteral
  | durationLiteral
  | leftBrace | rightBrace | leftParen | rightParen | leftBracket | rightBracket | less | greater
  | comma | colon | semicolon | dot | question | arrow | equals | equalEqual | bangEqual
  | lessEqual | greaterEqual | plus | minus | star | slash | percent | bang | andAnd | orOr
  | keywordStatespec | keywordInclude | keywordAs | keywordSystem | keywordNamespace | keywordValue
  | keywordEnum | keywordShape | keywordExternalSystem | keywordFeatureFlag | keywordLog
  | keywordMetric | keywordEntity | keywordKey | keywordVersion | keywordFields
  | keywordStateMachine | keywordState | keywordInitial | keywordTerminal | keywordOwnership
  | keywordAuthority | keywordSystemOfRecord | keywordLifecycle | keywordControl | keywordRelations
  | keywordParent | keywordRef | keywordOptional | keywordChildren | keywordInvariants
  | keywordIndexes | keywordAnnotations | keywordEvent | keywordQueue | keywordMessage
  | keywordPayload | keywordLease | keywordWorker | keywordApiServer | keywordApi | keywordBehavior
  | keywordWorkflow | keywordStep | keywordChildSet | keywordChildWorkflow | keywordPolicy
  | keywordOn | keywordWhen | keywordWhere | keywordRequire | keywordSet | keywordEmit
  | keywordEmits | keywordEnqueue | keywordAcquire | keywordRenew | keywordRelease | keywordStart
  | keywordLoad | keywordAllocates | keywordReturns | keywordAtomic | keywordForEach | keywordIn
  | keywordCreate | keywordChild | keywordObserve | keywordMove | keywordFrom | keywordTo
  | keywordTransitionTo | keywordComplete | keywordFail | keywordReserve | keywordMaterialize
  | keywordReconcile | keywordAllow | keywordDeny | keywordQuota | keywordAudit | keywordTenant
  | keywordScopedBy | keywordMethod | keywordPath | keywordInput | keywordOutput | keywordError
  | keywordAuthz | keywordStarts | keywordEnqueues | keywordServes | keywordPolls | keywordExecutes
  | keywordSingleton | keywordConcurrency
  | unknown
deriving DecidableEq

structure Token where
  kind : TokenKind := .unknown
  lexeme : Bytes := []
  range : SourceRange := {}
deriving DecidableEq

instance : Inhabited Token := ⟨{}⟩

instance : Reading.EndMarked Token := ⟨fun token => token.kind == .endOfFile⟩

/-- The texts of the kinds. -/
def tokenKindName : TokenKind → Bytes
  | .endOfFile => ascii "EndOfFile" | .identifier => ascii "Identifier"
  | .stringLiteral => ascii "StringLiteral" | .integerLiteral => ascii "IntegerLiteral"
  | .decimalLiteral => ascii "DecimalLiteral" | .booleanLiteral => ascii "BooleanLiteral"
  | .durationLiteral => ascii "DurationLiteral" | .leftBrace => ascii "LeftBrace"
  | .rightBrace => ascii "RightBrace" | .leftParen => ascii "LeftParen"
  | .rightParen => ascii "RightParen" | .leftBracket => ascii "LeftBracket"
  | .rightBracket => ascii "RightBracket" | .less => ascii "Less" | .greater => ascii "Greater"
  | .comma => ascii "Comma" | .colon => ascii "Colon" | .semicolon => ascii "Semicolon"
  | .dot => ascii "Dot" | .question => ascii "Question" | .arrow => ascii "Arrow"
  | .equals => ascii "Equals" | .equalEqual => ascii "EqualEqual" | .bangEqual => ascii "BangEqual"
  | .lessEqual => ascii "LessEqual" | .greaterEqual => ascii "GreaterEqual" | .plus => ascii "Plus"
  | .minus => ascii "Minus" | .star => ascii "Star" | .slash => ascii "Slash"
  | .percent => ascii "Percent" | .bang => ascii "Bang" | .andAnd => ascii "AndAnd"
  | .orOr => ascii "OrOr" | .keywordStatespec => ascii "KeywordStatespec"
  | .keywordInclude => ascii "KeywordInclude" | .keywordAs => ascii "KeywordAs"
  | .keywordSystem => ascii "KeywordSystem" | .keywordNamespace => ascii "KeywordNamespace"
  | .keywordValue => ascii "KeywordValue" | .keywordEnum => ascii "KeywordEnum"
  | .keywordShape => ascii "KeywordShape" | .keywordExternalSystem => ascii "KeywordExternalSystem"
  | .keywordFeatureFlag => ascii "KeywordFeatureFlag" | .keywordLog => ascii "KeywordLog"
  | .keywordMetric => ascii "KeywordMetric" | .keywordEntity => ascii "KeywordEntity"
  | .keywordKey => ascii "KeywordKey" | .keywordVersion => ascii "KeywordVersion"
  | .keywordFields => ascii "KeywordFields" | .keywordStateMachine => ascii "KeywordStateMachine"
  | .keywordState => ascii "KeywordState" | .keywordInitial => ascii "KeywordInitial"
  | .keywordTerminal => ascii "KeywordTerminal" | .keywordOwnership => ascii "KeywordOwnership"
  | .keywordAuthority => ascii "KeywordAuthority"
  | .keywordSystemOfRecord => ascii "KeywordSystemOfRecord"
  | .keywordLifecycle => ascii "KeywordLifecycle" | .keywordControl => ascii "KeywordControl"
  | .keywordRelations => ascii "KeywordRelations" | .keywordParent => ascii "KeywordParent"
  | .keywordRef => ascii "KeywordRef" | .keywordOptional => ascii "KeywordOptional"
  | .keywordChildren => ascii "KeywordChildren" | .keywordInvariants => ascii "KeywordInvariants"
  | .keywordIndexes => ascii "KeywordIndexes" | .keywordAnnotations => ascii "KeywordAnnotations"
  | .keywordEvent => ascii "KeywordEvent" | .keywordQueue => ascii "KeywordQueue"
  | .keywordMessage => ascii "KeywordMessage" | .keywordPayload => ascii "KeywordPayload"
  | .keywordLease => ascii "KeywordLease" | .keywordWorker => ascii "KeywordWorker"
  | .keywordApiServer => ascii "KeywordApiServer" | .keywordApi => ascii "KeywordApi"
  | .keywordBehavior => ascii "KeywordBehavior" | .keywordWorkflow => ascii "KeywordWorkflow"
  | .keywordStep => ascii "KeywordStep" | .keywordChildSet => ascii "KeywordChildSet"
  | .keywordChildWorkflow => ascii "KeywordChildWorkflow" | .keywordPolicy => ascii "KeywordPolicy"
  | .keywordOn => ascii "KeywordOn" | .keywordWhen => ascii "KeywordWhen"
  | .keywordWhere => ascii "KeywordWhere" | .keywordRequire => ascii "KeywordRequire"
  | .keywordSet => ascii "KeywordSet" | .keywordEmit => ascii "KeywordEmit"
  | .keywordEmits => ascii "KeywordEmits" | .keywordEnqueue => ascii "KeywordEnqueue"
  | .keywordAcquire => ascii "KeywordAcquire" | .keywordRenew => ascii "KeywordRenew"
  | .keywordRelease => ascii "KeywordRelease" | .keywordStart => ascii "KeywordStart"
  | .keywordLoad => ascii "KeywordLoad" | .keywordAllocates => ascii "KeywordAllocates"
  | .keywordReturns => ascii "KeywordReturns" | .keywordAtomic => ascii "KeywordAtomic"
  | .keywordForEach => ascii "KeywordForEach" | .keywordIn => ascii "KeywordIn"
  | .keywordCreate => ascii "KeywordCreate" | .keywordChild => ascii "KeywordChild"
  | .keywordObserve => ascii "KeywordObserve" | .keywordMove => ascii "KeywordMove"
  | .keywordFrom => ascii "KeywordFrom" | .keywordTo => ascii "KeywordTo"
  | .keywordTransitionTo => ascii "KeywordTransitionTo" | .keywordComplete => ascii "KeywordComplete"
  | .keywordFail => ascii "KeywordFail" | .keywordReserve => ascii "KeywordReserve"
  | .keywordMaterialize => ascii "KeywordMaterialize" | .keywordReconcile => ascii "KeywordReconcile"
  | .keywordAllow => ascii "KeywordAllow" | .keywordDeny => ascii "KeywordDeny"
  | .keywordQuota => ascii "KeywordQuota" | .keywordAudit => ascii "KeywordAudit"
  | .keywordTenant => ascii "KeywordTenant" | .keywordScopedBy => ascii "KeywordScopedBy"
  | .keywordMethod => ascii "KeywordMethod" | .keywordPath => ascii "KeywordPath"
  | .keywordInput => ascii "KeywordInput" | .keywordOutput => ascii "KeywordOutput"
  | .keywordError => ascii "KeywordError" | .keywordAuthz => ascii "KeywordAuthz"
  | .keywordStarts => ascii "KeywordStarts" | .keywordEnqueues => ascii "KeywordEnqueues"
  | .keywordServes => ascii "KeywordServes" | .keywordPolls => ascii "KeywordPolls"
  | .keywordExecutes => ascii "KeywordExecutes" | .keywordSingleton => ascii "KeywordSingleton"
  | .keywordConcurrency => ascii "KeywordConcurrency" | .unknown => ascii "Unknown"

/-! ## What a lexeme says -/

/-- The digits a numeral begins with, read in base ten. -/
def digitsValue (digits : Bytes) : Nat :=
  digits.foldl (fun value digit => 10 * value + (digit.toNat - 48)) 0

def isDigit (byte : UInt8) : Bool := 48 ≤ byte && byte ≤ 57

/-- The blanks `std::stoi` skips: those of `isspace`. -/
def isSpace (byte : UInt8) : Bool := byte == 32 || (9 ≤ byte && byte ≤ 13)

/-- `std::stoi`: what it reads of a text, or that it throws. -/
def stoi (text : Bytes) : Option Int :=
  let text := text.dropWhile isSpace
  let negative := text.head? = some 45
  let text := if negative ∨ text.head? = some 43 then text.tail else text
  let digits := text.takeWhile isDigit
  let value : Int := if negative then -digitsValue digits else digitsValue digits
  if digits = [] ∨ value < -2147483648 ∨ 2147483647 < value then none else some value

def parseIntOrZero (token : Token) : Int := (stoi token.lexeme).getD 0

/-- The quotation mark. -/
def quote : UInt8 := 34

def stripQuotes (value : Bytes) : Bytes :=
  if 2 ≤ value.length ∧ value.head? = some quote ∧ value.getLast? = some quote then
    value.tail.dropLast
  else value

def isNamedIdentifier (token : Token) (name : Bytes) : Bool :=
  token.kind == .identifier && token.lexeme == name

/-! ## Diagnostics -/

inductive DiagnosticSeverity where
  | info | warning | error
deriving DecidableEq

structure Diagnostic where
  severity : DiagnosticSeverity := .error
  range : SourceRange
  code : String
  message : String
deriving DecidableEq

end StateSpec.Compiler
