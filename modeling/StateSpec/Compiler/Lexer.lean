/-
  THE LEXER — `lexer.cpp`: from the bytes of a source to its tokens.

  A scanner stands at a place of the text.  It goes on byte by byte and counts lines and columns; trivia
  (blanks and comments) are skipped, and a token is what lies between the place where it starts and the
  place its scanner leaves.

  The tokens TILE the text (`lex_tiles`): the scanner never comes past the end, each of its parts reads
  what it passes (`Reads`), and between two tokens there is nothing but trivia.
-/
import Mathlib.Data.List.Induction
import StateSpec.Compiler.Token

namespace StateSpec.Compiler

/-! ## Kinds of bytes -/

def byte (c : Char) : UInt8 := UInt8.ofNat c.toNat

/-- `std::isalpha`, in the locale of a program that sets none. -/
def isIdentifierStart (ch : UInt8) : Bool :=
  (byte 'a' ≤ ch && ch ≤ byte 'z') || (byte 'A' ≤ ch && ch ≤ byte 'Z')

def isIdentifierPart (ch : UInt8) : Bool := isIdentifierStart ch || isDigit ch || ch == byte '_'

/-- What `skip_trivia` calls blank. -/
def isBlank (ch : UInt8) : Bool :=
  ch == byte ' ' || ch == byte '\t' || ch == byte '\r' || ch == byte '\n'

def keywords : List (Bytes × TokenKind) :=
  [(ascii "statespec", .keywordStatespec), (ascii "include", .keywordInclude),
    (ascii "as", .keywordAs), (ascii "system", .keywordSystem),
    (ascii "namespace", .keywordNamespace), (ascii "value", .keywordValue),
    (ascii "enum", .keywordEnum), (ascii "shape", .keywordShape),
    (ascii "external_system", .keywordExternalSystem), (ascii "feature_flag", .keywordFeatureFlag),
    (ascii "log", .keywordLog), (ascii "metric", .keywordMetric), (ascii "entity", .keywordEntity),
    (ascii "key", .keywordKey), (ascii "version", .keywordVersion), (ascii "fields", .keywordFields),
    (ascii "state_machine", .keywordStateMachine), (ascii "state", .keywordState),
    (ascii "initial", .keywordInitial), (ascii "terminal", .keywordTerminal),
    (ascii "ownership", .keywordOwnership), (ascii "authority", .keywordAuthority),
    (ascii "system_of_record", .keywordSystemOfRecord), (ascii "lifecycle", .keywordLifecycle),
    (ascii "control", .keywordControl), (ascii "relations", .keywordRelations),
    (ascii "parent", .keywordParent), (ascii "ref", .keywordRef),
    (ascii "optional", .keywordOptional), (ascii "children", .keywordChildren),
    (ascii "invariants", .keywordInvariants), (ascii "indexes", .keywordIndexes),
    (ascii "annotations", .keywordAnnotations), (ascii "event", .keywordEvent),
    (ascii "queue", .keywordQueue), (ascii "message", .keywordMessage),
    (ascii "payload", .keywordPayload), (ascii "lease", .keywordLease),
    (ascii "worker", .keywordWorker), (ascii "api_server", .keywordApiServer),
    (ascii "api", .keywordApi), (ascii "behavior", .keywordBehavior),
    (ascii "workflow", .keywordWorkflow), (ascii "step", .keywordStep),
    (ascii "child_set", .keywordChildSet), (ascii "child_workflow", .keywordChildWorkflow),
    (ascii "policy", .keywordPolicy), (ascii "on", .keywordOn), (ascii "when", .keywordWhen),
    (ascii "where", .keywordWhere), (ascii "require", .keywordRequire), (ascii "set", .keywordSet),
    (ascii "emit", .keywordEmit), (ascii "emits", .keywordEmits), (ascii "enqueue", .keywordEnqueue),
    (ascii "acquire", .keywordAcquire), (ascii "renew", .keywordRenew),
    (ascii "release", .keywordRelease), (ascii "start", .keywordStart), (ascii "load", .keywordLoad),
    (ascii "allocates", .keywordAllocates), (ascii "returns", .keywordReturns),
    (ascii "atomic", .keywordAtomic), (ascii "for_each", .keywordForEach), (ascii "in", .keywordIn),
    (ascii "create", .keywordCreate), (ascii "child", .keywordChild),
    (ascii "observe", .keywordObserve), (ascii "move", .keywordMove), (ascii "from", .keywordFrom),
    (ascii "to", .keywordTo), (ascii "transition_to", .keywordTransitionTo),
    (ascii "complete", .keywordComplete), (ascii "fail", .keywordFail),
    (ascii "reserve", .keywordReserve), (ascii "materialize", .keywordMaterialize),
    (ascii "reconcile", .keywordReconcile), (ascii "allow", .keywordAllow),
    (ascii "deny", .keywordDeny), (ascii "quota", .keywordQuota), (ascii "audit", .keywordAudit),
    (ascii "tenant", .keywordTenant), (ascii "scoped_by", .keywordScopedBy),
    (ascii "method", .keywordMethod), (ascii "path", .keywordPath), (ascii "input", .keywordInput),
    (ascii "output", .keywordOutput), (ascii "error", .keywordError), (ascii "authz", .keywordAuthz),
    (ascii "starts", .keywordStarts), (ascii "enqueues", .keywordEnqueues),
    (ascii "serves", .keywordServes), (ascii "polls", .keywordPolls),
    (ascii "executes", .keywordExecutes), (ascii "singleton", .keywordSingleton),
    (ascii "concurrency", .keywordConcurrency)]

def keywordKind (text : Bytes) : TokenKind :=
  if text = ascii "true" ∨ text = ascii "false" then .booleanLiteral
  else (keywords.lookup text).getD .identifier

/-- The loop of `looks_like_duration`, on what is left of the text. -/
def looksLikeDurationFrom : Bytes → Bool → Bool → Bool → Bool
  | [], hasDigit, hasUnit, _ => hasDigit && hasUnit
  | ch :: rest, hasDigit, hasUnit, inTime =>
    if isDigit ch then looksLikeDurationFrom rest true hasUnit inTime
    else if ch = byte 'T' then !inTime && looksLikeDurationFrom rest hasDigit hasUnit true
    else if ch = byte 'D' ∨ ch = byte 'H' ∨ ch = byte 'M' ∨ ch = byte 'S' then
      looksLikeDurationFrom rest hasDigit true inTime
    else false

def looksLikeDuration (text : Bytes) : Bool :=
  text.head? == some (byte 'P') && looksLikeDurationFrom text.tail false false false

/-! ## Places of a text -/

/-- Where the scanner is: its location, and what is left of the text. -/
structure Place where
  location : SourceLocation
  rest : Bytes

/-- The location behind a byte. -/
def SourceLocation.past (location : SourceLocation) (ch : UInt8) : SourceLocation :=
  if ch = byte '\n' then { offset := location.offset + 1, line := location.line + 1, column := 1 }
  else { location with offset := location.offset + 1, column := location.column + 1 }

namespace Place

def isAtEnd (p : Place) : Bool := p.rest.isEmpty

/-- The byte at an offset; behind the text there are zeros. -/
def peek (p : Place) (offset : Nat) : UInt8 := p.rest.getD offset 0

def advance (p : Place) : Place :=
  { location := p.location.past (p.peek 0), rest := p.rest.tail }

/-- `while (!is_at_end() && test(peek())) advance()`. -/
def advanceWhile (test : UInt8 → Bool) : Bytes → SourceLocation → Place
  | [], location => ⟨location, []⟩
  | ch :: rest, location =>
    if test ch then advanceWhile test rest (location.past ch) else ⟨location, ch :: rest⟩

def past (test : UInt8 → Bool) (p : Place) : Place := advanceWhile test p.rest p.location

end Place

/-! ## Trivia -/

/-- The loop over a block comment: whether it is closed, and where it ends. -/
def skipBlock : Bytes → SourceLocation → Bool × Place
  | [], location => (false, ⟨location, []⟩)
  | [ch], location => (false, ⟨location.past ch, []⟩)
  | ch :: next :: rest, location =>
    if ch = byte '*' ∧ next = byte '/' then (true, ⟨(location.past ch).past next, rest⟩)
    else skipBlock (next :: rest) (location.past ch)

/-- What an unclosed block comment is reported with. -/
def unterminatedComment (start stop : SourceLocation) : Diagnostic :=
  { severity := .error, range := { begin := start, end' := stop }, code := "SSPEC0101",
    message := "unterminated block comment" }

/-- An iteration of `skip_trivia` behind its blanks: a comment, if there is one, and then the next
    iteration, unless this one has consumed nothing. -/
def skipComment (again : Place → Option (Place × List Diagnostic)) (start p : Place) :
    Option (Place × List Diagnostic) :=
  if p.peek 0 = byte '/' ∧ p.peek 1 = byte '/' then again (p.past fun ch => ch != byte '\n')
  else if p.peek 0 = byte '/' ∧ p.peek 1 = byte '*' then
    let block := skipBlock p.advance.advance.rest p.advance.advance.location
    (again block.2).map fun (q, diagnostics) =>
      (q, if block.1 then diagnostics
        else unterminatedComment p.location block.2.location :: diagnostics)
  else if p.location.offset = start.location.offset then some (p, [])
  else again p

/-- `skip_trivia`: where it ends and what it reports. -/
def skipTrivia : Nat → Place → Option (Place × List Diagnostic)
  | 0, _ => none
  | fuel + 1, p =>
    if p.isAtEnd then some (p, []) else skipComment (skipTrivia fuel) p (p.past isBlank)

/-! ## Tokens -/

/-- What a token is, where it ends, and what is wrong with it. -/
structure Scanned where
  kind : TokenKind
  place : Place
  problem : Option (String × String) := none

/-- The loop over a string behind its first quotation mark; a backslash keeps the next byte from ending
    it. -/
def scanStringFrom : Bytes → SourceLocation → Bool × Place
  | [], location => (false, ⟨location, []⟩)
  | [ch], location => (ch == quote, ⟨location.past ch, []⟩)
  | ch :: next :: rest, location =>
    if ch = byte '\\' then scanStringFrom rest ((location.past ch).past next)
    else if ch = quote then (true, ⟨location.past ch, next :: rest⟩)
    else scanStringFrom (next :: rest) (location.past ch)

def scanString (p : Place) : Scanned :=
  let (closed, q) := scanStringFrom p.rest p.location
  { kind := .stringLiteral, place := q,
    problem := if closed then none else some ("SSPEC0102", "unterminated string literal") }

def scanNumber (p : Place) : Scanned :=
  let q := p.past isDigit
  if q.peek 0 = byte '.' ∧ isDigit (q.peek 1) then
    { kind := .decimalLiteral, place := q.advance.past isDigit }
  else { kind := .integerLiteral, place := q }

/-- `text_.substr(begin, end - begin)`. -/
def substr (text : Bytes) (start stop : SourceLocation) : Bytes :=
  (text.drop start.offset).take (stop.offset - start.offset)

def scanIdentifierOrDuration (text : Bytes) (start : SourceLocation) (p : Place) : Scanned :=
  let q := p.past isIdentifierPart
  let lexeme := substr text start q.location
  { kind := if looksLikeDuration lexeme then .durationLiteral else keywordKind lexeme, place := q }

/-- `match(expected) ? kind : kind'`. -/
def scanPair (p : Place) (expected : UInt8) (kind kind' : TokenKind) : Scanned :=
  if p.peek 0 = expected then { kind := kind, place := p.advance } else { kind := kind', place := p }

def unknown (p : Place) (message : String) : Scanned :=
  { kind := .unknown, place := p, problem := some ("SSPEC0100", message) }

/-- A token whose first byte is `ch`, with the scanner behind that. -/
def scanToken (text : Bytes) (start : SourceLocation) (ch : UInt8) (p : Place) : Scanned :=
  if ch = byte '\x7b' then { kind := .leftBrace, place := p }
  else if ch = byte '\x7d' then { kind := .rightBrace, place := p }
  else if ch = byte '(' then { kind := .leftParen, place := p }
  else if ch = byte ')' then { kind := .rightParen, place := p }
  else if ch = byte '[' then { kind := .leftBracket, place := p }
  else if ch = byte ']' then { kind := .rightBracket, place := p }
  else if ch = byte ',' then { kind := .comma, place := p }
  else if ch = byte ':' then { kind := .colon, place := p }
  else if ch = byte ';' then { kind := .semicolon, place := p }
  else if ch = byte '.' then { kind := .dot, place := p }
  else if ch = byte '?' then { kind := .question, place := p }
  else if ch = byte '+' then { kind := .plus, place := p }
  else if ch = byte '*' then { kind := .star, place := p }
  else if ch = byte '%' then { kind := .percent, place := p }
  else if ch = byte '-' then
    if isDigit (p.peek 0) then scanNumber p else scanPair p (byte '>') .arrow .minus
  else if ch = byte '=' then scanPair p (byte '=') .equalEqual .equals
  else if ch = byte '!' then scanPair p (byte '=') .bangEqual .bang
  else if ch = byte '<' then scanPair p (byte '=') .lessEqual .less
  else if ch = byte '>' then scanPair p (byte '=') .greaterEqual .greater
  else if ch = byte '&' then
    if p.peek 0 = byte '&' then { kind := .andAnd, place := p.advance }
    else unknown p "unexpected '&'; did you mean '&&'?"
  else if ch = byte '|' then
    if p.peek 0 = byte '|' then { kind := .orOr, place := p.advance }
    else unknown p "unexpected '|'; did you mean '||'?"
  else if ch = byte '/' then { kind := .slash, place := p }
  else if ch = quote then scanString p
  else if isDigit ch then scanNumber p
  else if isIdentifierStart ch then scanIdentifierOrDuration text start p
  else unknown p ("unexpected character '" ++ String.singleton (Char.ofNat ch.toNat) ++ "'")

/-! ## `Scanner::scan` -/

/-- `scan_token`: the token at a place that is not the end, the place behind it, and its errors. -/
def nextToken (text : Bytes) (p : Place) : Token × Place × List Diagnostic :=
  let scanned := scanToken text p.location (p.peek 0) p.advance
  let range : SourceRange := { begin := p.location, end' := scanned.place.location }
  ({ kind := scanned.kind, lexeme := substr text p.location scanned.place.location, range },
    scanned.place,
    scanned.problem.toList.map fun (code, message) => { severity := .error, range, code, message })

/-- The loop of `scan`: the tokens from a place on, the last of which marks the end. -/
def scan (text : Bytes) : Nat → Place → Option (List Token × List Diagnostic)
  | 0, _ => none
  | fuel + 1, p =>
    (skipTrivia (fuel + 1) p).bind fun (q, diagnostics) =>
      if q.isAtEnd then
        let range : SourceRange := { begin := q.location, end' := q.location }
        some ([{ kind := .endOfFile, lexeme := [], range }], diagnostics)
      else
        let (token, q', problems) := nextToken text q
        (scan text fuel q').map fun (tokens, rest) => (token :: tokens, diagnostics ++ problems ++ rest)

/-- `Lexer::lex`, for a text that is scanned in as many steps as it has bytes, and one. -/
def lex (text : Bytes) : Option (List Token × List Diagnostic) :=
  scan text (text.length + 1) ⟨{}, text⟩

/-! ## What is read on the way from one place to another -/

/-- The location behind some bytes. -/
def SourceLocation.pastAll (location : SourceLocation) (bytes : Bytes) : SourceLocation :=
  bytes.foldl SourceLocation.past location

/-- On the way from `p` to `q` the scanner reads these bytes. -/
structure Reads (p : Place) (bytes : Bytes) (q : Place) : Prop where
  rest : p.rest = bytes ++ q.rest
  location : q.location = p.location.pastAll bytes

namespace Reads

variable {p q r : Place} {a b : Bytes}

theorem refl (p : Place) : Reads p [] p := ⟨rfl, rfl⟩

theorem trans (h : Reads p a q) (h' : Reads q b r) : Reads p (a ++ b) r where
  rest := by rw [h.rest, h'.rest, List.append_assoc]
  location := by
    rw [h'.location, h.location]
    unfold SourceLocation.pastAll
    rw [List.foldl_append]

theorem cons {ch : UInt8} {rest : Bytes} {location : SourceLocation}
    (h : Reads ⟨location.past ch, rest⟩ a q) : Reads ⟨location, ch :: rest⟩ (ch :: a) q :=
  ⟨by rw [List.cons_append, ← h.rest], h.location⟩

end Reads

theorem SourceLocation.pastAll_offset (location : SourceLocation) (bytes : Bytes) :
    (location.pastAll bytes).offset = location.offset + bytes.length := by
  induction bytes generalizing location with
  | nil => rfl
  | cons ch bytes ih =>
    have hpast : (location.past ch).offset = location.offset + 1 := by
      unfold SourceLocation.past
      split <;> rfl
    show ((location.past ch).pastAll bytes).offset = _
    rw [ih, hpast, List.length_cons]
    omega

/-- The scanner advances over the byte it sees. -/
theorem reads_advance {p : Place} {ch : UInt8} {rest : Bytes} (h : p.rest = ch :: rest) :
    Reads p [ch] p.advance where
  rest := by rw [Place.advance, h]; rfl
  location := by rw [Place.advance, Place.peek, h]; rfl

/-- A byte that is not zero is there. -/
theorem rest_of_peek {p : Place} {ch : UInt8} (h : p.peek 0 = ch) (hch : ch ≠ 0) :
    ∃ rest, p.rest = ch :: rest := by
  rw [Place.peek] at h
  cases hrest : p.rest with
  | nil =>
    rw [hrest] at h
    exact absurd h.symm hch
  | cons first rest =>
    rw [hrest] at h
    exact ⟨rest, by rw [← h]; rfl⟩

theorem reads_match {p : Place} {ch : UInt8} (h : p.peek 0 = ch) (hch : ch ≠ 0) :
    Reads p [ch] p.advance := by
  obtain ⟨rest, hrest⟩ := rest_of_peek h hch
  exact reads_advance hrest

theorem reads_advanceWhile (test : UInt8 → Bool) (rest : Bytes) (location : SourceLocation) :
    Reads ⟨location, rest⟩ (rest.takeWhile test) (Place.advanceWhile test rest location) := by
  induction rest generalizing location with
  | nil => exact Reads.refl _
  | cons ch rest ih =>
    rw [Place.advanceWhile, List.takeWhile_cons]
    split
    · exact (ih (location.past ch)).cons
    · exact Reads.refl _

theorem reads_past (test : UInt8 → Bool) (p : Place) :
    Reads p (p.rest.takeWhile test) (p.past test) :=
  reads_advanceWhile test p.rest p.location

/-! ### Comments -/

/-- What `skipBlock` reads: a comment without `*/`, and the `*/` behind it unless the text ends. -/
theorem reads_skipBlock (rest : Bytes) (location : SourceLocation) :
    ∃ comment, ¬ [byte '*', byte '/'] <:+: comment ∧
      Reads ⟨location, rest⟩
        (comment ++ if (skipBlock rest location).1 then [byte '*', byte '/'] else [])
        (skipBlock rest location).2 ∧
      ((skipBlock rest location).1 = false → (skipBlock rest location).2.rest = []) := by
  fun_induction skipBlock rest location with
  | case1 location => exact ⟨[], by decide, Reads.refl _, fun _ => rfl⟩
  | case2 ch location =>
    refine ⟨[ch], ?_, (Reads.refl _).cons, fun _ => rfl⟩
    intro hwithin
    exact Nat.not_succ_le_self 1 hwithin.length_le
  | case3 ch next rest location hclosed =>
    obtain ⟨rfl, rfl⟩ := hclosed
    exact ⟨[], by decide, (Reads.refl _).cons.cons, nofun⟩
  | case4 ch next rest location hopen ih =>
    obtain ⟨comment, hfree, hreads, hend⟩ := ih
    refine ⟨ch :: comment, ?_, hreads.cons, hend⟩
    intro hwithin
    rcases List.infix_cons_iff.mp hwithin with ⟨behind, hfront⟩ | hwithin
    · -- the `*/` would begin with `ch` and `next`
      cases comment with
      | nil => cases hfront
      | cons first comment =>
        have hrest := hreads.rest
        rw [List.cons_append, List.cons_append] at hrest
        simp only [List.cons_append, List.cons.injEq] at hfront hrest
        exact hopen ⟨hfront.1.symm, hrest.1.trans hfront.2.1.symm⟩
    · exact hfree hwithin

/-! ### Trivia -/

/-- How trivia end: anything may follow, or they end within a comment that goes on to the end of the
    text. -/
inductive TriviaEnd where
  | closed | inLine | inBlock
deriving DecidableEq

/-- **Trivia**: blanks, line comments and block comments. -/
inductive Trivia : Bytes → TriviaEnd → Prop
  | nil : Trivia [] .closed
  | blank {ch rest ending} : isBlank ch = true → Trivia rest ending → Trivia (ch :: rest) ending
  | line {comment rest ending} : byte '\n' ∉ comment → Trivia (byte '\n' :: rest) ending →
      Trivia (byte '/' :: byte '/' :: (comment ++ byte '\n' :: rest)) ending
  | inLine {comment} : byte '\n' ∉ comment → Trivia (byte '/' :: byte '/' :: comment) .inLine
  | block {comment rest ending} : ¬ [byte '*', byte '/'] <:+: comment → Trivia rest ending →
      Trivia (byte '/' :: byte '*' :: (comment ++ byte '*' :: byte '/' :: rest)) ending
  | inBlock {comment} : ¬ [byte '*', byte '/'] <:+: comment →
      Trivia (byte '/' :: byte '*' :: comment) .inBlock

theorem Trivia.blanks {bytes rest : Bytes} {ending : TriviaEnd} (h : Trivia rest ending) :
    Trivia (bytes.takeWhile isBlank ++ rest) ending := by
  induction bytes with
  | nil => exact h
  | cons ch bytes ih =>
    rw [List.takeWhile_cons]
    split
    · rename_i hblank
      exact .blank hblank ih
    · exact h

/-- A block comment that is not closed has been reported. -/
def BlockReported (diagnostics : List Diagnostic) : Prop :=
  ∃ d ∈ diagnostics, d.severity = .error ∧ d.code = "SSPEC0101"

theorem Reads.length {p q : Place} {bytes : Bytes} (h : Reads p bytes q) :
    p.rest.length = bytes.length + q.rest.length := by
  rw [h.rest, List.length_append]

theorem Reads.offset {p q : Place} {bytes : Bytes} (h : Reads p bytes q) :
    q.location.offset = p.location.offset + bytes.length := by
  rw [h.location, SourceLocation.pastAll_offset]

/-- Two bytes that are seen are read. -/
theorem reads_two {p : Place} {ch next : UInt8} (h : p.peek 0 = ch ∧ p.peek 1 = next) (hch : ch ≠ 0)
    (hnext : next ≠ 0) : Reads p [ch, next] p.advance.advance := by
  obtain ⟨rest, hrest⟩ := rest_of_peek h.1 hch
  have hfirst := reads_advance hrest
  have hsecond : p.advance.peek 0 = next := by
    rw [← h.2, Place.peek, Place.peek, Place.advance, hrest]
    rfl
  exact hfirst.trans (reads_match hsecond hnext)

theorem rest_past (test : UInt8 → Bool) (p : Place) : (p.past test).rest = p.rest.dropWhile test := by
  have hreads := (reads_past test p).rest
  have hsplit := List.takeWhile_append_dropWhile (p := test) (l := p.rest)
  exact List.append_cancel_left (hreads.symm.trans hsplit.symm)

/-- A line comment is read up to the end of its line. -/
theorem reads_line {p : Place} (h : p.peek 0 = byte '/' ∧ p.peek 1 = byte '/') :
    ∃ comment, byte '\n' ∉ comment ∧
      Reads p (byte '/' :: byte '/' :: comment) (p.past fun ch => ch != byte '\n') ∧
      ∀ ch ∈ (p.past fun ch => ch != byte '\n').rest.head?, ch = byte '\n' := by
  have htwo := reads_two h (by decide) (by decide)
  have hreads := reads_past (fun ch => ch != byte '\n') p
  rw [htwo.rest] at hreads
  refine ⟨p.advance.advance.rest.takeWhile fun ch => ch != byte '\n', ?_, hreads, ?_⟩
  · intro hmem
    have hne := List.mem_takeWhile_imp hmem
    simp at hne
  · intro ch hch
    rw [rest_past] at hch
    have hnot := List.head?_dropWhile_not (fun ch => ch != byte '\n') p.rest
    rw [Option.mem_def.mp hch] at hnot
    simpa using hnot

/-- What `skipTrivia` skips. -/
structure Skips (p : Place) (q : Place) (diagnostics : List Diagnostic) (bytes : Bytes)
    (ending : TriviaEnd) : Prop where
  reads : Reads p bytes q
  trivia : Trivia bytes ending
  ends : ending ≠ .closed → q.rest = []
  reported : ending = .inBlock → BlockReported diagnostics
  head : ∀ ch ∈ p.rest.head?, isBlank ch = true → bytes.head? = some ch

theorem head_blanks {rest more : Bytes} :
    ∀ ch ∈ rest.head?, isBlank ch = true → (rest.takeWhile isBlank ++ more).head? = some ch := by
  intro ch hch hblank
  cases rest with
  | nil => cases hch
  | cons first rest =>
    cases hch
    rw [List.takeWhile_cons, hblank]
    rfl

/-- At the end of the text there is nothing to skip. -/
theorem Skips.at_end {p q : Place} {diagnostics : List Diagnostic} {bytes : Bytes} {ending : TriviaEnd}
    (h : Skips p q diagnostics bytes ending) (hend : p.rest = []) : bytes = [] ∧ q.rest = [] := by
  have hlength := h.reads.length
  rw [hend, List.length_nil] at hlength
  exact ⟨List.eq_nil_of_length_eq_zero (by omega), List.eq_nil_of_length_eq_zero (by omega)⟩

section

variable {p q r : Place} {diagnostics : List Diagnostic} {comment bytes : Bytes} {ending : TriviaEnd}

/-- Blanks, and what is skipped behind them. -/
theorem Skips.behind_blanks (h : Skips (p.past isBlank) q diagnostics bytes ending) :
    Skips p q diagnostics (p.rest.takeWhile isBlank ++ bytes) ending where
  reads := (reads_past isBlank p).trans h.reads
  trivia := h.trivia.blanks
  ends := h.ends
  reported := h.reported
  head := head_blanks

/-- A line comment, and what is skipped behind it. -/
theorem Skips.behind_line (hfree : byte '\n' ∉ comment)
    (hreads : Reads p (byte '/' :: byte '/' :: comment) r)
    (hnewline : ∀ ch ∈ r.rest.head?, ch = byte '\n') (h : Skips r q diagnostics bytes ending) :
    ∃ ending', Skips p q diagnostics (byte '/' :: byte '/' :: comment ++ bytes) ending' := by
  have hnot : ∀ ch ∈ p.rest.head?, isBlank ch = true →
      (byte '/' :: byte '/' :: comment ++ bytes).head? = some ch := by
    intro ch hch hblank
    rw [hreads.rest] at hch
    cases hch
    cases hblank
  cases hrest : r.rest with
  | nil =>
    obtain ⟨rfl, hq⟩ := h.at_end hrest
    refine ⟨.inLine, hreads.trans h.reads, ?_, fun _ => hq, nofun, hnot⟩
    rw [List.append_nil]
    exact .inLine hfree
  | cons first rest =>
    obtain rfl : first = byte '\n' := hnewline first (by rw [hrest]; rfl)
    have hhead := h.head (byte '\n') (by rw [hrest]; rfl) (by decide)
    obtain ⟨more, rfl⟩ := List.head?_eq_some_iff.mp hhead
    exact ⟨ending, hreads.trans h.reads, .line hfree h.trivia, h.ends, h.reported, hnot⟩

/-- A closed block comment, and what is skipped behind it. -/
theorem Skips.behind_block (hfree : ¬ [byte '*', byte '/'] <:+: comment)
    (hreads : Reads p (byte '/' :: byte '*' :: (comment ++ [byte '*', byte '/'])) r)
    (h : Skips r q diagnostics bytes ending) :
    Skips p q diagnostics (byte '/' :: byte '*' :: (comment ++ [byte '*', byte '/']) ++ bytes) ending where
  reads := hreads.trans h.reads
  trivia := by
    have hassoc : byte '/' :: byte '*' :: (comment ++ [byte '*', byte '/']) ++ bytes =
        byte '/' :: byte '*' :: (comment ++ byte '*' :: byte '/' :: bytes) := by simp
    rw [hassoc]
    exact .block hfree h.trivia
  ends := h.ends
  reported := h.reported
  head := by
    intro ch hch hblank
    rw [hreads.rest] at hch
    cases hch
    cases hblank

/-- A block comment that goes on to the end of the text. -/
theorem Skips.in_block {start stop : SourceLocation} (hfree : ¬ [byte '*', byte '/'] <:+: comment)
    (hreads : Reads p (byte '/' :: byte '*' :: comment) r) (hend : r.rest = [])
    (h : Skips r q diagnostics bytes ending) :
    Skips p q (unterminatedComment start stop :: diagnostics) (byte '/' :: byte '*' :: comment)
      .inBlock where
  reads := by
    obtain ⟨rfl, -⟩ := h.at_end hend
    have hboth := hreads.trans h.reads
    rwa [List.append_nil] at hboth
  trivia := .inBlock hfree
  ends := fun _ => (h.at_end hend).2
  reported := fun _ => ⟨_, List.mem_cons_self, rfl, rfl⟩
  head := by
    intro ch hch hblank
    rw [hreads.rest] at hch
    cases hch
    cases hblank

theorem skips_comment {again : Place → Option (Place × List Diagnostic)} {start : Place}
    (hagain : ∀ {p q diagnostics}, again p = some (q, diagnostics) →
      ∃ bytes ending, Skips p q diagnostics bytes ending)
    (hnot : ∀ ch ∈ p.rest.head?, isBlank ch = false)
    (h : skipComment again start p = some (q, diagnostics)) :
    ∃ bytes ending, Skips p q diagnostics bytes ending := by
  rw [skipComment] at h
  split at h
  · rename_i hline
    obtain ⟨comment, hfree, hreads, hnewline⟩ := reads_line hline
    obtain ⟨bytes, ending, hskips⟩ := hagain h
    exact ⟨_, hskips.behind_line hfree hreads hnewline⟩
  split at h
  · rename_i hblock
    have htwo := reads_two hblock (by decide) (by decide)
    obtain ⟨comment, hfree, hreads, hend⟩ :=
      reads_skipBlock p.advance.advance.rest p.advance.advance.location
    have hboth := htwo.trans hreads
    obtain ⟨⟨q', diagnostics'⟩, hq, heq⟩ := Option.map_eq_some_iff.mp h
    cases heq
    obtain ⟨bytes, ending, hskips⟩ := hagain hq
    rcases hclosed : (skipBlock p.advance.advance.rest p.advance.advance.location).1 with _ | _
    · rw [hclosed, if_neg Bool.false_ne_true, List.append_nil] at hboth
      exact ⟨_, _, hskips.in_block hfree hboth (hend hclosed)⟩
    · rw [hclosed, if_pos rfl] at hboth
      exact ⟨_, _, hskips.behind_block hfree hboth⟩
  split at h
  · cases h
    refine ⟨[], .closed, Reads.refl p, .nil, fun hne => absurd rfl hne, nofun, ?_⟩
    intro ch hch hblank
    rw [hnot ch hch] at hblank
    cases hblank
  · exact hagain h

/-- Behind the blanks there is none. -/
theorem not_blank_past (p : Place) : ∀ ch ∈ (p.past isBlank).rest.head?, isBlank ch = false := by
  intro ch hch
  rw [rest_past] at hch
  have hnot := List.head?_dropWhile_not isBlank p.rest
  rwa [Option.mem_def.mp hch] at hnot

end

theorem skips_trivia {fuel : Nat} {p q : Place} {diagnostics : List Diagnostic}
    (h : skipTrivia fuel p = some (q, diagnostics)) : ∃ bytes ending, Skips p q diagnostics bytes ending := by
  induction fuel generalizing p q diagnostics with
  | zero => cases h
  | succ fuel ih =>
    rw [skipTrivia] at h
    split at h
    · rename_i hend
      cases h
      refine ⟨[], .closed, Reads.refl p, .nil, fun hne => absurd rfl hne, nofun, ?_⟩
      rw [Place.isAtEnd, List.isEmpty_iff] at hend
      rw [hend]
      exact nofun
    · obtain ⟨bytes, ending, hskips⟩ := skips_comment ih (not_blank_past p) h
      exact ⟨_, ending, hskips.behind_blanks⟩

/-- An iteration needs the next one only where less of the text is left. -/
theorem skipComment_returns {again : Place → Option (Place × List Diagnostic)} {start p : Place}
    {blanks : Bytes} (hblanks : Reads start blanks p)
    (hagain : ∀ {p' : Place}, p'.rest.length < start.rest.length → ∃ r, again p' = some r) :
    ∃ r, skipComment again start p = some r := by
  have hstart := hblanks.length
  rw [skipComment]
  split
  · rename_i hline
    obtain ⟨comment, -, hreads, -⟩ := reads_line hline
    have hlength := hreads.length
    exact hagain (by rw [List.length_cons] at hlength; omega)
  split
  · rename_i hblock
    have htwo := (reads_two hblock (by decide) (by decide)).length
    obtain ⟨comment, -, hreads, -⟩ :=
      reads_skipBlock p.advance.advance.rest p.advance.advance.location
    have hlength : p.advance.advance.rest.length = _ := hreads.length
    have hshorter : (skipBlock p.advance.advance.rest p.advance.advance.location).2.rest.length <
        start.rest.length := by
      rw [List.length_cons, List.length_singleton] at htwo
      omega
    obtain ⟨r, hr⟩ := hagain hshorter
    exact ⟨_, congrArg (Option.map _) hr⟩
  split
  · exact ⟨_, rfl⟩
  · rename_i hmoved
    have hoffset := hblanks.offset
    exact hagain (by omega)

theorem skipTrivia_returns {fuel : Nat} {p : Place} (h : p.rest.length < fuel) :
    ∃ r, skipTrivia fuel p = some r := by
  induction fuel generalizing p with
  | zero => exact absurd h (Nat.not_lt_zero _)
  | succ fuel ih =>
    rw [skipTrivia]
    split
    · exact ⟨_, rfl⟩
    · exact skipComment_returns (reads_past isBlank p) fun hlt => ih (by omega)

/-! ### Tokens -/

theorem reads_scanStringFrom (rest : Bytes) (location : SourceLocation) :
    ∃ bytes, Reads ⟨location, rest⟩ bytes (scanStringFrom rest location).2 := by
  fun_induction scanStringFrom rest location with
  | case1 location => exact ⟨[], Reads.refl _⟩
  | case2 ch location => exact ⟨[ch], (Reads.refl _).cons⟩
  | case3 next rest location ih =>
    obtain ⟨bytes, hreads⟩ := ih
    exact ⟨byte '\\' :: next :: bytes, hreads.cons.cons⟩
  | case4 next rest location hescape => exact ⟨[quote], (Reads.refl _).cons⟩
  | case5 ch next rest location hescape hquote ih =>
    obtain ⟨bytes, hreads⟩ := ih
    exact ⟨ch :: bytes, hreads.cons⟩

theorem reads_scanString (p : Place) : ∃ bytes, Reads p bytes (scanString p).place :=
  reads_scanStringFrom p.rest p.location

theorem reads_scanNumber (p : Place) : ∃ bytes, Reads p bytes (scanNumber p).place := by
  have hdigits := reads_past isDigit p
  unfold scanNumber
  dsimp only
  split
  · rename_i hpoint
    have hadvance := reads_match hpoint.1 (by decide)
    exact ⟨_, (hdigits.trans hadvance).trans (reads_past isDigit _)⟩
  · exact ⟨_, hdigits⟩

theorem reads_scanPair (p : Place) {expected : UInt8} (kind kind' : TokenKind) (h : expected ≠ 0) :
    ∃ bytes, Reads p bytes (scanPair p expected kind kind').place := by
  unfold scanPair
  split
  · rename_i hmatch
    exact ⟨_, reads_match hmatch h⟩
  · exact ⟨[], Reads.refl p⟩

theorem reads_ite {cond : Prop} [Decidable cond] {p : Place} {s s' : Scanned}
    (h : cond → ∃ bytes, Reads p bytes s.place) (h' : ¬ cond → ∃ bytes, Reads p bytes s'.place) :
    ∃ bytes, Reads p bytes (if cond then s else s').place := by
  split
  · rename_i hcond
    exact h hcond
  · rename_i hcond
    exact h' hcond

theorem reads_double (p : Place) {expected : UInt8} (kind : TokenKind) (message : String)
    (h : expected ≠ 0) :
    ∃ bytes, Reads p bytes (if p.peek 0 = expected then { kind := kind, place := p.advance }
      else unknown p message : Scanned).place := by
  apply reads_ite
  · intro hmatch
    exact ⟨_, reads_match hmatch h⟩
  · intro _
    exact ⟨[], Reads.refl p⟩

/-- Every branch of `scanToken` reads what it passes. -/
theorem reads_scanToken (text : Bytes) (start : SourceLocation) (ch : UInt8) (p : Place) :
    ∃ bytes, Reads p bytes (scanToken text start ch p).place := by
  have hnone : ∃ bytes, Reads p bytes p := ⟨[], Reads.refl p⟩
  unfold scanToken
  -- the tokens of one byte
  iterate 14 refine reads_ite (fun _ => hnone) fun _ => ?_
  refine reads_ite (fun _ => reads_ite (fun _ => reads_scanNumber p) fun _ =>
    reads_scanPair p _ _ (by decide)) fun _ => ?_
  -- `=`, `!`, `<` and `>`
  iterate 4 refine reads_ite (fun _ => reads_scanPair p _ _ (by decide)) fun _ => ?_
  -- `&` and `|`
  iterate 2 refine reads_ite (fun _ => reads_double p _ _ (by decide)) fun _ => ?_
  refine reads_ite (fun _ => hnone) fun _ => ?_
  refine reads_ite (fun _ => reads_scanString p) fun _ => ?_
  refine reads_ite (fun _ => reads_scanNumber p) fun _ => ?_
  exact reads_ite (fun _ => ⟨_, reads_past isIdentifierPart p⟩) fun _ => hnone

/-! ## The tokens tile the text -/

/-- The part of a text between two offsets. -/
def slice (text : Bytes) (start stop : Nat) : Bytes := (text.drop start).take (stop - start)

/-- The location of an offset, counted in the text before it: its line is one more than there are line
    feeds, and its column one more than there are bytes behind the last of them. -/
def locationAt (text : Bytes) (offset : Nat) : SourceLocation where
  offset := offset
  line := 1 + (text.take offset).count (byte '\n')
  column := 1 + ((text.take offset).reverse.takeWhile fun ch => ch != byte '\n').length

/-- A token stands in the text where its range says. -/
structure StandsIn (text : Bytes) (token : Token) : Prop where
  ordered : token.range.begin.offset ≤ token.range.end'.offset
  inside : token.range.end'.offset ≤ text.length
  lexeme : token.lexeme = slice text token.range.begin.offset token.range.end'.offset
  begin : token.range.begin = locationAt text token.range.begin.offset
  (end' : token.range.end' = locationAt text token.range.end'.offset)

/-- Between two offsets there are trivia only, and a comment that does not end goes on to the end of the
    text and has been reported if it is a block comment. -/
def Gap (text : Bytes) (diagnostics : List Diagnostic) (start stop : Nat) : Prop :=
  start ≤ stop ∧ stop ≤ text.length ∧ ∃ ending, Trivia (slice text start stop) ending ∧
    (ending ≠ .closed → stop = text.length) ∧ (ending = .inBlock → BlockReported diagnostics)

/-- **From an offset on the tokens tile the text**: a gap, a token that is not empty unless it is the last
    one, and so on; and a gap behind the last one. -/
def Tiles (text : Bytes) (diagnostics : List Diagnostic) : Nat → List Token → Prop
  | start, [] => Gap text diagnostics start text.length
  | start, token :: tokens =>
    Gap text diagnostics start token.range.begin.offset ∧ StandsIn text token ∧
      (tokens ≠ [] → token.range.begin.offset < token.range.end'.offset) ∧
      Tiles text diagnostics token.range.end'.offset tokens

/-! ### Locations -/

theorem pastAll_eq (bytes : Bytes) :
    ({} : SourceLocation).pastAll bytes =
      { offset := bytes.length, line := 1 + bytes.count (byte '\n'),
        column := 1 + (bytes.reverse.takeWhile fun ch => ch != byte '\n').length } := by
  induction bytes using List.reverseRecOn with
  | nil => rfl
  | append_singleton bytes ch ih =>
    have hlast : ({} : SourceLocation).pastAll (bytes ++ [ch]) =
        (({} : SourceLocation).pastAll bytes).past ch := by
      unfold SourceLocation.pastAll
      rw [List.foldl_append]
      rfl
    rw [hlast, ih, SourceLocation.past, List.reverse_append, List.reverse_singleton,
      List.singleton_append, List.takeWhile_cons, List.length_append, List.count_append]
    by_cases hch : ch = byte '\n'
    · subst hch
      simp [Nat.add_assoc]
    · simp [hch, Nat.add_comm]

section

variable {text before bytes : Bytes} {p q : Place}

/-- Where the scanner is, counted in the text. -/
theorem location_of_reads (h : Reads ⟨{}, text⟩ before p) :
    p.location = locationAt text p.location.offset := by
  have hoffset : p.location.offset = before.length := by
    rw [h.offset]
    exact Nat.zero_add _
  have htake : text.take before.length = before := by
    have hrest : text = before ++ p.rest := h.rest
    rw [hrest, List.take_left]
  rw [hoffset, locationAt, htake, h.location]
  exact pastAll_eq before

theorem offset_of_reads (h : Reads ⟨{}, text⟩ before p) : p.location.offset = before.length := by
  rw [h.offset]
  exact Nat.zero_add _

/-- What is read is what lies between. -/
theorem slice_of_reads (h : Reads ⟨{}, text⟩ before p) (h' : Reads p bytes q) :
    slice text p.location.offset q.location.offset = bytes := by
  have hrest : text = before ++ p.rest := h.rest
  rw [slice, h'.offset, offset_of_reads h, Nat.add_sub_cancel_left, hrest, List.drop_left, h'.rest,
    List.take_left]

theorem le_length_of_reads (h : Reads ⟨{}, text⟩ before p) : p.location.offset ≤ text.length := by
  have hlength : text.length = _ := h.length
  rw [offset_of_reads h]
  omega

/-- Where the text has not ended, a token takes a byte at least. -/
theorem reads_nextToken (text : Bytes) (hmore : p.isAtEnd = false) :
    ∃ bytes, bytes ≠ [] ∧ Reads p bytes (nextToken text p).2.1 := by
  obtain ⟨ch, rest, hrest⟩ : ∃ ch rest, p.rest = ch :: rest := by
    cases hrest : p.rest with
    | nil =>
      rw [Place.isAtEnd, hrest] at hmore
      cases hmore
    | cons ch rest => exact ⟨ch, rest, rfl⟩
  obtain ⟨bytes, hbytes⟩ := reads_scanToken text p.location (p.peek 0) p.advance
  exact ⟨ch :: bytes, List.cons_ne_nil _ _, (reads_advance hrest).trans hbytes⟩

/-- A token stands where the scanner has passed it. -/
theorem standsIn_nextToken (h : Reads ⟨{}, text⟩ before p)
    (hreads : Reads p bytes (nextToken text p).2.1) : StandsIn text (nextToken text p).1 := by
  have hordered : p.location.offset ≤ (nextToken text p).2.1.location.offset := by
    rw [hreads.offset]
    omega
  exact ⟨hordered, le_length_of_reads (h.trans hreads), rfl, location_of_reads h,
    location_of_reads (h.trans hreads)⟩

/-- What `skipTrivia` skips is a gap. -/
theorem gap_of_skips {diagnostics diagnostics' : List Diagnostic} {ending : TriviaEnd}
    (h : Reads ⟨{}, text⟩ before p) (hskips : Skips p q diagnostics bytes ending)
    (hsub : diagnostics ⊆ diagnostics') :
    Gap text diagnostics' p.location.offset q.location.offset := by
  have hbefore := h.trans hskips.reads
  have hoffset := hskips.reads.offset
  refine ⟨by omega, le_length_of_reads hbefore, ending, ?_, ?_, ?_⟩
  · rw [slice_of_reads h hskips.reads]
    exact hskips.trivia
  · intro hopen
    have hlength : text.length = _ := hbefore.length
    rw [hskips.ends hopen, List.length_nil, Nat.add_zero] at hlength
    rw [hlength, offset_of_reads hbefore]
  · intro hblock
    obtain ⟨d, hd, hcode⟩ := hskips.reported hblock
    exact ⟨d, hsub hd, hcode⟩

theorem gap_self (diagnostics : List Diagnostic) : Gap text diagnostics text.length text.length := by
  refine ⟨Nat.le_refl _, Nat.le_refl _, .closed, ?_, fun hne => absurd rfl hne, nofun⟩
  rw [slice, Nat.sub_self, List.take_zero]
  exact .nil

/-- The scanner tiles what is left of the text. -/
theorem tiles_scan {fuel : Nat} {tokens : List Token} {diagnostics diagnostics' : List Diagnostic}
    (h : Reads ⟨{}, text⟩ before p) (hscan : scan text fuel p = some (tokens, diagnostics))
    (hsub : diagnostics ⊆ diagnostics') : Tiles text diagnostics' p.location.offset tokens := by
  induction fuel generalizing p before tokens diagnostics with
  | zero => cases hscan
  | succ fuel ih =>
    rw [scan] at hscan
    obtain ⟨⟨q, d⟩, htrivia, hscan⟩ := Option.bind_eq_some_iff.mp hscan
    obtain ⟨bytes, ending, hskips⟩ := skips_trivia htrivia
    have hbefore := h.trans hskips.reads
    dsimp only at hscan
    split at hscan
    · rename_i hend
      cases hscan
      rw [Place.isAtEnd, List.isEmpty_iff] at hend
      have hlast : q.location.offset = text.length := by
        have hlength : text.length = _ := hbefore.length
        rw [hend, List.length_nil, Nat.add_zero] at hlength
        rw [hlength, offset_of_reads hbefore]
      refine ⟨gap_of_skips h hskips hsub, ?_, fun hne => absurd rfl hne, ?_⟩
      · refine ⟨Nat.le_refl _, Nat.le_of_eq hlast, ?_, location_of_reads hbefore,
          location_of_reads hbefore⟩
        rw [slice, Nat.sub_self, List.take_zero]
      · show Gap text diagnostics' q.location.offset text.length
        rw [hlast]
        exact gap_self diagnostics'
    · rename_i hmore
      obtain ⟨⟨rest, d'⟩, hrest, heq⟩ := Option.map_eq_some_iff.mp hscan
      cases heq
      obtain ⟨lexeme, hlexeme, hreads⟩ := reads_nextToken text (Bool.eq_false_iff.mpr hmore)
      obtain ⟨hsub, hsub'⟩ := List.append_subset.mp hsub
      refine ⟨gap_of_skips h hskips (List.append_subset.mp hsub).1,
        standsIn_nextToken hbefore hreads, fun _ => ?_, ih (hbefore.trans hreads) hrest hsub'⟩
      show q.location.offset < (nextToken text q).2.1.location.offset
      have hlength := List.length_pos_iff.mpr hlexeme
      rw [hreads.offset]
      omega

/-- Fuel for every byte, and one, is enough. -/
theorem scan_returns {fuel : Nat} (hfuel : p.rest.length < fuel) : ∃ r, scan text fuel p = some r := by
  induction fuel generalizing p with
  | zero => exact absurd hfuel (Nat.not_lt_zero _)
  | succ fuel ih =>
    obtain ⟨⟨q, d⟩, htrivia⟩ := skipTrivia_returns hfuel
    obtain ⟨bytes, ending, hskips⟩ := skips_trivia htrivia
    rw [scan, htrivia, Option.bind_some]
    dsimp only
    split
    · exact ⟨_, rfl⟩
    · rename_i hmore
      obtain ⟨lexeme, hlexeme, hreads⟩ := reads_nextToken text (Bool.eq_false_iff.mpr hmore)
      have hlength := List.length_pos_iff.mpr hlexeme
      have hgap := hskips.reads.length
      have htoken := hreads.length
      obtain ⟨r, hr⟩ := ih (p := (nextToken text q).2.1) (by omega)
      exact ⟨_, congrArg (Option.map _) hr⟩

end

/-! ### The theorem -/

theorem Tiles.start_le {text : Bytes} {diagnostics : List Diagnostic} {start : Nat}
    {tokens : List Token} (h : Tiles text diagnostics start tokens) :
    ∀ token ∈ tokens, start ≤ token.range.begin.offset := by
  induction tokens generalizing start with
  | nil => exact nofun
  | cons first tokens ih =>
    obtain ⟨hgap, hstands, -, hrest⟩ := h
    intro token htoken
    rcases List.mem_cons.mp htoken with rfl | htoken
    · exact hgap.1
    · exact Nat.le_trans (Nat.le_trans hgap.1 hstands.ordered) (ih hrest token htoken)

/-- One token begins behind the other, and behind its end. -/
def Precedes (token token' : Token) : Prop :=
  token.range.begin.offset < token'.range.begin.offset ∧
    token.range.end'.offset ≤ token'.range.begin.offset

theorem Tiles.pairwise {text : Bytes} {diagnostics : List Diagnostic} {start : Nat}
    {tokens : List Token} (h : Tiles text diagnostics start tokens) : tokens.Pairwise Precedes := by
  induction tokens generalizing start with
  | nil => exact List.Pairwise.nil
  | cons first tokens ih =>
    obtain ⟨-, -, hnonempty, hrest⟩ := h
    refine List.pairwise_cons.mpr ⟨fun token htoken => ?_, ih hrest⟩
    have hle := hrest.start_le token htoken
    have hlt := hnonempty (List.ne_nil_of_mem htoken)
    exact ⟨Nat.lt_of_lt_of_le hlt hle, hle⟩

/-- **The lexer tiles its input**: it returns, and what it returns are tokens in the order of the text,
    each standing where its range says, with nothing but trivia around them. -/
theorem lex_tiles (text : Bytes) : ∃ tokens diagnostics, lex text = some (tokens, diagnostics) ∧
    Tiles text diagnostics 0 tokens ∧ tokens.Pairwise Precedes := by
  obtain ⟨⟨tokens, diagnostics⟩, hlex⟩ : ∃ r, lex text = some r := scan_returns (Nat.lt_succ_self _)
  have htiles := tiles_scan (Reads.refl ⟨{}, text⟩) hlex (List.Subset.refl _)
  exact ⟨tokens, diagnostics, hlex, htiles, htiles.pairwise⟩

end StateSpec.Compiler
