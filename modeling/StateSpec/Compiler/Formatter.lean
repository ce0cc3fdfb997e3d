/-
  THE TOKEN FORMATTER — `format_tokens` of `formatter.cpp`.

  1. **Program** — the formatter writes the tokens of a source one after the other: each in a new line where its
     source has one, behind a `{`, a `}` and a `;`, and in front of the members of some blocks; with a blank or
     nothing in front of it in a line.  All it asks of the source are the lines where tokens begin.
  2. **Layout** — what is written is a text with gaps and tokens apart (`formatPieces`, `formatTokens_eq`): in front
     of a token is nothing, a blank, or a line break or two with the indentation.
  3. **Between tokens** — new lines begin behind a `{`, a `}` and a `;` only, or in front of a token (`Follows`).
-/
import Mathlib.Data.List.DropRight
import StateSpec.Compiler.FeatureFlagReferences

namespace StateSpec.Compiler

/-! ## Kinds of tokens -/

def isWordToken (kind : TokenKind) : Bool :=
  match kind with
  | .stringLiteral | .integerLiteral | .decimalLiteral => true
  -- the words but `on`
  | .keywordOn => false
  | _ => isWordKind kind

def isBinaryOperator (kind : TokenKind) : Bool :=
  decide (kind ∈ [.arrow, .equals, .equalEqual, .bangEqual, .lessEqual, .greaterEqual, .plus, .minus, .star,
    .slash, .percent, .andAnd, .orOr])

def startsCompact (kind : TokenKind) : Bool :=
  decide (kind ∈ [.leftParen, .leftBracket, .less, .dot, .comma, .semicolon, .colon, .question, .rightParen,
    .rightBracket, .greater])

def endsCompact (kind : TokenKind) : Bool :=
  decide (kind ∈ [.leftParen, .leftBracket, .less, .dot, .bang])

def isFeatureFlagMemberStart (token : Token) : Bool :=
  decide (token.kind = .identifier ∧ token.lexeme ∈ [ascii "type", ascii "default", ascii "scope", ascii "owner",
    ascii "description", ascii "expires"])

def isStateOptionMemberStart (token : Token) : Bool :=
  decide (token.kind = .keywordTerminal ∨
    (token.kind = .identifier ∧ token.lexeme = ascii "garbage_collection"))

def isGarbageCollectionMemberStart (token : Token) : Bool :=
  decide (token.kind = .identifier ∧ token.lexeme ∈ [ascii "after", ascii "mode"])

/-! ## The loop -/

/-- The variables of the loop. -/
structure FormatState where
  indent : Nat := 0
  atLineStart : Bool := true
  previousWasBlankLine : Bool := false
  previousKind : TokenKind := .endOfFile
  previousSourceLine : Nat := 0
  blockStack : List TokenKind := []
  blockNameStack : List Bytes := []

/-- What an iteration writes in front of the token's text, and behind it. -/
structure Written where
  before : Bytes
  behind : Bytes

/-- `write_indent`. -/
def indentation (indent : Nat) : Bytes := List.replicate (2 * indent) (byte ' ')

/-- `newline`: what it writes, and the variables behind it. -/
def newline (blankAfter : Bool) (s : FormatState) : Bytes × FormatState :=
  if blankAfter = true ∧ s.previousWasBlankLine = false then
    (ascii "\n\n", { s with atLineStart := true, previousKind := .endOfFile, previousWasBlankLine := true })
  else (ascii "\n", { s with atLineStart := true, previousKind := .endOfFile, previousWasBlankLine := false })

/-- A member of the block begins here. -/
def startsMember (s : FormatState) (token : Token) : Bool :=
  (decide (s.blockStack.head? = some .keywordFeatureFlag) && isFeatureFlagMemberStart token ||
    decide (s.blockStack.head? = some .keywordState) && isStateOptionMemberStart token ||
    decide (s.blockNameStack.head? = some (ascii "garbage_collection")) && isGarbageCollectionMemberStart token) &&
    s.previousKind != .leftBrace

/-- The token goes to a new line. -/
def breaksLine (s : FormatState) (token : Token) : Bool :=
  !s.atLineStart && (decide (s.previousSourceLine < token.range.begin.line) || startsMember s token)

def breakLine (s : FormatState) (token : Token) : Bytes × FormatState :=
  if breaksLine s token = true then newline (decide (s.previousSourceLine + 1 < token.range.begin.line)) s
  else ([], s)

/-- What is written in front of a token in its line. -/
def spacing (s : FormatState) (kind : TokenKind) : Bytes :=
  if s.atLineStart = true then indentation s.indent
  else if isBinaryOperator kind = true ∨ isBinaryOperator s.previousKind = true then ascii " "
  else if kind = .leftBrace then ascii " "
  else if kind = .comma then []
  else if s.previousKind = .comma then ascii " "
  else if isWordToken kind = true ∧ isWordToken s.previousKind = true then ascii " "
  else if startsCompact kind = false ∧ endsCompact s.previousKind = false then ascii " "
  else []

/-- The kind and the name of the block that a `{` opens; the tokens in front of it stand latest first. -/
def openedBlock (s : FormatState) (earlier : List Token) : TokenKind × Bytes :=
  match s.previousKind, earlier with
  | .identifier, name :: kind :: _ => (kind.kind, name.lexeme)
  | _, _ => (s.previousKind, [])

/-- The new line behind a `}`, unless the source ends. -/
def afterBrace (token : Token) (next : Option Token) (s : FormatState) : Bytes × FormatState :=
  match next with
  | none => ([], s)
  | some next =>
    if next.kind = .endOfFile then ([], s)
    else newline (decide (s.indent = 0) || decide (token.range.end'.line + 1 < next.range.begin.line)) s

/-- The block that a `}` closes is left. -/
def closeBlock (kind : TokenKind) (s : FormatState) : FormatState :=
  { s with
    indent := s.indent - 1, blockStack := s.blockStack.tail, blockNameStack := s.blockNameStack.tail,
    atLineStart := false, previousKind := kind }

/-- The iteration for a `}`, behind the check for a new line. -/
def closeBrace (token : Token) (next : Option Token) (s : FormatState) : Written × FormatState :=
  let opened := if s.atLineStart = true then ([], s) else newline false s
  let closed := closeBlock token.kind opened.2
  let after := afterBrace token next closed
  (⟨opened.1 ++ indentation closed.indent, after.1⟩, { after.2 with previousSourceLine := token.range.begin.line })

/-- The new line behind a `{` and a `;`. -/
def behindToken (earlier : List Token) (token : Token) (s : FormatState) : Bytes × FormatState :=
  if token.kind = .leftBrace then
    newline false { s with
      blockStack := (openedBlock s earlier).1 :: s.blockStack,
      blockNameStack := (openedBlock s earlier).2 :: s.blockNameStack, indent := s.indent + 1 }
  else if token.kind = .semicolon then newline false s
  else ([], s)

/-- The iteration for another token. -/
def placeToken (earlier : List Token) (token : Token) (s : FormatState) : Written × FormatState :=
  let after := behindToken earlier token { s with atLineStart := false }
  (⟨spacing s token.kind, after.1⟩,
    { after.2 with previousKind := token.kind, previousSourceLine := token.range.begin.line })

/-- An iteration. -/
def formatToken (earlier : List Token) (token : Token) (next : Option Token) (s : FormatState) : Written × FormatState :=
  let broken := breakLine s token
  let placed :=
    if token.kind = .rightBrace then closeBrace token next broken.2 else placeToken earlier token broken.2
  ({ placed.1 with before := broken.1 ++ placed.1.before }, placed.2)

/-- The loop. -/
def formatFrom (earlier : List Token) : List Token → FormatState → Bytes
  | [], _ => []
  | token :: rest, s =>
    if token.kind = .endOfFile then []
    else
      let formatted := formatToken earlier token rest.head? s
      formatted.1.before ++ token.lexeme ++ formatted.1.behind ++ formatFrom (token :: earlier) rest formatted.2

/-- `format_tokens`. -/
def formatTokens (tokens : List Token) (diagnostics : Diagnostics) : Bytes :=
  if hasErrors diagnostics = true then []
  else (formatFrom [] tokens {}).rdropWhile (fun ch => ch == byte '\n') ++ ascii "\n"

/-! ## Layout -/

/-- What is written, with gaps and tokens apart; `pending` is what stands behind the token before. -/
def formatPieces (pending : Bytes) (earlier : List Token) : List Token → FormatState → List Piece
  | [], _ => []
  | token :: rest, s =>
    if token.kind = .endOfFile then []
    else
      let formatted := formatToken earlier token rest.head? s
      ⟨pending ++ formatted.1.before, token.kind, token.lexeme⟩ ::
        formatPieces formatted.1.behind (token :: earlier) rest formatted.2

/-! ### New lines -/

/-- How many line breaks `newline` writes. -/
def newlines (blankAfter : Bool) (s : FormatState) : Nat :=
  if blankAfter = true ∧ s.previousWasBlankLine = false then 2 else 1

theorem newline_eq (blankAfter : Bool) (s : FormatState) :
    newline blankAfter s = (List.replicate (newlines blankAfter s) (byte '\n'),
      { s with
        atLineStart := true, previousKind := .endOfFile,
        previousWasBlankLine := decide (newlines blankAfter s = 2) }) := by
  unfold newline newlines
  split <;> rfl

theorem newlines_pos (blankAfter : Bool) (s : FormatState) : 1 ≤ newlines blankAfter s := by
  unfold newlines
  split <;> omega

/-- The token goes to a new line, or is a `}`, which does so in any case. -/
def opensLine (s : FormatState) (token : Token) : Bool :=
  breaksLine s token || !s.atLineStart && token.kind == .rightBrace

/-- The new line in front of a token. -/
def toLine (s : FormatState) (token : Token) : Bytes × FormatState :=
  if opensLine s token = true then newline (decide (s.previousSourceLine + 1 < token.range.begin.line)) s
  else ([], s)

theorem breaksLine_of_start {s : FormatState} {token : Token} (h : s.atLineStart = true) :
    breaksLine s token = false := by
  rw [breaksLine, h]
  rfl

theorem toLine_of_start {s : FormatState} {token : Token} (h : s.atLineStart = true) : toLine s token = ([], s) := by
  have hnot : ¬ opensLine s token = true := by
    rw [opensLine, breaksLine_of_start h, h]
    exact Bool.false_ne_true
  rw [toLine, if_neg hnot]

section

variable {earlier : List Token} {token : Token} {next : Option Token} {s : FormatState}

theorem formatToken_place (hkind : token.kind ≠ .rightBrace) :
    formatToken earlier token next s =
      ({ (placeToken earlier token (toLine s token).2).1 with
          before := (toLine s token).1 ++ spacing (toLine s token).2 token.kind },
        (placeToken earlier token (toLine s token).2).2) := by
  have hline : breakLine s token = toLine s token := by
    have hopens : opensLine s token = breaksLine s token := by
      rw [opensLine, beq_eq_false_iff_ne.mpr hkind, Bool.and_false, Bool.or_false]
    rw [breakLine, toLine, hopens]
  rw [formatToken, hline]
  dsimp only
  rw [if_neg hkind]
  rfl

theorem formatToken_close (hkind : token.kind = .rightBrace) :
    formatToken earlier token next s =
      (⟨(toLine s token).1 ++ indentation (closeBlock token.kind (toLine s token).2).indent,
          (afterBrace token next (closeBlock token.kind (toLine s token).2)).1⟩,
        { (afterBrace token next (closeBlock token.kind (toLine s token).2)).2 with
          previousSourceLine := token.range.begin.line }) := by
  -- where the check for a new line writes none, the `}` itself is told to
  have hline : toLine s token =
      ((breakLine s token).1 ++
          (if (breakLine s token).2.atLineStart = true then ([], (breakLine s token).2)
            else newline false (breakLine s token).2).1,
        (if (breakLine s token).2.atLineStart = true then ([], (breakLine s token).2)
          else newline false (breakLine s token).2).2) := by
    cases hstart : s.atLineStart with
    | true =>
      have hbreak : breakLine s token = ([], s) := by
        rw [breakLine, breaksLine_of_start hstart, if_neg Bool.false_ne_true]
      rw [toLine_of_start hstart, hbreak, if_pos hstart]
      rfl
    | false =>
      have hopens : opensLine s token = true := by
        rw [opensLine, hstart, hkind]
        exact Bool.or_true _
      rw [toLine, if_pos hopens]
      cases hbreaks : breaksLine s token with
      | true =>
        rw [breakLine, if_pos hbreaks, newline_eq]
        dsimp only
        rw [if_pos rfl, List.append_nil]
      | false =>
        have hline : ¬ s.previousSourceLine + 1 < token.range.begin.line := by
          rw [breaksLine, hstart] at hbreaks
          have hor := (Bool.or_eq_false_iff.mp hbreaks).1
          have hle := of_decide_eq_false hor
          omega
        have hbreak : breakLine s token = ([], s) := by
          rw [breakLine, hbreaks, if_neg Bool.false_ne_true]
        rw [hbreak, decide_eq_false hline, if_neg (by rw [hstart]; exact Bool.false_ne_true)]
        rfl
  rw [formatToken, hline]
  dsimp only
  rw [if_pos hkind, closeBrace, List.append_assoc]

end

/-! ### What is written around a token -/

/-- Line breaks only. -/
def AllBreaks (bytes : Bytes) : Prop := ∀ ch ∈ bytes, ch = byte '\n'

/-- Blanks only. -/
def AllBlanks (bytes : Bytes) : Prop := ∀ ch ∈ bytes, isBlank ch = true

theorem allBreaks_nil : AllBreaks [] := nofun

theorem AllBreaks.blanks {bytes : Bytes} (h : AllBreaks bytes) : AllBlanks bytes := by
  intro ch hch
  rw [h ch hch]
  decide

theorem AllBlanks.append {bytes more : Bytes} (h : AllBlanks bytes) (hmore : AllBlanks more) :
    AllBlanks (bytes ++ more) := by
  intro ch hch
  rcases List.mem_append.mp hch with hch | hch
  · exact h ch hch
  · exact hmore ch hch

theorem allBreaks_newline (blankAfter : Bool) (s : FormatState) : AllBreaks (newline blankAfter s).1 := by
  rw [newline_eq]
  exact fun ch hch => List.eq_of_mem_replicate hch

theorem allBreaks_toLine (s : FormatState) (token : Token) : AllBreaks (toLine s token).1 := by
  unfold toLine
  split
  · exact allBreaks_newline _ _
  · exact nofun

theorem allBlanks_indentation (indent : Nat) : AllBlanks (indentation indent) := by
  intro ch hch
  rw [List.eq_of_mem_replicate hch]
  decide

theorem allBlanks_spacing (s : FormatState) (kind : TokenKind) : AllBlanks (spacing s kind) := by
  have hblank : AllBlanks (ascii " ") := List.all_eq_true.mp (by decide)
  have hnone : AllBlanks [] := nofun
  unfold spacing
  split
  · exact allBlanks_indentation _
  split
  · exact hblank
  split
  · exact hblank
  split
  · exact hnone
  split
  · exact hblank
  split
  · exact hblank
  split
  · exact hblank
  · exact hnone

/-- New lines begin behind tokens of these kinds. -/
def endsLine (kind : TokenKind) : Bool := decide (kind ∈ [.leftBrace, .rightBrace, .semicolon])

/-- Behind a `}` a new line begins where another token follows. -/
theorem afterBrace_cases (token : Token) (next : Option Token) (s : FormatState) :
    (afterBrace token next s = ([], s) ∧ ∀ n ∈ next, n.kind = .endOfFile) ∨
      ∃ n, next = some n ∧ n.kind ≠ .endOfFile ∧ afterBrace token next s =
        newline (decide (s.indent = 0) || decide (token.range.end'.line + 1 < n.range.begin.line)) s := by
  cases next with
  | none => exact .inl ⟨rfl, nofun⟩
  | some n =>
    by_cases hend : n.kind = .endOfFile
    · refine .inl ⟨by rw [afterBrace, if_pos hend], ?_⟩
      rintro other ⟨⟩
      exact hend
    · exact .inr ⟨n, rfl, hend, by rw [afterBrace, if_neg hend]⟩

/-- Behind a `{` and a `;` one begins in any case, and behind other tokens none. -/
theorem behindToken_cases (earlier : List Token) (token : Token) (s : FormatState) :
    (endsLine token.kind = true ∧ ∃ opened, behindToken earlier token s = newline false opened) ∨
      behindToken earlier token s = ([], s) := by
  unfold behindToken
  split
  · rename_i hkind
    refine .inl ⟨?_, _, rfl⟩
    rw [hkind]
    rfl
  split
  · rename_i hkind
    refine .inl ⟨?_, _, rfl⟩
    rw [hkind]
    rfl
  · exact .inr rfl

section

variable (earlier : List Token) (token : Token) (next : Option Token) (s : FormatState)

theorem allBlanks_before : AllBlanks (formatToken earlier token next s).1.before := by
  have hline := (allBreaks_toLine s token).blanks
  by_cases hkind : token.kind = .rightBrace
  · rw [formatToken_close hkind]
    exact hline.append (allBlanks_indentation _)
  · rw [formatToken_place hkind]
    exact hline.append (allBlanks_spacing _ _)

theorem allBreaks_behind : AllBreaks (formatToken earlier token next s).1.behind := by
  by_cases hkind : token.kind = .rightBrace
  · rw [formatToken_close hkind]
    show AllBreaks (afterBrace _ _ _).1
    rcases afterBrace_cases token next (closeBlock token.kind (toLine s token).2) with ⟨heq, -⟩ | ⟨n, -, -, heq⟩
    · rw [heq]
      exact allBreaks_nil
    · rw [heq]
      exact allBreaks_newline _ _
  · rw [formatToken_place hkind]
    show AllBreaks (behindToken _ _ _).1
    rcases behindToken_cases earlier token { (toLine s token).2 with atLineStart := false } with
      ⟨-, opened, heq⟩ | heq
    · rw [heq]
      exact allBreaks_newline _ _
    · rw [heq]
      exact allBreaks_nil

end

/-! ### The text -/

/-- The tokens in front of the end. -/
def written (tokens : List Token) : List Token := tokens.takeWhile fun token => token.kind != .endOfFile

theorem written_cons {token : Token} {tokens : List Token} (h : token.kind ≠ .endOfFile) :
    written (token :: tokens) = token :: written tokens := by
  rw [written, List.takeWhile_cons, if_pos (bne_iff_ne.mpr h)]
  rfl

/-- The pieces are the tokens. -/
theorem spellings_formatPieces (pending : Bytes) (earlier tokens : List Token) (s : FormatState) :
    (formatPieces pending earlier tokens s).map Piece.spelling = (written tokens).map Token.spelling := by
  induction tokens generalizing pending earlier s with
  | nil => rfl
  | cons token rest ih =>
    rw [formatPieces]
    by_cases hend : token.kind = .endOfFile
    · rw [if_pos hend, written, List.takeWhile_cons, hend]
      rfl
    · rw [if_neg hend, written_cons hend, List.map_cons, List.map_cons, ih]
      rfl

/-- What the loop writes is the text of the pieces, with line breaks behind the last one. -/
theorem formatFrom_eq {pending : Bytes} (hpending : AllBreaks pending) (earlier tokens : List Token)
    (s : FormatState) : ∃ ending, AllBreaks ending ∧
      pending ++ formatFrom earlier tokens s = laidText (formatPieces pending earlier tokens s) ending := by
  induction tokens generalizing pending earlier s with
  | nil => exact ⟨pending, hpending, List.append_nil pending⟩
  | cons token rest ih =>
    rw [formatFrom, formatPieces]
    split
    · exact ⟨pending, hpending, List.append_nil pending⟩
    · obtain ⟨ending, hending, heq⟩ := ih (allBreaks_behind earlier token rest.head? s) (token :: earlier)
        (formatToken earlier token rest.head? s).2
      refine ⟨ending, hending, ?_⟩
      rw [laidText, ← heq]
      simp only [List.append_assoc]

/-- A text that does not end with a line break. -/
def EndsInLine (text : Bytes) : Prop := text.getLast? ≠ some (byte '\n')

theorem EndsInLine.append {text more : Bytes} (hmore : EndsInLine more) (hne : more ≠ []) :
    EndsInLine (text ++ more) := by
  have hlast : (text ++ more).getLast? = more.getLast? := by
    rw [List.getLast?_append, List.getLast?_eq_some_getLast hne, Option.some_or]
  rw [EndsInLine, hlast]
  exact hmore

/-- The text of pieces ends with the last of them. -/
theorem endsInLine_laidText {pieces : List Piece}
    (h : ∀ piece ∈ pieces, piece.lexeme ≠ [] ∧ EndsInLine piece.lexeme) : EndsInLine (laidText pieces []) := by
  induction pieces with
  | nil => exact nofun
  | cons piece rest ih =>
    obtain ⟨⟨hne, hpiece⟩, hrest⟩ := List.forall_mem_cons.mp h
    rw [laidText]
    cases rest with
    | nil =>
      rw [laidText, List.append_nil]
      exact hpiece.append hne
    | cons next rest =>
      have hnext : laidText (next :: rest) [] ≠ [] := by
        have hlexeme := (hrest next List.mem_cons_self).1
        rw [laidText]
        exact List.append_ne_nil_of_right_ne_nil _ (List.append_ne_nil_of_left_ne_nil hlexeme _)
      exact ((ih hrest).append hnext).append (List.append_ne_nil_of_right_ne_nil _ hnext)

theorem rdropWhile_breaks {text ending : Bytes} (htext : EndsInLine text) (hending : AllBreaks ending) :
    (text ++ ending).rdropWhile (fun ch => ch == byte '\n') = text := by
  induction ending using List.reverseRecOn with
  | nil =>
    rw [List.append_nil, List.rdropWhile_eq_self_iff]
    intro hne hlast
    rw [EndsInLine, List.getLast?_eq_some_getLast hne, beq_iff_eq.mp hlast] at htext
    exact htext rfl
  | append_singleton ending ch ih =>
    have hch : ch = byte '\n' := hending ch (List.mem_append_right _ List.mem_cons_self)
    rw [← List.append_assoc, List.rdropWhile_concat_pos (fun ch => ch == byte '\n') _ ch (beq_iff_eq.mpr hch)]
    exact ih fun other hother => hending other (List.mem_append_left _ hother)

/-- **What is written is the text of the pieces**, in lines. -/
theorem formatTokens_eq {tokens : List Token} {diagnostics : Diagnostics} (hclean : hasErrors diagnostics = false)
    (h : ∀ token ∈ written tokens, token.lexeme ≠ [] ∧ EndsInLine token.lexeme) :
    formatTokens tokens diagnostics = laidText (formatPieces [] [] tokens {}) (ascii "\n") := by
  obtain ⟨ending, hending, heq⟩ := formatFrom_eq allBreaks_nil [] tokens {}
  have hpieces : ∀ piece ∈ formatPieces [] [] tokens {}, piece.lexeme ≠ [] ∧ EndsInLine piece.lexeme := by
    intro piece hpiece
    have hspelling := List.mem_map_of_mem (f := Piece.spelling) hpiece
    rw [spellings_formatPieces] at hspelling
    obtain ⟨token, htoken, hsame⟩ := List.mem_map.mp hspelling
    have hlexeme : token.lexeme = piece.lexeme := congrArg Prod.snd hsame
    rw [← hlexeme]
    exact h token htoken
  rw [List.nil_append, laidText_behind] at heq
  rw [formatTokens, hclean, if_neg Bool.false_ne_true, heq, rdropWhile_breaks (endsInLine_laidText hpieces) hending,
    ← laidText_behind]

/-! ## Between tokens -/

/-- The loop stands behind the token, and `pending` is written behind it. -/
structure Follows (token : Token) (pending : Bytes) (s : FormatState) : Prop where
  line : s.previousSourceLine = token.range.begin.line
  atStart : s.atLineStart = true → pending ≠ [] ∧ endsLine token.kind = true
  inLine : s.atLineStart = false → pending = [] ∧ s.previousKind = token.kind

theorem newline_ne_nil (blankAfter : Bool) (s : FormatState) : (newline blankAfter s).1 ≠ [] := by
  intro hnil
  rw [newline_eq] at hnil
  have hzero : newlines blankAfter s = 0 := by
    have hlength := congrArg List.length hnil
    rwa [List.length_replicate] at hlength
  have hpos := newlines_pos blankAfter s
  omega

theorem follows_formatToken (earlier : List Token) (token : Token) (next : Option Token) (s : FormatState) :
    Follows token (formatToken earlier token next s).1.behind (formatToken earlier token next s).2 := by
  by_cases hkind : token.kind = .rightBrace
  · rw [formatToken_close hkind]
    dsimp only
    rcases afterBrace_cases token next (closeBlock token.kind (toLine s token).2) with ⟨heq, -⟩ | ⟨n, -, -, heq⟩
    · rw [heq]
      exact ⟨rfl, fun hstart => absurd hstart Bool.false_ne_true, fun _ => ⟨rfl, rfl⟩⟩
    · rw [heq]
      refine ⟨rfl, fun _ => ⟨newline_ne_nil _ _, ?_⟩, fun hstart => ?_⟩
      · rw [hkind]
        rfl
      · rw [newline_eq] at hstart
        cases hstart
  · rw [formatToken_place hkind, placeToken]
    dsimp only
    rcases behindToken_cases earlier token { (toLine s token).2 with atLineStart := false } with
      ⟨hends, opened, heq⟩ | heq
    · rw [heq]
      refine ⟨rfl, fun _ => ⟨newline_ne_nil _ _, hends⟩, fun hstart => ?_⟩
      rw [newline_eq] at hstart
      cases hstart
    · rw [heq]
      exact ⟨rfl, fun hstart => absurd hstart Bool.false_ne_true, fun _ => ⟨rfl, rfl⟩⟩

section

variable {previous : Token} {pending : Bytes} {s : FormatState}

/-- Where nothing is written in front of a token, it stands in the line of the one before. -/
theorem Follows.inLine_of_nil (h : Follows previous pending s) {earlier : List Token} {token : Token}
    {next : Option Token} (hnil : pending ++ (formatToken earlier token next s).1.before = []) :
    s.atLineStart = false ∧ spacing s token.kind = [] ∧
      token.range.begin.line ≤ previous.range.begin.line := by
  obtain ⟨hpending, hbefore⟩ := List.append_eq_nil_iff.mp hnil
  have hstart : s.atLineStart = false := by
    cases hstart : s.atLineStart with
    | false => rfl
    | true => exact absurd hpending (h.atStart hstart).1
  have hline : (toLine s token).1 = [] ∧ (token.kind ≠ .rightBrace → spacing (toLine s token).2 token.kind = []) := by
    by_cases hkind : token.kind = .rightBrace
    · rw [formatToken_close hkind] at hbefore
      exact ⟨(List.append_eq_nil_iff.mp hbefore).1, fun hnot => absurd hkind hnot⟩
    · rw [formatToken_place hkind] at hbefore
      obtain ⟨hline, hspacing⟩ := List.append_eq_nil_iff.mp hbefore
      exact ⟨hline, fun _ => hspacing⟩
  have hopens : ¬ opensLine s token = true := by
    intro hopens
    rw [toLine, if_pos hopens] at hline
    exact newline_ne_nil _ _ hline.1
  rw [toLine, if_neg hopens] at hline
  rw [opensLine, breaksLine, hstart, Bool.or_eq_true, not_or] at hopens
  obtain ⟨hbreaks, hclose⟩ := hopens
  refine ⟨hstart, hline.2 fun hkind => hclose (by rw [hkind]; rfl), ?_⟩
  rw [← h.line]
  by_contra hlater
  exact hbreaks (by rw [decide_eq_true (not_le.mp hlater)]; rfl)

theorem startsMember_of_kind {token : Token} (hidentifier : token.kind ≠ .identifier)
    (hterminal : token.kind ≠ .keywordTerminal) : startsMember s token = false := by
  have hflag : isFeatureFlagMemberStart token = false := decide_eq_false fun h => hidentifier h.1
  have hcollection : isGarbageCollectionMemberStart token = false := decide_eq_false fun h => hidentifier h.1
  have hoption : isStateOptionMemberStart token = false :=
    decide_eq_false fun h => h.elim hterminal fun h => hidentifier h.1
  rw [startsMember, hflag, hcollection, hoption, Bool.and_false, Bool.and_false, Bool.and_false]
  rfl

/-- In the line of the one before, what is written in front of a token is what keeps them apart. -/
theorem Follows.gap_of_line (h : Follows previous pending s) (earlier : List Token) (token : Token)
    (next : Option Token) (hends : endsLine previous.kind = false) (hclose : token.kind ≠ .rightBrace)
    (hmember : startsMember s token = false) (hline : token.range.begin.line ≤ previous.range.begin.line) :
    pending ++ (formatToken earlier token next s).1.before = spacing s token.kind ∧
      s.atLineStart = false ∧ s.previousKind = previous.kind := by
  have hstart : s.atLineStart = false := by
    cases hstart : s.atLineStart with
    | false => rfl
    | true =>
      rw [(h.atStart hstart).2] at hends
      cases hends
  obtain ⟨hpending, hkind⟩ := h.inLine hstart
  have hopens : ¬ opensLine s token = true := by
    have hsame : ¬ s.previousSourceLine < token.range.begin.line := by rw [h.line]; omega
    rw [opensLine, breaksLine, hmember, decide_eq_false hsame, beq_eq_false_iff_ne.mpr hclose, hstart]
    exact Bool.false_ne_true
  refine ⟨?_, hstart, hkind⟩
  rw [formatToken_place hclose, hpending, toLine, if_neg hopens]
  rfl

end

end StateSpec.Compiler
