/-
  THE TOKENS OF A FORMATTED TEXT.

  1. **Lines** — the lexer counts them: a token begins as many lines behind the one before as there are line
     breaks between them (`LinesUp`, `lex_of_lays`).
  2. **Apart** — where the formatter writes nothing between two tokens, the first does not go on with the second
     (`compact_apart`).  The one exception is a number, a `.` and digits in one line: they make one number
     (`Glued`, `glued_of_goesOn`, `goesOn_of_glued`).
  3. **Correctness** — what is written has the tokens of the source where nothing is glued (`lays_formatPieces`),
     and there only (`numbersApart_of_renders`).
-/
import StateSpec.Compiler.Formatter

namespace StateSpec.Compiler

/-! ## Lines -/

/-- How many line breaks there are. -/
def breaks (bytes : Bytes) : Nat := bytes.count (byte '\n')

@[simp]
theorem breaks_append (bytes more : Bytes) : breaks (bytes ++ more) = breaks bytes + breaks more :=
  List.count_append

@[simp]
theorem breaks_nil : breaks [] = 0 := rfl

@[simp]
theorem breaks_replicate (n : Nat) : breaks (List.replicate n (byte '\n')) = n := List.count_replicate_self

/-- The tokens are those of the pieces, and the lexer has met the first piece in this line. -/
inductive LinesUp : Nat → List Piece → List Token → Prop
  | done {line last} (h : last.spelling = endSpelling) : LinesUp line [] [last]
  | token {line piece rest token tokens} (hspelling : token.spelling = piece.spelling)
      (hkind : token.kind ≠ .endOfFile) (hbegin : token.range.begin.line = line + breaks piece.gap)
      (hend : token.range.end'.line = token.range.begin.line + breaks piece.lexeme)
      (hrest : LinesUp token.range.end'.line rest tokens) : LinesUp line (piece :: rest) (token :: tokens)

theorem pastAll_line (location : SourceLocation) (bytes : Bytes) :
    (location.pastAll bytes).line = location.line + breaks bytes := by
  induction bytes generalizing location with
  | nil => rfl
  | cons ch bytes ih =>
    show ((location.past ch).pastAll bytes).line = _
    rw [ih, SourceLocation.past, breaks, breaks, List.count_cons]
    by_cases hch : ch = byte '\n'
    · rw [if_pos hch, if_pos (beq_iff_eq.mpr hch)]
      show location.line + 1 + _ = _
      omega
    · rw [if_neg hch, if_neg fun heq => hch (beq_iff_eq.mp heq)]
      rfl

theorem Reads.line {p q : Place} {bytes : Bytes} (h : Reads p bytes q) :
    q.location.line = p.location.line + breaks bytes := by
  rw [h.location, pastAll_line]

/-- The scanner finds the pieces of what is left, in their lines. -/
theorem scan_of_lays {text before ending : Bytes} {fuel : Nat} {pieces : List Piece} {p : Place}
    (h : Reads ⟨{}, text⟩ before p) (hlays : Lays ending pieces) (hp : p.rest = laidText pieces ending)
    (hfuel : p.rest.length < fuel) :
    ∃ tokens, scan text fuel p = some (tokens, []) ∧ LinesUp p.location.line pieces tokens := by
  induction fuel generalizing p before pieces with
  | zero => exact absurd hfuel (Nat.not_lt_zero _)
  | succ fuel ih =>
    cases hlays with
    | @done how htrivia hhow =>
      obtain ⟨q, hq, hqrest⟩ := skipTrivia_gap htrivia hhow (fun _ => rfl) rfl
        (by rw [hp, laidText, List.append_nil]) hfuel
      rw [scan, hq, Option.bind_some]
      dsimp only
      rw [if_pos (by rw [Place.isAtEnd, hqrest]; rfl)]
      exact ⟨_, rfl, .done rfl⟩
    | @token gap kind lexeme rest htrivia hlexeme happart hrest =>
      rw [laidText] at hp
      obtain ⟨q, hq, hqrest⟩ := skipTrivia_gap htrivia (by decide) (fun hne => absurd rfl hne)
        (hlexeme.not_startsTrivia happart) hp hfuel
      obtain ⟨bytes, how, hskips⟩ := skips_trivia hq
      obtain rfl : bytes = gap := by
        have hread := hskips.reads.rest
        rw [hp, hqrest] at hread
        exact (List.append_cancel_right hread).symm
      have hbefore := h.trans hskips.reads
      obtain ⟨token, q', hnext, hspelling, hread, hrest'⟩ :=
        nextToken_of_lexeme hbefore hqrest hlexeme happart
      have hpos := List.length_pos_iff.mpr hlexeme.ne_nil
      have hlength := hskips.reads.length
      rw [hqrest, List.length_append] at hlength
      obtain ⟨tokens, hscan, htokens⟩ := ih (hbefore.trans hread) hrest hrest' (by rw [hrest']; omega)
      have hrange : token.range = { begin := q.location, end' := q'.location } := by
        have htoken : token = (nextToken text q).1 := by rw [hnext]
        have hplace : q' = (nextToken text q).2.1 := by rw [hnext]
        rw [htoken, hplace]
        rfl
      rw [scan, hq, Option.bind_some]
      dsimp only
      rw [if_neg (by
        rw [Place.isAtEnd, hqrest, List.isEmpty_iff]
        exact List.append_ne_nil_of_left_ne_nil hlexeme.ne_nil _), hnext, hscan]
      refine ⟨_, rfl, .token hspelling ?_ ?_ ?_ ?_⟩
      · rw [show token.kind = kind from congrArg Prod.fst hspelling]
        exact hlexeme.ne_endOfFile
      · rw [hrange]
        exact hskips.reads.line
      · rw [hrange]
        exact hread.line
      · rw [hrange]
        exact htokens

/-- **The lexer of a laid-out text** finds its pieces, in their lines. -/
theorem lex_of_lays {ending : Bytes} {pieces : List Piece} (h : Lays ending pieces) :
    ∃ tokens, lex (laidText pieces ending) = some (tokens, []) ∧ LinesUp 1 pieces tokens :=
  scan_of_lays (Reads.refl _) h rfl (Nat.lt_succ_self _)

/-- The tokens of a text without errors are laid out in it. -/
theorem lays_of_lex {text : Bytes} {tokens : List Token} {diagnostics : Diagnostics}
    (hlex : lex text = some (tokens, diagnostics)) (hclean : hasErrors diagnostics = false) :
    ∃ pieces ending, Lays ending pieces ∧ laidText pieces ending = text ∧ LinesUp 1 pieces tokens ∧
      diagnostics = [] := by
  obtain ⟨spellings, -, hrenders⟩ := renders_of_scan (Reads.refl ⟨{}, text⟩) hlex hclean
  obtain ⟨pieces, ending, hlays, rfl, -⟩ := exists_lays hrenders
  obtain ⟨tokens', hlex', hlines⟩ := lex_of_lays hlays
  rw [hlex] at hlex'
  obtain ⟨rfl, rfl⟩ := Prod.mk.inj (Option.some.inj hlex')
  exact ⟨pieces, ending, hlays, rfl, hlines, rfl⟩

namespace LinesUp

variable {line : Nat} {pieces : List Piece} {tokens : List Token}

/-- The tokens in front of the end are those of the pieces. -/
theorem written_spellings (h : LinesUp line pieces tokens) :
    (written tokens).map Token.spelling = pieces.map Piece.spelling := by
  induction h with
  | @done line last hlast =>
    have hkind : last.kind = .endOfFile := congrArg Prod.fst hlast
    rw [written, List.takeWhile_cons, hkind]
    rfl
  | token hspelling hkind _ _ _ ih => rw [written_cons hkind, List.map_cons, List.map_cons, hspelling, ih]

theorem spellings (h : LinesUp line pieces tokens) :
    tokens.map Token.spelling = pieces.map Piece.spelling ++ [endSpelling] := by
  induction h with
  | done hlast => rw [List.map_singleton, hlast]; rfl
  | token hspelling _ _ _ _ ih => rw [List.map_cons, List.map_cons, hspelling, ih]; rfl

end LinesUp
/-! ## Beginnings of tokens -/

theorem beginsWith_append {test : UInt8 → Bool} {bytes : Bytes} (h : bytes ≠ []) (rest : Bytes) :
    beginsWith test (bytes ++ rest) = beginsWith test bytes := by
  rw [beginsWith, beginsWith, List.head?_append_of_ne_nil _ h]

namespace Lexeme

variable {kind : TokenKind} {lexeme : Bytes}

/-- A number begins with a `-` or a digit. -/
theorem begins_number (h : Lexeme kind lexeme) (hkind : kind = .integerLiteral ∨ kind = .decimalLiteral) :
    beginsWith (fun ch => ch == byte '-' || isDigit ch) lexeme = true := by
  have hdigits : ∀ {sign digits : Bytes}, (sign = [] ∨ sign = [byte '-']) → digits ≠ [] →
      (∀ ch ∈ digits, isDigit ch = true) → ∀ rest,
      beginsWith (fun ch => ch == byte '-' || isDigit ch) (sign ++ digits ++ rest) = true := by
    intro sign digits hsign hne hall rest
    rcases hsign with rfl | rfl
    · cases digits with
      | nil => exact absurd rfl hne
      | cons ch digits =>
        show (ch == byte '-' || isDigit ch) = true
        rw [hall ch List.mem_cons_self, Bool.or_true]
    · rfl
  cases h with
  | symbol hmem =>
    have hall : ∀ symbol ∈ symbols, symbol.1 ≠ .integerLiteral ∧ symbol.1 ≠ .decimalLiteral := by decide
    obtain ⟨hinteger, hdecimal⟩ := hall _ hmem
    exact absurd hkind (not_or.mpr ⟨hinteger, hdecimal⟩)
  | string _ => rcases hkind with hkind | hkind <;> cases hkind
  | integer hsign hne hall =>
    have hbegins := hdigits hsign hne hall []
    rwa [List.append_nil] at hbegins
  | decimal hsign hne hall _ _ => exact hdigits hsign hne hall _
  | @word ch rest _ _ =>
    have hword := isWordKind_wordKind (ch :: rest)
    rcases hkind with hkind | hkind
    · rw [hkind] at hword
      cases hword
    · rw [hkind] at hword
      cases hword

/-- What begins with a byte of a word or a number is one. -/
theorem kind_of_part (h : Lexeme kind lexeme) (hpart : beginsWith isIdentifierPart lexeme = true) :
    isWordKind kind = true ∨ kind = .integerLiteral ∨ kind = .decimalLiteral := by
  cases h with
  | symbol hmem =>
    have hall : ∀ symbol ∈ symbols, beginsWith isIdentifierPart symbol.2 = false := by decide
    rw [hall _ hmem] at hpart
    cases hpart
  | string _ =>
    have hquote : isIdentifierPart quote = true := hpart
    exact absurd hquote (by decide)
  | integer _ _ _ => exact .inr (.inl rfl)
  | decimal _ _ _ _ _ => exact .inr (.inr rfl)
  | word _ _ => exact .inl (isWordKind_wordKind _)

/-- What begins with a `=` or a `.` is a symbol. -/
theorem symbol_of_begins {c : UInt8} (h : Lexeme kind lexeme) (hbegins : beginsWith (· == c) lexeme = true)
    (hc : c = byte '=' ∨ c = byte '.') : (kind, lexeme) ∈ symbols := by
  have hstart : isIdentifierStart c = false ∧ isDigit c = false ∧ c ≠ byte '-' ∧ c ≠ quote := by
    rcases hc with rfl | rfl <;> decide
  obtain ⟨hletter, hdigit, hminus, hquote⟩ := hstart
  have hhead : ∃ rest, lexeme = c :: rest := by
    cases lexeme with
    | nil => cases hbegins
    | cons ch rest => exact ⟨rest, by rw [beq_iff_eq.mp (show (ch == c) = true from hbegins)]⟩
  obtain ⟨rest, rfl⟩ := hhead
  have hnumber : ¬ (kind = .integerLiteral ∨ kind = .decimalLiteral) := by
    intro hkind
    have hfirst : (c == byte '-' || isDigit c) = true := h.begins_number hkind
    rw [hdigit, Bool.or_false] at hfirst
    exact hminus (beq_iff_eq.mp hfirst)
  generalize hlexeme : c :: rest = lexeme at h
  cases h with
  | symbol hmem => exact hmem
  | string _ => exact absurd (List.cons.inj hlexeme).1 hquote
  | integer _ _ _ => exact absurd (.inl rfl) hnumber
  | decimal _ _ _ _ _ => exact absurd (.inr rfl) hnumber
  | word hletter' _ =>
    rw [← (List.cons.inj hlexeme).1, hletter] at hletter'
    cases hletter'

/-- No token ends with a line break. -/
theorem endsInLine (h : Lexeme kind lexeme) : EndsInLine lexeme := by
  intro hlast
  have hmem := List.mem_of_getLast? hlast
  cases h with
  | symbol hmem' =>
    have hall : ∀ symbol ∈ symbols, byte '\n' ∉ symbol.2 := by decide
    exact hall _ hmem' hmem
  | string _ =>
    rw [← List.cons_append, List.getLast?_concat] at hlast
    exact absurd (Option.some.inj hlast) (by decide)
  | integer hsign _ hall =>
    rcases List.mem_append.mp hmem with hmem | hmem
    · rcases hsign with rfl | rfl
      · cases hmem
      · exact absurd (List.mem_singleton.mp hmem) (by decide)
    · cases hall _ hmem
  | decimal hsign _ hall _ hall' =>
    rcases List.mem_append.mp hmem with hmem | hmem
    · rcases List.mem_append.mp hmem with hmem | hmem
      · rcases hsign with rfl | rfl
        · cases hmem
        · exact absurd (List.mem_singleton.mp hmem) (by decide)
      · cases hall _ hmem
    · rcases List.mem_cons.mp hmem with hdot | hmem
      · exact absurd hdot (by decide)
      · cases hall' _ hmem
  | word hstart hall =>
    rcases List.mem_cons.mp hmem with rfl | hmem
    · cases hstart
    · cases hall _ hmem

end Lexeme

/-! ## Apart -/

/-- Nothing stands between the tokens of two kinds. -/
structure Compact (previous kind : TokenKind) : Prop where
  operator : isBinaryOperator kind = false
  behindOperator : isBinaryOperator previous = false
  words : kind ≠ .comma → ¬ (isWordToken kind = true ∧ isWordToken previous = true)
  symbol : kind ≠ .comma → startsCompact kind = true ∨ endsCompact previous = true

theorem compact_of_spacing {s : FormatState} {kind : TokenKind} (hstart : s.atLineStart = false)
    (h : spacing s kind = []) : Compact s.previousKind kind := by
  have hblank : ascii " " ≠ [] := by decide
  rw [spacing, if_neg (by rw [hstart]; exact Bool.false_ne_true)] at h
  split at h
  · exact absurd h hblank
  rename_i hoperators
  rw [not_or, Bool.not_eq_true, Bool.not_eq_true] at hoperators
  split at h
  · exact absurd h hblank
  split at h
  · rename_i hcomma
    exact ⟨hoperators.1, hoperators.2, fun hnot => absurd hcomma hnot, fun hnot => absurd hcomma hnot⟩
  split at h
  · exact absurd h hblank
  split at h
  · exact absurd h hblank
  rename_i hwords
  split at h
  · exact absurd h hblank
  rename_i hcompact
  refine ⟨hoperators.1, hoperators.2, fun _ => hwords, fun _ => ?_⟩
  rw [not_and_or, Bool.not_eq_false, Bool.not_eq_false] at hcompact
  exact hcompact

/-- Words and numbers are nothing that stands close to others. -/
theorem not_compact_of_word {kind : TokenKind}
    (h : isWordKind kind = true ∨ kind = .integerLiteral ∨ kind = .decimalLiteral) :
    startsCompact kind = false ∧ endsCompact kind = false ∧ kind ≠ .comma := by
  rcases h with h | rfl | rfl
  · cases kind <;> first | exact ⟨rfl, rfl, by decide⟩ | cases h
  · exact ⟨rfl, rfl, by decide⟩
  · exact ⟨rfl, rfl, by decide⟩

/-- In front of words and numbers there is a blank, unless something opens. -/
theorem not_compact_word {previous kind : TokenKind} (hends : endsCompact previous = false)
    (hkind : isWordKind kind = true ∨ kind = .integerLiteral ∨ kind = .decimalLiteral) :
    ¬ Compact previous kind := by
  intro hcompact
  obtain ⟨hstarts, -, hcomma⟩ := not_compact_of_word hkind
  rcases hcompact.symbol hcomma with hstarts' | hends'
  · rw [hstarts] at hstarts'
    cases hstarts'
  · rw [hends] at hends'
    cases hends'

theorem compact_apart {previous kind : TokenKind} {lexeme rest : Bytes} (hcompact : Compact previous kind)
    (hlexeme : Lexeme kind lexeme) (hgoes : goesOn previous (lexeme ++ rest) = true) :
    previous = .integerLiteral ∧ kind = .dot ∧ beginsWith isDigit rest = true := by
  have hbegins : ∀ test, beginsWith test (lexeme ++ rest) = beginsWith test lexeme := fun test =>
    beginsWith_append hlexeme.ne_nil rest
  have hpart : ∀ {test : UInt8 → Bool}, (∀ ch, test ch = true → isIdentifierPart ch = true) →
      beginsWith test lexeme = true → isWordKind kind = true ∨ kind = .integerLiteral ∨ kind = .decimalLiteral := by
    intro test hsub htest
    refine hlexeme.kind_of_part ?_
    cases lexeme with
    | nil => cases htest
    | cons ch lexeme => exact hsub ch htest
  have hdigit : ∀ ch, isDigit ch = true → isIdentifierPart ch = true := by
    intro ch hch
    rw [isIdentifierPart, hch, Bool.or_true, Bool.true_or]
  -- what begins with a `=` is an operator, and has a blank in front
  have hequals : ∀ {test : UInt8 → Bool}, test = (· == byte '=') → beginsWith test lexeme = true → False := by
    rintro test rfl htest
    have hmem := hlexeme.symbol_of_begins htest (.inl rfl)
    have hall : ∀ symbol ∈ symbols, beginsWith (· == byte '=') symbol.2 = true →
        isBinaryOperator symbol.1 = true := by decide
    have hoperator := hall _ hmem htest
    rw [hcompact.operator] at hoperator
    cases hoperator
  by_cases hword : isWordKind previous = true
  · rw [goesOn_word hword, hbegins] at hgoes
    exact absurd hcompact (not_compact_word (not_compact_of_word (.inl hword)).2.1 (hpart (fun _ hch => hch) hgoes))
  cases previous with
  | equals => exact absurd hcompact.behindOperator (by decide)
  | minus => exact absurd hcompact.behindOperator (by decide)
  | slash => exact absurd hcompact.behindOperator (by decide)
  | bang | less | greater =>
    rw [goesOn, hbegins] at hgoes
    exact (hequals rfl hgoes).elim
  | decimalLiteral =>
    rw [goesOn, hbegins] at hgoes
    exact absurd hcompact (not_compact_word rfl (hpart hdigit hgoes))
  | integerLiteral =>
    rw [goesOn, hbegins, hbegins, Bool.or_eq_true, Bool.and_eq_true] at hgoes
    rcases hgoes with hgoes | ⟨hdot, hdigits⟩
    · exact absurd hcompact (not_compact_word rfl (hpart hdigit hgoes))
    · have hmem := hlexeme.symbol_of_begins hdot (.inr rfl)
      have hall : ∀ symbol ∈ symbols, beginsWith (· == byte '.') symbol.2 = true → symbol = (.dot, ascii ".") := by
        decide
      obtain ⟨rfl, rfl⟩ := Prod.mk.inj (hall _ hmem hdot)
      exact ⟨rfl, rfl, hdigits⟩
  | endOfFile | unknown =>
    have hpart' : beginsWith isIdentifierPart (lexeme ++ rest) = true := hgoes
    rw [hbegins] at hpart'
    exact absurd hcompact (not_compact_word rfl (hpart (fun _ hch => hch) hpart'))
  | _ => first | cases hgoes | exact absurd rfl hword
/-! ## What is glued -/

/-- What begins with a digit is a number. -/
theorem Lexeme.number_of_digit {kind : TokenKind} {lexeme : Bytes} (h : Lexeme kind lexeme)
    (hdigit : beginsWith isDigit lexeme = true) : kind = .integerLiteral ∨ kind = .decimalLiteral := by
  cases h with
  | symbol hmem =>
    have hall : ∀ symbol ∈ symbols, beginsWith isDigit symbol.2 = false := by decide
    rw [hall _ hmem] at hdigit
    cases hdigit
  | string _ =>
    have hquote : isDigit quote = true := hdigit
    exact absurd hquote (by decide)
  | integer _ _ _ => exact .inl rfl
  | decimal _ _ _ _ _ => exact .inr rfl
  | word hstart _ => exact absurd hdigit (not_digit_of_letter hstart)

/-- A number, a `.` and digits, all beginning in one line. -/
structure Glued (first second third : Token) : Prop where
  number : first.kind = .integerLiteral
  dot : second.kind = .dot
  digits : beginsWith isDigit third.lexeme = true
  dotLine : second.range.begin.line = first.range.begin.line
  digitsLine : third.range.begin.line = second.range.begin.line

/-- Nothing is glued. -/
def NumbersApart (tokens : List Token) : Prop :=
  ∀ first second third, [first, second, third] <:+: tokens → ¬ Glued first second third

theorem NumbersApart.tail {token : Token} {tokens : List Token} (h : NumbersApart (token :: tokens)) :
    NumbersApart tokens :=
  fun first second third hinfix => h first second third (List.infix_cons hinfix)

theorem blank_cases {ch : UInt8} (h : isBlank ch = true) : ch ∈ ascii " \t\r\n" := by
  rw [isBlank, Bool.or_eq_true, Bool.or_eq_true, Bool.or_eq_true, beq_iff_eq, beq_iff_eq, beq_iff_eq,
    beq_iff_eq] at h
  rcases h with ((rfl | rfl) | rfl) | rfl <;> decide

/-- No token begins with a blank, and none goes on with one. -/
theorem not_beginsWith_blanks {gap : Bytes} (hgap : AllBlanks gap) (hne : gap ≠ []) {test : UInt8 → Bool}
    (htest : ∀ ch, isBlank ch = true → test ch = false) (rest : Bytes) : beginsWith test (gap ++ rest) = false := by
  cases gap with
  | nil => exact absurd rfl hne
  | cons ch gap => exact htest ch (hgap ch List.mem_cons_self)

theorem goesOn_blanks {gap : Bytes} (hgap : AllBlanks gap) (hne : gap ≠ []) (kind : TokenKind) (rest : Bytes) :
    goesOn kind (gap ++ rest) = false := by
  cases gap with
  | nil => exact absurd rfl hne
  | cons ch gap =>
    have hall : ∀ other ∈ ascii " \t\r\n", goesOn kind (other :: (gap ++ rest)) = false := by
      refine List.forall_mem_cons.mpr ⟨?_, List.forall_mem_cons.mpr ⟨?_, List.forall_mem_cons.mpr ⟨?_,
        List.forall_mem_cons.mpr ⟨?_, nofun⟩⟩⟩⟩ <;> cases kind <;> rfl
    exact hall ch (blank_cases (hgap ch List.mem_cons_self))

theorem AllBlanks.trivia {gap : Bytes} (hgap : AllBlanks gap) : Trivia gap .closed := by
  induction gap with
  | nil => exact .nil
  | cons ch gap ih =>
    exact .blank (hgap ch List.mem_cons_self) (ih fun other hother => hgap other (List.mem_cons_of_mem _ hother))

section

variable {previous : Token} {pending : Bytes} {earlier tokens : List Token} {s : FormatState} {pieces : List Piece}

/-- The pieces of the tokens are tokens. -/
def Spelled (pieces : List Piece) : Prop := ∀ piece ∈ pieces, Lexeme piece.kind piece.lexeme

theorem Spelled.lexeme {piece : Piece} {token : Token} (h : Spelled (piece :: pieces))
    (hspelling : token.spelling = piece.spelling) : Lexeme token.kind token.lexeme := by
  rw [show token.kind = piece.kind from congrArg Prod.fst hspelling,
    show token.lexeme = piece.lexeme from congrArg Prod.snd hspelling]
  exact h piece List.mem_cons_self

theorem Spelled.tail {piece : Piece} (h : Spelled (piece :: pieces)) : Spelled pieces :=
  fun other hother => h other (List.mem_cons_of_mem _ hother)

/-- The tokens in front of another one, and those that are not empty. -/
theorem Spelled.second {line : Nat} {second third : Token} {rest : List Token} (h : Spelled pieces)
    (hlines : LinesUp line pieces (second :: third :: rest)) : Lexeme second.kind second.lexeme := by
  cases hlines with
  | token hspelling _ _ _ _ => exact h.lexeme hspelling

theorem Spelled.third {line : Nat} {second third : Token} {rest : List Token} (h : Spelled pieces)
    (hlines : LinesUp line pieces (second :: third :: rest)) (hdigits : beginsWith isDigit third.lexeme = true) :
    Lexeme third.kind third.lexeme := by
  cases hlines with
  | token _ _ _ _ hrest =>
    cases hrest with
    | done hlast =>
      rw [show third.lexeme = [] from congrArg Prod.snd hlast] at hdigits
      cases hdigits
    | token hspelling _ _ _ _ => exact h.tail.lexeme hspelling

/-- Where what is written goes on with digits, these are the next token in the line. -/
theorem digits_of_begins (h : Follows previous pending s) (hpending : AllBreaks pending)
    (hlines : LinesUp previous.range.end'.line pieces tokens) (hspelled : Spelled pieces)
    (hbegins : beginsWith isDigit (laidText (formatPieces pending earlier tokens s) (ascii "\n")) = true) :
    ∃ token rest, tokens = token :: rest ∧ beginsWith isDigit token.lexeme = true ∧
      token.range.begin.line ≤ previous.range.begin.line ∧
      previous.range.end'.line ≤ token.range.begin.line := by
  have hnot : ∀ ch, isBlank ch = true → isDigit ch = false := by
    have hall : (ascii " \t\r\n").all (fun ch => !isDigit ch) = true := by decide
    intro ch hblank
    have hch := List.all_eq_true.mp hall ch (blank_cases hblank)
    rwa [Bool.not_eq_true'] at hch
  cases hlines with
  | @done _ last hlast =>
    have hkind : last.kind = .endOfFile := congrArg Prod.fst hlast
    rw [formatPieces, if_pos hkind] at hbegins
    cases hbegins
  | @token _ piece rest token tokens hspelling hkind hbegin hend hrest =>
    rw [formatPieces, if_neg hkind, laidText] at hbegins
    dsimp only at hbegins
    by_cases hgap : pending ++ (formatToken earlier token tokens.head? s).1.before = []
    · rw [hgap, List.nil_append, beginsWith_append (hspelled.lexeme hspelling).ne_nil] at hbegins
      exact ⟨token, tokens, rfl, hbegins, (h.inLine_of_nil hgap).2.2, by omega⟩
    · rw [not_beginsWith_blanks (hpending.blanks.append (allBlanks_before _ _ _ _)) hgap hnot] at hbegins
      cases hbegins

/-- A token goes on with what is written behind it only where the three are glued. -/
theorem glued_of_goesOn (h : Follows previous pending s) (hpending : AllBreaks pending)
    (hlines : LinesUp previous.range.end'.line pieces tokens) (hspelled : Spelled pieces)
    (hprevious : previous.range.begin.line ≤ previous.range.end'.line)
    (hgoes : goesOn previous.kind (laidText (formatPieces pending earlier tokens s) (ascii "\n")) = true) :
    ∃ second third rest, tokens = second :: third :: rest ∧ Glued previous second third := by
  cases hlines with
  | @done _ last hlast =>
    have hkind : last.kind = .endOfFile := congrArg Prod.fst hlast
    have hnot : ∀ kind, goesOn kind (ascii "\n") = false := fun kind => by cases kind <;> rfl
    rw [formatPieces, if_pos hkind, laidText, hnot] at hgoes
    cases hgoes
  | @token _ piece rest token tokens hspelling hkind hbegin hend hrest =>
    rw [formatPieces, if_neg hkind, laidText] at hgoes
    dsimp only at hgoes
    by_cases hgap : pending ++ (formatToken earlier token tokens.head? s).1.before = []
    · rw [hgap, List.nil_append] at hgoes
      obtain ⟨hstart, hspacing, hline⟩ := h.inLine_of_nil hgap
      have hcompact := compact_of_spacing hstart hspacing
      rw [(h.inLine hstart).2] at hcompact
      obtain ⟨hnumber, hdot, hdigits⟩ := compact_apart hcompact (hspelled.lexeme hspelling) hgoes
      obtain ⟨digits, more, rfl, hdigit, hle, hge⟩ := digits_of_begins
        (follows_formatToken earlier token tokens.head? s) (allBreaks_behind _ _ _ _) hrest hspelled.tail hdigits
      refine ⟨token, digits, more, rfl, hnumber, hdot, hdigit, ?_, ?_⟩
      · omega
      · omega
    · rw [goesOn_blanks (hpending.blanks.append (allBlanks_before _ _ _ _)) hgap] at hgoes
      cases hgoes

/-- Where nothing is glued, what is written has the tokens that it is written for. -/
theorem lays_formatPieces {line : Nat} (hlines : LinesUp line pieces tokens) (hspelled : Spelled pieces)
    (happart : NumbersApart tokens) (hpending : AllBreaks pending) :
    Lays (ascii "\n") (formatPieces pending earlier tokens s) := by
  induction hlines generalizing pending earlier s with
  | @done _ last hlast =>
    have hkind : last.kind = .endOfFile := congrArg Prod.fst hlast
    have hbreak : AllBlanks (ascii "\n") := List.all_eq_true.mp (by decide)
    rw [formatPieces, if_pos hkind]
    exact .done hbreak.trivia (by decide)
  | @token _ piece rest token tokens hspelling hkind hbegin hend hrest ih =>
    have hbehind := allBreaks_behind earlier token tokens.head? s
    rw [formatPieces, if_neg hkind]
    refine .token (hpending.blanks.append (allBlanks_before _ _ _ _)).trivia (hspelled.lexeme hspelling) ?_
      (ih hspelled.tail happart.tail hbehind)
    by_contra hgoes
    obtain ⟨second, third, more, rfl, hglued⟩ := glued_of_goesOn (follows_formatToken _ _ _ _) hbehind hrest
      hspelled.tail (by omega) (Bool.eq_true_of_not_eq_false hgoes)
    exact happart token second third ⟨[], more, rfl⟩ hglued

/-- Where something is glued, a number goes on with what is written behind it. -/
theorem goesOn_of_glued {first second third : Token} {rest : List Token} (h : Follows first pending s)
    (hglued : Glued first second third) (hsecond : Lexeme second.kind second.lexeme)
    (hthird : Lexeme third.kind third.lexeme) :
    goesOn first.kind
      (laidText (formatPieces pending earlier (second :: third :: rest) s) (ascii "\n")) = true := by
  have hlexeme : second.lexeme = ascii "." := hsecond.symbol_eq (by rw [hglued.dot]; decide)
  -- the `.` stands close to the number
  obtain ⟨hgap, hstart, hkind⟩ := h.gap_of_line earlier second (some third)
    (by rw [hglued.number]; rfl) (by rw [hglued.dot]; decide)
    (startsMember_of_kind (by rw [hglued.dot]; decide) (by rw [hglued.dot]; decide)) hglued.dotLine.le
  have hspacing : spacing s second.kind = [] := by
    rw [spacing, hstart, hkind, hglued.dot, hglued.number]
    rfl
  -- and the digits to the `.`
  have hnumber := hthird.number_of_digit hglued.digits
  obtain ⟨hgap', hstart', hkind'⟩ := (follows_formatToken earlier second (some third) s).gap_of_line
    (second :: earlier) third rest.head? (by rw [hglued.dot]; rfl) (by rcases hnumber with hkind | hkind <;> rw [hkind] <;> decide)
    (startsMember_of_kind (by rcases hnumber with hkind | hkind <;> rw [hkind] <;> decide)
      (by rcases hnumber with hkind | hkind <;> rw [hkind] <;> decide)) hglued.digitsLine.le
  have hspacing' : spacing (formatToken earlier second (some third) s).2 third.kind = [] := by
    rw [spacing, hstart', hkind', hglued.dot]
    rcases hnumber with hkind | hkind <;> rw [hkind] <;> rfl
  have hpieces : laidText (formatPieces pending earlier (second :: third :: rest) s) (ascii "\n") =
      ascii "." ++ (third.lexeme ++ laidText (formatPieces
        (formatToken (second :: earlier) third rest.head? (formatToken earlier second (some third) s).2).1.behind
        (third :: second :: earlier) rest
        (formatToken (second :: earlier) third rest.head? (formatToken earlier second (some third) s).2).2)
        (ascii "\n")) := by
    rw [formatPieces, if_neg (by rw [hglued.dot]; decide)]
    dsimp only [List.head?_cons]
    rw [formatPieces, if_neg hthird.ne_endOfFile, laidText, laidText]
    dsimp only
    rw [hgap, hspacing, hgap', hspacing', hlexeme]
    rfl
  rw [hpieces, hglued.number, goesOn]
  show (_ || _ && beginsWith isDigit (third.lexeme ++ _)) = true
  rw [beginsWith_append hthird.ne_nil, hglued.digits, Bool.and_true, Bool.or_eq_true]
  exact .inr rfl

/-- No trivia begin with a token of what is written. -/
theorem not_startsTrivia_formatted (h : Follows previous pending s) (hpending : AllBreaks pending)
    (hlines : LinesUp previous.range.end'.line pieces tokens) (hspelled : Spelled pieces)
    (hprevious : previous.range.begin.line ≤ previous.range.end'.line)
    (hlexeme : Lexeme previous.kind previous.lexeme) :
    startsTrivia (previous.lexeme ++ laidText (formatPieces pending earlier tokens s) (ascii "\n")) = false := by
  by_cases hgoes : goesOn previous.kind (laidText (formatPieces pending earlier tokens s) (ascii "\n")) = true
  · obtain ⟨second, third, rest, -, hglued⟩ := glued_of_goesOn h hpending hlines hspelled hprevious hgoes
    -- a number begins with a digit or a `-`
    have hnumber := hlexeme.begins_number (.inl hglued.number)
    have hfirst : ∀ ch, (ch == byte '-' || isDigit ch) = true → isBlank ch = false ∧ ch ≠ byte '/' := by
      intro ch hch
      refine ⟨?_, ?_⟩
      · by_contra hblank
        have hall : (ascii " \t\r\n").all (fun other => !(other == byte '-' || isDigit other)) = true := by
          decide
        have hnot := List.all_eq_true.mp hall ch (blank_cases (Bool.eq_true_of_not_eq_false hblank))
        rw [hch] at hnot
        cases hnot
      · rintro rfl
        cases hch
    cases hbytes : previous.lexeme with
    | nil => exact absurd hbytes hlexeme.ne_nil
    | cons ch bytes =>
      rw [hbytes] at hnumber
      obtain ⟨hblank, hslash⟩ := hfirst ch hnumber
      show (isBlank ch || (ch == byte '/') && _) = false
      rw [hblank, beq_eq_false_iff_ne.mpr hslash]
      rfl
  · exact hlexeme.not_startsTrivia (Bool.eq_false_iff.mpr hgoes)

/-- In front of what begins no trivia, there are the trivia that there are. -/
theorem Trivia.unique {gap other rest more : Bytes} (hgap : Trivia gap .closed) (hother : Trivia other .closed)
    (hrest : startsTrivia rest = false) (hmore : startsTrivia more = false) (h : gap ++ rest = other ++ more) :
    gap = other ∧ rest = more := by
  obtain ⟨q, hskip, hq⟩ := skipTrivia_gap hgap (by decide) (fun hne => absurd rfl hne) hrest
    (p := ⟨{}, gap ++ rest⟩) rfl (Nat.lt_succ_self _)
  obtain ⟨q', hskip', hq'⟩ := skipTrivia_gap hother (by decide) (fun hne => absurd rfl hne) hmore
    (p := ⟨{}, gap ++ rest⟩) h (Nat.lt_succ_self _)
  rw [hskip] at hskip'
  obtain ⟨rfl, -⟩ := Prod.mk.inj (Option.some.inj hskip')
  have hsame : rest = more := hq.symm.trans hq'
  rw [hsame] at h
  exact ⟨List.append_cancel_right h, hsame⟩

theorem Renders.of_cons {spelling : Spelling} {spellings : List Spelling} {text : Bytes}
    (h : Renders (spelling :: spellings) text) :
    ∃ gap rest, text = gap ++ (spelling.2 ++ rest) ∧ Trivia gap .closed ∧ goesOn spelling.1 rest = false ∧
      Renders spellings rest := by
  cases h with
  | token htrivia _ happart hrest => exact ⟨_, _, rfl, htrivia, happart, hrest⟩

/-- Where what is written has the tokens that it is written for, nothing is glued. -/
theorem numbersApart_of_renders {line : Nat} (hlines : LinesUp line pieces tokens) (hspelled : Spelled pieces)
    (hpending : AllBreaks pending)
    (h : Renders (pieces.map Piece.spelling) (laidText (formatPieces pending earlier tokens s) (ascii "\n"))) :
    NumbersApart tokens := by
  induction hlines generalizing pending earlier s with
  | done _ =>
    intro first second third hinfix
    have hlength : 3 ≤ 1 := hinfix.length_le
    omega
  | @token line piece rest token tokens hspelling hkind hbegin hend hrest ih =>
    have hlexeme := hspelled.lexeme hspelling
    have hbehind := allBreaks_behind earlier token tokens.head? s
    have hfollows := follows_formatToken earlier token tokens.head? s
    rw [formatPieces, if_neg hkind, laidText, List.map_cons, ← hspelling] at h
    dsimp only at h
    obtain ⟨gap, rest', hinput, htrivia, happart, hrenders⟩ := h.of_cons
    obtain ⟨-, hsame⟩ := Trivia.unique (hpending.blanks.append (allBlanks_before _ _ _ _)).trivia htrivia
      (not_startsTrivia_formatted hfollows hbehind hrest hspelled.tail (by omega) hlexeme)
      (hlexeme.not_startsTrivia happart) hinput
    obtain rfl := List.append_cancel_left hsame
    intro first second third hinfix
    rcases List.infix_cons_iff.mp hinfix with hprefix | hinfix
    · obtain ⟨more, heq⟩ := hprefix
      obtain ⟨rfl, rfl⟩ := List.cons.inj heq
      intro hglued
      have hgoes := @goesOn_of_glued _ (first :: earlier) _ first second third more hfollows hglued
        (hspelled.tail.second hrest) (hspelled.tail.third hrest hglued.digits)
      exact Bool.false_ne_true (happart.symm.trans hgoes)
    · exact ih hspelled.tail hbehind hrenders first second third hinfix

end

end StateSpec.Compiler
