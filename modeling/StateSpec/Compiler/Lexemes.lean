/-
  LEXEMES — what the tokens of the lexer look like, and which text they come from.

  `Lexeme` says which bytes are a token of a kind, and `goesOn` which bytes behind them would make the token
  longer.  A text RENDERS tokens (`Renders`) when their lexemes stand in it one after the other, with trivia
  between them and nothing behind one that it would go on with.  That is all there is to the lexer:

  * `lex_iff` — it returns these tokens without an error just for the texts that render them.
-/
import StateSpec.Compiler.Diagnostics
import StateSpec.Compiler.Lexer

namespace StateSpec.Compiler

/-! ## Lexemes -/

/-- The tokens that are always the same. -/
def symbols : List (TokenKind × Bytes) :=
  [(.leftBrace, ascii "\x7b"), (.rightBrace, ascii "\x7d"), (.leftParen, ascii "("),
    (.rightParen, ascii ")"), (.leftBracket, ascii "["), (.rightBracket, ascii "]"),
    (.comma, ascii ","), (.colon, ascii ":"), (.semicolon, ascii ";"), (.dot, ascii "."),
    (.question, ascii "?"), (.plus, ascii "+"), (.star, ascii "*"), (.percent, ascii "%"),
    (.arrow, ascii "->"), (.minus, ascii "-"), (.equalEqual, ascii "=="), (.equals, ascii "="),
    (.bangEqual, ascii "!="), (.bang, ascii "!"), (.lessEqual, ascii "<="), (.less, ascii "<"),
    (.greaterEqual, ascii ">="), (.greater, ascii ">"), (.andAnd, ascii "&&"), (.orOr, ascii "||"),
    (.slash, ascii "/")]

/-- What a word is. -/
def wordKind (word : Bytes) : TokenKind :=
  if looksLikeDuration word then .durationLiteral else keywordKind word

/-- What can stand between two quotation marks: none that is not behind a backslash. -/
def isStringBody : Bytes → Bool
  | [] => true
  | [ch] => ch != byte '\\' && ch != quote
  | ch :: next :: rest =>
    if ch = byte '\\' then isStringBody rest else ch != quote && isStringBody (next :: rest)

/-- The bytes of a token. -/
inductive Lexeme : TokenKind → Bytes → Prop
  | symbol {kind lexeme} (h : (kind, lexeme) ∈ symbols) : Lexeme kind lexeme
  | string {body} (h : isStringBody body = true) : Lexeme .stringLiteral (quote :: (body ++ [quote]))
  | integer {sign digits} (hsign : sign = [] ∨ sign = [byte '-']) (hne : digits ≠ [])
      (h : ∀ ch ∈ digits, isDigit ch = true) : Lexeme .integerLiteral (sign ++ digits)
  | decimal {sign digits fraction} (hsign : sign = [] ∨ sign = [byte '-']) (hne : digits ≠ [])
      (h : ∀ ch ∈ digits, isDigit ch = true) (hfraction : fraction ≠ [])
      (h' : ∀ ch ∈ fraction, isDigit ch = true) :
      Lexeme .decimalLiteral (sign ++ digits ++ byte '.' :: fraction)
  | word {ch rest} (hstart : isIdentifierStart ch = true) (h : ∀ ch ∈ rest, isIdentifierPart ch = true) :
      Lexeme (wordKind (ch :: rest)) (ch :: rest)

/-- The text begins with a byte of this sort. -/
def beginsWith (test : UInt8 → Bool) (rest : Bytes) : Bool := rest.head?.any test

/-- A token of the kind goes on with what is behind it. -/
def goesOn (kind : TokenKind) (rest : Bytes) : Bool :=
  match kind with
  | .leftBrace | .rightBrace | .leftParen | .rightParen | .leftBracket | .rightBracket | .comma | .colon
  | .semicolon | .dot | .question | .plus | .star | .percent | .arrow | .equalEqual | .bangEqual
  | .lessEqual | .greaterEqual | .andAnd | .orOr | .stringLiteral => false
  | .equals | .bang | .less | .greater => beginsWith (· == byte '=') rest
  | .minus => beginsWith (fun ch => isDigit ch || ch == byte '>') rest
  -- what begins like a comment is none of a token
  | .slash => beginsWith (fun ch => ch == byte '/' || ch == byte '*') rest
  | .integerLiteral =>
    beginsWith isDigit rest || beginsWith (· == byte '.') rest && beginsWith isDigit rest.tail
  | .decimalLiteral => beginsWith isDigit rest
  | _ => beginsWith isIdentifierPart rest

/-- Trivia begin here. -/
def startsTrivia (text : Bytes) : Bool :=
  beginsWith isBlank text ||
    beginsWith (· == byte '/') text && beginsWith (fun ch => ch == byte '/' || ch == byte '*') text.tail

/-- What a token is, wherever it stands. -/
abbrev Spelling := TokenKind × Bytes

def Token.spelling (token : Token) : Spelling := (token.kind, token.lexeme)

/-- **A text that renders tokens**: their lexemes, apart from one another, with trivia around them. -/
inductive Renders : List Spelling → Bytes → Prop
  | done {gap ending} (htrivia : Trivia gap ending) (hending : ending ≠ .inBlock) : Renders [] gap
  | token {gap kind lexeme rest spellings} (htrivia : Trivia gap .closed) (hlexeme : Lexeme kind lexeme)
      (happart : goesOn kind rest = false) (hrest : Renders spellings rest) :
      Renders ((kind, lexeme) :: spellings) (gap ++ (lexeme ++ rest))

/-! ### Words -/

/-- The kinds of words. -/
def isWordKind (kind : TokenKind) : Bool :=
  match kind with
  | .endOfFile | .stringLiteral | .integerLiteral | .decimalLiteral | .leftBrace | .rightBrace
  | .leftParen | .rightParen | .leftBracket | .rightBracket | .less | .greater | .comma | .colon
  | .semicolon | .dot | .question | .arrow | .equals | .equalEqual | .bangEqual | .lessEqual
  | .greaterEqual | .plus | .minus | .star | .slash | .percent | .bang | .andAnd | .orOr | .unknown => false
  | _ => true

theorem isWordKind_wordKind (word : Bytes) : isWordKind (wordKind word) = true := by
  have hkeywords : ∀ keyword ∈ keywords, isWordKind keyword.2 = true := by decide +kernel
  unfold wordKind keywordKind
  split
  · rfl
  split
  · rfl
  · cases hlookup : keywords.lookup word with
    | none => rfl
    | some kind =>
      obtain ⟨before, after, hsplit, -⟩ := List.lookup_eq_some_iff.mp hlookup
      exact hkeywords (word, kind) (by rw [hsplit]; simp)

theorem goesOn_word {kind : TokenKind} (h : isWordKind kind = true) (rest : Bytes) :
    goesOn kind rest = beginsWith isIdentifierPart rest := by
  cases kind <;> first | rfl | cases h

/-! ### Beginnings -/

theorem dropWhile_front {test : UInt8 → Bool} {front rest : Bytes} (hfront : ∀ ch ∈ front, test ch = true)
    (hrest : beginsWith test rest = false) : (front ++ rest).dropWhile test = rest := by
  induction front with
  | nil =>
    cases rest with
    | nil => rfl
    | cons ch rest =>
      have hch : test ch = false := hrest
      rw [List.nil_append, List.dropWhile_cons, if_neg (by rw [hch]; exact Bool.false_ne_true)]
  | cons ch front ih =>
    rw [List.cons_append, List.dropWhile_cons, if_pos (hfront ch List.mem_cons_self)]
    exact ih fun ch' hch' => hfront ch' (List.mem_cons_of_mem _ hch')

theorem not_beginsWith_dropWhile (test : UInt8 → Bool) (text : Bytes) :
    beginsWith test (text.dropWhile test) = false := by
  have hnot := List.head?_dropWhile_not test text
  unfold beginsWith
  cases hhead : (text.dropWhile test).head? with
  | none => rfl
  | some ch =>
    rw [hhead] at hnot
    exact hnot

section

variable {p : Place} {test : UInt8 → Bool} {front rest : Bytes}

theorem past_front (hp : p.rest = front ++ rest) (hfront : ∀ ch ∈ front, test ch = true)
    (hrest : beginsWith test rest = false) : (p.past test).rest = rest := by
  rw [rest_past, hp, dropWhile_front hfront hrest]

theorem peek_of_not_begins (h : beginsWith test p.rest = false) (hzero : test 0 = false) :
    test (p.peek 0) = false := by
  unfold Place.peek
  cases hrest : p.rest with
  | nil => exact hzero
  | cons ch rest =>
    rw [hrest] at h
    exact h

theorem begins_of_peek (h : test (p.peek 0) = false) : beginsWith test p.rest = false := by
  unfold Place.peek at h
  cases hrest : p.rest with
  | nil => rfl
  | cons ch rest =>
    rw [hrest] at h
    exact h

end

/-! ## Trivia -/

/-- A block comment goes on to its first `*/`. -/
theorem skipBlock_closed {comment : Bytes} (hfree : ¬ [byte '*', byte '/'] <:+: comment) (rest : Bytes)
    (location : SourceLocation) : ∃ location',
      skipBlock (comment ++ byte '*' :: byte '/' :: rest) location = (true, ⟨location', rest⟩) := by
  induction comment generalizing location with
  | nil =>
    rw [List.nil_append, skipBlock, if_pos ⟨rfl, rfl⟩]
    exact ⟨_, rfl⟩
  | cons ch comment ih =>
    have hfree' : ¬ [byte '*', byte '/'] <:+: comment := fun h => hfree (List.infix_cons h)
    obtain ⟨next, more, hmore, hopen⟩ : ∃ next more,
        comment ++ byte '*' :: byte '/' :: rest = next :: more ∧ ¬ (ch = byte '*' ∧ next = byte '/') := by
      cases comment with
      | nil => exact ⟨byte '*', _, rfl, fun h => absurd h.2 (by decide)⟩
      | cons next comment =>
        refine ⟨next, _, rfl, ?_⟩
        rintro ⟨rfl, rfl⟩
        exact hfree ⟨[], comment, rfl⟩
    rw [List.cons_append, hmore, skipBlock, if_neg hopen, ← hmore]
    exact ih hfree' _

/-- What is left of trivia behind their first blanks. -/
theorem Trivia.dropBlanks {gap : Bytes} {ending : TriviaEnd} (h : Trivia gap ending) :
    Trivia (gap.dropWhile isBlank) ending := by
  induction h with
  | nil => exact .nil
  | blank hblank _ ih =>
    rw [List.dropWhile_cons, if_pos hblank]
    exact ih
  | line hfree hrest _ =>
    rw [List.dropWhile_cons, if_neg (by decide)]
    exact .line hfree hrest
  | inLine hfree =>
    rw [List.dropWhile_cons, if_neg (by decide)]
    exact .inLine hfree
  | block hfree hrest _ =>
    rw [List.dropWhile_cons, if_neg (by decide)]
    exact .block hfree hrest
  | inBlock hfree =>
    rw [List.dropWhile_cons, if_neg (by decide)]
    exact .inBlock hfree

theorem dropWhile_append_apart {test : UInt8 → Bool} {gap rest : Bytes} (hrest : beginsWith test rest = false) :
    (gap ++ rest).dropWhile test = gap.dropWhile test ++ rest := by
  induction gap with
  | nil => exact dropWhile_front nofun hrest
  | cons ch gap ih =>
    rw [List.cons_append, List.dropWhile_cons, List.dropWhile_cons]
    split
    · exact ih
    · rfl

theorem not_blank_of_not_starts {text : Bytes} (h : startsTrivia text = false) :
    beginsWith isBlank text = false := by
  rw [startsTrivia, Bool.or_eq_false_iff] at h
  exact h.1

/-- Where no comment begins the scanner sees none. -/
theorem no_comment {p : Place} (h : startsTrivia p.rest = false) :
    ¬ (p.peek 0 = byte '/' ∧ p.peek 1 = byte '/') ∧ ¬ (p.peek 0 = byte '/' ∧ p.peek 1 = byte '*') := by
  rw [startsTrivia, Bool.or_eq_false_iff] at h
  have hcomment := h.2
  unfold Place.peek
  rcases hrest : p.rest with _ | ⟨ch, _ | ⟨next, rest⟩⟩
  · exact ⟨fun h => absurd h.1 (by decide), fun h => absurd h.1 (by decide)⟩
  · have hbehind : ∀ c : UInt8, c ≠ 0 → ¬ [ch].getD 1 0 = c := fun c hc h => hc h.symm
    exact ⟨fun h => hbehind _ (by decide) h.2, fun h => hbehind _ (by decide) h.2⟩
  · rw [hrest] at hcomment
    constructor <;>
    · rintro ⟨hch, hnext⟩
      have hch : ch = byte '/' := hch
      rw [hch, show next = _ from hnext] at hcomment
      cases hcomment

section

variable {p q : Place} {gap rest : Bytes} {ending : TriviaEnd} {fuel : Nat}

/-- **Trivia are skipped**, and nothing else. -/
theorem skipTrivia_gap (htrivia : Trivia gap ending) (hending : ending ≠ .inBlock)
    (hopen : ending ≠ .closed → rest = []) (hrest : startsTrivia rest = false)
    (hp : p.rest = gap ++ rest) (hfuel : p.rest.length < fuel) :
    ∃ q, skipTrivia fuel p = some (q, []) ∧ q.rest = rest := by
  induction fuel generalizing p gap ending with
  | zero => exact absurd hfuel (Nat.not_lt_zero _)
  | succ fuel ih =>
    rw [skipTrivia]
    split
    · rename_i hend
      rw [Place.isAtEnd, List.isEmpty_iff] at hend
      rw [hend] at hp
      exact ⟨p, rfl, by rw [hend, (List.append_eq_nil_iff.mp hp.symm).2]⟩
    · have hblank := not_blank_of_not_starts hrest
      have hbehind : (p.past isBlank).rest = gap.dropWhile isBlank ++ rest := by
        rw [rest_past, hp, dropWhile_append_apart hblank]
      have hread := reads_past isBlank p
      have hlength := hread.length
      have hdropped := not_beginsWith_dropWhile isBlank gap
      generalize p.past isBlank = p' at hbehind hread hlength ⊢
      have htrivia' := htrivia.dropBlanks
      generalize gap.dropWhile isBlank = gap' at htrivia' hbehind hdropped
      cases htrivia' with
      | nil =>
        have hp' : p'.rest = [] ++ rest := hbehind
        rw [List.nil_append] at hbehind
        obtain ⟨hline, hblock⟩ := no_comment (p := p') (by rw [hbehind]; exact hrest)
        rw [skipComment, if_neg hline, if_neg hblock]
        split
        · exact ⟨p', rfl, hbehind⟩
        · rename_i hmoved
          have hoffset := hread.offset
          exact ih .nil (by decide) (fun hne => absurd rfl hne) hp' (by omega)
      | blank hblank' _ =>
        have hnot : isBlank _ = false := hdropped
        rw [hblank'] at hnot
        cases hnot
      | @line comment more _ hfree hmore =>
        have hpeek : p'.peek 0 = byte '/' ∧ p'.peek 1 = byte '/' := by
          rw [Place.peek, Place.peek, hbehind]
          exact ⟨rfl, rfl⟩
        rw [skipComment, if_pos hpeek]
        have hnewline : (p'.past fun ch => ch != byte '\n').rest = byte '\n' :: more ++ rest := by
          refine @past_front _ _ (byte '/' :: byte '/' :: comment) _ ?_ ?_ rfl
          · rw [hbehind]
            simp
          · intro ch hch
            rw [bne_iff_ne]
            rintro rfl
            rcases List.mem_cons.mp hch with h | hch
            · exact absurd h (by decide)
            rcases List.mem_cons.mp hch with h | hch
            · exact absurd h (by decide)
            · exact hfree hch
        have hshorter : (p'.past fun ch => ch != byte '\n').rest.length < p'.rest.length := by
          rw [hnewline, hbehind]
          simp only [List.length_append, List.length_cons]
          omega
        exact ih hmore hending hopen hnewline (by omega)
      | @inLine comment hfree =>
        obtain rfl : rest = [] := hopen (by decide)
        have hpeek : p'.peek 0 = byte '/' ∧ p'.peek 1 = byte '/' := by
          rw [Place.peek, Place.peek, hbehind]
          exact ⟨rfl, rfl⟩
        rw [skipComment, if_pos hpeek]
        have hnothing : (p'.past fun ch => ch != byte '\n').rest = [] ++ [] := by
          refine @past_front _ _ (byte '/' :: byte '/' :: comment) _ hbehind ?_ rfl
          intro ch hch
          rw [bne_iff_ne]
          rintro rfl
          rcases List.mem_cons.mp hch with h | hch
          · exact absurd h (by decide)
          rcases List.mem_cons.mp hch with h | hch
          · exact absurd h (by decide)
          · exact hfree hch
        have hshorter : (p'.past fun ch => ch != byte '\n').rest.length < p'.rest.length := by
          rw [hnothing, hbehind]
          simp only [List.length_append, List.length_cons, List.length_nil]
          omega
        exact ih .nil (by decide) (fun hne => absurd rfl hne) hnothing (by omega)
      | @block comment more _ hfree hmore =>
        have hpeek : p'.peek 0 = byte '/' ∧ p'.peek 1 = byte '*' := by
          rw [Place.peek, Place.peek, hbehind]
          exact ⟨rfl, rfl⟩
        have hnotLine : ¬ (p'.peek 0 = byte '/' ∧ p'.peek 1 = byte '/') := by
          rintro ⟨-, h⟩
          rw [hpeek.2] at h
          exact absurd h (by decide)
        have htail : p'.advance.advance.rest = comment ++ byte '*' :: byte '/' :: (more ++ rest) := by
          have htwo := (reads_two hpeek (by decide) (by decide)).rest
          rw [hbehind] at htwo
          simpa using htwo.symm
        obtain ⟨location', hblock⟩ := skipBlock_closed hfree (more ++ rest) p'.advance.advance.location
        rw [skipComment, if_neg hnotLine, if_pos hpeek, htail]
        simp only [hblock]
        have hshorter : (more ++ rest).length < p'.rest.length := by
          rw [hbehind]
          simp only [List.length_append, List.length_cons]
          omega
        obtain ⟨q, hq, hqrest⟩ := ih (p := ⟨location', more ++ rest⟩) hmore hending hopen rfl (by
          show (more ++ rest).length < fuel
          omega)
        exact ⟨q, by rw [hq]; rfl, hqrest⟩
      | inBlock _ => exact absurd rfl hending

/-- Behind trivia there are none. -/
theorem not_startsTrivia_of_skipTrivia {diagnostics : List Diagnostic}
    (h : skipTrivia fuel p = some (q, diagnostics)) : startsTrivia q.rest = false := by
  induction fuel generalizing p q diagnostics with
  | zero => cases h
  | succ fuel ih =>
    rw [skipTrivia] at h
    split at h
    · rename_i hend
      cases h
      rw [Place.isAtEnd, List.isEmpty_iff] at hend
      rw [hend]
      rfl
    rw [skipComment] at h
    split at h
    · exact ih h
    rename_i hline
    split at h
    · obtain ⟨⟨q', diagnostics'⟩, hq, heq⟩ := Option.map_eq_some_iff.mp h
      cases heq
      exact ih hq
    rename_i hblock
    split at h
    · cases h
      have hnot := not_beginsWith_dropWhile isBlank p.rest
      rw [← rest_past] at hnot
      rw [startsTrivia, hnot, Bool.false_or]
      unfold Place.peek at hline hblock
      generalize (p.past isBlank).rest = text at hline hblock ⊢
      rcases text with _ | ⟨ch, _ | ⟨next, rest⟩⟩
      · rfl
      · exact Bool.and_false _
      · show (ch == byte '/' && (next == byte '/' || next == byte '*')) = false
        rw [Bool.and_eq_false_iff, Bool.or_eq_false_iff, beq_eq_false_iff_ne, beq_eq_false_iff_ne,
          beq_eq_false_iff_ne]
        by_cases hch : ch = byte '/'
        · exact .inr ⟨fun h => hline ⟨hch, h⟩, fun h => hblock ⟨hch, h⟩⟩
        · exact .inl hch
    · exact ih h

end

/-! ## Tokens -/

/-! ### Strings -/

theorem scanStringFrom_quote (rest : Bytes) (location : SourceLocation) :
    scanStringFrom (quote :: rest) location = (true, ⟨location.past quote, rest⟩) := by
  cases rest with
  | nil => rfl
  | cons next rest =>
    rw [scanStringFrom, if_neg (by decide), if_pos rfl]

theorem scanStringFrom_body {body : Bytes} (h : isStringBody body = true) (rest : Bytes)
    (location : SourceLocation) : ∃ location',
      scanStringFrom (body ++ quote :: rest) location = (true, ⟨location', rest⟩) := by
  fun_induction isStringBody body generalizing location with
  | case1 => exact ⟨_, scanStringFrom_quote rest location⟩
  | case2 ch =>
    rw [Bool.and_eq_true, bne_iff_ne, bne_iff_ne] at h
    rw [List.singleton_append, scanStringFrom, if_neg h.1, if_neg h.2]
    exact ⟨_, scanStringFrom_quote rest _⟩
  | case3 next body ih =>
    rw [List.cons_append, List.cons_append, scanStringFrom, if_pos rfl]
    exact ih h _
  | case4 ch next body hescape ih =>
    rw [Bool.and_eq_true, bne_iff_ne] at h
    rw [List.cons_append, List.cons_append, scanStringFrom, if_neg hescape, if_neg h.1]
    exact ih h.2 _

theorem exists_stringBody {text : Bytes} {location : SourceLocation}
    (h : (scanStringFrom text location).1 = true) : ∃ body, isStringBody body = true ∧
      text = body ++ quote :: (scanStringFrom text location).2.rest := by
  fun_induction scanStringFrom text location with
  | case1 location => cases h
  | case2 ch location =>
    obtain rfl : ch = quote := beq_iff_eq.mp h
    exact ⟨[], rfl, rfl⟩
  | case3 next rest location ih =>
    obtain ⟨body, hbody, hrest⟩ := ih h
    refine ⟨byte '\\' :: next :: body, ?_, ?_⟩
    · rw [isStringBody, if_pos rfl]
      exact hbody
    · rw [List.cons_append, List.cons_append, ← hrest]
  | case4 next rest location hescape => exact ⟨[], rfl, rfl⟩
  | case5 ch next rest location hescape hquote ih =>
    obtain ⟨body, hbody, hrest⟩ := ih h
    refine ⟨ch :: body, ?_, by rw [List.cons_append, ← hrest]⟩
    cases body with
    | nil =>
      rw [isStringBody, Bool.and_eq_true, bne_iff_ne, bne_iff_ne]
      exact ⟨hescape, hquote⟩
    | cons first body =>
      rw [isStringBody, if_neg hescape, Bool.and_eq_true, bne_iff_ne]
      exact ⟨hquote, hbody⟩

/-! ### Numbers -/

section

variable {p q : Place} {sign digits fraction rest : Bytes}

theorem scanNumber_integer (hp : p.rest = digits ++ rest) (hdigits : ∀ ch ∈ digits, isDigit ch = true)
    (happart : goesOn .integerLiteral rest = false) :
    ∃ place, scanNumber p = { kind := .integerLiteral, place } ∧ place.rest = rest := by
  have hgo : (beginsWith isDigit rest ||
      beginsWith (· == byte '.') rest && beginsWith isDigit rest.tail) = false := happart
  rw [Bool.or_eq_false_iff, Bool.and_eq_false_iff] at hgo
  have hpast := past_front hp hdigits hgo.1
  refine ⟨p.past isDigit, ?_, hpast⟩
  unfold scanNumber
  dsimp only
  rw [if_neg]
  rintro ⟨hpoint, hdigit⟩
  unfold Place.peek at hpoint hdigit
  rw [hpast] at hpoint hdigit
  rcases rest with _ | ⟨ch, _ | ⟨next, rest⟩⟩
  · exact absurd hpoint (by decide)
  · have hdigit : isDigit 0 = true := hdigit
    cases hdigit
  · have hpoint : ch = byte '.' := hpoint
    have hdigit : isDigit next = true := hdigit
    rcases hgo.2 with h | h
    · have h : (ch == byte '.') = false := h
      rw [hpoint] at h
      cases h
    · have h : isDigit next = false := h
      rw [hdigit] at h
      cases h

theorem scanNumber_decimal (hp : p.rest = digits ++ byte '.' :: (fraction ++ rest))
    (hdigits : ∀ ch ∈ digits, isDigit ch = true) (hne : fraction ≠ [])
    (hfraction : ∀ ch ∈ fraction, isDigit ch = true) (happart : goesOn .decimalLiteral rest = false) :
    ∃ place, scanNumber p = { kind := .decimalLiteral, place } ∧ place.rest = rest := by
  have hpast : (p.past isDigit).rest = byte '.' :: (fraction ++ rest) := past_front hp hdigits (by rfl)
  obtain ⟨ch, more, rfl⟩ := List.exists_cons_of_ne_nil hne
  have hpeek : (p.past isDigit).peek 0 = byte '.' ∧ isDigit ((p.past isDigit).peek 1) = true := by
    unfold Place.peek
    rw [hpast]
    exact ⟨rfl, hfraction ch List.mem_cons_self⟩
  have hadvance : (p.past isDigit).advance.rest = ch :: more ++ rest := by
    show (p.past isDigit).rest.tail = _
    rw [hpast]
    rfl
  refine ⟨(p.past isDigit).advance.past isDigit, ?_, past_front hadvance hfraction happart⟩
  unfold scanNumber
  dsimp only
  rw [if_pos hpeek]

end

/-! ### From a lexeme to the token -/

section

variable {text before lexeme rest : Bytes} {kind : TokenKind} {p : Place}

theorem peek_zero {ch : UInt8} (hp : p.rest = ch :: rest) : p.peek 0 = ch := by
  rw [Place.peek, hp]
  rfl

theorem rest_advance {ch : UInt8} (hp : p.rest = ch :: rest) : p.advance.rest = rest := by
  show p.rest.tail = rest
  rw [hp]
  rfl

theorem ne_of_test {test : UInt8 → Bool} {ch other : UInt8} (h : test ch = true) (hother : test other = false) :
    ch ≠ other := by
  rintro rfl
  rw [h] at hother
  cases hother

/-- A digit begins a number. -/
theorem scanToken_digit {ch : UInt8} (hch : isDigit ch = true) (start : SourceLocation) :
    scanToken text start ch p = scanNumber p := by
  unfold scanToken
  iterate 23 rw [if_neg (ne_of_test hch ?_)]
  · rw [if_pos hch]
  all_goals rfl

/-- A letter begins a word. -/
theorem scanToken_letter {ch : UInt8} (hch : isIdentifierStart ch = true) (start : SourceLocation) :
    scanToken text start ch p = scanIdentifierOrDuration text start p := by
  have hdigit : isDigit ch = false := by
    unfold isIdentifierStart at hch
    unfold isDigit
    have hlower : byte 'a' = 97 := rfl
    have hupper : byte 'A' = 65 := rfl
    rw [hlower, hupper] at hch
    grind
  unfold scanToken
  iterate 23 rw [if_neg (ne_of_test hch ?_)]
  · rw [if_neg (by rw [hdigit]; exact Bool.false_ne_true), if_pos hch]
  all_goals rfl

theorem scanToken_symbol (h : (kind, lexeme) ∈ symbols) (hp : p.rest = lexeme ++ rest)
    (happart : goesOn kind rest = false) (start : SourceLocation) :
    ∃ place, scanToken text start (p.peek 0) p.advance = { kind, place } ∧ place.rest = rest := by
  -- a byte that nothing else begins with
  have hsingle : ∀ {ch : UInt8} {kind : TokenKind}, p.rest = ch :: rest →
      (∀ q, scanToken text start ch q = { kind, place := q }) →
      ∃ place, scanToken text start (p.peek 0) p.advance = { kind, place } ∧ place.rest = rest := by
    intro ch kind hp hscan
    exact ⟨p.advance, by rw [peek_zero hp]; exact hscan _, rest_advance hp⟩
  -- two bytes
  have hpair : ∀ {ch next : UInt8} {kind : TokenKind}, p.rest = ch :: next :: rest →
      (∀ q : Place, q.peek 0 = next → scanToken text start ch q = { kind, place := q.advance }) →
      ∃ place, scanToken text start (p.peek 0) p.advance = { kind, place } ∧ place.rest = rest := by
    intro ch next kind hp hscan
    refine ⟨p.advance.advance, ?_, rest_advance (rest_advance hp)⟩
    rw [peek_zero hp]
    exact hscan _ (peek_zero (rest_advance hp))
  -- a byte that is not the first one of two
  have hshort : ∀ {ch : UInt8} {kind : TokenKind} {test : UInt8 → Bool}, p.rest = ch :: rest →
      beginsWith test rest = false → test 0 = false →
      (∀ q : Place, test (q.peek 0) = false → scanToken text start ch q = { kind, place := q }) →
      ∃ place, scanToken text start (p.peek 0) p.advance = { kind, place } ∧ place.rest = rest := by
    intro ch kind test hp hnot hzero hscan
    refine ⟨p.advance, ?_, rest_advance hp⟩
    rw [peek_zero hp]
    refine hscan _ (peek_of_not_begins ?_ hzero)
    rw [rest_advance hp]
    exact hnot
  have hequals : ∀ {ch : UInt8} {kind kind' : TokenKind}, p.rest = ch :: rest →
      beginsWith (· == byte '=') rest = false →
      (∀ q, scanToken text start ch q = scanPair q (byte '=') kind' kind) →
      ∃ place, scanToken text start (p.peek 0) p.advance = { kind, place } ∧ place.rest = rest := by
    intro ch kind kind' hp hnot hscan
    refine hshort hp hnot rfl fun q hq => ?_
    rw [hscan, scanPair, if_neg (beq_eq_false_iff_ne.mp hq)]
  simp only [symbols, List.mem_cons, Prod.mk.injEq, List.not_mem_nil, or_false] at h
  rcases h with ⟨rfl, rfl⟩ | ⟨rfl, rfl⟩ | ⟨rfl, rfl⟩ | ⟨rfl, rfl⟩ | ⟨rfl, rfl⟩ | ⟨rfl, rfl⟩ | ⟨rfl, rfl⟩ |
    ⟨rfl, rfl⟩ | ⟨rfl, rfl⟩ | ⟨rfl, rfl⟩ | ⟨rfl, rfl⟩ | ⟨rfl, rfl⟩ | ⟨rfl, rfl⟩ | ⟨rfl, rfl⟩ |
    ⟨rfl, rfl⟩ | ⟨rfl, rfl⟩ | ⟨rfl, rfl⟩ | ⟨rfl, rfl⟩ | ⟨rfl, rfl⟩ | ⟨rfl, rfl⟩ | ⟨rfl, rfl⟩ | ⟨rfl, rfl⟩ |
    ⟨rfl, rfl⟩ | ⟨rfl, rfl⟩ | ⟨rfl, rfl⟩ | ⟨rfl, rfl⟩ | ⟨rfl, rfl⟩
  iterate 14 exact hsingle hp fun _ => rfl
  · -- `->`
    refine hpair hp fun q hq => ?_
    have hq : q.peek 0 = byte '>' := hq
    show (if isDigit (q.peek 0) then scanNumber q else scanPair q (byte '>') .arrow .minus) = _
    rw [hq, if_neg (by decide), scanPair, if_pos hq]
  · -- `-`
    refine hshort hp happart rfl fun q hq => ?_
    rw [Bool.or_eq_false_iff, beq_eq_false_iff_ne] at hq
    show (if isDigit (q.peek 0) then scanNumber q else scanPair q (byte '>') .arrow .minus) = _
    rw [hq.1, if_neg Bool.false_ne_true, scanPair, if_neg hq.2]
  · refine hpair hp fun q hq => ?_
    have hq : q.peek 0 = byte '=' := hq
    show scanPair q (byte '=') .equalEqual .equals = _
    rw [scanPair, if_pos hq]
  · exact hequals hp happart fun _ => rfl
  · refine hpair hp fun q hq => ?_
    have hq : q.peek 0 = byte '=' := hq
    show scanPair q (byte '=') .bangEqual .bang = _
    rw [scanPair, if_pos hq]
  · exact hequals hp happart fun _ => rfl
  · refine hpair hp fun q hq => ?_
    have hq : q.peek 0 = byte '=' := hq
    show scanPair q (byte '=') .lessEqual .less = _
    rw [scanPair, if_pos hq]
  · exact hequals hp happart fun _ => rfl
  · refine hpair hp fun q hq => ?_
    have hq : q.peek 0 = byte '=' := hq
    show scanPair q (byte '=') .greaterEqual .greater = _
    rw [scanPair, if_pos hq]
  · exact hequals hp happart fun _ => rfl
  · refine hpair hp fun q hq => ?_
    have hq : q.peek 0 = byte '&' := hq
    show (if q.peek 0 = byte '&' then { kind := .andAnd, place := q.advance } else
      unknown q "unexpected '&'; did you mean '&&'?" : Scanned) = _
    rw [if_pos hq]
  · refine hpair hp fun q hq => ?_
    have hq : q.peek 0 = byte '|' := hq
    show (if q.peek 0 = byte '|' then { kind := .orOr, place := q.advance } else
      unknown q "unexpected '|'; did you mean '||'?" : Scanned) = _
    rw [if_pos hq]
  · exact hsingle hp fun _ => rfl

/-- **A lexeme is scanned as what it is**, if nothing is behind it that it goes on with. -/
theorem scanToken_lexeme (h : Reads ⟨{}, text⟩ before p) (hp : p.rest = lexeme ++ rest)
    (hlexeme : Lexeme kind lexeme) (happart : goesOn kind rest = false) :
    ∃ place, scanToken text p.location (p.peek 0) p.advance = { kind, place } ∧ place.rest = rest := by
  cases hlexeme with
  | symbol hmem => exact scanToken_symbol hmem hp happart _
  | @string body hbody =>
    have hp : p.rest = quote :: (body ++ quote :: rest) := by
      rw [hp]
      simp
    obtain ⟨location, hscan⟩ := scanStringFrom_body hbody rest p.advance.location
    have hadvance : p.advance.rest = body ++ quote :: rest := rest_advance hp
    refine ⟨⟨location, rest⟩, ?_, rfl⟩
    rw [peek_zero hp]
    show scanString p.advance = _
    rw [scanString, hadvance, hscan]
    rfl
  | @integer sign digits hsign hne hdigits =>
    rcases hsign with rfl | rfl
    · obtain ⟨ch, digits, rfl⟩ := List.exists_cons_of_ne_nil hne
      rw [List.nil_append, List.cons_append] at hp
      rw [peek_zero hp, scanToken_digit (hdigits ch List.mem_cons_self)]
      exact scanNumber_integer (rest_advance hp) (fun c hc => hdigits c (List.mem_cons_of_mem _ hc)) happart
    · rw [List.singleton_append, List.cons_append] at hp
      have hadvance := rest_advance hp
      have hdigit : isDigit (p.advance.peek 0) = true := by
        obtain ⟨ch, digits, rfl⟩ := List.exists_cons_of_ne_nil hne
        rw [peek_zero hadvance]
        exact hdigits ch List.mem_cons_self
      rw [peek_zero hp]
      show ∃ place, (if isDigit (p.advance.peek 0) then scanNumber p.advance
        else scanPair p.advance (byte '>') .arrow .minus) = _ ∧ _
      rw [if_pos hdigit]
      exact scanNumber_integer hadvance hdigits happart
  | @decimal sign digits fraction hsign hne hdigits hne' hfraction =>
    rw [List.append_assoc, List.append_assoc, List.cons_append] at hp
    rcases hsign with rfl | rfl
    · obtain ⟨ch, digits, rfl⟩ := List.exists_cons_of_ne_nil hne
      rw [List.nil_append, List.cons_append] at hp
      rw [peek_zero hp, scanToken_digit (hdigits ch List.mem_cons_self)]
      exact scanNumber_decimal (rest_advance hp) (fun c hc => hdigits c (List.mem_cons_of_mem _ hc)) hne'
        hfraction happart
    · rw [List.singleton_append] at hp
      have hadvance := rest_advance hp
      have hdigit : isDigit (p.advance.peek 0) = true := by
        obtain ⟨ch, digits, rfl⟩ := List.exists_cons_of_ne_nil hne
        rw [peek_zero hadvance]
        exact hdigits ch List.mem_cons_self
      rw [peek_zero hp]
      show ∃ place, (if isDigit (p.advance.peek 0) then scanNumber p.advance
        else scanPair p.advance (byte '>') .arrow .minus) = _ ∧ _
      rw [if_pos hdigit]
      exact scanNumber_decimal hadvance hdigits hne' hfraction happart
  | @word ch more hstart hmore =>
    rw [List.cons_append] at hp
    rw [goesOn_word (isWordKind_wordKind _)] at happart
    have hpast := past_front (rest_advance hp) hmore happart
    rw [peek_zero hp, scanToken_letter hstart]
    refine ⟨p.advance.past isIdentifierPart, ?_, hpast⟩
    have hread := (reads_advance hp).trans (reads_past isIdentifierPart p.advance)
    have hword : substr text p.location (p.advance.past isIdentifierPart).location = ch :: more := by
      have hslice := slice_of_reads h hread
      have hrest := hread.rest
      rw [hpast, hp, ← List.cons_append] at hrest
      rw [List.append_cancel_right hrest]
      exact hslice
    rw [scanIdentifierOrDuration, hword]
    rfl

end

/-! ### From the token to its lexeme -/

/-- What has been scanned is a lexeme, and goes on with nothing behind it. -/
def Spells (input : Bytes) (s : Scanned) : Prop :=
  s.problem = none → ∃ lexeme, input = lexeme ++ s.place.rest ∧ Lexeme s.kind lexeme ∧
    goesOn s.kind s.place.rest = false

theorem spells_ite {cond : Prop} [Decidable cond] {input : Bytes} {s s' : Scanned}
    (h : cond → Spells input s) (h' : ¬ cond → Spells input s') : Spells input (if cond then s else s') := by
  split
  · rename_i hcond
    exact h hcond
  · rename_i hcond
    exact h' hcond

theorem spells_unknown (input : Bytes) (p : Place) (message : String) : Spells input (unknown p message) :=
  nofun

theorem spells_scanNumber {input sign digits : Bytes} {q : Place} (hsign : sign = [] ∨ sign = [byte '-'])
    (hdigits : ∀ ch ∈ digits, isDigit ch = true) (hinput : input = sign ++ (digits ++ q.rest))
    (hne : digits ≠ [] ∨ isDigit (q.peek 0) = true) : Spells input (scanNumber q) := by
  have hrest := (reads_past isDigit q).rest
  have hall : ∀ ch ∈ digits ++ q.rest.takeWhile isDigit, isDigit ch = true := by
    intro ch hch
    rcases List.mem_append.mp hch with hch | hch
    · exact hdigits ch hch
    · exact List.mem_takeWhile_imp hch
  have hsome : digits ++ q.rest.takeWhile isDigit ≠ [] := by
    rcases hne with hne | hdigit
    · exact List.append_ne_nil_of_left_ne_nil hne _
    · refine List.append_ne_nil_of_right_ne_nil _ ?_
      unfold Place.peek at hdigit
      cases hq : q.rest with
      | nil =>
        rw [hq] at hdigit
        exact absurd hdigit (by decide)
      | cons ch more =>
        rw [hq] at hdigit
        have hdigit : isDigit ch = true := hdigit
        rw [List.takeWhile_cons, if_pos hdigit]
        exact List.cons_ne_nil _ _
  have hpast : beginsWith isDigit (q.past isDigit).rest = false := by
    rw [rest_past]
    exact not_beginsWith_dropWhile isDigit q.rest
  unfold scanNumber
  dsimp only
  generalize q.past isDigit = q' at hrest hpast ⊢
  generalize q.rest.takeWhile isDigit = more at hrest hall hsome
  refine spells_ite (fun hpoint _ => ?_) (fun hpoint _ => ?_)
  · obtain ⟨behind, hbehind⟩ := rest_of_peek hpoint.1 (by decide)
    have hfraction := (reads_past isDigit q'.advance).rest
    rw [rest_advance hbehind] at hfraction
    refine ⟨sign ++ (digits ++ more) ++ byte '.' :: behind.takeWhile isDigit, ?_,
      .decimal hsign hsome hall ?_ fun ch hch => List.mem_takeWhile_imp hch, ?_⟩
    · rw [hinput, hrest, hbehind]
      conv_lhs => rw [hfraction]
      simp
    · have hdigit := hpoint.2
      unfold Place.peek at hdigit
      rw [hbehind] at hdigit
      cases behind with
      | nil => exact absurd hdigit (by decide)
      | cons ch behind =>
        have hdigit : isDigit ch = true := hdigit
        rw [List.takeWhile_cons, if_pos hdigit]
        exact List.cons_ne_nil _ _
    · show beginsWith isDigit (q'.advance.past isDigit).rest = false
      rw [rest_past]
      exact not_beginsWith_dropWhile isDigit _
  · refine ⟨sign ++ (digits ++ more), ?_, .integer hsign hsome hall, ?_⟩
    · rw [hinput, hrest]
      simp
    · show (beginsWith isDigit q'.rest ||
        beginsWith (· == byte '.') q'.rest && beginsWith isDigit q'.rest.tail) = false
      rw [hpast, Bool.false_or]
      unfold Place.peek at hpoint
      generalize q'.rest = behind at hpoint ⊢
      rcases behind with _ | ⟨ch, _ | ⟨next, rest⟩⟩
      · rfl
      · exact Bool.and_false _
      · show (ch == byte '.' && isDigit next) = false
        rw [Bool.and_eq_false_iff, beq_eq_false_iff_ne, ← Bool.not_eq_true]
        by_cases hch : ch = byte '.'
        · exact .inr fun hnext => hpoint ⟨hch, hnext⟩
        · exact .inl hch

theorem spells_scanPair {ch expected : UInt8} {kind kind' : TokenKind} {q : Place}
    (hpair : (kind, [ch, expected]) ∈ symbols) (hone : (kind', [ch]) ∈ symbols) (hzero : expected ≠ 0)
    (hgo : ∀ rest, goesOn kind rest = false) (hgo' : q.peek 0 ≠ expected → goesOn kind' q.rest = false) :
    Spells (ch :: q.rest) (scanPair q expected kind kind') := by
  unfold scanPair
  refine spells_ite (fun hmatch _ => ?_) (fun hmatch _ => ?_)
  · refine ⟨[ch, expected], ?_, .symbol hpair, hgo _⟩
    rw [(reads_match hmatch hzero).rest]
    rfl
  · exact ⟨[ch], rfl, .symbol hone, hgo' hmatch⟩

/-- **What is scanned without a problem is a lexeme.** -/
theorem spells_scanToken {text before : Bytes} {p : Place} {ch : UInt8} {tail : Bytes}
    (h : Reads ⟨{}, text⟩ before p) (hp : p.rest = ch :: tail) (hstart : startsTrivia p.rest = false) :
    Spells p.rest (scanToken text p.location ch p.advance) := by
  have hread := reads_advance hp
  have hrest : p.rest = ch :: p.advance.rest := hread.rest
  rw [hrest] at hstart ⊢
  -- a byte that is a token of its own
  have hsingle : ∀ {c : UInt8} {kind : TokenKind}, (kind, [c]) ∈ symbols →
      goesOn kind p.advance.rest = false → ch = c →
      Spells (ch :: p.advance.rest) { kind, place := p.advance } := by
    intro c kind hmem hgo hch _
    exact ⟨[c], by rw [hch]; rfl, .symbol hmem, hgo⟩
  have hequals : ∀ {c : UInt8} {kind kind' : TokenKind}, (kind, [c, byte '=']) ∈ symbols →
      (kind', [c]) ∈ symbols → (∀ rest, goesOn kind rest = false) →
      (∀ rest, goesOn kind' rest = beginsWith (· == byte '=') rest) → ch = c →
      Spells (ch :: p.advance.rest) (scanPair p.advance (byte '=') kind kind') := by
    intro c kind kind' hpair hone hgo hgo' hch
    rw [hch]
    refine spells_scanPair hpair hone (by decide) hgo fun hne => ?_
    rw [hgo']
    exact begins_of_peek (beq_eq_false_iff_ne.mpr hne)
  have hdouble : ∀ {c : UInt8} {kind : TokenKind} (message : String), (kind, [c, c]) ∈ symbols → c ≠ 0 →
      (∀ rest, goesOn kind rest = false) → ch = c →
      Spells (ch :: p.advance.rest) (if p.advance.peek 0 = c then { kind, place := p.advance.advance }
        else unknown p.advance message) := by
    intro c kind message hmem hzero hgo hch
    refine spells_ite (fun hmatch _ => ?_) fun _ => spells_unknown _ _ _
    refine ⟨[c, c], ?_, .symbol hmem, hgo _⟩
    rw [hch, (reads_match hmatch hzero).rest]
    rfl
  unfold scanToken
  iterate 14 refine spells_ite (hsingle (by decide) rfl) fun _ => ?_
  refine spells_ite (fun hch => ?_) fun _ => ?_
  · -- `-` and what it may be the beginning of
    refine spells_ite (fun hdigit => ?_) fun hdigit => ?_
    · exact @spells_scanNumber _ [byte '-'] [] _ (.inr rfl) nofun (by rw [hch]; rfl) (.inr hdigit)
    · rw [hch]
      refine spells_scanPair (by decide) (by decide) (by decide) (fun _ => rfl) fun hne => ?_
      refine begins_of_peek ?_
      rw [Bool.or_eq_false_iff, beq_eq_false_iff_ne]
      exact ⟨Bool.eq_false_iff.mpr hdigit, hne⟩
  iterate 4 refine spells_ite (hequals (by decide) (by decide) (fun _ => rfl) fun _ => rfl) fun _ => ?_
  refine spells_ite (hdouble _ (by decide) (by decide) fun _ => rfl) fun _ => ?_
  refine spells_ite (hdouble _ (by decide) (by decide) fun _ => rfl) fun _ => ?_
  refine spells_ite (fun hch => ?_) fun _ => ?_
  · refine hsingle (by decide) ?_ hch
    rw [hch, startsTrivia, Bool.or_eq_false_iff] at hstart
    exact hstart.2
  refine spells_ite (fun hch hproblem => ?_) fun _ => ?_
  · have hclosed : (scanStringFrom p.advance.rest p.advance.location).1 = true := by
      by_contra hopen
      rw [scanString] at hproblem
      simp [hopen] at hproblem
    obtain ⟨body, hbody, hsplit⟩ := exists_stringBody hclosed
    refine ⟨quote :: (body ++ [quote]), ?_, .string hbody, rfl⟩
    show ch :: p.advance.rest =
      quote :: (body ++ [quote]) ++ (scanStringFrom p.advance.rest p.advance.location).2.rest
    conv_lhs => rw [hsplit]
    rw [hch]
    simp
  refine spells_ite (fun hdigit => ?_) fun _ => ?_
  · refine @spells_scanNumber _ [] [ch] _ (.inl rfl) ?_ rfl (.inl (List.cons_ne_nil _ _))
    intro c hc
    rw [List.mem_singleton.mp hc]
    exact hdigit
  refine spells_ite (fun hletter _ => ?_) fun _ => spells_unknown _ _ _
  have hword := reads_past isIdentifierPart p.advance
  have hlexeme : substr text p.location (p.advance.past isIdentifierPart).location =
      ch :: p.advance.rest.takeWhile isIdentifierPart := slice_of_reads h (hread.trans hword)
  have hkind : (scanIdentifierOrDuration text p.location p.advance).kind =
      wordKind (ch :: p.advance.rest.takeWhile isIdentifierPart) := by
    rw [scanIdentifierOrDuration, hlexeme]
    rfl
  refine ⟨ch :: p.advance.rest.takeWhile isIdentifierPart, ?_, ?_, ?_⟩
  · show ch :: p.advance.rest = _ ++ (p.advance.past isIdentifierPart).rest
    conv_lhs => rw [hword.rest]
    rfl
  · rw [hkind]
    exact .word hletter fun c hc => List.mem_takeWhile_imp hc
  · rw [hkind, goesOn_word (isWordKind_wordKind _)]
    show beginsWith isIdentifierPart (p.advance.past isIdentifierPart).rest = false
    rw [rest_past]
    exact not_beginsWith_dropWhile isIdentifierPart _

/-! ## The lexer -/

theorem Lexeme.ne_nil {kind : TokenKind} {lexeme : Bytes} (h : Lexeme kind lexeme) : lexeme ≠ [] := by
  cases h with
  | symbol hmem =>
    have hall : ∀ symbol ∈ symbols, symbol.2 ≠ [] := by decide
    exact hall _ hmem
  | string _ => exact List.cons_ne_nil _ _
  | integer _ hne _ => exact List.append_ne_nil_of_right_ne_nil _ hne
  | decimal _ _ _ _ _ => exact List.append_ne_nil_of_right_ne_nil _ (List.cons_ne_nil _ _)
  | word _ _ => exact List.cons_ne_nil _ _

/-- No token begins like trivia. -/
theorem Lexeme.not_startsTrivia {kind : TokenKind} {lexeme rest : Bytes} (h : Lexeme kind lexeme)
    (happart : goesOn kind rest = false) : startsTrivia (lexeme ++ rest) = false := by
  have hhead : ∀ (ch : UInt8) (more : Bytes), isBlank ch = false → ch ≠ byte '/' →
      startsTrivia (ch :: more ++ rest) = false := by
    intro ch more hblank hslash
    show (isBlank ch || (ch == byte '/' && _)) = false
    rw [hblank, beq_eq_false_iff_ne.mpr hslash]
    rfl
  have hdigit : ∀ ch : UInt8, isDigit ch = true → isBlank ch = false ∧ ch ≠ byte '/' := by
    intro ch hch
    refine ⟨?_, ne_of_test hch rfl⟩
    rw [isBlank, beq_eq_false_iff_ne.mpr (ne_of_test hch rfl), beq_eq_false_iff_ne.mpr (ne_of_test hch rfl),
      beq_eq_false_iff_ne.mpr (ne_of_test hch rfl), beq_eq_false_iff_ne.mpr (ne_of_test hch rfl)]
    rfl
  cases h with
  | symbol hmem =>
    have hall : ∀ symbol ∈ symbols, symbol.1 = .slash ∨
        ∃ ch ∈ symbol.2.head?, isBlank ch = false ∧ ch ≠ byte '/' := by decide
    rcases hall _ hmem with hslash | ⟨ch, hch, hblank, hne⟩
    · obtain rfl : kind = .slash := hslash
      obtain rfl : lexeme = ascii "/" := by
        have honly : ∀ symbol ∈ symbols, symbol.1 = .slash → symbol.2 = ascii "/" := by decide
        exact honly _ hmem rfl
      show (isBlank (byte '/') || (byte '/' == byte '/' && _)) = false
      rw [beq_self_eq_true, Bool.true_and, Bool.or_eq_false_iff]
      exact ⟨by decide, happart⟩
    · obtain ⟨more, rfl⟩ := List.head?_eq_some_iff.mp hch
      exact hhead ch more hblank hne
  | string _ => exact hhead _ _ (by decide) (by decide)
  | integer hsign hne hdigits =>
    obtain ⟨ch, digits, rfl⟩ := List.exists_cons_of_ne_nil hne
    rcases hsign with rfl | rfl
    · obtain ⟨hblank, hslash⟩ := hdigit ch (hdigits ch List.mem_cons_self)
      exact hhead _ _ hblank hslash
    · exact hhead _ _ (by decide) (by decide)
  | decimal hsign hne hdigits _ _ =>
    obtain ⟨ch, digits, rfl⟩ := List.exists_cons_of_ne_nil hne
    rcases hsign with rfl | rfl
    · obtain ⟨hblank, hslash⟩ := hdigit ch (hdigits ch List.mem_cons_self)
      exact hhead _ _ hblank hslash
    · exact hhead _ _ (by decide) (by decide)
  | @word ch more hstart _ =>
    refine hhead _ _ ?_ (ne_of_test hstart rfl)
    rw [isBlank, beq_eq_false_iff_ne.mpr (ne_of_test hstart rfl),
      beq_eq_false_iff_ne.mpr (ne_of_test hstart rfl), beq_eq_false_iff_ne.mpr (ne_of_test hstart rfl),
      beq_eq_false_iff_ne.mpr (ne_of_test hstart rfl)]
    rfl

section

variable {text before lexeme rest : Bytes} {kind : TokenKind} {p : Place}

theorem exists_head_of_more (hmore : p.isAtEnd = false) : ∃ ch tail, p.rest = ch :: tail := by
  cases hp : p.rest with
  | nil =>
    rw [Place.isAtEnd, hp] at hmore
    cases hmore
  | cons ch tail => exact ⟨ch, tail, rfl⟩

theorem nextToken_of_lexeme (h : Reads ⟨{}, text⟩ before p) (hp : p.rest = lexeme ++ rest)
    (hlexeme : Lexeme kind lexeme) (happart : goesOn kind rest = false) :
    ∃ token q, nextToken text p = (token, q, []) ∧ token.spelling = (kind, lexeme) ∧ Reads p lexeme q ∧
      q.rest = rest := by
  obtain ⟨place, hscan, hplace⟩ := scanToken_lexeme h hp hlexeme happart
  have hmore : p.isAtEnd = false := by
    rw [Place.isAtEnd, hp, List.isEmpty_eq_false_iff]
    exact List.append_ne_nil_of_left_ne_nil hlexeme.ne_nil _
  obtain ⟨bytes, -, hread⟩ := reads_nextToken text hmore
  have hnext : nextToken text p = (⟨kind, substr text p.location place.location,
      { begin := p.location, end' := place.location }⟩, place, []) := by
    rw [nextToken, hscan]
    rfl
  rw [hnext] at hread
  obtain rfl : bytes = lexeme := by
    have hrest := hread.rest
    rw [hp, hplace] at hrest
    exact (List.append_cancel_right hrest).symm
  refine ⟨_, place, hnext, ?_, hread, hplace⟩
  show (kind, substr text p.location place.location) = (kind, bytes)
  rw [show substr text p.location place.location = bytes from slice_of_reads h hread]

theorem lexeme_of_nextToken {token : Token} {q : Place} (h : Reads ⟨{}, text⟩ before p)
    (hmore : p.isAtEnd = false) (hstart : startsTrivia p.rest = false)
    (hnext : nextToken text p = (token, q, [])) :
    p.rest = token.lexeme ++ q.rest ∧ Lexeme token.kind token.lexeme ∧ goesOn token.kind q.rest = false := by
  obtain ⟨ch, tail, hp⟩ := exists_head_of_more hmore
  obtain ⟨bytes, -, hread⟩ := reads_nextToken text hmore
  have hspells := spells_scanToken h hp hstart
  rw [nextToken, peek_zero hp] at hnext hread
  generalize scanToken text p.location ch p.advance = s at hnext hread hspells
  obtain ⟨rfl, rfl, hproblem⟩ : _ ∧ _ ∧ _ := by
    simpa only [Prod.mk.injEq] using hnext
  have hnone : s.problem = none := by
    cases hs : s.problem with
    | none => rfl
    | some problem =>
      rw [hs] at hproblem
      cases hproblem
  obtain ⟨lexeme, hsplit, hlexeme, hgo⟩ := hspells hnone
  obtain rfl : bytes = lexeme := by
    have hrest : p.rest = bytes ++ s.place.rest := hread.rest
    rw [hsplit] at hrest
    exact (List.append_cancel_right hrest).symm
  have hbytes : substr text p.location s.place.location = bytes := slice_of_reads h hread
  refine ⟨?_, ?_, hgo⟩
  · show p.rest = substr text p.location s.place.location ++ s.place.rest
    rw [hbytes]
    exact hsplit
  · show Lexeme s.kind (substr text p.location s.place.location)
    rw [hbytes]
    exact hlexeme

/-- What stands at the end of every list of tokens. -/
def endSpelling : Spelling := (.endOfFile, [])

theorem scan_of_renders {fuel : Nat} {spellings : List Spelling} (h : Reads ⟨{}, text⟩ before p)
    (hrenders : Renders spellings p.rest) (hfuel : p.rest.length < fuel) :
    ∃ tokens, scan text fuel p = some (tokens, []) ∧
      tokens.map Token.spelling = spellings ++ [endSpelling] := by
  induction fuel generalizing p before spellings with
  | zero => exact absurd hfuel (Nat.not_lt_zero _)
  | succ fuel ih =>
    generalize hinput : p.rest = input at hrenders
    cases hrenders with
    | @done _ ending htrivia hending =>
      obtain ⟨q, hq, hqrest⟩ := skipTrivia_gap htrivia hending (fun _ => rfl) rfl
        (by rw [hinput, List.append_nil]) hfuel
      rw [scan, hq, Option.bind_some]
      dsimp only
      rw [if_pos (by rw [Place.isAtEnd, hqrest]; rfl)]
      exact ⟨_, rfl, rfl⟩
    | @token gap kind lexeme rest spellings htrivia hlexeme happart hrest =>
      obtain ⟨q, hq, hqrest⟩ := skipTrivia_gap htrivia (by decide) (fun hne => absurd rfl hne)
        (hlexeme.not_startsTrivia happart) hinput hfuel
      obtain ⟨bytes, ending, hskips⟩ := skips_trivia hq
      have hbefore := h.trans hskips.reads
      obtain ⟨token, q', hnext, hspelling, hread, hrest'⟩ :=
        nextToken_of_lexeme hbefore hqrest hlexeme happart
      have hpos := List.length_pos_iff.mpr hlexeme.ne_nil
      have hlength := hskips.reads.length
      rw [hqrest, List.length_append] at hlength
      obtain ⟨tokens, hscan, htokens⟩ := ih (hbefore.trans hread) (hrest'.symm ▸ hrest)
        (by rw [hrest']; omega)
      rw [scan, hq, Option.bind_some]
      dsimp only
      rw [if_neg (by
        rw [Place.isAtEnd, hqrest, List.isEmpty_iff]
        exact List.append_ne_nil_of_left_ne_nil hlexeme.ne_nil _), hnext, hscan]
      exact ⟨_, rfl, by rw [List.map_cons, htokens, hspelling]; rfl⟩

theorem renders_of_scan {fuel : Nat} {tokens : List Token} {diagnostics : List Diagnostic}
    (h : Reads ⟨{}, text⟩ before p) (hscan : scan text fuel p = some (tokens, diagnostics))
    (hclean : hasErrors diagnostics = false) :
    ∃ spellings, tokens.map Token.spelling = spellings ++ [endSpelling] ∧ Renders spellings p.rest := by
  induction fuel generalizing p before tokens diagnostics with
  | zero => cases hscan
  | succ fuel ih =>
    rw [scan] at hscan
    obtain ⟨⟨q, d⟩, htrivia, hscan⟩ := Option.bind_eq_some_iff.mp hscan
    obtain ⟨bytes, ending, hskips⟩ := skips_trivia htrivia
    have hbefore := h.trans hskips.reads
    have hending : hasErrors d = false → ending ≠ .inBlock := by
      intro hd hblock
      obtain ⟨diagnostic, hmem, hseverity, -⟩ := hskips.reported hblock
      have hany : hasErrors d = true := List.any_eq_true.mpr ⟨diagnostic, hmem, decide_eq_true hseverity⟩
      rw [hd] at hany
      cases hany
    dsimp only at hscan
    split at hscan
    · rename_i hend
      cases hscan
      rw [Place.isAtEnd, List.isEmpty_iff] at hend
      refine ⟨[], rfl, ?_⟩
      have hrest := hskips.reads.rest
      rw [hend, List.append_nil] at hrest
      rw [hrest]
      exact .done hskips.trivia (hending hclean)
    · rename_i hmore
      have hmore := Bool.eq_false_iff.mpr hmore
      obtain ⟨⟨rest, d'⟩, hrest, heq⟩ := Option.map_eq_some_iff.mp hscan
      cases heq
      rw [hasErrors_append, hasErrors_append, Bool.or_eq_false_iff, Bool.or_eq_false_iff] at hclean
      obtain ⟨⟨hd, hproblems⟩, hd'⟩ := hclean
      obtain ⟨lexeme, -, hreads⟩ := reads_nextToken text hmore
      have hnone : (nextToken text q).2.2 = [] := by
        unfold nextToken at hproblems ⊢
        dsimp only at hproblems ⊢
        cases hproblem : (scanToken text q.location (q.peek 0) q.advance).problem with
        | none => rfl
        | some problem =>
          rw [hproblem] at hproblems
          cases hproblems
      obtain ⟨hsplit, hlexeme, hgo⟩ := lexeme_of_nextToken hbefore hmore
        (not_startsTrivia_of_skipTrivia htrivia)
        (show nextToken text q = ((nextToken text q).1, (nextToken text q).2.1, []) by rw [← hnone])
      obtain ⟨spellings, hspellings, hrenders⟩ := ih (hbefore.trans hreads) hrest hd'
      have hclosed : ending = .closed := by
        by_contra hopen
        obtain ⟨ch, tail, hq⟩ := exists_head_of_more hmore
        rw [hskips.ends hopen] at hq
        cases hq
      refine ⟨(nextToken text q).1.spelling :: spellings, ?_, ?_⟩
      · rw [List.map_cons, hspellings]
        rfl
      · rw [hskips.reads.rest, hsplit]
        exact .token (hclosed ▸ hskips.trivia) hlexeme hgo hrenders

end

/-- **The lexer has tokens and no error just for the texts that render the tokens.** -/
theorem lex_iff {text : Bytes} {spellings : List Spelling} :
    (∃ tokens diagnostics, lex text = some (tokens, diagnostics) ∧ hasErrors diagnostics = false ∧
        tokens.map Token.spelling = spellings ++ [endSpelling]) ↔ Renders spellings text := by
  constructor
  · rintro ⟨tokens, diagnostics, hlex, hclean, htokens⟩
    obtain ⟨spellings', hspellings, hrenders⟩ := renders_of_scan (Reads.refl ⟨{}, text⟩) hlex hclean
    rw [htokens] at hspellings
    rwa [List.append_cancel_right hspellings]
  · intro hrenders
    obtain ⟨tokens, hlex, htokens⟩ := scan_of_renders (Reads.refl ⟨{}, text⟩) hrenders (Nat.lt_succ_self _)
    exact ⟨tokens, [], hlex, rfl, htokens⟩

end StateSpec.Compiler
