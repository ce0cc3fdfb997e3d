/-
  SUBTRACTION — whether the blanks around a `-` matter.

  The grammar has a `-` between two operands, and literals without a sign.  The lexer takes a `-` and the digit
  behind it for one literal, whatever stands in front, so `a-1` and `a -1` are no expressions while `a- 1` is
  one.  And where the left operand ends within a line comment the `-` belongs to that comment.

  * `subtraction_spacing_iff` — for which operands all spacings are the one subtraction.
-/
import StateSpec.Compiler.ExpressionGrammar
import StateSpec.Compiler.JoinedTexts

namespace StateSpec.Compiler

open ExpressionGrammar ExpressionInput

/-! ## Expressions as texts -/

/-- The lexer has these tokens and no error. -/
def HasTokens (text : Bytes) (spellings : List Spelling) : Prop :=
  ∃ tokens diagnostics, lex text = some (tokens, diagnostics) ∧ hasErrors diagnostics = false ∧
    tokens.map Token.spelling = spellings ++ [endSpelling]

/-- The lexer and `ExpressionSyntaxValidator` accept the text. -/
def AcceptsText (range : SourceRange) (text : Bytes) : Prop :=
  ∃ tokens diagnostics s, lex text = some (tokens, diagnostics) ∧ hasErrors diagnostics = false ∧
    ExpressionInput.validate ⟨range, tokens⟩ = some s ∧ ¬ IsSyntaxError s.diagnostics

/-- The text of an operand of `-`. -/
structure OperandText (range : SourceRange) (text : Bytes) (spellings : List Spelling) : Prop where
  tokens : HasTokens text spellings
  accepted : AcceptsText range text
  operand : Derives (.level .multiplicative) (spellings.map Prod.fst)

/-- The spacings of a subtraction. -/
def spacings (l r : Bytes) : List Bytes :=
  [l ++ ascii "-" ++ r, l ++ ascii " -" ++ r, l ++ ascii "- " ++ r, l ++ ascii " - " ++ r]

/-- The tokens of a subtraction of operands. -/
def subtraction (left right : List Spelling) : List Spelling := left ++ (.minus, ascii "-") :: right

/-- All spacings are accepted or none, and as the subtraction of the operands. -/
structure SpacingIsFree (range : SourceRange) (l r : Bytes) (left right : List Spelling) : Prop where
  alike : (∀ text ∈ spacings l r, AcceptsText range text) ∨ ∀ text ∈ spacings l r, ¬ AcceptsText range text
  subtraction : ∀ text ∈ spacings l r, AcceptsText range text →
    HasTokens text (subtraction left right) ∧ Derives (.level .additive) ((subtraction left right).map Prod.fst)

/-- The text ends within a line comment. -/
def EndsInComment (text : Bytes) : Prop := ∃ spellings, RendersUpTo .inLine spellings text

/-- The left operand is not commented at its end, and the right one does not begin with a digit.  Or the comment
    goes on into the right operand, and what is behind the end of its line does not go on with the left one, or
    happens to be the rest of the subtraction. -/
def ApartOperands (l r : Bytes) (left right : List Spelling) : Prop :=
  (¬ EndsInComment l ∧ beginsWith isDigit r = false) ∨
    (EndsInComment l ∧ ∃ comment more, r = comment ++ byte '\n' :: more ∧ byte '\n' ∉ comment ∧
      ∀ rest, HasTokens more rest → Derives (.level .logicalOr) ((left ++ rest).map Prod.fst) →
        rest = (.minus, ascii "-") :: right)

/-! ## Words of the grammar -/

namespace ExpressionGrammar

theorem Derives.ne_endOfFile {nonterminal : Nonterminal} {word : List TokenKind} (h : Derives nonterminal word) :
    .endOfFile ∉ word := by
  have hname : ∀ {kind : TokenKind}, isExpressionIdentifierToken kind = true → TokenKind.endOfFile ≠ kind := by
    rintro kind hkind rfl
    cases hkind
  have hmember : ∀ {kind : TokenKind} {kinds : List TokenKind}, kind ∈ kinds → TokenKind.endOfFile ∉ kinds →
      TokenKind.endOfFile ≠ kind := by
    rintro kind kinds hkind hnot rfl
    exact hnot hkind
  induction h with
  | operand _ _ ih ih' => simp [ih, ih']
  | @operator level operator next rest hoperator _ _ ih ih' =>
    have hne : TokenKind.endOfFile ≠ operator := hmember hoperator (by cases level <;> decide)
    simp [ih, ih', hne]
  | sign hsign _ ih =>
    have hne := hmember hsign (by decide)
    simp [ih, hne]
  | unsigned _ ih => exact ih
  | literal hkind =>
    have hne := hmember hkind (by decide)
    simp [hne]
  | parenthesised _ ih => simp [ih]
  | list _ ih => simp [ih]
  | assignable _ _ ih ih' => simp [ih, ih']
  | call _ _ _ ih ihword ih' => simp [ih, ihword, ih']
  | name hkind _ ih => simp [ih, hname hkind]
  | noOperator => exact List.not_mem_nil
  | noName => exact List.not_mem_nil
  | dotName hkind _ ih => simp [ih, hname hkind]
  | noArguments => exact List.not_mem_nil
  | someArguments _ ih => exact ih
  | noSelector => exact List.not_mem_nil
  | selectorName hkind _ ih => simp [ih, hname hkind]
  | selectorExpression _ _ ih ih' => simp [ih, ih']

/-- The word of tokens is what stands before the end. -/
theorem word_of_kinds {e : ExpressionInput} {word rest : List TokenKind} (hword : .endOfFile ∉ word)
    (h : e.tokens.map Token.kind = word ++ .endOfFile :: rest) : e.word = word := by
  rw [ExpressionInput.word, h, List.takeWhile_append_of_pos]
  · rw [List.takeWhile_cons_of_neg (by decide), List.append_nil]
  · intro kind hkind
    rw [bne_iff_ne]
    rintro rfl
    exact hword hkind

/-- A level without operators is its operand. -/
theorem Derives.alone (level : Level) {word : List TokenKind} (h : Derives level.operand word) :
    Derives (.level level) word := by
  rw [← List.append_nil word]
  exact .operand h (.noOperator level)

/-- What derives an operand of `-` derives an expression. -/
theorem Derives.expression_of_additive {word : List TokenKind} (h : Derives (.level .additive) word) :
    Derives (.level .logicalOr) word := by
  have hcomparison : Derives (.level .comparison) word := Derives.alone .comparison h
  have hequality : Derives (.level .equality) word := Derives.alone .equality hcomparison
  have hand : Derives (.level .logicalAnd) word := Derives.alone .logicalAnd hequality
  exact Derives.alone .logicalOr hand

theorem Derives.subtraction {word other : List TokenKind} (h : Derives (.level .multiplicative) word)
    (h' : Derives (.level .multiplicative) other) : Derives (.level .additive) (word ++ .minus :: other) := by
  have hmore : Derives (.more .additive) (.minus :: (other ++ [])) :=
    @Derives.operator .additive _ _ _ (by decide) h' (.noOperator _)
  rw [List.append_nil] at hmore
  exact @Derives.operand .additive _ _ h hmore

/-- **Behind an expression that is part of a longer one stands what goes on with it.** -/
theorem Derives.continues {word rest : List TokenKind} {kind : TokenKind} (h : Derives (.level .logicalOr) word)
    (h' : Derives (.level .logicalOr) (word ++ kind :: rest)) :
    kind ∈ (Nonterminal.level .logicalOr).continuing := by
  by_contra hstops
  -- the tokens of the longer one
  let e : ExpressionInput := ⟨{}, ((word ++ kind :: rest) ++ [TokenKind.endOfFile]).map fun kind => { kind }⟩
  have hkinds : e.tokens.map Token.kind = (word ++ kind :: rest) ++ .endOfFile :: [] := by
    simp [e, Function.comp_def]
  have hword : e.word = word ++ kind :: rest := word_of_kinds h'.ne_endOfFile hkinds
  have hended : e.Ended := ⟨[], by rw [hword]; exact hkinds⟩
  have hstart : e.Stands {} := ⟨Nat.zero_le _, nofun, fun ⟨_, hmem, _⟩ => absurd hmem List.not_mem_nil⟩
  have hleft : e.left {} = word ++ kind :: rest := hword
  obtain ⟨s, -, hread⟩ := recognizes_parseExpression hended _ {} hstart (e.left_length _)
  obtain ⟨-, hall⟩ := hread.complete rfl _ [] h' (stops_nil _) (by rw [hleft, List.append_nil])
  obtain ⟨-, hpart⟩ := hread.complete rfl word (kind :: rest) h (stops_cons.mpr hstops) hleft
  rw [hall] at hpart
  cases hpart

end ExpressionGrammar

/-! ## Texts and words -/

theorem hasTokens_iff {text : Bytes} {spellings : List Spelling} : HasTokens text spellings ↔
    Renders spellings text := lex_iff

theorem Lexeme.ne_endOfFile {kind : TokenKind} {lexeme : Bytes} (h : Lexeme kind lexeme) : kind ≠ .endOfFile := by
  rintro rfl
  generalize hkind : TokenKind.endOfFile = kind at h
  cases h with
  | symbol hmem =>
    have hall : ∀ symbol ∈ symbols, TokenKind.endOfFile ≠ symbol.1 := by decide
    exact hall _ hmem hkind
  | @word ch rest _ _ =>
    have hword := isWordKind_wordKind (ch :: rest)
    rw [← hkind] at hword
    cases hword
  | _ => cases hkind

/-- The texts that are accepted are those with the tokens of an expression. -/
theorem acceptsText_iff {range : SourceRange} {text : Bytes} : AcceptsText range text ↔
    ∃ spellings, HasTokens text spellings ∧ Derives (.level .logicalOr) (spellings.map Prod.fst) := by
  have hjudged : ∀ {tokens : List Token} {diagnostics : List Diagnostic} {spellings : List Spelling},
      lex text = some (tokens, diagnostics) → hasErrors diagnostics = false →
      tokens.map Token.spelling = spellings ++ [endSpelling] →
      ∃ s, ExpressionInput.validate ⟨range, tokens⟩ = some s ∧
        (¬ IsSyntaxError s.diagnostics ↔ Derives (.level .logicalOr) (spellings.map Prod.fst)) := by
    intro tokens diagnostics spellings hlex hclean htokens
    have hlexemes : ∀ spelling ∈ spellings, Lexeme spelling.1 spelling.2 :=
      (lex_iff.mp ⟨tokens, diagnostics, hlex, hclean, htokens⟩).lexeme
    have hkinds : tokens.map Token.kind = spellings.map Prod.fst ++ .endOfFile :: [] := by
      have hmap := congrArg (List.map Prod.fst) htokens
      rw [List.map_map, List.map_append] at hmap
      exact hmap
    have hnot : TokenKind.endOfFile ∉ spellings.map Prod.fst := by
      intro hmem
      obtain ⟨spelling, hspelling, hkind⟩ := List.mem_map.mp hmem
      exact (hlexemes spelling hspelling).ne_endOfFile hkind
    have hlast : tokens.getLast?.map Token.kind = some .endOfFile := by
      rw [← List.getLast?_map, hkinds, List.getLast?_concat]
    have hword := word_of_kinds (e := ⟨range, tokens⟩) hnot hkinds
    have hiff := validate_accepts_iff (e := ⟨range, tokens⟩) hlast
    rwa [hword] at hiff
  constructor
  · rintro ⟨tokens, diagnostics, s, hlex, hclean, hvalidate, hquiet⟩
    obtain ⟨spellings, hspellings, -⟩ := renders_of_scan (Reads.refl ⟨{}, text⟩) hlex hclean
    obtain ⟨s', hvalidate', hiff⟩ := hjudged hlex hclean hspellings
    rw [hvalidate] at hvalidate'
    obtain rfl := Option.some.inj hvalidate'
    exact ⟨spellings, ⟨tokens, diagnostics, hlex, hclean, hspellings⟩, hiff.mp hquiet⟩
  · rintro ⟨spellings, ⟨tokens, diagnostics, hlex, hclean, hspellings⟩, hderives⟩
    obtain ⟨s, hvalidate, hiff⟩ := hjudged hlex hclean hspellings
    exact ⟨tokens, diagnostics, s, hlex, hclean, hvalidate, hiff.mpr hderives⟩

/-- A text with these tokens is accepted just if they make an expression. -/
theorem HasTokens.accepted_iff {range : SourceRange} {text : Bytes} {spellings : List Spelling}
    (h : HasTokens text spellings) :
    AcceptsText range text ↔ Derives (.level .logicalOr) (spellings.map Prod.fst) := by
  rw [acceptsText_iff]
  constructor
  · rintro ⟨others, hothers, hderives⟩
    rwa [(hasTokens_iff.mp h).unique (hasTokens_iff.mp hothers)]
  · exact fun hderives => ⟨spellings, h, hderives⟩

/-! ## What stands in front of the right operand -/

section

variable {range : SourceRange} {l r : Bytes} {left right : List Spelling}

theorem goesOn_minus (kind : TokenKind) (rest : Bytes) : goesOn kind (ascii "-" ++ rest) = false := by
  cases kind <;> rfl

/-- No operand begins with a `>`. -/
theorem not_begins_greater (hr : Renders right r) (hright : Derives (.level .multiplicative) (right.map Prod.fst)) :
    beginsWith (· == byte '>') r = false := by
  cases r with
  | nil => rfl
  | cons ch rest =>
    show (ch == byte '>') = false
    rw [beq_eq_false_iff_ne]
    rintro rfl
    obtain ⟨kind, hkind, hfirst⟩ : ∃ kind ∈ [TokenKind.greater, .greaterEqual],
        ∃ lexeme others, right = (kind, lexeme) :: others := by
      cases hequals : beginsWith (· == byte '=') rest with
      | false =>
        have hsymbol : Lexeme .greater (ascii ">") := .symbol (by decide)
        obtain ⟨others, heq, -⟩ := Renders.of_lexeme hsymbol hequals hr
        exact ⟨.greater, by decide, _, others, heq⟩
      | true =>
        cases rest with
        | nil => cases hequals
        | cons next rest =>
          obtain rfl : next = byte '=' := beq_iff_eq.mp hequals
          have hsymbol : Lexeme .greaterEqual (ascii ">=") := .symbol (by decide)
          obtain ⟨others, heq, -⟩ := Renders.of_lexeme hsymbol rfl hr
          exact ⟨.greaterEqual, by decide, _, others, heq⟩
    obtain ⟨lexeme, others, rfl⟩ := hfirst
    obtain ⟨kind', rest', heq, hbegins⟩ := hright.begins rfl
    obtain rfl : kind = kind' := (List.cons.inj heq).1
    have hall : ∀ kind ∈ [TokenKind.greater, .greaterEqual], kind ∉ [TokenKind.bang, .minus] ∧
        kind ∉ expressionLiterals ∧ kind ∉ [TokenKind.leftParen, .leftBracket] ∧
          isExpressionIdentifierToken kind = false := by decide
    obtain ⟨hsign, hliteral, hopen, hname⟩ := hall kind hkind
    rcases hbegins with h | h | h | h
    · exact hsign h
    · exact hliteral h
    · exact hopen h
    · rw [hname] at h
      cases h

/-- A `-` with the right operand behind it. -/
theorem renders_minus {gap : Bytes} (hgap : gap = [] ∧ beginsWith isDigit r = false ∨ gap = ascii " ")
    (hr : Renders right r) (hright : Derives (.level .multiplicative) (right.map Prod.fst)) :
    Renders ((.minus, ascii "-") :: right) (ascii "-" ++ (gap ++ r)) := by
  have hbehind : Renders right (gap ++ r) := by
    rcases hgap with ⟨rfl, -⟩ | rfl
    · exact hr
    · exact hr.blank
  have happart : goesOn .minus (gap ++ r) = false := by
    rcases hgap with ⟨rfl, hdigit⟩ | rfl
    · have hgreater := not_begins_greater hr hright
      show beginsWith (fun ch => isDigit ch || ch == byte '>') r = false
      cases r with
      | nil => rfl
      | cons ch rest =>
        have hboth : isDigit ch = false ∧ (ch == byte '>') = false := ⟨hdigit, hgreater⟩
        show (isDigit ch || ch == byte '>') = false
        rw [hboth.1, hboth.2]
        rfl
    · exact goesOn_blank _ _
  exact Renders.token .nil (.symbol (by decide)) happart hbehind

theorem not_digit_of_starts {text : Bytes} (h : startsTrivia text = true) : ¬ beginsWith isDigit text = true := by
  cases text with
  | nil => exact nofun
  | cons ch rest =>
    intro hdigit
    have hch : isDigit ch = true := hdigit
    have hblank : isBlank ch = false := by
      rw [isBlank, beq_eq_false_iff_ne.mpr (ne_of_test hch rfl), beq_eq_false_iff_ne.mpr (ne_of_test hch rfl),
        beq_eq_false_iff_ne.mpr (ne_of_test hch rfl), beq_eq_false_iff_ne.mpr (ne_of_test hch rfl)]
      rfl
    have hslash : (ch == byte '/') = false := beq_eq_false_iff_ne.mpr (ne_of_test hch rfl)
    have hstarts : (isBlank ch || (ch == byte '/' && beginsWith (fun ch => ch == byte '/' || ch == byte '*') rest)) =
        true := h
    rw [hblank, hslash] at hstarts
    cases hstarts

theorem not_digit_of_letter {ch : UInt8} (h : isIdentifierStart ch = true) : ¬ isDigit ch = true := by
  have hall : ∀ n : Fin 256, isIdentifierStart (UInt8.ofNat n.val) = true →
      ¬ isDigit (UInt8.ofNat n.val) = true := by decide +kernel
  have hch := hall ⟨ch.toNat, ch.toNat_lt⟩
  rw [UInt8.ofNat_toNat] at hch
  exact hch h

/-- A lexeme that begins with a digit is a literal, and is one with a `-` in front. -/
theorem Lexeme.signed {kind : TokenKind} {ch : UInt8} {more : Bytes} (h : Lexeme kind (ch :: more))
    (hch : isDigit ch = true) : kind ∈ [TokenKind.integerLiteral, .decimalLiteral] ∧
      Lexeme kind (byte '-' :: ch :: more) := by
  generalize hlexeme : ch :: more = lexeme at h
  cases h with
  | symbol hmem =>
    have hall : ∀ symbol ∈ symbols, symbol.2.head?.all (fun ch => !isDigit ch) = true := by decide
    have hnot := hall _ hmem
    rw [← hlexeme] at hnot
    have hfalse : (!isDigit ch) = true := hnot
    rw [hch] at hfalse
    cases hfalse
  | string _ =>
    obtain ⟨rfl, -⟩ := List.cons.inj hlexeme
    exact absurd hch (by decide)
  | @integer sign digits hsign hne hdigits =>
    rcases hsign with rfl | rfl
    · exact ⟨by decide, @Lexeme.integer [byte '-'] _ (.inr rfl) hne hdigits⟩
    · obtain ⟨rfl, -⟩ := List.cons.inj hlexeme
      exact absurd hch (by decide)
  | @decimal sign digits fraction hsign hne hdigits hne' hfraction =>
    rcases hsign with rfl | rfl
    · exact ⟨by decide, @Lexeme.decimal [byte '-'] _ _ (.inr rfl) hne hdigits hne' hfraction⟩
    · obtain ⟨rfl, -⟩ := List.cons.inj hlexeme
      exact absurd hch (by decide)
  | word hstart _ =>
    obtain ⟨rfl, -⟩ := List.cons.inj hlexeme
    exact absurd hch (not_digit_of_letter hstart)

/-- A `-` and the literal behind it are one literal. -/
theorem renders_signed (hr : Renders right r) (hdigit : beginsWith isDigit r = true) :
    ∃ kind ∈ [TokenKind.integerLiteral, .decimalLiteral], ∃ lexeme others,
      Renders ((kind, lexeme) :: others) (ascii "-" ++ r) := by
  cases hr with
  | @done gap ending htrivia _ =>
    rcases htrivia.starts [] with rfl | hstarts
    · cases hdigit
    · rw [List.append_nil] at hstarts
      exact absurd hdigit (not_digit_of_starts hstarts)
  | @token gap kind lexeme rest spellings htrivia hlexeme happart hrest =>
    rcases htrivia.starts (lexeme ++ rest) with rfl | hstarts
    · obtain ⟨ch, more, rfl⟩ := List.exists_cons_of_ne_nil hlexeme.ne_nil
      obtain ⟨hkind, hsigned⟩ := hlexeme.signed hdigit
      have hrenders := Renders.token .nil hsigned happart hrest
      exact ⟨kind, hkind, _, _, hrenders⟩
    · exact absurd hdigit (not_digit_of_starts hstarts)

/-! ## The left operand is closed -/

/-- Behind a closed operand there is the subtraction, unless the `-` has a digit behind it. -/
theorem spacing_closed (hl : RendersUpTo .closed left l) (hr : Renders right r)
    (hright : Derives (.level .multiplicative) (right.map Prod.fst)) :
    HasTokens (l ++ ascii "- " ++ r) (subtraction left right) ∧
      (beginsWith isDigit r = false → ∀ text ∈ spacings l r, HasTokens text (subtraction left right)) := by
  have hblank : Renders ((.minus, ascii "-") :: right) (ascii "-" ++ (ascii " " ++ r)) :=
    renders_minus (.inr rfl) hr hright
  have htight : ∀ {rest : Bytes}, Renders ((.minus, ascii "-") :: right) (ascii "-" ++ rest) →
      HasTokens (l ++ (ascii "-" ++ rest)) (subtraction left right) ∧
        HasTokens (l ++ (ascii " " ++ (ascii "-" ++ rest))) (subtraction left right) := by
    intro rest hrest
    refine ⟨hasTokens_iff.mpr (hl.append (fun kind => goesOn_minus kind rest) hrest), ?_⟩
    exact hasTokens_iff.mpr (hl.append (fun kind => goesOn_blank kind _) hrest.blank)
  have hbefore : l ++ ascii "- " ++ r = l ++ (ascii "-" ++ (ascii " " ++ r)) := List.append_assoc _ _ _
  rw [hbefore]
  refine ⟨(htight hblank).1, fun hdigit text htext => ?_⟩
  have hdirect : Renders ((.minus, ascii "-") :: right) (ascii "-" ++ ([] ++ r)) :=
    renders_minus (.inl ⟨rfl, hdigit⟩) hr hright
  simp only [spacings, List.mem_cons, List.not_mem_nil, or_false] at htext
  rcases htext with rfl | rfl | rfl | rfl
  · rw [List.append_assoc]
    exact (htight hdirect).1
  · rw [List.append_assoc]
    exact (htight hdirect).2
  · rw [List.append_assoc]
    exact (htight hblank).1
  · rw [List.append_assoc]
    exact (htight hblank).2

/-- With a digit behind the `-` there is a literal behind the operand, which is no expression. -/
theorem not_accepted_signed (range : SourceRange) (hl : RendersUpTo .closed left l) (hr : Renders right r)
    (hleft : Derives (.level .multiplicative) (left.map Prod.fst)) (hdigit : beginsWith isDigit r = true) :
    ¬ AcceptsText range (l ++ ascii "-" ++ r) := by
  obtain ⟨kind, hkind, lexeme, others, hsigned⟩ := renders_signed hr hdigit
  have hrenders := hl.append (fun kind => goesOn_minus kind r) hsigned
  rw [← List.append_assoc] at hrenders
  rw [(hasTokens_iff.mpr hrenders).accepted_iff, List.map_append, List.map_cons]
  intro hderives
  have hadditive : Derives (.level .additive) (left.map Prod.fst) := Derives.alone .additive hleft
  have hcontinues := hadditive.expression_of_additive.continues hderives
  have hall : ∀ kind ∈ [TokenKind.integerLiteral, .decimalLiteral],
      kind ∉ (Nonterminal.level .logicalOr).continuing := by decide
  exact hall kind hkind hcontinues

/-! ## The left operand ends within a comment -/

/-- A text does not end both ways. -/
theorem not_commented_of_closed (hl : RendersUpTo .closed left l) : ¬ EndsInComment l := by
  rintro ⟨others, hcommented⟩
  have hname : Renders [(.identifier, ascii "x")] (ascii " " ++ ascii "x") := by
    have hlexeme : Lexeme (wordKind (ascii "x")) (ascii "x") :=
      Lexeme.word (by decide) (List.all_eq_true.mp (by decide))
    have hkind : wordKind (ascii "x") = .identifier := by decide +kernel
    rw [hkind] at hlexeme
    have htoken := Renders.token .nil hlexeme (goesOn_nil .identifier) (.done .nil (by decide))
    exact Renders.blank htoken
  have hclosed := hl.append (fun kind => goesOn_blank kind _) hname
  have hfree : byte '\n' ∉ ascii " " ++ ascii "x" := by decide
  have hcomment := renders_iff_upTo.mpr (.inr (hcommented.inComment hfree))
  have hsame : left = others := (renders_iff_upTo.mpr (.inl hl)).unique (renders_iff_upTo.mpr (.inr hcommented))
  have hboth := congrArg List.length (hclosed.unique hcomment)
  rw [hsame, List.length_append] at hboth
  simp at hboth

/-- A spacing is a text without line ends between the operands. -/
theorem spacings_cases {text : Bytes} (h : text ∈ spacings l r) : ∃ middle, byte '\n' ∉ middle ∧
    text = l ++ (middle ++ r) := by
  simp only [spacings, List.mem_cons, List.not_mem_nil, or_false] at h
  rcases h with rfl | rfl | rfl | rfl
  · exact ⟨ascii "-", by decide, List.append_assoc _ _ _⟩
  · exact ⟨ascii " -", by decide, List.append_assoc _ _ _⟩
  · exact ⟨ascii "- ", by decide, List.append_assoc _ _ _⟩
  · exact ⟨ascii " - ", by decide, List.append_assoc _ _ _⟩

/-- Without a line end nothing of the right operand is left. -/
theorem tokens_commented (hl : RendersUpTo .inLine left l) (hfree : byte '\n' ∉ r) {text : Bytes}
    (h : text ∈ spacings l r) : HasTokens text left := by
  obtain ⟨middle, hmiddle, rfl⟩ := spacings_cases h
  refine hasTokens_iff.mpr (renders_iff_upTo.mpr (.inr (hl.inComment fun hmem => ?_)))
  rcases List.mem_append.mp hmem with hmem | hmem
  · exact hmiddle hmem
  · exact hfree hmem

/-- With one, what stands behind it goes on with the left operand. -/
theorem tokens_behind_comment (hl : RendersUpTo .inLine left l) {comment more : Bytes}
    (hfree : byte '\n' ∉ comment) {text : Bytes} (h : text ∈ spacings l (comment ++ byte '\n' :: more))
    (spellings : List Spelling) :
    HasTokens text spellings ↔ ∃ rest, spellings = left ++ rest ∧ HasTokens more rest := by
  obtain ⟨middle, hmiddle, rfl⟩ := spacings_cases h
  have hcomment : byte '\n' ∉ middle ++ comment := by
    intro hmem
    rcases List.mem_append.mp hmem with hmem | hmem
    · exact hmiddle hmem
    · exact hfree hmem
  have hopen := hl.inComment hcomment
  have htext : l ++ (middle ++ (comment ++ byte '\n' :: more)) = l ++ (middle ++ comment) ++ byte '\n' :: more := by
    simp only [List.append_assoc]
  simp only [hasTokens_iff]
  rw [htext]
  constructor
  · exact fun hrenders => hrenders.of_commented hopen
  · rintro ⟨rest, rfl, hrest⟩
    exact hopen.behind_comment hrest

/-! ## The spacings -/

/-- **All spacings of two operands are the one subtraction** just where the operands are apart. -/
theorem subtraction_spacing_iff (hl : OperandText range l left) (hr : OperandText range r right) :
    SpacingIsFree range l r left right ↔ ApartOperands l r left right := by
  have hr' := hasTokens_iff.mp hr.tokens
  have hadditive : Derives (.level .additive) ((subtraction left right).map Prod.fst) := by
    rw [subtraction, List.map_append]
    exact hl.operand.subtraction hr.operand
  rcases renders_iff_upTo.mp (hasTokens_iff.mp hl.tokens) with hclosed | hcommented
  · -- the operand is closed
    have hnot := not_commented_of_closed hclosed
    obtain ⟨hblank, hall⟩ := spacing_closed hclosed hr' hr.operand
    cases hdigit : beginsWith isDigit r with
    | false =>
      refine ⟨fun _ => .inl ⟨hnot, hdigit⟩, fun _ => ⟨.inl fun text htext => ?_, fun text htext _ => ?_⟩⟩
      · exact (hall hdigit text htext).accepted_iff.mpr hadditive.expression_of_additive
      · exact ⟨hall hdigit text htext, hadditive⟩
    | true =>
      have hrejected := not_accepted_signed range hclosed hr' hl.operand hdigit
      have haccepted : AcceptsText range (l ++ ascii "- " ++ r) :=
        hblank.accepted_iff.mpr hadditive.expression_of_additive
      constructor
      · intro hfree
        rcases hfree.alike with hyes | hno
        · exact absurd (hyes _ List.mem_cons_self) hrejected
        · exact absurd haccepted (hno _ (by simp [spacings]))
      · rintro (⟨-, hfalse⟩ | ⟨hcomment, -⟩)
        · rw [hdigit] at hfalse
          cases hfalse
        · exact absurd hcomment hnot
  · -- it ends within a comment
    have hcomment : EndsInComment l := ⟨left, hcommented⟩
    have hleft : Derives (.level .additive) (left.map Prod.fst) := Derives.alone .additive hl.operand
    by_cases hline : byte '\n' ∈ r
    · obtain ⟨comment, more, rfl, hfree⟩ := List.eq_append_cons_of_mem hline
      have htokens := fun {text : Bytes} (htext : text ∈ spacings l (comment ++ byte '\n' :: more)) =>
        tokens_behind_comment hcommented hfree htext
      constructor
      · intro hspacing
        refine .inr ⟨hcomment, comment, more, rfl, hfree, fun rest hrest hderives => ?_⟩
        have htext := (htokens List.mem_cons_self (left ++ rest)).mpr ⟨rest, rfl, hrest⟩
        have hsubtraction := hspacing.subtraction _ List.mem_cons_self (htext.accepted_iff.mpr hderives)
        exact List.append_cancel_left ((hasTokens_iff.mp htext).unique (hasTokens_iff.mp hsubtraction.1))
      · rintro (⟨hnot, -⟩ | ⟨-, comment', more', hsplit, hfree', honly⟩)
        · exact absurd hcomment hnot
        obtain rfl := append_newline_inj hfree hfree' hsplit
        have haccepted : ∀ {text : Bytes}, text ∈ spacings l (comment ++ byte '\n' :: more) →
            (AcceptsText range text ↔ ∃ rest, HasTokens more rest ∧
              Derives (.level .logicalOr) ((left ++ rest).map Prod.fst)) := by
          intro text htext
          rw [acceptsText_iff]
          constructor
          · rintro ⟨spellings, hspellings, hderives⟩
            obtain ⟨rest, rfl, hrest⟩ := (htokens htext spellings).mp hspellings
            exact ⟨rest, hrest, hderives⟩
          · rintro ⟨rest, hrest, hderives⟩
            exact ⟨_, (htokens htext _).mpr ⟨rest, rfl, hrest⟩, hderives⟩
        constructor
        · by_cases hsome : ∃ rest, HasTokens more rest ∧ Derives (.level .logicalOr) ((left ++ rest).map Prod.fst)
          · exact .inl fun text htext => (haccepted htext).mpr hsome
          · exact .inr fun text htext hyes => hsome ((haccepted htext).mp hyes)
        · intro text htext hyes
          obtain ⟨rest, hrest, hderives⟩ := (haccepted htext).mp hyes
          obtain rfl := honly rest hrest hderives
          exact ⟨(htokens htext _).mpr ⟨_, rfl, hrest⟩, hadditive⟩
    · constructor
      · intro hspacing
        have htext : HasTokens (l ++ ascii "-" ++ r) left := tokens_commented hcommented hline List.mem_cons_self
        have hyes : AcceptsText range (l ++ ascii "-" ++ r) :=
          htext.accepted_iff.mpr hleft.expression_of_additive
        have hsubtraction := (hspacing.subtraction _ List.mem_cons_self hyes).1
        have hlength := congrArg List.length ((hasTokens_iff.mp htext).unique (hasTokens_iff.mp hsubtraction))
        rw [subtraction, List.length_append] at hlength
        simp at hlength
      · rintro (⟨hnot, -⟩ | ⟨-, comment, more, rfl, -⟩)
        · exact absurd hcomment hnot
        · exact absurd (List.mem_append_right _ List.mem_cons_self) hline

end

/-! ## Operands -/

theorem hasTokens_of_lex {text : Bytes} {spellings : List Spelling}
    (h : ((lex text).map fun r => (r.1.map Token.spelling, hasErrors r.2)) =
      some (spellings ++ [endSpelling], false)) : HasTokens text spellings := by
  obtain ⟨⟨tokens, diagnostics⟩, hlex, hpair⟩ := Option.map_eq_some_iff.mp h
  obtain ⟨htokens, hclean⟩ := Prod.mk.inj hpair
  exact ⟨tokens, diagnostics, hlex, hclean, htokens⟩

theorem operandText_of_tokens {range : SourceRange} {text : Bytes} {spellings : List Spelling}
    (h : HasTokens text spellings) (hoperand : Derives (.level .multiplicative) (spellings.map Prod.fst)) :
    OperandText range text spellings :=
  ⟨h, h.accepted_iff.mpr (Derives.alone .additive hoperand).expression_of_additive, hoperand⟩

/-- A name or a literal is an operand. -/
theorem derives_single {kind : TokenKind} (h : isExpressionIdentifierToken kind = true ∨ kind ∈ expressionLiterals) :
    Derives (.level .multiplicative) [kind] := by
  refine Derives.alone .multiplicative (.unsigned ?_)
  rcases h with hname | hliteral
  · have hqualified : Derives .qualifiedName [kind] := .name hname .noName
    exact .assignable hqualified .noSelector
  · exact .literal hliteral

theorem operandText_a (range : SourceRange) : OperandText range (ascii "a") [(.identifier, ascii "a")] :=
  operandText_of_tokens (hasTokens_of_lex (by decide +kernel)) (derives_single (.inl rfl))

/-- `a` and `b`. -/
theorem subtraction_spacing_iff_names :
    SpacingIsFree {} (ascii "a") (ascii "b") [(.identifier, ascii "a")] [(.identifier, ascii "b")] ↔
      ApartOperands (ascii "a") (ascii "b") [(.identifier, ascii "a")] [(.identifier, ascii "b")] :=
  have hb : OperandText {} (ascii "b") [(.identifier, ascii "b")] :=
    operandText_of_tokens (hasTokens_of_lex (by decide +kernel)) (derives_single (.inl rfl))
  subtraction_spacing_iff (operandText_a {}) hb

/-- `a-1` is rejected, and `a- 1` is not. -/
theorem spacing_matters : ¬ ∀ (range : SourceRange) (l r : Bytes) (left right : List Spelling),
    OperandText range l left → OperandText range r right → SpacingIsFree range l r left right := by
  intro hall
  have ha := operandText_a {}
  have hone : OperandText {} (ascii "1") [(.integerLiteral, ascii "1")] :=
    operandText_of_tokens (hasTokens_of_lex (by decide +kernel)) (derives_single (.inr (by decide)))
  have hclosed : RendersUpTo .closed [(.identifier, ascii "a")] (ascii "a") := by
    have hlexeme := (hasTokens_iff.mp ha.tokens).lexeme _ List.mem_cons_self
    exact .token .nil hlexeme (goesOn_nil .identifier) (.done .nil)
  have hright := hasTokens_iff.mp hone.tokens
  obtain ⟨hblank, -⟩ := spacing_closed hclosed hright hone.operand
  have haccepted : AcceptsText {} (ascii "a" ++ ascii "- " ++ ascii "1") :=
    hblank.accepted_iff.mpr (ha.operand.subtraction hone.operand).expression_of_additive
  have hrejected := not_accepted_signed {} hclosed hright ha.operand rfl
  rcases (hall {} _ _ _ _ ha hone).alike with hyes | hno
  · exact hrejected (hyes _ List.mem_cons_self)
  · exact hno _ (by simp [spacings]) haccepted

end StateSpec.Compiler
