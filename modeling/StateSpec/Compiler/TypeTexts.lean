/-
  THE TEXT OF TYPES — what `parse_type_name` makes of the tokens of a type.

  It joins their lexemes, with nothing between them: a name, arguments between `<` and `>` in which any tokens
  may stand, and at the end `[]` and `?`.
  * `parseTypeName_takes` — where it reports nothing the text is made of the tokens it has taken, and unless
    the tokens have ended it has that form (`TypeText`).
-/
import StateSpec.Compiler.ExpressionText

namespace StateSpec.Compiler

open Reading

/-! ## Lexemes of a kind -/

theorem Lexeme.symbol_eq {kind : TokenKind} {lexeme other : Bytes} (h : Lexeme kind lexeme)
    (hother : (kind, other) ∈ symbols) : lexeme = other := by
  have hnot : ∀ symbol ∈ symbols, symbol.1 ≠ .stringLiteral ∧ symbol.1 ≠ .integerLiteral ∧
      symbol.1 ≠ .decimalLiteral ∧ isWordKind symbol.1 = false := by decide
  obtain ⟨hstring, hinteger, hdecimal, hword⟩ := hnot _ hother
  cases h with
  | symbol hmem =>
    have hsame : ∀ symbol ∈ symbols, ∀ symbol' ∈ symbols, symbol.1 = symbol'.1 → symbol.2 = symbol'.2 := by
      decide +kernel
    exact hsame _ hmem _ hother rfl
  | string _ => exact absurd rfl hstring
  | integer _ _ _ => exact absurd rfl hinteger
  | decimal _ _ _ _ _ => exact absurd rfl hdecimal
  | word _ _ =>
    rw [isWordKind_wordKind] at hword
    cases hword

/-- The name of a type: a word. -/
structure TypeName where
  first : UInt8
  rest : Bytes
  starts : isIdentifierStart first = true
  parts : ∀ ch ∈ rest, isIdentifierPart ch = true

def TypeName.text (name : TypeName) : Bytes := name.first :: name.rest

theorem Lexeme.typeName {kind : TokenKind} {lexeme : Bytes} (h : Lexeme kind lexeme)
    (hkind : isWordKind kind = true) : ∃ name : TypeName, name.text = lexeme := by
  cases h with
  | symbol hmem =>
    have hnot : ∀ symbol ∈ symbols, isWordKind symbol.1 = false := by decide
    rw [hnot _ hmem] at hkind
    cases hkind
  | string _ => cases hkind
  | integer _ _ _ => cases hkind
  | decimal _ _ _ _ _ => cases hkind
  | @word ch rest hstart hrest => exact ⟨⟨ch, rest, hstart, hrest⟩, rfl⟩

/-- What `parse_type_name` can make. -/
structure TypeText where
  name : TypeName
  arguments : Option Bytes
  array : Bool
  nullable : Bool

namespace TypeText

/-- The arguments of a type, between their angles. -/
def angles (arguments : Option Bytes) : Bytes :=
  arguments.elim [] fun arguments => ascii "<" ++ arguments ++ ascii ">"

def text (T : TypeText) : Bytes :=
  T.name.text ++ angles T.arguments ++ (if T.array then ascii "[]" else []) ++
    if T.nullable then ascii "?" else []

end TypeText

/-! ## Taking tokens -/

section

variable {tokens : List Token} {fuel : Nat} {c c' : Cursor Diagnostic}

theorem between_self (tokens : List Token) (start : Nat) : between tokens start start = [] := by
  rw [between, Nat.sub_self, List.take_zero]

theorem between_append {start middle stop : Nat} (h : start ≤ middle) (h' : middle ≤ stop) :
    between tokens start stop = between tokens start middle ++ between tokens middle stop := by
  have hlength : stop - start = (middle - start) + (stop - middle) := by omega
  have hdrop : start + (middle - start) = middle := by omega
  rw [between, between, between, hlength, List.take_add, List.drop_drop, hdrop]

/-- The lexemes between two places. -/
def taken (tokens : List Token) (start stop : Nat) : Bytes := (between tokens start stop).flatMap Token.lexeme

theorem taken_self (tokens : List Token) (start : Nat) : taken tokens start start = [] := by
  rw [taken, between_self, List.flatMap_nil]

theorem taken_append {start middle stop : Nat} (h : start ≤ middle) (h' : middle ≤ stop) :
    taken tokens start stop = taken tokens start middle ++ taken tokens middle stop := by
  rw [taken, between_append h h', List.flatMap_append]
  rfl

/-- Tokens as the lexer has them: lexemes up to an `EndOfFile`. -/
structure Lexed (tokens : List Token) : Prop where
  last : (tokens.getLast?.map Token.kind) = some .endOfFile
  lexeme : ∀ token ∈ tokens, token.kind ≠ .endOfFile → Lexeme token.kind token.lexeme

theorem lexed_of_lex {source : Bytes} {diagnostics : List Diagnostic}
    (hlex : lex source = some (tokens, diagnostics)) (hclean : hasErrors diagnostics = false) :
    Lexed tokens :=
  ⟨(lexeme_of_lex hlex hclean).1, (lexeme_of_lex hlex hclean).2⟩

/-- A token that is there, where the tokens have not ended. -/
theorem Lexed.next (h : Lexed tokens) {current : Nat} (hmore : isAtEnd tokens current = false) :
    taken tokens current (current + 1) = (peek 0 tokens current).lexeme ∧
      Lexeme (peek 0 tokens current).kind (peek 0 tokens current).lexeme := by
  obtain ⟨hnext, hmem, hkind⟩ := between_succ h.last (Nat.le_refl current) hmore
  refine ⟨?_, h.lexeme _ hmem hkind⟩
  rw [taken, hnext, between_self, List.nil_append, List.flatMap_cons, List.flatMap_nil, List.append_nil]

theorem check_iff {kind : TokenKind} {current : Nat} : check kind tokens current = true ↔
    isAtEnd tokens current = false ∧ (peek 0 tokens current).kind = kind := by
  rw [check, Bool.and_eq_true, Bool.not_eq_true', beq_iff_eq]

/-- A symbol that is checked for is taken as it is spelled. -/
theorem Lexed.symbol (h : Lexed tokens) {kind : TokenKind} {lexeme : Bytes} (hmem : (kind, lexeme) ∈ symbols)
    {current : Nat} (hcheck : check kind tokens current = true) :
    taken tokens current (current + 1) = lexeme := by
  obtain ⟨hmore, hkind⟩ := check_iff.mp hcheck
  obtain ⟨htaken, hlexeme⟩ := h.next hmore
  rw [htaken]
  rw [hkind] at hlexeme
  exact hlexeme.symbol_eq hmem

theorem advance_result (hmore : isAtEnd tokens c.current = false) :
    ((Reading.advance : Parser Token) ⟨fuel, tokens⟩ c).result =
      some (previous tokens (c.current + 1), { c with current := c.current + 1 }) := by
  rw [advance_eq, afterToken, hmore]
  rfl

/-- What `advance` returns is the token that was there. -/
theorem previous_succ (tokens : List Token) (current : Nat) :
    previous tokens (current + 1) = peek 0 tokens current := by
  rw [previous, peek, Nat.add_sub_cancel, Nat.add_zero]

theorem ifMatch_cases {kind : TokenKind} {p p' : Parser α} {r : α × Cursor Diagnostic}
    (h : (ifMatch kind p p' ⟨fuel, tokens⟩ c).result = some r) :
    (check kind tokens c.current = true ∧
        (p ⟨fuel, tokens⟩ { c with current := c.current + 1 }).result = some r) ∨
      (check kind tokens c.current = false ∧ (p' ⟨fuel, tokens⟩ c).result = some r) := by
  cases hcheck : check kind tokens c.current with
  | true =>
    rw [ifMatch, choose_true hcheck, bind_finished (advance_result (check_iff.mp hcheck).1)] at h
    exact .inl ⟨rfl, h⟩
  | false =>
    rw [ifMatch, choose_false hcheck] at h
    exact .inr ⟨rfl, h⟩

/-! ## The arguments -/

/-- One turn of the loop over the arguments of a type. -/
def argumentToken (b : Nat × Bytes) : Parser (Nat × Bytes) :=
  ifMatch .less (pure (b.1 + 1, b.2 ++ ascii "<")) <|
  ifMatch .greater (pure (b.1 - 1, b.2 ++ ascii ">")) do
    let token ← advance
    pure (b.1, b.2 ++ token.lexeme)

/-- A turn takes the next token, and comes to the end of the arguments with a `>` only. -/
theorem argumentToken_result (h : Lexed tokens) (b : Nat × Bytes) (hmore : isAtEnd tokens c.current = false) :
    ∃ b', (argumentToken b ⟨fuel, tokens⟩ c).result = some (b', { c with current := c.current + 1 }) ∧
      b'.2 = b.2 ++ taken tokens c.current (c.current + 1) ∧
      (0 < b.1 → b'.1 = 0 → taken tokens c.current (c.current + 1) = ascii ">") := by
  unfold argumentToken
  cases hless : check .less tokens c.current with
  | true =>
    refine ⟨(b.1 + 1, b.2 ++ ascii "<"), ?_, ?_, fun _ hzero => absurd hzero (Nat.succ_ne_zero _)⟩
    · rw [ifMatch, choose_true hless, bind_finished (advance_result hmore)]
      rfl
    · have htaken : taken tokens c.current (c.current + 1) = ascii "<" := h.symbol (by decide) hless
      rw [htaken]
  | false =>
    cases hgreater : check .greater tokens c.current with
    | true =>
      have htaken : taken tokens c.current (c.current + 1) = ascii ">" := h.symbol (by decide) hgreater
      refine ⟨(b.1 - 1, b.2 ++ ascii ">"), ?_, by rw [htaken], fun _ _ => htaken⟩
      rw [ifMatch, choose_false hless, ifMatch, choose_true hgreater, bind_finished (advance_result hmore)]
      rfl
    | false =>
      refine ⟨(b.1, b.2 ++ (peek 0 tokens c.current).lexeme), ?_, ?_, ?_⟩
      · rw [ifMatch, choose_false hless, ifMatch, choose_false hgreater, bind_finished (advance_result hmore),
          previous_succ]
        rfl
      · rw [(h.next hmore).1]
      · intro hpos hzero
        omega

/-- The loop takes what it adds, and unless the tokens end its last one is a `>`. -/
theorem iterate_arguments {l : ParserLoop} {n : Nat} {b b' : Nat × Bytes} (hlexed : Lexed tokens)
    (hdepth : 0 < b.1)
    (h : (iterate l (fun b _ _ => decide (0 < b.1)) argumentToken ⟨fuel, tokens⟩ n b c).result =
      some (b', c')) :
    c.current ≤ c'.current ∧ c'.reports = c.reports ∧ b'.2 = b.2 ++ taken tokens c.current c'.current ∧
      (isAtEnd tokens c'.current = false → ∃ arguments, taken tokens c.current c'.current =
        arguments ++ ascii ">") := by
  have hdone : ∀ {n : Nat} {b : Nat × Bytes} {c : Cursor Diagnostic},
      ¬ Reading.goesOn (fun (b : Nat × Bytes) _ _ => decide (0 < b.1)) b tokens c.current →
      (iterate l (fun b _ _ => decide (0 < b.1)) argumentToken ⟨fuel, tokens⟩ n b c).result = some (b', c') →
      b = b' ∧ c = c' := by
    intro n b c hgo h
    rw [iterate_done (i := ⟨fuel, tokens⟩) hgo] at h
    exact Prod.mk.inj (Option.some.inj h)
  have hstop : ∀ {n : Nat} {b : Nat × Bytes} {c : Cursor Diagnostic}, isAtEnd tokens c.current = true →
      (iterate l (fun b _ _ => decide (0 < b.1)) argumentToken ⟨fuel, tokens⟩ n b c).result = some (b', c') →
      c.current ≤ c'.current ∧ c'.reports = c.reports ∧ b'.2 = b.2 ++ taken tokens c.current c'.current ∧
        (isAtEnd tokens c'.current = false → ∃ arguments, taken tokens c.current c'.current =
          arguments ++ ascii ">") := by
    intro n b c hend h
    obtain ⟨rfl, rfl⟩ := hdone (fun hgo => by rw [hgo.2] at hend; cases hend) h
    refine ⟨Nat.le_refl _, rfl, ?_, fun hmore => ?_⟩
    · rw [taken_self, List.append_nil]
    · rw [hend] at hmore
      cases hmore
  induction n generalizing b c with
  | zero =>
    cases hend : isAtEnd tokens c.current with
    | true => exact hstop hend h
    | false =>
      rw [iterate_zero (i := ⟨fuel, tokens⟩) ⟨decide_eq_true hdepth, hend⟩] at h
      cases h
  | succ n ih =>
    cases hend : isAtEnd tokens c.current with
    | true => exact hstop hend h
    | false =>
      obtain ⟨b₁, hstep, htext, hlast⟩ := @argumentToken_result _ fuel _ hlexed b hend
      rw [iterate_finished (i := ⟨fuel, tokens⟩) ⟨decide_eq_true hdepth, hend⟩ hstep] at h
      by_cases hzero : b₁.1 = 0
      · obtain ⟨rfl, rfl⟩ := hdone (fun hgo => by
          have hpos := of_decide_eq_true hgo.1
          omega) h
        exact ⟨Nat.le_succ _, rfl, htext, fun _ => ⟨[], hlast hdepth hzero⟩⟩
      · have hpos : 0 < b₁.1 := Nat.pos_of_ne_zero hzero
        obtain ⟨hle, hreports, htext', hclosed⟩ := ih hpos h
        have hsplit : taken tokens c.current c'.current =
            taken tokens c.current (c.current + 1) ++ taken tokens (c.current + 1) c'.current :=
          taken_append (Nat.le_succ _) hle
        refine ⟨Nat.le_of_succ_le hle, hreports, ?_, fun hmore => ?_⟩
        · rw [htext', htext, hsplit, List.append_assoc]
        · obtain ⟨arguments, harguments⟩ := hclosed hmore
          refine ⟨taken tokens c.current (c.current + 1) ++ arguments, ?_⟩
          rw [hsplit, List.append_assoc]
          exact congrArg _ harguments

/-! ## `parse_type_name` -/

/-- A `]` that is not there is reported. -/
theorem consume_quiet {kind : TokenKind} {message : String} {token : Token}
    (h : (consume kind message ⟨fuel, tokens⟩ c).result = some (token, c')) :
    (check kind tokens c.current = true ∧ c' = { c with current := c.current + 1 }) ∨
      c'.reports.length = c.reports.length + 1 := by
  unfold consume at h
  cases hcheck : check kind tokens c.current with
  | true =>
    rw [ifCheck, choose_true hcheck, advance_result (check_iff.mp hcheck).1] at h
    exact .inl ⟨rfl, (Prod.mk.inj (Option.some.inj h)).2.symm⟩
  | false =>
    rw [ifCheck, choose_false hcheck] at h
    obtain ⟨_, c₁, hreport, h, -⟩ := bind_result h
    obtain ⟨_, c₂, hpeek, h, -⟩ := bind_result h
    cases hreport
    cases hpeek
    cases h
    right
    rw [List.length_append]
    rfl

/-- **The text of a type is made of the tokens of the type**, and it is a name, arguments, `[]` and `?`,
    where nothing is reported and the tokens have not ended. -/
theorem parseTypeName_takes {type : Bytes} (hlexed : Lexed tokens)
    (h : (parseTypeName ⟨fuel, tokens⟩ c).result = some (type, c')) (hquiet : c'.reports = c.reports) :
    type = taken tokens c.current c'.current ∧
      (isAtEnd tokens c'.current = false → ∃ T : TypeText, T.text = type) := by
  unfold parseTypeName at h
  cases hhead : checkAny [.identifier, .keywordOptional, .keywordRef] tokens c.current with
  | false =>
    rw [choose_false hhead] at h
    obtain ⟨_, c₁, hreport, h, -⟩ := bind_result h
    obtain ⟨_, c₂, hskip, h, -⟩ := bind_result h
    obtain ⟨_, c₃, hadvance, hskip, -⟩ := bind_result hskip
    rw [advance_eq] at hadvance
    cases hreport
    cases hadvance
    cases hskip
    cases h
    have hlength := congrArg List.length hquiet
    rw [List.length_append] at hlength
    simp at hlength
  | true =>
    rw [choose_true hhead] at h
    obtain ⟨kind, hkind, hcheck⟩ := List.any_eq_true.mp hhead
    obtain ⟨hmore, hkindEq⟩ := check_iff.mp hcheck
    obtain ⟨hfirst, hlexeme⟩ := hlexed.next hmore
    have hword : isWordKind kind = true := by
      have hall : ∀ kind ∈ [TokenKind.identifier, .keywordOptional, .keywordRef], isWordKind kind = true := by
        decide
      exact hall kind hkind
    rw [hkindEq] at hlexeme
    obtain ⟨name, hname⟩ := hlexeme.typeName hword
    obtain ⟨token, c₁, hadvance, h, -⟩ := bind_result h
    rw [advance_result hmore, previous_succ] at hadvance
    obtain ⟨rfl, rfl⟩ := Prod.mk.inj (Option.some.inj hadvance)
    obtain ⟨type₁, c₂, hangles, h, -⟩ := bind_result h
    obtain ⟨type₂, c₃, harray, h, -⟩ := bind_result h
    -- the arguments
    have harguments : c.current + 1 ≤ c₂.current ∧ c₂.reports = c.reports ∧
        type₁ = (peek 0 tokens c.current).lexeme ++ taken tokens (c.current + 1) c₂.current ∧
        (isAtEnd tokens c₂.current = false → ∃ arguments,
          taken tokens (c.current + 1) c₂.current = TypeText.angles arguments) := by
      rcases ifMatch_cases hangles with ⟨hless, hangles⟩ | ⟨-, hangles⟩
      · obtain ⟨b, c₄, hloop, hpure, -⟩ := bind_result hangles
        have hopen : taken tokens (c.current + 1) (c.current + 1 + 1) = ascii "<" :=
          hlexed.symbol (by decide) hless
        obtain ⟨hle, hreports, htext, hclosed⟩ := iterate_arguments
          (b := (1, (peek 0 tokens c.current).lexeme ++ ascii "<")) hlexed Nat.one_pos hloop
        obtain ⟨rfl, rfl⟩ := Prod.mk.inj (Option.some.inj hpure)
        have hsplit : taken tokens (c.current + 1) c₄.current =
            ascii "<" ++ taken tokens (c.current + 1 + 1) c₄.current := by
          rw [← hopen]
          exact taken_append (Nat.le_succ _) hle
        refine ⟨Nat.le_of_succ_le hle, hreports, ?_, fun hmore => ?_⟩
        · rw [htext, hsplit, List.append_assoc]
        · obtain ⟨arguments, harguments⟩ := hclosed hmore
          refine ⟨some arguments, ?_⟩
          rw [hsplit]
          show _ = ascii "<" ++ arguments ++ ascii ">"
          rw [List.append_assoc, ← harguments]
      · obtain ⟨rfl, rfl⟩ := Prod.mk.inj (Option.some.inj hangles)
        refine ⟨Nat.le_refl _, rfl, ?_, fun _ => ⟨none, ?_⟩⟩
        · rw [taken_self, List.append_nil]
        · rw [taken_self]
          rfl
    obtain ⟨hle₂, hreports₂, htype₁, hangled⟩ := harguments
    -- the `?`
    have hnullable : c₃.current ≤ c'.current ∧ c'.reports = c₃.reports ∧
        ∃ nullable : Bool, (taken tokens c₃.current c'.current = if nullable then ascii "?" else []) ∧
          type = type₂ ++ taken tokens c₃.current c'.current ∧
          (nullable = true → isAtEnd tokens c₃.current = false) ∧
          (nullable = false → c'.current = c₃.current) := by
      rcases ifMatch_cases h with ⟨hquestion, h⟩ | ⟨-, h⟩
      · obtain ⟨rfl, rfl⟩ := Prod.mk.inj (Option.some.inj h)
        have htaken : taken tokens c₃.current (c₃.current + 1) = ascii "?" :=
          hlexed.symbol (by decide) hquestion
        exact ⟨Nat.le_succ _, rfl, true, htaken, by rw [htaken], fun _ => (check_iff.mp hquestion).1, nofun⟩
      · obtain ⟨rfl, rfl⟩ := Prod.mk.inj (Option.some.inj h)
        refine ⟨Nat.le_refl _, rfl, false, taken_self _ _, ?_, nofun, fun _ => rfl⟩
        rw [taken_self, List.append_nil]
    obtain ⟨hle', hreports', nullable, hnullable, htype, hmore₃, hsame₃⟩ := hnullable
    -- the `[]`
    have harrayed : c₂.current ≤ c₃.current ∧
        ∃ array : Bool, (taken tokens c₂.current c₃.current = if array then ascii "[]" else []) ∧
          type₂ = type₁ ++ taken tokens c₂.current c₃.current ∧
          (array = true → isAtEnd tokens c₂.current = false) ∧ (array = false → c₃.current = c₂.current) := by
      rcases ifMatch_cases harray with ⟨hbracket, harray⟩ | ⟨-, harray⟩
      · obtain ⟨token, c₄, hconsume, hpure, -⟩ := bind_result harray
        obtain ⟨rfl, rfl⟩ := Prod.mk.inj (Option.some.inj hpure)
        rcases consume_quiet hconsume with ⟨hclose, rfl⟩ | hlonger
        · have hopen : taken tokens c₂.current (c₂.current + 1) = ascii "[" := hlexed.symbol (by decide) hbracket
          have hclosed : taken tokens (c₂.current + 1) (c₂.current + 1 + 1) = ascii "]" :=
            hlexed.symbol (by decide) hclose
          have hboth : taken tokens c₂.current (c₂.current + 1 + 1) = ascii "[]" := by
            rw [taken_append (Nat.le_succ c₂.current) (Nat.le_succ (c₂.current + 1)), hopen, hclosed]
            rfl
          refine ⟨Nat.le_succ_of_le (Nat.le_succ _), true, hboth, ?_, fun _ => (check_iff.mp hbracket).1, nofun⟩
          rw [hboth, List.append_assoc]
          rfl
        · have hlength := congrArg List.length (hreports'.symm.trans hquiet)
          rw [hlonger, hreports₂] at hlength
          simp at hlength
      · obtain ⟨rfl, rfl⟩ := Prod.mk.inj (Option.some.inj harray)
        refine ⟨Nat.le_refl _, false, taken_self _ _, ?_, nofun, fun _ => rfl⟩
        rw [taken_self, List.append_nil]
    obtain ⟨hle₃, array, harray, htype₂, hmore₂, hsame₂⟩ := harrayed
    have htaken : taken tokens c.current c'.current = (peek 0 tokens c.current).lexeme ++
        (taken tokens (c.current + 1) c₂.current ++
          (taken tokens c₂.current c₃.current ++ taken tokens c₃.current c'.current)) := by
      rw [← hfirst, ← taken_append hle₃ hle', ← taken_append hle₂ (hle₃.trans hle'),
        ← taken_append (Nat.le_succ _) (hle₂.trans (hle₃.trans hle'))]
    have htext : type = taken tokens c.current c'.current := by
      rw [htype, htype₂, htype₁, htaken]
      simp only [List.append_assoc]
    refine ⟨htext, fun hmore' => ?_⟩
    have hmore₃' : isAtEnd tokens c₃.current = false := by
      cases nullable with
      | true => exact hmore₃ rfl
      | false => rwa [← hsame₃ rfl]
    have hmore₂' : isAtEnd tokens c₂.current = false := by
      cases array with
      | true => exact hmore₂ rfl
      | false => rwa [← hsame₂ rfl]
    obtain ⟨arguments, hangles⟩ := hangled hmore₂'
    refine ⟨⟨name, arguments, array, nullable⟩, ?_⟩
    rw [htext, htaken, hangles, harray, hnullable, ← hname, TypeText.text]
    simp only [List.append_assoc]

end

end StateSpec.Compiler
