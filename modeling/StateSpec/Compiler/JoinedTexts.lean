/-
  TEXTS ONE BEHIND THE OTHER — which tokens the lexer has of them.

  A text ends within a line comment, or closed (`RendersUpTo`).  Behind a closed text stand the tokens of the
  next text, unless its beginning goes on with the last token; within a line comment they do not, up to the end
  of the line.
  * `RendersUpTo.append` — the tokens behind a closed text.
  * `Renders.of_commented` — the tokens behind a line comment.
  * `Renders.unique` — a text has the tokens it has.
-/
import StateSpec.Compiler.ExpressionText

namespace StateSpec.Compiler

/-! ## One lexer, one list of tokens -/

/-- A text has the tokens it has. -/
theorem Renders.unique {text : Bytes} {spellings others : List Spelling} (h : Renders spellings text)
    (h' : Renders others text) : spellings = others := by
  obtain ⟨tokens, diagnostics, hlex, -, htokens⟩ := lex_iff.mpr h
  obtain ⟨tokens', diagnostics', hlex', -, htokens'⟩ := lex_iff.mpr h'
  rw [hlex] at hlex'
  obtain ⟨rfl, -⟩ := Prod.mk.inj (Option.some.inj hlex')
  exact List.append_cancel_right (htokens.symm.trans htokens')

/-! ## Trivia -/

section

variable {gap more : Bytes} {ending : TriviaEnd}

theorem Trivia.append (h : Trivia gap .closed) (h' : Trivia more ending) : Trivia (gap ++ more) ending := by
  generalize hclosed : TriviaEnd.closed = given at h
  induction h with
  | nil => exact h'
  | blank hch _ ih => exact .blank hch (ih hclosed)
  | @line comment rest _ hfree _ ih =>
    have htext : byte '/' :: byte '/' :: (comment ++ byte '\n' :: rest) ++ more =
        byte '/' :: byte '/' :: (comment ++ byte '\n' :: (rest ++ more)) := by
      simp only [List.cons_append, List.append_assoc]
    rw [htext]
    exact .line hfree (ih hclosed)
  | inLine => cases hclosed
  | @block comment rest _ hfree _ ih =>
    have htext : byte '/' :: byte '*' :: (comment ++ byte '*' :: byte '/' :: rest) ++ more =
        byte '/' :: byte '*' :: (comment ++ byte '*' :: byte '/' :: (rest ++ more)) := by
      simp only [List.cons_append, List.append_assoc]
    rw [htext]
    exact .block hfree (ih hclosed)
  | inBlock => cases hclosed

/-- What stands within a line comment belongs to it. -/
theorem Trivia.inComment (h : Trivia gap .inLine) (hmore : byte '\n' ∉ more) : Trivia (gap ++ more) .inLine := by
  generalize hinLine : TriviaEnd.inLine = given at h
  induction h with
  | nil => cases hinLine
  | blank hch _ ih => exact .blank hch (ih hinLine)
  | @line comment rest _ hfree _ ih =>
    have htext : byte '/' :: byte '/' :: (comment ++ byte '\n' :: rest) ++ more =
        byte '/' :: byte '/' :: (comment ++ byte '\n' :: (rest ++ more)) := by
      simp only [List.cons_append, List.append_assoc]
    rw [htext]
    exact .line hfree (ih hinLine)
  | inLine hfree =>
    refine .inLine fun hmem => ?_
    rcases List.mem_append.mp hmem with hmem | hmem
    · exact hfree hmem
    · exact hmore hmem
  | @block comment rest _ hfree _ ih =>
    have htext : byte '/' :: byte '*' :: (comment ++ byte '*' :: byte '/' :: rest) ++ more =
        byte '/' :: byte '*' :: (comment ++ byte '*' :: byte '/' :: (rest ++ more)) := by
      simp only [List.cons_append, List.append_assoc]
    rw [htext]
    exact .block hfree (ih hinLine)
  | inBlock => cases hinLine

/-- The end of the line closes it. -/
theorem Trivia.endLine (h : Trivia gap .inLine) : Trivia (gap ++ [byte '\n']) .closed := by
  generalize hinLine : TriviaEnd.inLine = given at h
  induction h with
  | nil => cases hinLine
  | blank hch _ ih => exact .blank hch (ih hinLine)
  | @line comment rest _ hfree _ ih =>
    have htext : byte '/' :: byte '/' :: (comment ++ byte '\n' :: rest) ++ [byte '\n'] =
        byte '/' :: byte '/' :: (comment ++ byte '\n' :: (rest ++ [byte '\n'])) := by
      simp only [List.cons_append, List.append_assoc]
    rw [htext]
    exact .line hfree (ih hinLine)
  | @inLine comment hfree =>
    show Trivia (byte '/' :: byte '/' :: (comment ++ byte '\n' :: [])) .closed
    exact .line hfree (.blank (by decide) .nil)
  | @block comment rest _ hfree _ ih =>
    have htext : byte '/' :: byte '*' :: (comment ++ byte '*' :: byte '/' :: rest) ++ [byte '\n'] =
        byte '/' :: byte '*' :: (comment ++ byte '*' :: byte '/' :: (rest ++ [byte '\n'])) := by
      simp only [List.cons_append, List.append_assoc]
    rw [htext]
    exact .block hfree (ih hinLine)
  | inBlock => cases hinLine

end

/-! ## How a text ends -/

/-- The text renders the tokens, and ends so. -/
inductive RendersUpTo (ending : TriviaEnd) : List Spelling → Bytes → Prop
  | done {gap} (htrivia : Trivia gap ending) : RendersUpTo ending [] gap
  | token {gap kind lexeme rest spellings} (htrivia : Trivia gap .closed) (hlexeme : Lexeme kind lexeme)
      (happart : goesOn kind rest = false) (hrest : RendersUpTo ending spellings rest) :
      RendersUpTo ending ((kind, lexeme) :: spellings) (gap ++ (lexeme ++ rest))

theorem renders_iff_upTo {text : Bytes} {spellings : List Spelling} : Renders spellings text ↔
    RendersUpTo .closed spellings text ∨ RendersUpTo .inLine spellings text := by
  constructor
  · intro h
    induction h with
    | @done gap ending htrivia hending =>
      cases ending with
      | closed => exact .inl (.done htrivia)
      | inLine => exact .inr (.done htrivia)
      | inBlock => exact absurd rfl hending
    | token htrivia hlexeme happart _ ih =>
      exact ih.imp (.token htrivia hlexeme happart) (.token htrivia hlexeme happart)
  · have hall : ∀ ending, ending ≠ .inBlock → RendersUpTo ending spellings text → Renders spellings text := by
      intro ending hending h
      induction h with
      | done htrivia => exact .done htrivia hending
      | token htrivia hlexeme happart _ ih => exact .token htrivia hlexeme happart ih
    rintro (h | h)
    · exact hall _ (by decide) h
    · exact hall _ (by decide) h

theorem goesOn_append {kind : TokenKind} {rest more : Bytes} (h : goesOn kind rest = false)
    (hmore : ∀ kind, goesOn kind more = false) : goesOn kind (rest ++ more) = false := by
  cases rest with
  | nil => exact hmore kind
  | cons ch rest =>
    have hbegins : ∀ test : UInt8 → Bool, beginsWith test (ch :: rest ++ more) = beginsWith test (ch :: rest) :=
      fun _ => rfl
    by_cases hkind : kind = .integerLiteral
    · subst hkind
      have htail : beginsWith isDigit rest = false → beginsWith isDigit (rest ++ more) = false := by
        cases rest with
        | nil => exact fun _ => hmore .decimalLiteral
        | cons next rest => exact id
      simp only [goesOn, Bool.or_eq_false_iff, Bool.and_eq_false_iff, hbegins] at h ⊢
      exact ⟨h.1, h.2.imp id htail⟩
    · cases kind <;> first | exact h | exact absurd rfl hkind

/-- Trivia in front change nothing. -/
theorem Renders.behind_trivia {gap text : Bytes} {spellings : List Spelling} (h : Trivia gap .closed)
    (h' : Renders spellings text) : Renders spellings (gap ++ text) := by
  cases h' with
  | done htrivia hending => exact .done (h.append htrivia) hending
  | token htrivia hlexeme happart hrest =>
    rw [← List.append_assoc]
    exact .token (h.append htrivia) hlexeme happart hrest

/-- **Behind a closed text stand the tokens of the next**, where its beginning goes on with none. -/
theorem RendersUpTo.append {text more : Bytes} {spellings others : List Spelling}
    (h : RendersUpTo .closed spellings text) (hmore : ∀ kind, goesOn kind more = false)
    (h' : Renders others more) : Renders (spellings ++ others) (text ++ more) := by
  induction h with
  | done htrivia => exact h'.behind_trivia htrivia
  | token htrivia hlexeme happart _ ih =>
    rw [List.cons_append, List.append_assoc, List.append_assoc]
    exact .token htrivia hlexeme (goesOn_append happart hmore) ih

/-! ## Line comments -/

theorem Trivia.two_le {gap : Bytes} (h : Trivia gap .inLine) : 2 ≤ gap.length := by
  generalize hinLine : TriviaEnd.inLine = given at h
  induction h with
  | nil => cases hinLine
  | blank _ _ ih =>
    have hle := ih hinLine
    rw [List.length_cons]
    omega
  | inBlock => cases hinLine
  | _ =>
    rw [List.length_cons, List.length_cons]
    omega

theorem RendersUpTo.two_le {text : Bytes} {spellings : List Spelling} (h : RendersUpTo .inLine spellings text) :
    2 ≤ text.length := by
  induction h with
  | done htrivia => exact htrivia.two_le
  | token _ _ _ _ ih =>
    rw [List.length_append, List.length_append]
    omega

/-- Two bytes are enough to tell that a token does not go on. -/
theorem goesOn_of_two {kind : TokenKind} {rest : Bytes} (more : Bytes) (h : 2 ≤ rest.length) :
    goesOn kind (rest ++ more) = goesOn kind rest := by
  rcases rest with _ | ⟨ch, _ | ⟨next, rest⟩⟩
  · exact absurd h (by simp)
  · exact absurd h (by simp)
  · cases kind <;> rfl

/-- Within a line comment stand no tokens. -/
theorem RendersUpTo.inComment {text more : Bytes} {spellings : List Spelling}
    (h : RendersUpTo .inLine spellings text) (hmore : byte '\n' ∉ more) :
    RendersUpTo .inLine spellings (text ++ more) := by
  induction h with
  | done htrivia => exact .done (htrivia.inComment hmore)
  | token htrivia hlexeme happart hrest ih =>
    rw [List.append_assoc, List.append_assoc]
    refine .token htrivia hlexeme ?_ ih
    rw [goesOn_of_two more hrest.two_le]
    exact happart

/-- Behind the end of its line stand the tokens of what is there. -/
theorem RendersUpTo.behind_comment {text more : Bytes} {spellings others : List Spelling}
    (h : RendersUpTo .inLine spellings text) (h' : Renders others more) :
    Renders (spellings ++ others) (text ++ byte '\n' :: more) := by
  induction h with
  | done htrivia =>
    rw [List.append_cons]
    exact h'.behind_trivia htrivia.endLine
  | token htrivia hlexeme happart hrest ih =>
    rw [List.cons_append, List.append_assoc, List.append_assoc]
    refine .token htrivia hlexeme ?_ ih
    rw [goesOn_of_two _ hrest.two_le]
    exact happart

/-! ### And no others -/

theorem Trivia.starts {gap : Bytes} {ending : TriviaEnd} (h : Trivia gap ending) (more : Bytes) :
    gap = [] ∨ startsTrivia (gap ++ more) = true := by
  cases h with
  | nil => exact .inl rfl
  | @blank ch rest _ hch _ =>
    right
    show (isBlank ch || _) = true
    rw [hch, Bool.true_or]
  | _ => exact .inr rfl

/-- What begins with a token has that token first. -/
theorem Renders.of_lexeme {kind : TokenKind} {lexeme rest : Bytes} {spellings : List Spelling}
    (hlexeme : Lexeme kind lexeme) (happart : goesOn kind rest = false)
    (h : Renders spellings (lexeme ++ rest)) : ∃ others, spellings = (kind, lexeme) :: others ∧ Renders others rest := by
  have hstarts := hlexeme.not_startsTrivia happart
  have hne : lexeme ++ rest ≠ [] := List.append_ne_nil_of_left_ne_nil hlexeme.ne_nil _
  obtain ⟨token, q, hnext, hspelling, -, hrest⟩ := nextToken_of_lexeme (Reads.refl ⟨{}, lexeme ++ rest⟩)
    (show (Place.mk {} (lexeme ++ rest)).rest = lexeme ++ rest from rfl) hlexeme happart
  generalize htext : lexeme ++ rest = text at h hstarts hne hnext
  cases h with
  | done htrivia hending =>
    rcases htrivia.starts [] with hnil | htrue
    · exact absurd hnil hne
    · rw [List.append_nil, hstarts] at htrue
      cases htrue
  | @token gap kind' lexeme' rest' others htrivia hlexeme' happart' hrest' =>
    rcases htrivia.starts (lexeme' ++ rest') with rfl | htrue
    · -- the lexer takes the one token that is there
      obtain ⟨token', q', hnext', hspelling', -, hrest''⟩ := nextToken_of_lexeme (Reads.refl ⟨{}, [] ++ (lexeme' ++ rest')⟩)
        (show (Place.mk {} ([] ++ (lexeme' ++ rest'))).rest = lexeme' ++ rest' from rfl) hlexeme' happart'
      rw [hnext] at hnext'
      obtain ⟨rfl, hq⟩ := Prod.mk.inj hnext'
      obtain ⟨rfl, -⟩ := Prod.mk.inj hq
      rw [← hspelling, hspelling', ← hrest, hrest'']
      exact ⟨others, rfl, hrest'⟩
    · rw [hstarts] at htrue
      cases htrue

/-- A text begins with one comment. -/
theorem append_newline_inj {comment comment' rest rest' : Bytes} (h : byte '\n' ∉ comment)
    (h' : byte '\n' ∉ comment') (heq : comment ++ byte '\n' :: rest = comment' ++ byte '\n' :: rest') :
    rest = rest' := by
  induction comment generalizing comment' with
  | nil =>
    cases comment' with
    | nil => exact (List.cons.inj heq).2
    | cons ch more =>
      rw [← (List.cons.inj heq).1] at h'
      exact absurd List.mem_cons_self h'
  | cons ch more ih =>
    cases comment' with
    | nil =>
      rw [(List.cons.inj heq).1] at h
      exact absurd List.mem_cons_self h
    | cons ch' more' =>
      obtain ⟨-, hmore⟩ := List.cons.inj heq
      exact ih (fun hmem => h (List.mem_cons_of_mem _ hmem)) (fun hmem => h' (List.mem_cons_of_mem _ hmem)) hmore

theorem append_close_inj {comment comment' rest rest' : Bytes} (h : ¬ [byte '*', byte '/'] <:+: comment)
    (h' : ¬ [byte '*', byte '/'] <:+: comment')
    (heq : comment ++ byte '*' :: byte '/' :: rest = comment' ++ byte '*' :: byte '/' :: rest') : rest = rest' := by
  have hclosed : ∀ {ch : UInt8} {more rest rest' : Bytes}, ¬ [byte '*', byte '/'] <:+: ch :: more →
      byte '*' :: byte '/' :: rest ≠ ch :: (more ++ byte '*' :: byte '/' :: rest') := by
    intro ch more rest rest' hfree heq
    obtain ⟨rfl, hmore⟩ := List.cons.inj heq
    cases more with
    | nil => exact absurd (List.cons.inj hmore).1 (by decide)
    | cons next more =>
      obtain ⟨rfl, -⟩ := List.cons.inj hmore
      exact hfree ⟨[], more, rfl⟩
  induction comment generalizing comment' with
  | nil =>
    cases comment' with
    | nil => exact (List.cons.inj (List.cons.inj heq).2).2
    | cons ch more => exact absurd heq (hclosed h')
  | cons ch more ih =>
    cases comment' with
    | nil => exact absurd heq.symm (hclosed h)
    | cons ch' more' =>
      obtain ⟨-, hmore⟩ := List.cons.inj heq
      exact ih (fun hin => h (List.infix_cons hin)) (fun hin => h' (List.infix_cons hin)) hmore

/-- One blank, or one comment that is closed. -/
inductive TriviaFront : Bytes → Prop
  | blank {ch} (h : isBlank ch = true) : TriviaFront [ch]
  | line {comment} (h : byte '\n' ∉ comment) : TriviaFront (byte '/' :: byte '/' :: (comment ++ [byte '\n']))
  | block {comment} (h : ¬ [byte '*', byte '/'] <:+: comment) :
      TriviaFront (byte '/' :: byte '*' :: (comment ++ [byte '*', byte '/']))

theorem TriviaFront.starts {front : Bytes} (h : TriviaFront front) (rest : Bytes) :
    startsTrivia (front ++ rest) = true := by
  cases h with
  | @blank ch hch =>
    show (isBlank ch || _) = true
    rw [hch, Bool.true_or]
  | line _ => rfl
  | block _ => rfl

theorem not_isBlank_slash {ch : UInt8} (h : isBlank ch = true) : ch ≠ byte '/' := by
  rintro rfl
  exact absurd h (by decide)

/-- Trivia are left without the first blank or comment. -/
theorem Trivia.without_front {front rest gap more : Bytes} {ending : TriviaEnd} (h : Trivia gap ending)
    (hfront : TriviaFront front) (heq : gap ++ more = front ++ rest) (hstop : ending ≠ .closed → more = [])
    (hmore : startsTrivia more = false) : ∃ gap', Trivia gap' ending ∧ rest = gap' ++ more := by
  cases h with
  | nil =>
    rw [List.nil_append] at heq
    rw [heq, hfront.starts] at hmore
    cases hmore
  | @blank ch gap' _ hch hrest =>
    cases hfront with
    | blank _ => exact ⟨gap', hrest, (List.cons.inj heq).2.symm⟩
    | line _ => exact absurd (List.cons.inj heq).1 (not_isBlank_slash hch)
    | block _ => exact absurd (List.cons.inj heq).1 (not_isBlank_slash hch)
  | @line comment gap' _ hfree hrest =>
    cases hfront with
    | blank hch => exact absurd (List.cons.inj heq).1.symm (not_isBlank_slash hch)
    | @line comment' hfree' =>
      simp only [List.append_assoc, List.cons_append, List.nil_append, List.cons.injEq, true_and] at heq
      refine ⟨gap', ?_, (append_newline_inj hfree hfree' heq).symm⟩
      cases hrest with
      | blank _ hrest => exact hrest
    | block _ => exact absurd (List.cons.inj (List.cons.inj heq).2).1 (by decide)
  | @inLine comment hfree =>
    obtain rfl := hstop (by decide)
    cases hfront with
    | blank hch => exact absurd (List.cons.inj heq).1.symm (not_isBlank_slash hch)
    | @line comment' hfree' =>
      simp only [List.append_assoc, List.cons_append, List.nil_append, List.append_nil, List.cons.injEq,
        true_and] at heq
      rw [heq] at hfree
      exact absurd (by simp) hfree
    | block _ => exact absurd (List.cons.inj (List.cons.inj heq).2).1 (by decide)
  | @block comment gap' _ hfree hrest =>
    cases hfront with
    | blank hch => exact absurd (List.cons.inj heq).1.symm (not_isBlank_slash hch)
    | line _ => exact absurd (List.cons.inj (List.cons.inj heq).2).1 (by decide)
    | @block comment' hfree' =>
      simp only [List.append_assoc, List.cons_append, List.nil_append, List.cons.injEq, true_and] at heq
      exact ⟨gap', hrest, (append_close_inj hfree hfree' heq).symm⟩
  | @inBlock comment hfree =>
    obtain rfl := hstop (by decide)
    cases hfront with
    | blank hch => exact absurd (List.cons.inj heq).1.symm (not_isBlank_slash hch)
    | line _ => exact absurd (List.cons.inj (List.cons.inj heq).2).1 (by decide)
    | @block comment' hfree' =>
      simp only [List.append_assoc, List.cons_append, List.nil_append, List.append_nil, List.cons.injEq,
        true_and] at heq
      refine absurd ⟨comment', rest, ?_⟩ hfree
      rw [heq, List.append_assoc]
      rfl

theorem Renders.without_front {front rest : Bytes} {spellings : List Spelling} (hfront : TriviaFront front)
    (h : Renders spellings (front ++ rest)) : Renders spellings rest := by
  generalize htext : front ++ rest = text at h
  cases h with
  | done htrivia hending =>
    obtain ⟨gap', htrivia', rfl⟩ := htrivia.without_front hfront (by rw [List.append_nil, htext]) (fun _ => rfl) rfl
    rw [List.append_nil]
    exact .done htrivia' hending
  | token htrivia hlexeme happart hrest =>
    obtain ⟨gap', htrivia', rfl⟩ := htrivia.without_front hfront htext.symm (fun hne => absurd rfl hne)
      (hlexeme.not_startsTrivia happart)
    exact .token htrivia' hlexeme happart hrest

/-- Trivia in front can be left out. -/
theorem Renders.of_trivia {gap text : Bytes} {spellings : List Spelling} (h : Trivia gap .closed)
    (h' : Renders spellings (gap ++ text)) : Renders spellings text := by
  generalize hclosed : TriviaEnd.closed = given at h
  induction h with
  | nil => exact h'
  | blank hch _ ih => exact ih (h'.without_front (.blank hch)) hclosed
  | @line comment rest _ hfree _ ih =>
    refine ih ?_ hclosed
    have hfront : Renders spellings (byte '/' :: byte '/' :: (comment ++ [byte '\n']) ++ (rest ++ text)) := by
      simpa only [List.append_assoc, List.cons_append, List.nil_append] using h'
    have hblank : Trivia [byte '\n'] .closed := .blank (by decide) .nil
    show Renders spellings ([byte '\n'] ++ (rest ++ text))
    exact Renders.behind_trivia hblank (hfront.without_front (.line hfree))
  | inLine => cases hclosed
  | @block comment rest _ hfree _ ih =>
    refine ih ?_ hclosed
    have hfront : Renders spellings
        (byte '/' :: byte '*' :: (comment ++ [byte '*', byte '/']) ++ (rest ++ text)) := by
      simpa only [List.append_assoc, List.cons_append, List.nil_append] using h'
    exact hfront.without_front (.block hfree)
  | inBlock => cases hclosed

/-- **Behind a line comment and the end of its line stand the tokens of what is there**, and no others. -/
theorem Renders.of_commented {text more : Bytes} {spellings others : List Spelling}
    (h : RendersUpTo .inLine spellings text) (h' : Renders others (text ++ byte '\n' :: more)) :
    ∃ rest, others = spellings ++ rest ∧ Renders rest more := by
  induction h generalizing others with
  | done htrivia =>
    rw [List.append_cons] at h'
    exact ⟨others, rfl, h'.of_trivia htrivia.endLine⟩
  | token htrivia hlexeme happart hrest ih =>
    rw [List.append_assoc, List.append_assoc] at h'
    have hpart := happart
    rw [← goesOn_of_two (byte '\n' :: more) hrest.two_le] at hpart
    obtain ⟨others', rfl, hbehind⟩ := Renders.of_lexeme hlexeme hpart (h'.of_trivia htrivia)
    obtain ⟨rest', rfl, hmore⟩ := ih hbehind
    exact ⟨rest', rfl, hmore⟩

end StateSpec.Compiler
