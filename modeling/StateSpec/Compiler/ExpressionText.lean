/-
  THE TEXT OF EXPRESSIONS — what the parser keeps of an expression, and what the validator reads in it.

  The parser keeps an expression as the lexemes of its tokens with a blank between each two; the validator
  runs the lexer over that.  A blank ends every token (`goesOn_blank`), so the text renders the tokens it was
  made of (`renders_spaced`), whatever they are.
-/
import Mathlib.Data.List.GetD
import StateSpec.Compiler.Lexemes
import StateSpec.Compiler.ParserContext

namespace StateSpec.Compiler

open Reading

/-- Lexemes with a blank between each two. -/
def spaced (lexemes : List Bytes) : Bytes := List.intercalate (ascii " ") lexemes

/-! ## The text renders its tokens -/

/-- No token goes on with a blank. -/
theorem goesOn_blank (kind : TokenKind) (rest : Bytes) : goesOn kind (ascii " " ++ rest) = false := by
  cases kind <;> rfl

theorem goesOn_nil (kind : TokenKind) : goesOn kind [] = false := by
  cases kind <;> rfl

theorem Renders.blank {spellings : List Spelling} {text : Bytes} (h : Renders spellings text) :
    Renders spellings (ascii " " ++ text) := by
  cases h with
  | done htrivia hending => exact .done (.blank (by decide) htrivia) hending
  | @token gap kind lexeme rest spellings htrivia hlexeme happart hrest =>
    rw [← List.append_assoc]
    exact .token (.blank (by decide) htrivia) hlexeme happart hrest

/-- Every token of a rendered text is a lexeme. -/
theorem Renders.lexeme {spellings : List Spelling} {text : Bytes} (h : Renders spellings text) :
    ∀ spelling ∈ spellings, Lexeme spelling.1 spelling.2 := by
  induction h with
  | done => exact nofun
  | token _ hlexeme _ _ ih => exact List.forall_mem_cons.mpr ⟨hlexeme, ih⟩

theorem spaced_cons (lexeme next : Bytes) (rest : List Bytes) :
    spaced (lexeme :: next :: rest) = lexeme ++ (ascii " " ++ spaced (next :: rest)) := by
  simp [spaced, List.intercalate]

theorem spaced_singleton (lexeme : Bytes) : spaced [lexeme] = lexeme := by
  simp [spaced, List.intercalate]

/-- **Lexemes with blanks between them render their tokens.** -/
theorem renders_spaced {spellings : List Spelling}
    (h : ∀ spelling ∈ spellings, Lexeme spelling.1 spelling.2) :
    Renders spellings (spaced (spellings.map Prod.snd)) := by
  induction spellings with
  | nil => exact .done .nil (by decide)
  | cons spelling rest ih =>
    obtain ⟨hfirst, hrest⟩ := List.forall_mem_cons.mp h
    cases rest with
    | nil =>
      have htext : spaced ([spelling].map Prod.snd) = [] ++ (spelling.2 ++ []) := by
        rw [List.map_singleton, spaced_singleton, List.append_nil, List.nil_append]
      rw [htext]
      exact .token .nil hfirst (goesOn_nil _) (ih hrest)
    | cons next rest =>
      rw [List.map_cons, List.map_cons, spaced_cons, ← List.map_cons]
      exact .token .nil hfirst (goesOn_blank _ _) (ih hrest).blank

/-! ## The text the parser keeps -/

/-- The tokens between two places. -/
def between (tokens : List Token) (start stop : Nat) : List Token := (tokens.drop start).take (stop - start)

/-- One more token. -/
theorem withToken_spaced {lexemes : List Bytes} (h : ∀ lexeme ∈ lexemes, lexeme ≠ []) (token : Token) :
    withToken (spaced lexemes) token = spaced (lexemes ++ [token.lexeme]) := by
  induction lexemes with
  | nil =>
    rw [List.nil_append, spaced_singleton]
    rfl
  | cons lexeme rest ih =>
    obtain ⟨hlexeme, hrest⟩ := List.forall_mem_cons.mp h
    cases rest with
    | nil =>
      rw [spaced_singleton, withToken, if_neg hlexeme, List.singleton_append, spaced_cons, spaced_singleton,
        List.append_assoc]
    | cons next rest =>
      have ih := ih hrest
      have hne : ∀ (first : Bytes) (more : List Bytes), first ≠ [] → spaced (first :: more) ≠ [] := by
        intro first more hfirst
        cases more with
        | nil => rwa [spaced_singleton]
        | cons next more =>
          rw [spaced_cons]
          exact List.append_ne_nil_of_left_ne_nil hfirst _
      have hnext := hne next rest (hrest next List.mem_cons_self)
      rw [withToken, if_neg hnext] at ih
      rw [withToken, if_neg (hne _ _ hlexeme), spaced_cons, List.cons_append, List.cons_append, spaced_cons,
        ← List.cons_append, ← ih]
      simp only [List.append_assoc]

section

variable {tokens : List Token} {fuel : Nat} {cursor cursor' : Cursor Diagnostic}

theorem expressionToken_result (expression : Bytes) (hmore : isAtEnd tokens cursor.current = false) :
    ((expressionToken expression) ⟨fuel, tokens⟩ cursor).result =
      some (withToken expression (peek 0 tokens cursor.current),
        { cursor with current := cursor.current + 1 }) := by
  have hadvance : (Reading.advance : Parser Token) ⟨fuel, tokens⟩ cursor =
      ⟨[], some (previous tokens (cursor.current + 1), { cursor with current := cursor.current + 1 })⟩ := by
    rw [advance_eq, afterToken, hmore]
    rfl
  unfold expressionToken
  have hpeek : ((peekToken : Parser Token) ⟨fuel, tokens⟩ cursor).result =
      some (peek 0 tokens cursor.current, cursor) := rfl
  have hmoved := congrArg Outcome.result hadvance
  rw [bind_finished hpeek, bind_finished hmoved]
  rfl

/-- Where the tokens go on there is one. -/
theorem between_succ {start current : Nat} (hlast : (tokens.getLast?.map Token.kind) = some .endOfFile)
    (hle : start ≤ current) (hmore : isAtEnd tokens current = false) :
    between tokens start (current + 1) = between tokens start current ++ [peek 0 tokens current] ∧
      (peek 0 tokens current) ∈ tokens ∧ (peek 0 tokens current).kind ≠ .endOfFile := by
  have hkind : (peek 0 tokens current).kind ≠ .endOfFile := by
    intro hend
    have hat : isAtEnd tokens current = true := by
      show ((peek 0 tokens current).kind == .endOfFile) = true
      rw [hend]
      rfl
    rw [hmore] at hat
    cases hat
  have hlt : current < tokens.length := by
    by_contra hge
    refine hkind ?_
    rw [peek, Nat.add_zero, List.getD_eq_default _ _ (Nat.le_of_not_lt hge)]
    obtain ⟨token, htoken, hend⟩ := Option.map_eq_some_iff.mp hlast
    rw [List.getLastD_eq_getLast?, htoken]
    exact hend
  have hpeek : peek 0 tokens current = tokens[current] := by
    rw [peek, Nat.add_zero, List.getD_eq_getElem _ _ hlt]
  refine ⟨?_, ?_, hkind⟩
  · have hindex : current - start < (tokens.drop start).length := by
      rw [List.length_drop]
      omega
    rw [between, between, hpeek, show current + 1 - start = current - start + 1 by omega,
      List.take_add_one, List.getElem?_eq_getElem hindex, List.getElem_drop]
    simp only [show start + (current - start) = current by omega]
    rfl
  · rw [hpeek]
    exact List.getElem_mem hlt

/-- **A loop that keeps tokens keeps their lexemes**, from the place where it began. -/
theorem iterate_keeps {l : ParserLoop} {cond : Bytes → List Token → Nat → Bool} {n start : Nat}
    {expression text : Bytes} (hlast : (tokens.getLast?.map Token.kind) = some .endOfFile)
    (hne : ∀ token ∈ tokens, token.kind ≠ .endOfFile → token.lexeme ≠ []) (hle : start ≤ cursor.current)
    (hkinds : ∀ token ∈ between tokens start cursor.current, token ∈ tokens ∧ token.kind ≠ .endOfFile)
    (hexpression : expression = spaced ((between tokens start cursor.current).map Token.lexeme))
    (h : (iterate l cond expressionToken ⟨fuel, tokens⟩ n expression cursor).result = some (text, cursor')) :
    text = spaced ((between tokens start cursor'.current).map Token.lexeme) ∧
      ∀ token ∈ between tokens start cursor'.current, token ∈ tokens ∧ token.kind ≠ .endOfFile := by
  have hstop : ∀ {n : Nat} {expression : Bytes} {cursor : Cursor Diagnostic},
      ¬ Reading.goesOn cond expression tokens cursor.current →
      (iterate l cond expressionToken ⟨fuel, tokens⟩ n expression cursor).result = some (text, cursor') →
      expression = text ∧ cursor = cursor' := by
    intro n expression cursor hgo h
    rw [iterate_done (i := ⟨fuel, tokens⟩) hgo] at h
    exact Prod.mk.inj (Option.some.inj h)
  induction n generalizing expression cursor with
  | zero =>
    by_cases hgo : Reading.goesOn cond expression tokens cursor.current
    · rw [iterate_zero (i := ⟨fuel, tokens⟩) hgo] at h
      cases h
    · obtain ⟨rfl, rfl⟩ := hstop hgo h
      exact ⟨hexpression, hkinds⟩
  | succ n ih =>
    by_cases hgo : Reading.goesOn cond expression tokens cursor.current
    · obtain ⟨hnext, hmem, hkind⟩ := between_succ hlast hle hgo.2
      rw [iterate_finished (i := ⟨fuel, tokens⟩) hgo (expressionToken_result expression hgo.2)] at h
      refine ih (Nat.le_succ_of_le hle) ?_ ?_ h
      · intro token htoken
        rw [hnext, List.mem_append, List.mem_singleton] at htoken
        rcases htoken with htoken | rfl
        · exact hkinds token htoken
        · exact ⟨hmem, hkind⟩
      · rw [hnext, hexpression, List.map_append, List.map_singleton]
        refine withToken_spaced (fun lexeme hlexeme => ?_) _
        obtain ⟨token, htoken, rfl⟩ := List.mem_map.mp hlexeme
        exact hne token (hkinds token htoken).1 (hkinds token htoken).2
    · obtain ⟨rfl, rfl⟩ := hstop hgo h
      exact ⟨hexpression, hkinds⟩

end

/-! ## The theorem -/

/-- The parts of the parser that keep an expression. -/
def expressionParsers (kind : TokenKind) : List (Parser Bytes) :=
  [parseSimpleExpressionUntilBoundary, parseSimpleExpressionUntilLineBoundary, parseExpressionUntil kind]

theorem expressionParsers_loop {kind : TokenKind} {p : Parser Bytes} (hp : p ∈ expressionParsers kind) :
    ∃ l cond, p = loop l cond expressionToken [] := by
  simp only [expressionParsers, List.mem_cons, List.not_mem_nil, or_false] at hp
  rcases hp with rfl | rfl | rfl
  · exact ⟨_, _, rfl⟩
  · exact ⟨_, _, rfl⟩
  · exact ⟨_, _, rfl⟩

/-- The lexer has these tokens, and nothing to report. -/
def LexesTo (text : Bytes) (tokens : List Token) : Prop :=
  ∃ tokens', lex text = some (tokens', []) ∧
    tokens'.map Token.spelling = tokens.map Token.spelling ++ [endSpelling]

/-- The tokens of a text without errors, but for the last one, are lexemes. -/
theorem lexeme_of_lex {source : Bytes} {tokens : List Token} {diagnostics : List Diagnostic}
    (hlex : lex source = some (tokens, diagnostics)) (hclean : hasErrors diagnostics = false) :
    (tokens.getLast?.map Token.kind) = some .endOfFile ∧
      ∀ token ∈ tokens, token.kind ≠ .endOfFile → Lexeme token.kind token.lexeme := by
  obtain ⟨spellings, hspellings, hrenders⟩ := renders_of_scan (Reads.refl ⟨{}, source⟩) hlex hclean
  constructor
  · have hlast := congrArg List.getLast? hspellings
    rw [List.getLast?_map, List.getLast?_concat] at hlast
    obtain ⟨token, htoken, hspelling⟩ := Option.map_eq_some_iff.mp hlast
    rw [htoken]
    exact congrArg some (congrArg Prod.fst hspelling)
  · intro token htoken hkind
    have hmem : token.spelling ∈ spellings ++ [endSpelling] := by
      rw [← hspellings]
      exact List.mem_map_of_mem htoken
    rcases List.mem_append.mp hmem with hmem | hmem
    · exact hrenders.lexeme _ hmem
    · exact absurd (congrArg Prod.fst (List.mem_singleton.mp hmem)) hkind

/-- Tokens of a text without errors, in any order, are kept by the text made of them. -/
theorem lexesTo_spaced {source : Bytes} {tokens picked : List Token} {diagnostics : List Diagnostic}
    (hlex : lex source = some (tokens, diagnostics)) (hclean : hasErrors diagnostics = false)
    (hpicked : ∀ token ∈ picked, token ∈ tokens ∧ token.kind ≠ .endOfFile) :
    LexesTo (spaced (picked.map Token.lexeme)) picked := by
  have hall : ∀ spelling ∈ picked.map Token.spelling, Lexeme spelling.1 spelling.2 := by
    intro spelling hspelling
    obtain ⟨token, htoken, rfl⟩ := List.mem_map.mp hspelling
    exact (lexeme_of_lex hlex hclean).2 token (hpicked token htoken).1 (hpicked token htoken).2
  have hrenders := renders_spaced hall
  rw [List.map_map, show Prod.snd ∘ Token.spelling = Token.lexeme from rfl] at hrenders
  exact scan_of_renders (Reads.refl ⟨{}, _⟩) hrenders (Nat.lt_succ_self _)

/-- **An expression is judged by the tokens the author wrote**: whichever tokens of a text are kept, as the
    parser keeps them, the lexer finds them again and nothing else. -/
theorem expression_text_keeps_tokens {source : Bytes} {tokens : List Token} {diagnostics : List Diagnostic}
    (hlex : lex source = some (tokens, diagnostics)) (hclean : hasErrors diagnostics = false) :
    (∀ picked : List Token, (∀ token ∈ picked, token ∈ tokens ∧ token.kind ≠ .endOfFile) →
      LexesTo (spaced (picked.map Token.lexeme)) picked) ∧
    ∀ (kind : TokenKind), ∀ p ∈ expressionParsers kind, ∀ (fuel : Nat) (cursor : Cursor Diagnostic),
      ∀ text cursor', (p ⟨fuel, tokens⟩ cursor).result = some (text, cursor') →
        text = spaced ((between tokens cursor.current cursor'.current).map Token.lexeme) ∧
          LexesTo text (between tokens cursor.current cursor'.current) := by
  refine ⟨fun picked hpicked => lexesTo_spaced hlex hclean hpicked, ?_⟩
  intro kind p hp fuel cursor text cursor' hresult
  obtain ⟨l, cond, rfl⟩ := expressionParsers_loop hp
  obtain ⟨hlast, hlexemes⟩ := lexeme_of_lex hlex hclean
  have hnone : between tokens cursor.current cursor.current = [] := by
    rw [between, Nat.sub_self, List.take_zero]
  obtain ⟨htext, hkinds⟩ := iterate_keeps hlast
    (fun token htoken hkind => (hlexemes token htoken hkind).ne_nil) (Nat.le_refl cursor.current)
    (by rw [hnone]; exact nofun) (by rw [hnone]; rfl) hresult
  exact ⟨htext, by rw [htext]; exact lexesTo_spaced hlex hclean hkinds⟩

/-- The first three tokens of a text with a comment. -/
theorem expression_text_keeps_tokens_subtraction :
    ∃ tokens, lex (ascii "a-/* less */-1;") = some (tokens, []) ∧
      LexesTo (spaced ((tokens.take 3).map Token.lexeme)) (tokens.take 3) := by
  have hread : (lex (ascii "a-/* less */-1;")).map (fun r => (r.2, r.1.map Token.kind)) =
      some ([], [.identifier, .minus, .integerLiteral, .semicolon, .endOfFile]) := by decide +kernel
  obtain ⟨⟨tokens, diagnostics⟩, hlex, hkinds⟩ := Option.map_eq_some_iff.mp hread
  obtain ⟨rfl, hkinds⟩ := Prod.mk.inj hkinds
  refine ⟨tokens, hlex, (expression_text_keeps_tokens hlex rfl).1 _ fun token htoken => ?_⟩
  refine ⟨List.mem_of_mem_take htoken, ?_⟩
  have hkind : token.kind ∈ (tokens.map Token.kind).take 3 := by
    rw [← List.map_take]
    exact List.mem_map_of_mem htoken
  rw [hkinds] at hkind
  rintro hend
  rw [hend] at hkind
  exact absurd hkind (by decide)

end StateSpec.Compiler
