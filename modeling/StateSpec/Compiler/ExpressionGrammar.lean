/-
  THE GRAMMAR OF EXPRESSIONS, and `ExpressionSyntaxValidator` as a recognizer of it.

  1. **Grammar** — `Derives`, the rules of `grammar/statespec.ebnf` over the kinds of tokens.  A `(...)*` of the
     grammar is a symbol of its own, so that a rule has the shape of the loop that reads it.
  2. **Program** — `ExpressionInput.validate`, which keeps no tree and goes on after its first error.
  3. **Recognition** — `Reads L K s s'`: from `s` to `s'` a word of `L` is read or an error is reported, and a
     word of `L` that is there is read to its end, unless a kind of `K` stands behind it.  Each function of the
     program reads the words of its symbol; loops and recursion take at least one token each time.
  4. **Correctness** — `validate_accepts_iff`.
-/
import StateSpec.Compiler.ValidatorExpression
import Mathlib.Data.List.TakeWhile

namespace StateSpec.Compiler

namespace ExpressionGrammar

/-! ## The grammar -/

/-- The rules `operand (operator operand)*`, from the loosest. -/
inductive Level where
  | argumentList | logicalOr | logicalAnd | equality | comparison | additive | multiplicative
deriving DecidableEq

inductive Nonterminal where
  | level (level : Level)
  /-- The `(operator operand)*` of a level. -/
  | more (level : Level)
  | unary
  | primary
  | qualifiedName
  /-- The `("." name)*` of a qualified name. -/
  | moreNames
  /-- An `argument_list?`. -/
  | arguments
  /-- A `selector*`. -/
  | selectors
deriving DecidableEq

namespace Level

def operators : Level → List TokenKind
  | .argumentList => [.comma]
  | .logicalOr => [.orOr]
  | .logicalAnd => [.andAnd]
  | .equality => [.equalEqual, .bangEqual]
  | .comparison => [.less, .lessEqual, .greater, .greaterEqual, .keywordIn]
  | .additive => [.plus, .minus]
  | .multiplicative => [.star, .slash, .percent]

def operand : Level → Nonterminal
  | .argumentList => .level .logicalOr
  | .logicalOr => .level .logicalAnd
  | .logicalAnd => .level .equality
  | .equality => .level .comparison
  | .comparison => .level .additive
  | .additive => .level .multiplicative
  | .multiplicative => .unary

end Level

def expressionLiterals : List TokenKind :=
  [.stringLiteral, .integerLiteral, .decimalLiteral, .booleanLiteral, .durationLiteral]

/-- The kinds of tokens that a symbol derives. -/
inductive Derives : Nonterminal → List TokenKind → Prop where
  | operand {level : Level} {first rest : List TokenKind} (h : Derives level.operand first)
      (h' : Derives (.more level) rest) : Derives (.level level) (first ++ rest)
  | noOperator (level : Level) : Derives (.more level) []
  | operator {level : Level} {operator : TokenKind} {next rest : List TokenKind}
      (hoperator : operator ∈ level.operators) (h : Derives level.operand next)
      (h' : Derives (.more level) rest) : Derives (.more level) (operator :: (next ++ rest))
  | sign {sign : TokenKind} {word : List TokenKind} (hsign : sign ∈ [TokenKind.bang, .minus])
      (h : Derives .unary word) : Derives .unary (sign :: word)
  | unsigned {word : List TokenKind} (h : Derives .primary word) : Derives .unary word
  | literal {kind : TokenKind} (hkind : kind ∈ expressionLiterals) : Derives .primary [kind]
  | parenthesised {word : List TokenKind} (h : Derives (.level .logicalOr) word) :
      Derives .primary (.leftParen :: (word ++ [.rightParen]))
  | list {word : List TokenKind} (h : Derives .arguments word) :
      Derives .primary (.leftBracket :: (word ++ [.rightBracket]))
  | assignable {name rest : List TokenKind} (h : Derives .qualifiedName name) (h' : Derives .selectors rest) :
      Derives .primary (name ++ rest)
  | call {name word rest : List TokenKind} (h : Derives .qualifiedName name) (hword : Derives .arguments word)
      (h' : Derives .selectors rest) : Derives .primary (name ++ .leftParen :: (word ++ .rightParen :: rest))
  | name {kind : TokenKind} {rest : List TokenKind} (hkind : isExpressionIdentifierToken kind = true)
      (h : Derives .moreNames rest) : Derives .qualifiedName (kind :: rest)
  | noName : Derives .moreNames []
  | dotName {kind : TokenKind} {rest : List TokenKind} (hkind : isExpressionIdentifierToken kind = true)
      (h : Derives .moreNames rest) : Derives .moreNames (.dot :: kind :: rest)
  | noArguments : Derives .arguments []
  | someArguments {word : List TokenKind} (h : Derives (.level .argumentList) word) : Derives .arguments word
  | noSelector : Derives .selectors []
  | selectorName {kind : TokenKind} {rest : List TokenKind} (hkind : isExpressionIdentifierToken kind = true)
      (h : Derives .selectors rest) : Derives .selectors (.dot :: kind :: rest)
  | selectorExpression {word rest : List TokenKind} (h : Derives (.level .logicalOr) word)
      (h' : Derives .selectors rest) :
      Derives .selectors (.leftBracket :: (word ++ .rightBracket :: rest))

/-! ### What an expression begins with -/

/-- The kinds that a primary begins with. -/
def BeginsPrimary (kind : TokenKind) : Prop :=
  kind ∈ expressionLiterals ∨ kind ∈ [TokenKind.leftParen, .leftBracket] ∨ isExpressionIdentifierToken kind = true

theorem not_beginsPrimary {kind : TokenKind} (h : kind ∈ [TokenKind.bang, .minus, .rightParen, .rightBracket]) :
    ¬ BeginsPrimary kind := by
  have hall : ∀ kind ∈ [TokenKind.bang, .minus, .rightParen, .rightBracket],
      ¬ (kind ∈ expressionLiterals ∨ kind ∈ [TokenKind.leftParen, .leftBracket] ∨
        isExpressionIdentifierToken kind = true) := by decide
  exact hall kind h

theorem Derives.primary_begins {word : List TokenKind} (h : Derives .primary word) :
    ∃ kind rest, word = kind :: rest ∧ BeginsPrimary kind := by
  cases h with
  | literal hkind => exact ⟨_, _, rfl, .inl hkind⟩
  | parenthesised h => exact ⟨_, _, rfl, .inr (.inl (by decide))⟩
  | list h => exact ⟨_, _, rfl, .inr (.inl (by decide))⟩
  | assignable h h' =>
    cases h with
    | name hkind h => exact ⟨_, _, List.cons_append, .inr (.inr hkind)⟩
  | call h hword h' =>
    cases h with
    | name hkind h => exact ⟨_, _, List.cons_append, .inr (.inr hkind)⟩

/-- The nonterminals that do not derive the empty word. -/
def Nonterminal.isExpression : Nonterminal → Bool
  | .level _ | .unary | .primary => true
  | _ => false

theorem Level.isExpression_operand (level : Level) : level.operand.isExpression = true := by
  cases level <;> rfl

/-- An expression begins with a sign or as a primary does. -/
theorem Derives.begins {nonterminal : Nonterminal} {word : List TokenKind} (h : Derives nonterminal word)
    (hnonterminal : nonterminal.isExpression = true) :
    ∃ kind rest, word = kind :: rest ∧ (kind ∈ [TokenKind.bang, .minus] ∨ BeginsPrimary kind) := by
  have hprimary : ∀ {word : List TokenKind}, Derives .primary word →
      ∃ kind rest, word = kind :: rest ∧ (kind ∈ [TokenKind.bang, .minus] ∨ BeginsPrimary kind) := by
    intro word h
    obtain ⟨kind, rest, hword, hkind⟩ := h.primary_begins
    exact ⟨kind, rest, hword, .inr hkind⟩
  induction h with
  | operand h h' ih ih' =>
    obtain ⟨kind, rest, rfl, hkind⟩ := ih (Level.isExpression_operand _)
    exact ⟨kind, _, List.cons_append, hkind⟩
  | sign hsign h ih => exact ⟨_, _, rfl, .inl hsign⟩
  | unsigned h ih => exact ih rfl
  | literal hkind => exact hprimary (.literal hkind)
  | parenthesised h ih => exact hprimary (.parenthesised h)
  | list h ih => exact hprimary (.list h)
  | assignable h h' ih ih' => exact hprimary (.assignable h h')
  | call h hword h' ih ihword ih' => exact hprimary (.call h hword h')
  | _ => cases hnonterminal

/-! ### What goes on with a symbol -/

/-- What goes on with a name. -/
def behindNames : List TokenKind := [.dot, .leftBracket, .leftParen]

namespace Level

/-- A level and the tighter ones. -/
def within : Level → List Level
  | .argumentList => [.argumentList, .logicalOr, .logicalAnd, .equality, .comparison, .additive, .multiplicative]
  | .logicalOr => [.logicalOr, .logicalAnd, .equality, .comparison, .additive, .multiplicative]
  | .logicalAnd => [.logicalAnd, .equality, .comparison, .additive, .multiplicative]
  | .equality => [.equality, .comparison, .additive, .multiplicative]
  | .comparison => [.comparison, .additive, .multiplicative]
  | .additive => [.additive, .multiplicative]
  | .multiplicative => [.multiplicative]

end Level

/-- The kinds that go on with a word of a symbol. -/
def Nonterminal.continuing : Nonterminal → List TokenKind
  | .level precedence | .more precedence => precedence.within.flatMap Level.operators ++ behindNames
  | .unary | .primary => behindNames
  | .qualifiedName | .moreNames => [.dot]
  | .arguments => Level.argumentList.within.flatMap Level.operators ++ behindNames
  | .selectors => [.dot, .leftBracket]

/-- No kind of these stands at the beginning. -/
def Stops (kinds word : List TokenKind) : Prop := ∀ kind, word.head? = some kind → kind ∉ kinds

theorem stops_cons {kinds word : List TokenKind} {kind : TokenKind} :
    Stops kinds (kind :: word) ↔ kind ∉ kinds := by
  constructor
  · intro h
    exact h kind rfl
  · rintro h other ⟨⟩
    exact h

theorem stops_nil (kinds : List TokenKind) : Stops kinds [] := nofun

theorem Stops.mono {kinds others word : List TokenKind} (h : Stops kinds word)
    (hsub : ∀ kind ∈ others, kind ∈ kinds) : Stops others word :=
  fun kind hkind hmem => h kind hkind (hsub kind hmem)

theorem Level.operand_continuing (level : Level) :
    ∀ kind ∈ level.operand.continuing, kind ∈ (Nonterminal.level level).continuing := by
  cases level <;> decide

theorem Level.operators_continuing (level : Level) :
    ∀ kind ∈ level.operators, kind ∈ (Nonterminal.level level).continuing ∧ kind ∉ level.operand.continuing := by
  cases level <;> decide

/-- Behind an operand stands an operator, or what stands behind the level. -/
theorem stops_operand {level : Level} {rest word : List TokenKind} (h : Derives (.more level) rest)
    (hword : Stops (Nonterminal.level level).continuing word) : Stops level.operand.continuing (rest ++ word) := by
  cases h with
  | noOperator => exact hword.mono level.operand_continuing
  | operator hoperator _ _ => exact stops_cons.mpr (level.operators_continuing _ hoperator).2

/-! ### Names -/

/-- A name behind a qualified name belongs to it. -/
theorem qualifiedName_snoc {name : List TokenKind} {kind : TokenKind} (h : Derives .qualifiedName name)
    (hkind : isExpressionIdentifierToken kind = true) : Derives .qualifiedName (name ++ [.dot, kind]) := by
  have hmore : ∀ {rest : List TokenKind}, Derives .moreNames rest → Derives .moreNames (rest ++ [.dot, kind]) := by
    intro rest hrest
    generalize hsymbol : Nonterminal.moreNames = symbol at hrest
    induction hrest with
    | noName => exact .dotName hkind .noName
    | dotName hfirst _ ih => exact .dotName hfirst (ih rfl)
    | _ => cases hsymbol
  cases h with
  | name hfirst hrest => exact .name hfirst (hmore hrest)

/-- All the names at the beginning of the selectors can be taken into the qualified name. -/
theorem assignable_longest {name rest : List TokenKind} (h : Derives .qualifiedName name)
    (h' : Derives .selectors rest) : ∃ name' rest', name ++ rest = name' ++ rest' ∧
      Derives .qualifiedName name' ∧ Derives .selectors rest' ∧ Stops [.dot] rest' := by
  generalize hsymbol : Nonterminal.selectors = symbol at h'
  induction h' generalizing name with
  | noSelector => exact ⟨name, [], rfl, h, .noSelector, stops_nil _⟩
  | @selectorName kind rest hkind hrest ih =>
    obtain ⟨name', rest', heq, hname', hrest', hstops⟩ := ih (qualifiedName_snoc h hkind) rfl
    refine ⟨name', rest', ?_, hname', hrest', hstops⟩
    rw [← heq, List.append_assoc]
    rfl
  | selectorExpression hword hrest _ _ =>
    exact ⟨name, _, rfl, h, .selectorExpression hword hrest, stops_cons.mpr (by decide)⟩
  | _ => cases hsymbol

end ExpressionGrammar

/-! ## States -/

namespace ExpressionInput

open ExpressionGrammar

variable (e : ExpressionInput)

/-- The kinds of the tokens before the end. -/
def word : List TokenKind := (e.tokens.map Token.kind).takeWhile (· != .endOfFile)

/-- What is left of them. -/
def left (s : ExpressionState) : List TokenKind := e.word.drop s.current

/-- A syntax error is reported. -/
def IsSyntaxError (diagnostics : Diagnostics) : Prop := ∃ diagnostic ∈ diagnostics, diagnostic.code = "SSPEC5201"

/-- The state stands before the end, and has failed just if a syntax error is reported. -/
structure Stands (s : ExpressionState) : Prop where
  inside : s.current ≤ e.word.length
  failed : s.failed = true ↔ IsSyntaxError s.diagnostics

/-- The tokens have an end. -/
def Ended : Prop := ∃ rest, e.tokens.map Token.kind = e.word ++ .endOfFile :: rest

theorem ended_of_last (h : e.tokens.getLast?.map Token.kind = some .endOfFile) : e.Ended := by
  have hsplit := List.takeWhile_append_dropWhile (p := (· != TokenKind.endOfFile)) (l := e.tokens.map Token.kind)
  cases hrest : (e.tokens.map Token.kind).dropWhile (· != .endOfFile) with
  | nil =>
    obtain ⟨token, htoken, hkind⟩ := Option.map_eq_some_iff.mp h
    have hall := List.dropWhile_eq_nil_iff.mp hrest
    have hmem : TokenKind.endOfFile ∈ e.tokens.map Token.kind := by
      rw [← hkind]
      exact List.mem_map_of_mem (List.mem_of_getLast? htoken)
    exact absurd (hall _ hmem) (by decide)
  | cons kind rest =>
    have hkind : kind = .endOfFile := by
      have hhead := List.head?_dropWhile_not (· != TokenKind.endOfFile) (e.tokens.map Token.kind)
      rw [hrest] at hhead
      simpa using hhead
    rw [hrest, hkind] at hsplit
    exact ⟨rest, hsplit.symm⟩

theorem word_ne_endOfFile {kind : TokenKind} (h : kind ∈ e.word) : kind ≠ .endOfFile := by
  have hkind := List.mem_takeWhile_imp h
  exact bne_iff_ne.mp hkind

section

variable {e} {s s' : ExpressionState} (hended : e.Ended) (hs : e.Stands s)

include hended hs in
/-- The kind of the next token. -/
theorem peek_kind : (e.peek s).kind = (e.left s).headD .endOfFile := by
  obtain ⟨rest, hrest⟩ := hended
  have hnext : (e.tokens[s.current]?).map Token.kind = some ((e.left s).headD .endOfFile) := by
    rw [← List.getElem?_map, ← List.head?_drop, hrest, List.drop_append_of_le_length hs.inside, left]
    cases e.word.drop s.current with
    | nil => rfl
    | cons kind more => rfl
  obtain ⟨token, htoken, hkind⟩ := Option.map_eq_some_iff.mp hnext
  rw [peek, List.getD_eq_getElem?_getD, htoken]
  exact hkind

include hended hs in
theorem check_iff_head {kind : TokenKind} (hkind : kind ≠ .endOfFile) :
    e.check s kind = true ↔ (e.left s).head? = some kind := by
  rw [check, beq_iff_eq, peek_kind hended hs]
  cases e.left s with
  | nil => exact ⟨fun h => absurd h.symm hkind, nofun⟩
  | cons first rest => exact ⟨congrArg some, Option.some.inj⟩

include hended hs in
theorem check_endOfFile : e.check s .endOfFile = true ↔ e.left s = [] := by
  rw [check, beq_iff_eq, peek_kind hended hs]
  cases hleft : e.left s with
  | nil => exact ⟨fun _ => rfl, fun _ => rfl⟩
  | cons first rest =>
    have hmem : first ∈ e.word := List.mem_of_mem_drop (by rw [← left, hleft]; exact List.mem_cons_self)
    exact ⟨fun h => absurd h (e.word_ne_endOfFile hmem), nofun⟩

include hended hs in
/-- `advance` takes what is next. -/
theorem advance_spec {kind : TokenKind} {rest : List TokenKind} (h : e.left s = kind :: rest) :
    e.advance s = { s with current := s.current + 1 } ∧ e.Stands (e.advance s) ∧ e.left (e.advance s) = rest := by
  have hadvance : e.advance s = { s with current := s.current + 1 } := by
    rw [advance, if_neg]
    rw [check_endOfFile hended hs, h]
    exact List.cons_ne_nil _ _
  have hrest : e.word.drop (s.current + 1) = rest := by
    rw [← List.tail_drop, ← left, h]
    rfl
  refine ⟨hadvance, ?_, ?_⟩
  · rw [hadvance]
    refine ⟨?_, hs.failed⟩
    have hlength := congrArg List.length h
    rw [left, List.length_drop, List.length_cons] at hlength
    show s.current + 1 ≤ e.word.length
    omega
  · rw [hadvance]
    exact hrest

omit hended in
include hs in
theorem stands_syntaxError (message : String) :
    e.Stands (e.syntaxError s message) ∧ (e.syntaxError s message).failed = true ∧
      e.left (e.syntaxError s message) = e.left s := by
  unfold syntaxError
  split
  · rename_i hfailed
    exact ⟨hs, hfailed, rfl⟩
  · refine ⟨⟨hs.inside, ?_⟩, rfl, rfl⟩
    refine ⟨fun _ => ?_, fun _ => rfl⟩
    exact ⟨_, List.mem_append_right _ (List.mem_singleton_self _), rfl⟩

omit hended in
include hs in
/-- A name that is not built in is no syntax error. -/
theorem stands_validateBuiltinCall (name : Bytes) :
    e.Stands (e.validateBuiltinCall name s) ∧ (e.validateBuiltinCall name s).failed = s.failed ∧
      e.left (e.validateBuiltinCall name s) = e.left s := by
  unfold validateBuiltinCall
  split
  · exact ⟨hs, rfl, rfl⟩
  · refine ⟨⟨hs.inside, ?_⟩, rfl, rfl⟩
    refine hs.failed.trans ⟨?_, ?_⟩
    · rintro ⟨diagnostic, hmem, hcode⟩
      exact ⟨diagnostic, List.mem_append_left _ hmem, hcode⟩
    · rintro ⟨diagnostic, hmem, hcode⟩
      rcases List.mem_append.mp hmem with hmem | hmem
      · exact ⟨diagnostic, hmem, hcode⟩
      · rw [List.mem_singleton.mp hmem] at hcode
        have hother : "SSPEC5202" ≠ "SSPEC5201" := by decide
        exact absurd hcode hother

include hended hs in
/-- One of some kinds is next and taken, or none is. -/
theorem matchAny_cases (kinds : List TokenKind) (hkinds : TokenKind.endOfFile ∉ kinds) :
    (∃ kind rest, e.left s = kind :: rest ∧ kind ∈ kinds ∧ e.matchAny kinds s = some (e.advance s)) ∨
      (e.matchAny kinds s = none ∧ Stops kinds (e.left s)) := by
  unfold matchAny
  rw [peek_kind hended hs]
  cases hleft : e.left s with
  | nil => exact .inr ⟨if_neg hkinds, stops_nil _⟩
  | cons kind rest =>
    by_cases hmem : kind ∈ kinds
    · exact .inl ⟨kind, rest, rfl, hmem, if_pos hmem⟩
    · exact .inr ⟨if_neg hmem, stops_cons.mpr hmem⟩

end

/-! ## Reading a word -/

/-- From `s` to `s'` a word is read, or an error is reported; and a word that is there is read to its end, unless
    something stands behind it that goes on with it. -/
structure Reads (language : List TokenKind → Prop) (kinds : List TokenKind) (s s' : ExpressionState) : Prop where
  stands : e.Stands s'
  failed : s.failed = true → s'.failed = true
  taken : ∃ consumed, e.left s = consumed ++ e.left s' ∧ (s'.failed = false → language consumed)
  complete : s.failed = false → ∀ word more, language word → Stops kinds more → e.left s = word ++ more →
    s'.failed = false ∧ e.left s' = more

/-- A program that reads words of a language wherever fewer than `m` tokens are left. -/
def Recognizes (language : List TokenKind → Prop) (kinds : List TokenKind) (m : Nat)
    (p : ExpressionState → Option ExpressionState) : Prop :=
  ∀ s, e.Stands s → (e.left s).length < m → ∃ s', p s = some s' ∧ e.Reads language kinds s s'

namespace Reads

variable {e} {language first second : List TokenKind → Prop} {kinds firstKinds secondKinds : List TokenKind}
  {s s₁ s' : ExpressionState}

theorem length_le (h : e.Reads language kinds s s') : (e.left s').length ≤ (e.left s).length := by
  obtain ⟨consumed, htaken, -⟩ := h.taken
  rw [htaken, List.length_append]
  omega

theorem not_failed (h : e.Reads language kinds s s') (hs' : s'.failed = false) : s.failed = false := by
  cases hs : s.failed with
  | false => rfl
  | true =>
    rw [h.failed hs] at hs'
    cases hs'

/-- One after the other. -/
theorem seq (h : e.Reads first firstKinds s s₁) (h' : e.Reads second secondKinds s₁ s')
    (hword : ∀ word word', first word → second word' → language (word ++ word'))
    (hback : s.failed = false → ∀ word more, language word → Stops kinds more → e.left s = word ++ more →
      ∃ word₁ word₂, word = word₁ ++ word₂ ∧ first word₁ ∧ Stops firstKinds (word₂ ++ more) ∧
        second word₂ ∧ Stops secondKinds more) : e.Reads language kinds s s' := by
  refine ⟨h'.stands, fun hs => h'.failed (h.failed hs), ?_, ?_⟩
  · obtain ⟨consumed, htaken, hfirst⟩ := h.taken
    obtain ⟨consumed', htaken', hsecond⟩ := h'.taken
    refine ⟨consumed ++ consumed', ?_, fun hs' => ?_⟩
    · rw [htaken, htaken', List.append_assoc]
    · exact hword _ _ (hfirst (h'.not_failed hs')) (hsecond hs')
  · intro hs word more hlanguage hstops hleft
    obtain ⟨word₁, word₂, rfl, hfirst, hstops₁, hsecond, hstops₂⟩ := hback hs word more hlanguage hstops hleft
    rw [List.append_assoc] at hleft
    obtain ⟨hs₁, hleft₁⟩ := h.complete hs word₁ _ hfirst hstops₁ hleft
    exact h'.complete hs₁ word₂ more hsecond hstops₂ hleft₁

/-- The same words by another name. -/
theorem refine (h : e.Reads first firstKinds s s') (hword : ∀ word, first word → language word)
    (hback : s.failed = false → ∀ word more, language word → Stops kinds more → e.left s = word ++ more →
      first word ∧ Stops firstKinds more) : e.Reads language kinds s s' := by
  refine ⟨h.stands, h.failed, ?_, ?_⟩
  · obtain ⟨consumed, htaken, hfirst⟩ := h.taken
    exact ⟨consumed, htaken, fun hs' => hword _ (hfirst hs')⟩
  · intro hs word more hlanguage hstops hleft
    obtain ⟨hfirst, hstops'⟩ := hback hs word more hlanguage hstops hleft
    exact h.complete hs word more hfirst hstops' hleft

/-- Nothing is read, where only the empty word is there. -/
theorem stay (hs : e.Stands s) (hnil : language [])
    (hback : ∀ word more, language word → Stops kinds more → e.left s = word ++ more → word = []) :
    e.Reads language kinds s s := by
  refine ⟨hs, id, ⟨[], rfl, fun _ => hnil⟩, fun hfailed word more hlanguage hstops hleft => ⟨hfailed, ?_⟩⟩
  obtain rfl := hback word more hlanguage hstops hleft
  exact hleft

/-- An error, where no word is there. -/
theorem error (hs : e.Stands s) (message : String)
    (hback : ∀ word more, language word → Stops kinds more → e.left s ≠ word ++ more) :
    e.Reads language kinds s (e.syntaxError s message) := by
  obtain ⟨hstands, hfailed, hleft⟩ := stands_syntaxError hs message
  refine ⟨hstands, fun _ => hfailed, ⟨[], ?_, fun h => ?_⟩, fun _ word more hlanguage hstops heq => ?_⟩
  · rw [hleft, List.nil_append]
  · rw [hfailed] at h
    cases h
  · exact absurd heq (hback word more hlanguage hstops)

/-- A token. -/
theorem token (hended : e.Ended) (hs : e.Stands s) {kind : TokenKind} {rest : List TokenKind}
    (h : e.left s = kind :: rest) : e.Reads (fun word => word = [kind]) [] s (e.advance s) := by
  obtain ⟨hadvance, hstands, hleft⟩ := advance_spec hended hs h
  have hfailed : (e.advance s).failed = s.failed := by rw [hadvance]
  refine ⟨hstands, ?_, ⟨[kind], ?_, fun _ => rfl⟩, ?_⟩
  · intro hs
    rw [hfailed, hs]
  · rw [h, hleft]
    rfl
  · rintro hfalse word more rfl - heq
    rw [h] at heq
    refine ⟨hfailed.trans hfalse, ?_⟩
    rw [hleft]
    exact (List.cons.inj heq).2

/-- What stands at the same place, and has failed where the other has. -/
theorem behind {s₂ : ExpressionState} (h : e.Reads language kinds s s₁) (hs₂ : e.Stands s₂)
    (hfailed : s₂.failed = s₁.failed) (hleft : e.left s₂ = e.left s₁) : e.Reads language kinds s s₂ := by
  refine ⟨hs₂, ?_, ?_, ?_⟩
  · rw [hfailed]
    exact h.failed
  · rw [hfailed, hleft]
    exact h.taken
  · rw [hfailed, hleft]
    exact h.complete

/-- A token that must be there. -/
theorem consume (hended : e.Ended) (hs : e.Stands s) (kind : TokenKind) (hkind : kind ≠ .endOfFile)
    (message : String) : e.Reads (fun word => word = [kind]) [] s (e.consume s kind message) := by
  unfold ExpressionInput.consume
  cases hcheck : e.check s kind with
  | true =>
    obtain ⟨rest, hleft⟩ := List.head?_eq_some_iff.mp ((check_iff_head hended hs hkind).mp hcheck)
    exact token hended hs hleft
  | false =>
    refine error hs message ?_
    rintro word more rfl - heq
    have htrue := (check_iff_head hended hs hkind).mpr (by rw [heq]; rfl)
    rw [hcheck] at htrue
    cases htrue

end Reads

/-! ## The functions of the program -/

section

variable {e : ExpressionInput} {m : Nat}

/-- There is fuel for every token that is left. -/
theorem left_length (e : ExpressionInput) (s : ExpressionState) : (e.left s).length < e.tokens.length + 1 := by
  have hword : e.word.length ≤ e.tokens.length := by
    have hle := (List.takeWhile_prefix (l := e.tokens.map Token.kind) (· != TokenKind.endOfFile)).length_le
    rwa [List.length_map] at hle
  have hleft : (e.left s).length ≤ e.word.length := by
    rw [left, List.length_drop]
    omega
  omega

/-- The operators and operands behind the first operand of a level. -/
theorem reads_whileMatch (hended : e.Ended) {level : Level} {operand : ExpressionState → Option ExpressionState}
    (hoperand : e.Recognizes (Derives level.operand) level.operand.continuing m operand) :
    ∀ n s, e.Stands s → (e.left s).length < n → (e.left s).length < m →
      ∃ s', e.whileMatch level.operators operand n s = some s' ∧
        e.Reads (Derives (.more level)) (Nonterminal.level level).continuing s s' := by
  have hend : TokenKind.endOfFile ∉ level.operators := by cases level <;> decide
  intro n
  induction n with
  | zero => exact fun s _ hn => absurd hn (Nat.not_lt_zero _)
  | succ n ih =>
    intro s hs hn hm
    rw [whileMatch]
    rcases matchAny_cases hended hs _ hend with ⟨kind, rest, hleft, hkind, hmatch⟩ | ⟨hmatch, hstops⟩
    · rw [hmatch]
      obtain ⟨-, hstands, hrest⟩ := advance_spec hended hs hleft
      have hlength := congrArg List.length hleft
      rw [List.length_cons] at hlength
      obtain ⟨s₁, hs₁, hread⟩ := hoperand _ hstands (by rw [hrest]; omega)
      have hle := hread.length_le
      rw [hrest] at hle
      obtain ⟨s', hs', hloop⟩ := ih s₁ hread.stands (by omega) (by omega)
      refine ⟨s', ?_, ?_⟩
      · show (operand (e.advance s)).bind _ = _
        rw [hs₁]
        exact hs'
      · have htail : e.Reads (fun word => ∃ next rest, word = next ++ rest ∧ Derives level.operand next ∧
            Derives (.more level) rest) (Nonterminal.level level).continuing (e.advance s) s' := by
          refine hread.seq hloop (fun next rest hnext hmore => ⟨next, rest, rfl, hnext, hmore⟩) ?_
          rintro - word more ⟨next, rest, rfl, hnext, hmore⟩ hstops -
          exact ⟨next, rest, rfl, hnext, stops_operand hmore hstops, hmore, hstops⟩
        refine (Reads.token hended hs hleft).seq htail ?_ ?_
        · rintro _ _ rfl ⟨next, rest, rfl, hnext, hmore⟩
          show Derives _ (kind :: (next ++ rest))
          exact .operator hkind hnext hmore
        · rintro - word more hword hstops heq
          cases hword with
          | noOperator =>
            rw [hleft, List.nil_append] at heq
            have hnot := hstops kind (by rw [← heq]; rfl)
            exact absurd (level.operators_continuing kind hkind).1 hnot
          | @operator _ operator next rest hoperator hnext hmore =>
            rw [hleft] at heq
            obtain ⟨rfl, -⟩ := List.cons.inj heq
            exact ⟨[kind], next ++ rest, rfl, rfl, fun _ _ => List.not_mem_nil, ⟨next, rest, rfl, hnext, hmore⟩, hstops⟩
    · rw [hmatch]
      refine ⟨s, rfl, Reads.stay hs (.noOperator level) ?_⟩
      intro word more hword _ heq
      cases hword with
      | noOperator => rfl
      | operator hoperator hnext hmore =>
        rw [heq] at hstops
        exact absurd hoperator (hstops _ rfl)

/-- `operand (operator operand)*`. -/
theorem recognizes_level (hended : e.Ended) (level : Level) {operand : ExpressionState → Option ExpressionState}
    (hoperand : e.Recognizes (Derives level.operand) level.operand.continuing m operand) :
    e.Recognizes (Derives (.level level)) (Nonterminal.level level).continuing m
      (e.level level.operators operand) := by
  intro s hs hm
  obtain ⟨s₁, hs₁, hread⟩ := hoperand s hs hm
  obtain ⟨s', hs', hloop⟩ := reads_whileMatch hended hoperand (e.tokens.length + 1) s₁ hread.stands
    (e.left_length s₁) (Nat.lt_of_le_of_lt hread.length_le hm)
  refine ⟨s', ?_, ?_⟩
  · rw [ExpressionInput.level, hs₁]
    exact hs'
  · refine hread.seq hloop (fun first rest hfirst hmore => .operand hfirst hmore) ?_
    rintro - word more hword hstops -
    cases hword with
    | @operand _ first rest hfirst hmore =>
      exact ⟨first, rest, rfl, hfirst, stops_operand hmore hstops, hmore, hstops⟩

/-- `parse_unary`. -/
theorem reads_parseUnary (hended : e.Ended) {primary : ExpressionState → Option ExpressionState}
    (hprimary : e.Recognizes (Derives .primary) behindNames m primary) :
    ∀ n s, e.Stands s → (e.left s).length < n → (e.left s).length < m →
      ∃ s', e.parseUnary primary n s = some s' ∧ e.Reads (Derives .unary) behindNames s s' := by
  intro n
  induction n with
  | zero => exact fun s _ hn => absurd hn (Nat.not_lt_zero _)
  | succ n ih =>
    intro s hs hn hm
    rw [parseUnary]
    rcases matchAny_cases hended hs [.bang, .minus] (by decide) with
      ⟨kind, rest, hleft, hkind, hmatch⟩ | ⟨hmatch, hstops⟩
    · rw [hmatch]
      obtain ⟨-, hstands, hrest⟩ := advance_spec hended hs hleft
      have hlength := congrArg List.length hleft
      rw [List.length_cons] at hlength
      obtain ⟨s', hs', hread⟩ := ih (e.advance s) hstands (by rw [hrest]; omega) (by rw [hrest]; omega)
      refine ⟨s', hs', (Reads.token hended hs hleft).seq hread ?_ ?_⟩
      · rintro _ word rfl hword
        exact .sign hkind hword
      · rintro - word more hword hstops heq
        rw [hleft] at heq
        cases hword with
        | @sign sign word hsign hword =>
          obtain ⟨rfl, -⟩ := List.cons.inj heq
          exact ⟨[kind], word, rfl, rfl, fun _ _ => List.not_mem_nil, hword, hstops⟩
        | unsigned hword =>
          obtain ⟨first, more', rfl, hfirst⟩ := hword.primary_begins
          obtain rfl : kind = first := (List.cons.inj heq).1
          have hsign : kind ∈ [TokenKind.bang, .minus, .rightParen, .rightBracket] :=
            List.mem_append_left [TokenKind.rightParen, .rightBracket] hkind
          exact absurd hfirst (not_beginsPrimary hsign)
    · rw [hmatch]
      obtain ⟨s', hs', hread⟩ := hprimary s hs hm
      refine ⟨s', hs', hread.refine (fun word hword => .unsigned hword) ?_⟩
      rintro - word more hword hmore heq
      cases hword with
      | @sign sign word hsign hword =>
        rw [heq] at hstops
        exact absurd hsign (hstops _ rfl)
      | unsigned hword => exact ⟨hword, hmore⟩

/-! ### Names and selectors -/

/-- A name, and what stands behind it. -/
def Named (nonterminal : Nonterminal) (word : List TokenKind) : Prop :=
  ∃ kind rest, word = kind :: rest ∧ isExpressionIdentifierToken kind = true ∧ Derives nonterminal rest

/-- Behind a dot stands a name, or there is an error. -/
theorem reads_named (hended : e.Ended) {s : ExpressionState} (hs : e.Stands s) (nonterminal : Nonterminal)
    (kinds : List TokenKind) (message : String) :
    (∃ kind rest, e.left s = kind :: rest ∧ isExpressionIdentifierToken (e.peek s).kind = true ∧
        ∀ s', e.Reads (Derives nonterminal) kinds (e.advance s) s' → e.Reads (Named nonterminal) kinds s s') ∨
      (isExpressionIdentifierToken (e.peek s).kind = false ∧
        e.Reads (Named nonterminal) kinds s (e.syntaxError s message)) := by
  rw [peek_kind hended hs]
  cases hleft : e.left s with
  | nil =>
    refine .inr ⟨rfl, Reads.error hs message ?_⟩
    rintro _ more ⟨kind, rest, rfl, -, -⟩ - heq
    rw [hleft] at heq
    cases heq
  | cons kind rest =>
    cases hkind : isExpressionIdentifierToken kind with
    | true =>
      refine .inl ⟨kind, rest, rfl, hkind, fun s' hread => (Reads.token hended hs hleft).seq hread ?_ ?_⟩
      · rintro _ word rfl hword
        exact ⟨kind, word, rfl, hkind, hword⟩
      · rintro - _ more ⟨kind', word, rfl, -, hword⟩ hstops heq
        rw [hleft] at heq
        obtain rfl : kind = kind' := (List.cons.inj heq).1
        exact ⟨[kind], word, rfl, rfl, fun _ _ => List.not_mem_nil, hword, hstops⟩
    | false =>
      refine .inr ⟨hkind, Reads.error hs message ?_⟩
      rintro _ more ⟨kind', word, rfl, hkind', -⟩ - heq
      rw [hleft] at heq
      obtain rfl : kind = kind' := (List.cons.inj heq).1
      rw [hkind] at hkind'
      cases hkind'

/-- A dot with a name behind it. -/
theorem reads_dot (hended : e.Ended) {nonterminal : Nonterminal} {kinds rest : List TokenKind}
    {s s' : ExpressionState} (hs : e.Stands s) (hleft : e.left s = .dot :: rest) (hdot : .dot ∈ kinds)
    (hcons : ∀ word, Named nonterminal word → Derives nonterminal (.dot :: word))
    (hcases : ∀ word, Derives nonterminal word → word.head? = some .dot →
      ∃ rest, word = .dot :: rest ∧ Named nonterminal rest)
    (h : e.Reads (Named nonterminal) kinds (e.advance s) s') : e.Reads (Derives nonterminal) kinds s s' := by
  refine (Reads.token hended hs hleft).seq h ?_ ?_
  · rintro _ word rfl hword
    exact hcons word hword
  · rintro - word more hword hstops heq
    rw [hleft] at heq
    have hhead : word.head? = some .dot := by
      cases word with
      | nil => exact absurd hdot (hstops .dot (by rw [← List.nil_append more, ← heq]; rfl))
      | cons kind more' =>
        rw [← (List.cons.inj heq).1]
        rfl
    obtain ⟨rest', rfl, hnamed⟩ := hcases word hword hhead
    exact ⟨[.dot], rest', rfl, rfl, fun _ _ => List.not_mem_nil, hnamed, hstops⟩

/-- The loop of `parse_qualified_name`. -/
theorem reads_parseQualifiedRest (hended : e.Ended) :
    ∀ n name s, e.Stands s → (e.left s).length < n → ∃ name' s', e.parseQualifiedRest n name s = some (name', s') ∧
      e.Reads (Derives .moreNames) [.dot] s s' := by
  intro n
  induction n with
  | zero => exact fun _ s _ hn => absurd hn (Nat.not_lt_zero _)
  | succ n ih =>
    intro name s hs hn
    rw [parseQualifiedRest]
    rcases matchAny_cases hended hs [.dot] (by decide) with ⟨kind, rest, hleft, hkind, hmatch⟩ | ⟨hmatch, hstops⟩
    · obtain rfl := List.mem_singleton.mp hkind
      obtain ⟨-, hstands, hrest⟩ := advance_spec hended hs hleft
      have hlength := congrArg List.length hleft
      rw [List.length_cons] at hlength
      rw [hmatch]
      have hdotted : ∀ {s'}, e.Reads (Named .moreNames) [.dot] (e.advance s) s' →
          e.Reads (Derives .moreNames) [.dot] s s' := by
        refine reads_dot hended hs hleft (by decide) ?_ ?_
        · rintro _ ⟨kind, rest, rfl, hkind, hrest⟩
          exact .dotName hkind hrest
        · intro word hword hhead
          cases hword with
          | noName => cases hhead
          | dotName hkind hrest => exact ⟨_, rfl, _, _, rfl, hkind, hrest⟩
      rcases reads_named hended hstands .moreNames [.dot] "expected name after '.'" with
        ⟨kind, rest', hleft', hpeek, hnamed⟩ | ⟨hpeek, herror⟩
      · obtain ⟨-, hstands', hrest'⟩ := advance_spec hended hstands hleft'
        have hlength' := congrArg List.length hleft'
        rw [List.length_cons, hrest] at hlength'
        obtain ⟨name', s', hs', hread⟩ := ih (name ++ ascii "." ++ (e.previous (e.advance (e.advance s))).lexeme)
          (e.advance (e.advance s)) hstands' (by rw [hrest']; omega)
        refine ⟨name', s', ?_, hdotted (hnamed s' hread)⟩
        show (if isExpressionIdentifierToken (e.peek (e.advance s)).kind then _ else _) = _
        rw [if_pos hpeek]
        exact hs'
      · refine ⟨name, _, ?_, hdotted herror⟩
        show (if isExpressionIdentifierToken (e.peek (e.advance s)).kind then _ else _) = _
        rw [hpeek]
        rfl
    · rw [hmatch]
      refine ⟨name, s, rfl, Reads.stay hs .noName ?_⟩
      intro word more hword _ heq
      cases hword with
      | noName => rfl
      | dotName hkind hrest =>
        rw [heq] at hstops
        exact absurd (by decide) (hstops .dot rfl)

/-! ### What is closed -/

/-- A word of a nonterminal, with its closing token. -/
def Closed (nonterminal : Nonterminal) (closing : TokenKind) (word : List TokenKind) : Prop :=
  ∃ inner, word = inner ++ [closing] ∧ Derives nonterminal inner

theorem reads_closed (hended : e.Ended) {nonterminal : Nonterminal} {s s₁ : ExpressionState}
    (h : e.Reads (Derives nonterminal) nonterminal.continuing s s₁) (closing : TokenKind) (hclosing : closing ∉ nonterminal.continuing)
    (hend : closing ≠ .endOfFile) (message : String) :
    e.Reads (Closed nonterminal closing) [] s (e.consume s₁ closing message) := by
  refine h.seq (Reads.consume hended h.stands closing hend message) ?_ ?_
  · rintro inner _ hinner rfl
    exact ⟨inner, rfl, hinner⟩
  · rintro - _ more ⟨inner, rfl, hinner⟩ - -
    exact ⟨inner, [closing], rfl, hinner, stops_cons.mpr hclosing, rfl, fun _ _ => List.not_mem_nil⟩

/-- The loop of `parse_selectors`. -/
theorem reads_parseSelectors (hended : e.Ended) {expression : ExpressionState → Option ExpressionState}
    (hexpression : e.Recognizes (Derives (.level .logicalOr)) (Nonterminal.level .logicalOr).continuing m expression) :
    ∀ n s, e.Stands s → (e.left s).length < n → (e.left s).length < m + 1 →
      ∃ s', e.parseSelectors expression n s = some s' ∧
        e.Reads (Derives .selectors) Nonterminal.selectors.continuing s s' := by
  intro n
  induction n with
  | zero => exact fun s _ hn => absurd hn (Nat.not_lt_zero _)
  | succ n ih =>
    intro s hs hn hm
    rw [parseSelectors]
    rcases matchAny_cases hended hs [.dot] (by decide) with ⟨kind, rest, hleft, hkind, hmatch⟩ | ⟨hmatch, hnodot⟩
    · obtain rfl := List.mem_singleton.mp hkind
      obtain ⟨-, hstands, hrest⟩ := advance_spec hended hs hleft
      have hlength := congrArg List.length hleft
      rw [List.length_cons] at hlength
      rw [hmatch]
      have hdotted : ∀ {s'}, e.Reads (Named .selectors) Nonterminal.selectors.continuing (e.advance s) s' →
          e.Reads (Derives .selectors) Nonterminal.selectors.continuing s s' := by
        refine reads_dot hended hs hleft (by decide) ?_ ?_
        · rintro _ ⟨kind, rest, rfl, hkind, hrest⟩
          exact .selectorName hkind hrest
        · intro word hword hhead
          cases hword with
          | noSelector => cases hhead
          | selectorName hkind hrest => exact ⟨_, rfl, _, _, rfl, hkind, hrest⟩
          | selectorExpression hexpr hrest => cases hhead
      rcases reads_named hended hstands .selectors Nonterminal.selectors.continuing
          "expected selector name after '.'" with ⟨kind, rest', hleft', hpeek, hnamed⟩ | ⟨hpeek, herror⟩
      · obtain ⟨-, hstands', hrest'⟩ := advance_spec hended hstands hleft'
        have hlength' := congrArg List.length hleft'
        rw [List.length_cons, hrest] at hlength'
        obtain ⟨s', hs', hread⟩ := ih _ hstands' (by rw [hrest']; omega) (by rw [hrest']; omega)
        refine ⟨s', ?_, hdotted (hnamed s' hread)⟩
        show (if isExpressionIdentifierToken (e.peek (e.advance s)).kind then _ else _) = _
        rw [if_pos hpeek]
        exact hs'
      · refine ⟨_, ?_, hdotted herror⟩
        show (if isExpressionIdentifierToken (e.peek (e.advance s)).kind then _ else _) = _
        rw [hpeek]
        rfl
    · rw [hmatch]
      rcases matchAny_cases hended hs [.leftBracket] (by decide) with
        ⟨kind, rest, hleft, hkind, hmatch'⟩ | ⟨hmatch', hnobracket⟩
      · obtain rfl := List.mem_singleton.mp hkind
        obtain ⟨-, hstands, hrest⟩ := advance_spec hended hs hleft
        have hlength := congrArg List.length hleft
        rw [List.length_cons] at hlength
        rw [hmatch']
        obtain ⟨s₁, hs₁, hread⟩ := hexpression _ hstands (by rw [hrest]; omega)
        have hle := hread.length_le
        rw [hrest] at hle
        have hclose := Reads.consume hended hread.stands .rightBracket (by decide)
          "expected ']' after selector expression"
        have hle' := hclose.length_le
        obtain ⟨s', hs', hloop⟩ := ih _ hclose.stands (by omega) (by omega)
        refine ⟨s', ?_, ?_⟩
        · show (expression (e.advance s)).bind _ = _
          rw [hs₁]
          exact hs'
        · have hclosed := reads_closed hended hread .rightBracket (by decide) (by decide)
            "expected ']' after selector expression"
          have htail : e.Reads (fun word => ∃ inner rest, word = inner ++ .rightBracket :: rest ∧
              Derives (.level .logicalOr) inner ∧ Derives .selectors rest)
              Nonterminal.selectors.continuing (e.advance s) s' := by
            refine hclosed.seq hloop ?_ ?_
            · rintro _ rest ⟨inner, rfl, hinner⟩ hselectors
              exact ⟨inner, rest, List.append_assoc _ _ _, hinner, hselectors⟩
            · rintro - _ more ⟨inner, rest, rfl, hinner, hselectors⟩ hstops -
              exact ⟨inner ++ [.rightBracket], rest, List.append_cons _ _ _, ⟨inner, rfl, hinner⟩,
                fun _ _ => List.not_mem_nil, hselectors, hstops⟩
          refine (Reads.token hended hs hleft).seq htail ?_ ?_
          · rintro _ _ rfl ⟨inner, rest, rfl, hinner, hselectors⟩
            show Derives _ (.leftBracket :: (inner ++ .rightBracket :: rest))
            exact .selectorExpression hinner hselectors
          · rintro - word more hword hstops heq
            rw [hleft] at heq
            cases hword with
            | noSelector =>
              rw [List.nil_append] at heq
              exact absurd (by decide) (hstops .leftBracket (by rw [← heq]; rfl))
            | selectorName hkind hrest => cases (List.cons.inj heq).1
            | @selectorExpression inner rest' hinner hselectors =>
              exact ⟨[.leftBracket], _, rfl, rfl, fun _ _ => List.not_mem_nil,
                ⟨inner, rest', rfl, hinner, hselectors⟩, hstops⟩
      · rw [hmatch']
        refine ⟨s, rfl, Reads.stay hs .noSelector ?_⟩
        intro word more hword _ heq
        cases hword with
        | noSelector => rfl
        | selectorName hkind hrest =>
          rw [heq] at hnodot
          exact absurd (by decide) (hnodot .dot rfl)
        | selectorExpression hexpr hrest =>
          rw [heq] at hnobracket
          exact absurd (by decide) (hnobracket .leftBracket rfl)

/-- The arguments of a call, and the items of a list. -/
theorem recognizes_parseArguments (hended : e.Ended) {expression : ExpressionState → Option ExpressionState}
    (hexpression : e.Recognizes (Derives (.level .logicalOr)) (Nonterminal.level .logicalOr).continuing m expression)
    (closing : TokenKind) (hclosing : closing ∈ [TokenKind.rightParen, .rightBracket]) (message : String) :
    e.Recognizes (Closed .arguments closing) [] m (e.parseArguments expression closing message) := by
  have hend : closing ≠ .endOfFile := by
    have hall : ∀ kind ∈ [TokenKind.rightParen, .rightBracket], kind ≠ .endOfFile := by decide
    exact hall closing hclosing
  have hstop : closing ∉ (Nonterminal.level .argumentList).continuing := by
    have hall : ∀ kind ∈ [TokenKind.rightParen, .rightBracket],
        kind ∉ (Nonterminal.level .argumentList).continuing := by decide
    exact hall closing hclosing
  intro s hs hm
  unfold parseArguments
  cases hcheck : e.check s closing with
  | true =>
    refine ⟨_, rfl, (Reads.consume hended hs closing hend message).refine ?_ ?_⟩
    · rintro _ rfl
      exact ⟨[], rfl, .noArguments⟩
    · rintro - _ more ⟨inner, rfl, hinner⟩ - heq
      refine ⟨?_, fun _ _ => List.not_mem_nil⟩
      cases hinner with
      | noArguments => rfl
      | someArguments hinner =>
        obtain ⟨kind, rest, rfl, hkind⟩ := hinner.begins rfl
        have hhead := (check_iff_head hended hs hend).mp hcheck
        rw [heq] at hhead
        obtain rfl : kind = closing := Option.some.inj hhead
        have hbegins : kind ∈ [TokenKind.bang, .minus, .rightParen, .rightBracket] :=
          List.mem_append_right [TokenKind.bang, .minus] hclosing
        have hsign : kind ∉ [TokenKind.bang, .minus] := by
          have hall : ∀ kind ∈ [TokenKind.rightParen, .rightBracket], kind ∉ [TokenKind.bang, .minus] := by decide
          exact hall kind hclosing
        exact absurd (hkind.resolve_left hsign) (not_beginsPrimary hbegins)
  | false =>
    obtain ⟨s₁, hs₁, hread⟩ := recognizes_level hended .argumentList hexpression s hs hm
    refine ⟨e.consume s₁ closing message, ?_, (reads_closed hended hread closing hstop hend message).refine ?_ ?_⟩
    · show (e.level [.comma] expression s).map _ = _
      rw [show e.level [.comma] expression s = some s₁ from hs₁]
      rfl
    · rintro _ ⟨inner, rfl, hinner⟩
      exact ⟨inner, rfl, .someArguments hinner⟩
    · rintro - _ more ⟨inner, rfl, hinner⟩ - heq
      refine ⟨?_, fun _ _ => List.not_mem_nil⟩
      cases hinner with
      | noArguments =>
        have htrue := (check_iff_head hended hs hend).mpr (by rw [heq]; rfl)
        rw [hcheck] at htrue
        cases htrue
      | someArguments hinner => exact ⟨inner, rfl, hinner⟩

/-! ### Primaries -/

/-- `parse_qualified_name`, where a name is next. -/
theorem reads_parseQualifiedName (hended : e.Ended) {s : ExpressionState} (hs : e.Stands s) {kind : TokenKind}
    {rest : List TokenKind} (hleft : e.left s = kind :: rest) (hkind : isExpressionIdentifierToken kind = true) :
    ∃ name s', e.parseQualifiedName s = some (name, s') ∧ e.Reads (Derives .qualifiedName) [.dot] s s' := by
  obtain ⟨-, hstands, -⟩ := advance_spec hended hs hleft
  obtain ⟨name, s', hs', hread⟩ := reads_parseQualifiedRest hended (e.tokens.length + 1)
    (e.previous (e.advance s)).lexeme (e.advance s) hstands (e.left_length _)
  refine ⟨name, s', hs', (Reads.token hended hs hleft).seq hread ?_ ?_⟩
  · rintro _ rest rfl hrest
    exact .name hkind hrest
  · rintro - word more hword hstops heq
    cases hword with
    | @name kind' rest' hkind' hrest =>
      rw [hleft] at heq
      obtain rfl : kind = kind' := (List.cons.inj heq).1
      exact ⟨[kind], rest', rfl, rfl, fun _ _ => List.not_mem_nil, hrest, hstops⟩

/-- Which rule a primary comes from is told by its first token. -/
theorem primary_of_head {kind : TokenKind} {word : List TokenKind} (h : Derives .primary word)
    (hhead : word.head? = some kind) :
    (kind ∈ expressionLiterals ∧ word = [kind]) ∨
      (kind = .leftParen ∧ ∃ rest, word = .leftParen :: rest ∧ Closed (.level .logicalOr) .rightParen rest) ∨
      (kind = .leftBracket ∧ ∃ rest, word = .leftBracket :: rest ∧ Closed .arguments .rightBracket rest) ∨
      (isExpressionIdentifierToken kind = true ∧ ∃ name rest, word = name ++ rest ∧
        Derives .qualifiedName name ∧
        (Derives .selectors rest ∨ ∃ inner rest', rest = .leftParen :: (inner ++ .rightParen :: rest') ∧
          Derives .arguments inner ∧ Derives .selectors rest')) := by
  cases h with
  | literal hkind =>
    obtain rfl := Option.some.inj hhead
    exact .inl ⟨hkind, rfl⟩
  | parenthesised h =>
    obtain rfl := Option.some.inj hhead
    exact .inr (.inl ⟨rfl, _, rfl, _, rfl, h⟩)
  | list h =>
    obtain rfl := Option.some.inj hhead
    exact .inr (.inr (.inl ⟨rfl, _, rfl, _, rfl, h⟩))
  | assignable h h' =>
    cases h with
    | name hkind h =>
      obtain rfl := Option.some.inj hhead
      exact .inr (.inr (.inr ⟨hkind, _, _, rfl, .name hkind h, .inl h'⟩))
  | call h hword h' =>
    cases h with
    | name hkind h =>
      obtain rfl := Option.some.inj hhead
      exact .inr (.inr (.inr ⟨hkind, _, _, rfl, .name hkind h, .inr ⟨_, _, rfl, hword, h'⟩⟩))

/-- A primary that is there begins with what is next. -/
theorem head_of_left {s : ExpressionState} {kind : TokenKind} {word rest more : List TokenKind}
    (h : Derives .primary word) (hleft : e.left s = kind :: rest) (heq : e.left s = word ++ more) :
    word.head? = some kind := by
  obtain ⟨first, rest', rfl, -⟩ := h.primary_begins
  rw [hleft] at heq
  obtain rfl : kind = first := (List.cons.inj heq).1
  rfl

theorem not_name_of_literal {kind : TokenKind} (h : kind ∈ expressionLiterals) :
    isExpressionIdentifierToken kind = false := by
  have hall : ∀ kind ∈ expressionLiterals, isExpressionIdentifierToken kind = false := by decide
  exact hall kind h

/-- Where a name is next there is an `assignable` or a `function_call`. -/
theorem primary_of_name {s : ExpressionState} {kind : TokenKind} {word rest more : List TokenKind}
    (h : Derives .primary word) (hleft : e.left s = kind :: rest) (hkind : isExpressionIdentifierToken kind = true)
    (heq : e.left s = word ++ more) : ∃ name rest, word = name ++ rest ∧ Derives .qualifiedName name ∧
      (Derives .selectors rest ∨ ∃ inner rest', rest = .leftParen :: (inner ++ .rightParen :: rest') ∧
        Derives .arguments inner ∧ Derives .selectors rest') := by
  rcases primary_of_head h (head_of_left h hleft heq) with ⟨hliteral, -⟩ | ⟨rfl, -⟩ | ⟨rfl, -⟩ | ⟨-, hword⟩
  · rw [not_name_of_literal hliteral] at hkind
    cases hkind
  · cases hkind
  · cases hkind
  · exact hword

/-- A name, behind which stands no `(`: the names and selectors that are read are those of the primary. -/
theorem reads_assignable {s s₁ s' : ExpressionState} (hname : e.Reads (Derives .qualifiedName) [.dot] s s₁)
    (hselectors : e.Reads (Derives .selectors) Nonterminal.selectors.continuing s₁ s') {kind : TokenKind}
    {rest : List TokenKind} (hleft : e.left s = kind :: rest) (hkind : isExpressionIdentifierToken kind = true)
    (hparen : Stops [.leftParen] (e.left s₁)) : e.Reads (Derives .primary) behindNames s s' := by
  refine hname.seq hselectors (fun name rest hname hrest => .assignable hname hrest) ?_
  intro hs word more hword hstops heq
  obtain ⟨name, rest', rfl, hname', hrest⟩ := primary_of_name hword hleft hkind heq
  rcases hrest with hrest | ⟨inner, rest'', rfl, hinner, hrest⟩
  · obtain ⟨longest, rest'', heq', hlongest, hrest', hdot⟩ := assignable_longest hname' hrest
    refine ⟨longest, rest'', heq', hlongest, ?_, hrest', hstops.mono (by decide)⟩
    cases rest'' with
    | nil => exact hstops.mono (by decide)
    | cons kind' more' => exact stops_cons.mpr (stops_cons.mp hdot)
  · -- the name is read to the `(` that is not there
    rw [List.append_assoc] at heq
    obtain ⟨-, hleft'⟩ := hname.complete hs name _ hname' (stops_cons.mpr (by decide)) heq
    rw [hleft'] at hparen
    exact absurd (by decide) (hparen .leftParen rfl)

/-- A name with a `(` behind it. -/
theorem reads_call {s s₁ s₂ s₃ s' : ExpressionState}
    (hname : e.Reads (Derives .qualifiedName) [.dot] s s₁) {kind : TokenKind} {rest rest₁ : List TokenKind}
    (hleft : e.left s = kind :: rest) (hkind : isExpressionIdentifierToken kind = true)
    (hleft₁ : e.left s₁ = .leftParen :: rest₁)
    (hsame : e.Reads (fun word => word = [.leftParen]) [] s₁ s₂)
    (harguments : e.Reads (Closed .arguments .rightParen) [] s₂ s₃)
    (hselectors : e.Reads (Derives .selectors) Nonterminal.selectors.continuing s₃ s') :
    e.Reads (Derives .primary) behindNames s s' := by
  have hclosed : e.Reads (fun word => ∃ inner rest, word = inner ++ .rightParen :: rest ∧
      Derives .arguments inner ∧ Derives .selectors rest) behindNames s₂ s' := by
    refine harguments.seq hselectors ?_ ?_
    · rintro _ rest ⟨inner, rfl, hinner⟩ hrest
      exact ⟨inner, rest, (List.append_cons _ _ _).symm, hinner, hrest⟩
    · rintro - _ more ⟨inner, rest, rfl, hinner, hrest⟩ hstops -
      exact ⟨inner ++ [.rightParen], rest, List.append_cons _ _ _, ⟨inner, rfl, hinner⟩,
        fun _ _ => List.not_mem_nil, hrest, hstops.mono (by decide)⟩
  have hopened : e.Reads (fun word => ∃ inner rest, word = .leftParen :: (inner ++ .rightParen :: rest) ∧
      Derives .arguments inner ∧ Derives .selectors rest) behindNames s₁ s' := by
    refine hsame.seq hclosed ?_ ?_
    · rintro _ _ rfl ⟨inner, rest, rfl, hinner, hrest⟩
      exact ⟨inner, rest, rfl, hinner, hrest⟩
    · rintro - _ more ⟨inner, rest, rfl, hinner, hrest⟩ hstops -
      exact ⟨[.leftParen], _, rfl, rfl, fun _ _ => List.not_mem_nil, ⟨inner, rest, rfl, hinner, hrest⟩, hstops⟩
  refine hname.seq hopened ?_ ?_
  · rintro name _ hname ⟨inner, rest, rfl, hinner, hrest⟩
    exact .call hname hinner hrest
  · intro hs word more hword hstops heq
    obtain ⟨name, rest', rfl, hname', hrest⟩ := primary_of_name hword hleft hkind heq
    rcases hrest with hrest | ⟨inner, rest'', rfl, hinner, hrest⟩
    · -- the name is read to the selectors, and none of them begins with `(`
      obtain ⟨longest, rest'', heq', hlongest, hrest', hdot⟩ := assignable_longest hname' hrest
      rw [heq', List.append_assoc] at heq
      have hbehind : Stops [.dot] (rest'' ++ more) := by
        cases rest'' with
        | nil => exact hstops.mono (by decide)
        | cons kind' more' => exact stops_cons.mpr (stops_cons.mp hdot)
      obtain ⟨-, hleft'⟩ := hname.complete hs longest _ hlongest hbehind heq
      rw [hleft₁] at hleft'
      cases hrest' with
      | noSelector =>
        rw [List.nil_append] at hleft'
        exact absurd (by decide) (hstops .leftParen (by rw [← hleft']; rfl))
      | selectorName hkind' hrest' => cases (List.cons.inj hleft').1
      | selectorExpression hexpr hrest' => cases (List.cons.inj hleft').1
    · exact ⟨name, _, rfl, hname', stops_cons.mpr (by decide), ⟨inner, rest'', rfl, hinner, hrest⟩, hstops⟩

theorem recognizes_parsePrimary (hended : e.Ended) {expression : ExpressionState → Option ExpressionState}
    (hexpression : e.Recognizes (Derives (.level .logicalOr)) (Nonterminal.level .logicalOr).continuing m expression) :
    e.Recognizes (Derives .primary) behindNames (m + 1) (e.parsePrimary expression) := by
  intro s hs hm
  unfold parsePrimary
  rcases matchAny_cases hended hs expressionLiterals (by decide) with
    ⟨kind, rest, hleft, hkind, hmatch⟩ | ⟨hmatch, hliteral⟩
  · -- a literal
    rw [show e.matchAny [.stringLiteral, .integerLiteral, .decimalLiteral, .booleanLiteral, .durationLiteral] s =
      some (e.advance s) from hmatch]
    refine ⟨_, rfl, (Reads.token hended hs hleft).refine ?_ ?_⟩
    · rintro _ rfl
      exact .literal hkind
    · rintro - word more hword - heq
      refine ⟨?_, fun _ _ => List.not_mem_nil⟩
      rcases primary_of_head hword (head_of_left hword hleft heq) with ⟨-, hsame⟩ | ⟨rfl, -⟩ | ⟨rfl, -⟩ | ⟨hname, -⟩
      · exact hsame
      · exact absurd hkind (by decide)
      · exact absurd hkind (by decide)
      · rw [not_name_of_literal hkind] at hname
        cases hname
  rw [show e.matchAny [.stringLiteral, .integerLiteral, .decimalLiteral, .booleanLiteral, .durationLiteral] s =
    none from hmatch]
  rcases matchAny_cases hended hs [.leftParen] (by decide) with
    ⟨kind, rest, hleft, hkind, hmatch⟩ | ⟨hmatch, hparen⟩
  · -- an expression in parentheses
    obtain rfl := List.mem_singleton.mp hkind
    rw [hmatch]
    obtain ⟨-, hstands, hrest⟩ := advance_spec hended hs hleft
    have hlength := congrArg List.length hleft
    rw [List.length_cons] at hlength
    obtain ⟨s₁, hs₁, hread⟩ := hexpression _ hstands (by rw [hrest]; omega)
    have hclosed := reads_closed hended hread .rightParen (by decide) (by decide)
      "expected ')' after expression"
    refine ⟨_, ?_, (Reads.token hended hs hleft).seq hclosed ?_ ?_⟩
    · show (expression (e.advance s)).map _ = _
      rw [hs₁]
      rfl
    · rintro _ _ rfl ⟨inner, rfl, hinner⟩
      exact .parenthesised hinner
    · rintro - word more hword - heq
      rcases primary_of_head hword (head_of_left hword hleft heq) with
        ⟨hliteral, -⟩ | ⟨-, rest', rfl, hclosed⟩ | ⟨hne, -⟩ | ⟨hname, -⟩
      · exact absurd hliteral (by decide)
      · exact ⟨[.leftParen], rest', rfl, rfl, fun _ _ => List.not_mem_nil, hclosed, fun _ _ => List.not_mem_nil⟩
      · cases hne
      · cases hname
  rw [hmatch]
  rcases matchAny_cases hended hs [.leftBracket] (by decide) with
    ⟨kind, rest, hleft, hkind, hmatch⟩ | ⟨hmatch, hbracket⟩
  · -- a list
    obtain rfl := List.mem_singleton.mp hkind
    rw [hmatch]
    obtain ⟨-, hstands, hrest⟩ := advance_spec hended hs hleft
    have hlength := congrArg List.length hleft
    rw [List.length_cons] at hlength
    obtain ⟨s', hs', hread⟩ := recognizes_parseArguments hended hexpression .rightBracket (by decide)
      "expected ']' after list expression" _ hstands (by rw [hrest]; omega)
    refine ⟨s', hs', (Reads.token hended hs hleft).seq hread ?_ ?_⟩
    · rintro _ _ rfl ⟨inner, rfl, hinner⟩
      exact .list hinner
    · rintro - word more hword - heq
      rcases primary_of_head hword (head_of_left hword hleft heq) with
        ⟨hliteral, -⟩ | ⟨hne, -⟩ | ⟨-, rest', rfl, hclosed⟩ | ⟨hname, -⟩
      · exact absurd hliteral (by decide)
      · cases hne
      · exact ⟨[.leftBracket], rest', rfl, rfl, fun _ _ => List.not_mem_nil, hclosed, fun _ _ => List.not_mem_nil⟩
      · cases hname
  rw [hmatch]
  show ∃ s', (if isExpressionIdentifierToken (e.peek s).kind then _ else _) = some s' ∧ _
  rcases reads_named hended hs .moreNames [.dot] "expected expression" with
    ⟨kind, rest, hleft, hpeek, -⟩ | ⟨hpeek, -⟩
  · -- a name
    have hkind : isExpressionIdentifierToken kind = true := by
      rw [peek_kind hended hs, hleft] at hpeek
      exact hpeek
    rw [if_pos hpeek]
    obtain ⟨name, s₁, hs₁, hname⟩ := reads_parseQualifiedName hended hs hleft hkind
    rw [hs₁]
    have hlength₁ := hname.length_le
    rw [Option.bind_some]
    dsimp only
    rcases matchAny_cases hended hname.stands [.leftParen] (by decide) with
      ⟨kind', rest₁, hleft₁, hkind', hmatch₁⟩ | ⟨hmatch₁, hparen₁⟩
    · -- with arguments
      obtain rfl := List.mem_singleton.mp hkind'
      rw [hmatch₁]
      obtain ⟨-, hstands₁, hrest₁⟩ := advance_spec hended hname.stands hleft₁
      obtain ⟨hstands₂, hfailed₂, hleft₂⟩ := stands_validateBuiltinCall hstands₁ name
      have hopen := (Reads.token hended hname.stands hleft₁).behind hstands₂ hfailed₂ hleft₂
      have hlength₂ := congrArg List.length hleft₁
      rw [List.length_cons] at hlength₂
      obtain ⟨s₃, hs₃, harguments⟩ := recognizes_parseArguments hended hexpression .rightParen
        (by decide) "expected ')' after function arguments" _ hstands₂ (by rw [hleft₂, hrest₁]; omega)
      have hlength₃ := harguments.length_le
      rw [hleft₂, hrest₁] at hlength₃
      obtain ⟨s', hs', hselectors⟩ := reads_parseSelectors hended hexpression (e.tokens.length + 1) s₃
        harguments.stands (e.left_length s₃) (by omega)
      refine ⟨s', ?_, reads_call hname hleft hkind hleft₁ hopen harguments hselectors⟩
      show (e.parseArguments expression .rightParen _ _).bind _ = _
      rw [hs₃]
      exact hs'
    · -- without
      rw [hmatch₁]
      obtain ⟨s', hs', hselectors⟩ := reads_parseSelectors hended hexpression (e.tokens.length + 1) s₁
        hname.stands (e.left_length s₁) (by omega)
      exact ⟨s', hs', reads_assignable hname hselectors hleft hkind hparen₁⟩
  · -- nothing that a primary begins with
    rw [hpeek]
    refine ⟨_, rfl, Reads.error hs _ ?_⟩
    intro word more hword _ heq
    obtain ⟨kind, rest, rfl, hkind⟩ := hword.primary_begins
    rw [peek_kind hended hs, heq] at hpeek
    rw [heq] at hliteral hparen hbracket
    rcases hkind with hkind | hkind | hkind
    · exact hliteral kind rfl hkind
    · rcases List.mem_cons.mp hkind with rfl | hkind
      · exact hparen _ rfl (List.mem_singleton_self _)
      · exact hbracket _ rfl hkind
    · have hnot : isExpressionIdentifierToken kind = false := hpeek
      rw [hnot] at hkind
      cases hkind

/-- `parse_expression`. -/
theorem recognizes_parseExpression (hended : e.Ended) : ∀ n,
    e.Recognizes (Derives (.level .logicalOr)) (Nonterminal.level .logicalOr).continuing n (e.parseExpression n) := by
  intro n
  induction n with
  | zero => exact fun s _ hn => absurd hn (Nat.not_lt_zero _)
  | succ n ih =>
    have hunary : e.Recognizes (Derives .unary) Nonterminal.unary.continuing (n + 1)
        (e.parseUnary (e.parsePrimary (e.parseExpression n)) (e.tokens.length + 1)) :=
      fun s hs hn => reads_parseUnary hended (recognizes_parsePrimary hended ih) _ s hs (e.left_length s) hn
    have hmultiplicative := recognizes_level hended .multiplicative hunary
    have hadditive := recognizes_level hended .additive hmultiplicative
    have hcomparison := recognizes_level hended .comparison hadditive
    have hequality := recognizes_level hended .equality hcomparison
    have hlogicalAnd := recognizes_level hended .logicalAnd hequality
    exact recognizes_level hended .logicalOr hlogicalAnd

/-- **The checker accepts the expressions of the grammar**: it comes to an end, and reports a syntax error just
    if the tokens before the end are no expression. -/
theorem validate_accepts_iff (h : e.tokens.getLast?.map Token.kind = some .endOfFile) :
    ∃ s, e.validate = some s ∧ (¬ IsSyntaxError s.diagnostics ↔ Derives (.level .logicalOr) e.word) := by
  have hended := e.ended_of_last h
  have hstart : e.Stands {} := ⟨Nat.zero_le _, nofun, fun ⟨_, hmem, _⟩ => absurd hmem List.not_mem_nil⟩
  have hleft : e.left {} = e.word := List.drop_zero
  have hsettled : ∀ {s : ExpressionState}, e.Stands s → (s.failed = false ↔ Derives (.level .logicalOr) e.word) →
      (¬ IsSyntaxError s.diagnostics ↔ Derives (.level .logicalOr) e.word) := by
    intro s hs hiff
    rw [← hs.failed, Bool.not_eq_true]
    exact hiff
  unfold validate
  split
  · rename_i hempty
    rw [check_endOfFile hended hstart, hleft] at hempty
    obtain ⟨hstands, hfailed, -⟩ := stands_syntaxError hstart "expression must not be empty"
    refine ⟨_, rfl, hsettled hstands ?_⟩
    rw [hfailed, hempty]
    refine ⟨nofun, fun hderives => ?_⟩
    obtain ⟨kind, rest, hnil, -⟩ := hderives.begins rfl
    cases hnil
  · obtain ⟨s, hs, hread⟩ := recognizes_parseExpression hended (e.tokens.length + 1) {} hstart (e.left_length _)
    rw [hs]
    obtain ⟨consumed, htaken, hderives⟩ := hread.taken
    rw [hleft] at htaken
    have hcomplete : Derives (.level .logicalOr) e.word → s.failed = false ∧ e.left s = [] := by
      intro hword
      refine hread.complete rfl e.word [] hword (stops_nil _) ?_
      rw [hleft, List.append_nil]
    by_cases hmore : s.failed = false ∧ e.check s .endOfFile = false
    · obtain ⟨hstands, hfailed, -⟩ := stands_syntaxError hread.stands
        ("unexpected token '" ++ text (e.peek s).lexeme ++ "' in expression")
      refine ⟨_, by rw [Option.map_some, if_pos hmore], hsettled hstands ?_⟩
      rw [hfailed]
      refine ⟨nofun, fun hword => ?_⟩
      have hchecked := (check_endOfFile hended hread.stands).mpr (hcomplete hword).2
      rw [hmore.2] at hchecked
      cases hchecked
    · refine ⟨s, by rw [Option.map_some, if_neg hmore], hsettled hread.stands ?_⟩
      refine ⟨fun hfailed => ?_, fun hword => (hcomplete hword).1⟩
      have hchecked : e.check s .endOfFile = true := by
        rw [← Bool.not_eq_false]
        exact fun hcheck => hmore ⟨hfailed, hcheck⟩
      rw [(check_endOfFile hended hread.stands).mp hchecked, List.append_nil] at htaken
      rw [htaken]
      exact hderives hfailed

/-- `a - [b, -1].c` as the lexer has it, with its end. -/
theorem validate_accepts_iff_subtraction :
    let e : ExpressionInput := ⟨{}, ([.identifier, .minus, .identifier, .leftBracket, .minus, .integerLiteral,
      .rightBracket, .dot, .identifier, .endOfFile] : List TokenKind).map fun kind => { kind }⟩
    ∃ s, e.validate = some s ∧ (¬ IsSyntaxError s.diagnostics ↔ Derives (.level .logicalOr) e.word) :=
  validate_accepts_iff (by decide)

end

end ExpressionInput

end StateSpec.Compiler
