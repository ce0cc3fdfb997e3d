/-
  REFERENCES TO FEATURE FLAGS — what `validate_feature_flag_expression` finds in the text of an expression.

  1. **Program** — `featureFlagFunctionArguments` looks for the name of a function in the text, for a `(` behind
     it, and for the next `)`.  It knows no tokens, so the name may stand in a string, in a comment or at the end
     of a longer name, and the argument ends with the first `)`.
  2. **Specification** — `callArguments`, the arguments of the calls of the function among the tokens.
  3. **Layout** — a text with its gaps and tokens apart (`Lays`), and `PlainFor`: the name and a `(` stand only
     where the token is called, with nothing but blanks around the tokens of the argument, and no parenthesis,
     no `)` and no blank in them.
  4. **Correctness** — `featureFlags_found`: of such a text the program finds the arguments of the calls.
-/
import StateSpec.Compiler.PathParameters
import StateSpec.Compiler.Subtraction
import StateSpec.Compiler.TypeTexts

namespace StateSpec.Compiler

open ExpressionGrammar ExpressionInput

/-! ## Specification -/

/-- The lexemes up to the `)` that closes. -/
def closedArgument : Nat → List Spelling → Bytes
  | _, [] => []
  | depth, (kind, lexeme) :: rest =>
    if kind = .rightParen then
      match depth with
      | 0 => []
      | depth + 1 => lexeme ++ closedArgument depth rest
    else lexeme ++ closedArgument (if kind = .leftParen then depth + 1 else depth) rest

/-- The argument of a call of the function, if the token and what is behind it are one. -/
def callArgument (functionName : Bytes) (spelling : Spelling) : List Spelling → List Bytes
  | (.leftParen, _) :: behind => if spelling = (.identifier, functionName) then [closedArgument 0 behind] else []
  | _ => []

/-- The arguments of the calls of the function. -/
def callArguments (functionName : Bytes) : List Spelling → List Bytes
  | [] => []
  | spelling :: rest => callArgument functionName spelling rest ++ callArguments functionName rest

/-- The functions that refer to feature flags. -/
def featureFunctions : List Bytes := [ascii "feature_enabled", ascii "feature_value"]

/-- A name that `validate_feature_flag_expression` looks up. -/
def Examines (text name : Bytes) : Prop :=
  ∃ functionName ∈ featureFunctions, name ∈ featureFlagFunctionArguments functionName (text.length + 1) text

/-- A name to which a call refers. -/
def CallsWith (spellings : List Spelling) (name : Bytes) : Prop :=
  ∃ functionName ∈ featureFunctions, name ∈ callArguments functionName spellings

/-! ## Layout -/

/-- A token with the trivia in front of it. -/
structure Piece where
  gap : Bytes
  kind : TokenKind
  lexeme : Bytes

def Piece.spelling (piece : Piece) : Spelling := (piece.kind, piece.lexeme)

/-- The text of tokens, with the trivia behind the last one. -/
def laidText : List Piece → Bytes → Bytes
  | [], ending => ending
  | piece :: rest, ending => piece.gap ++ (piece.lexeme ++ laidText rest ending)

/-- The pieces are those of their text. -/
inductive Lays (ending : Bytes) : List Piece → Prop
  | done {how} (htrivia : Trivia ending how) (hhow : how ≠ .inBlock) : Lays ending []
  | token {gap kind lexeme rest} (htrivia : Trivia gap .closed) (hlexeme : Lexeme kind lexeme)
      (happart : goesOn kind (laidText rest ending) = false) (hrest : Lays ending rest) :
      Lays ending (⟨gap, kind, lexeme⟩ :: rest)

/-- The name of the function stands here, blanks and a `(`, and somewhere behind a `)`. -/
def HeadAt (functionName text : Bytes) : Prop :=
  ∃ blanks rest, (∀ ch ∈ blanks, isSpace ch = true) ∧ byte ')' ∈ rest ∧
    text = functionName ++ (blanks ++ byte '(' :: rest)

/-- It begins nowhere in the first part of a text. -/
def NoHead (functionName part behind : Bytes) : Prop :=
  ∀ front back, part = front ++ back → back ≠ [] → ¬ HeadAt functionName (back ++ behind)

/-- An argument whose tokens the text shows: up to the first `)` there are blanks only between them, no
    parenthesis among them, and no blank and no `)` in them. -/
inductive PlainArgument : List Piece → Prop
  | close {gap lexeme rest} (hgap : ∀ ch ∈ gap, isSpace ch = true) :
      PlainArgument (⟨gap, .rightParen, lexeme⟩ :: rest)
  | next {gap kind lexeme rest} (hgap : ∀ ch ∈ gap, isSpace ch = true) (hopen : kind ≠ .leftParen)
      (hclose : kind ≠ .rightParen) (hlexeme : ∀ ch ∈ lexeme, ch ≠ byte ')' ∧ isSpace ch = false)
      (h : PlainArgument rest) : PlainArgument (⟨gap, kind, lexeme⟩ :: rest)

/-- The tokens are a call of the function. -/
def IsCall (functionName : Bytes) (piece : Piece) : List Piece → Prop
  | next :: _ => piece.spelling = (.identifier, functionName) ∧ next.kind = .leftParen
  | [] => False

/-- The calls of the function are plain, and its name with a `(` stands nowhere else. -/
inductive PlainFor (functionName ending : Bytes) : List Piece → Prop
  | done (h : NoHead functionName ending []) : PlainFor functionName ending []
  | call {piece next rest} (hcall : IsCall functionName piece (next :: rest))
      (hfront : NoHead functionName piece.gap (piece.lexeme ++ laidText (next :: rest) ending))
      (hgap : ∀ ch ∈ next.gap, isSpace ch = true) (hargument : PlainArgument rest)
      (h : PlainFor functionName ending (next :: rest)) : PlainFor functionName ending (piece :: next :: rest)
  | other {piece rest} (hcall : ¬ IsCall functionName piece rest)
      (hfront : NoHead functionName (piece.gap ++ piece.lexeme) (laidText rest ending))
      (h : PlainFor functionName ending rest) : PlainFor functionName ending (piece :: rest)

/-- The text has these tokens, and the references to feature flags are plain in it. -/
def PlainReferences (text : Bytes) (spellings : List Spelling) : Prop :=
  ∃ pieces ending, Lays ending pieces ∧ laidText pieces ending = text ∧ pieces.map Piece.spelling = spellings ∧
    ∀ functionName ∈ featureFunctions, PlainFor functionName ending pieces

/-- Every text that the lexer has tokens of is laid out. -/
theorem exists_lays {text : Bytes} {spellings : List Spelling} (h : Renders spellings text) :
    ∃ pieces ending, Lays ending pieces ∧ laidText pieces ending = text ∧
      pieces.map Piece.spelling = spellings := by
  induction h with
  | done htrivia hending => exact ⟨[], _, .done htrivia hending, rfl, rfl⟩
  | @token gap kind lexeme rest spellings htrivia hlexeme happart _ ih =>
    obtain ⟨pieces, ending, hlays, rfl, rfl⟩ := ih
    exact ⟨⟨gap, kind, lexeme⟩ :: pieces, ending, .token htrivia hlexeme happart hlays, rfl, rfl⟩

theorem Lays.renders {ending : Bytes} {pieces : List Piece} (h : Lays ending pieces) :
    Renders (pieces.map Piece.spelling) (laidText pieces ending) := by
  induction h with
  | done htrivia hhow => exact .done htrivia hhow
  | token htrivia hlexeme happart _ ih => exact .token htrivia hlexeme happart ih

/-! ## What the program finds -/

/-- The functions have names that do not overlap with themselves and have no blanks. -/
structure PlainName (functionName : Bytes) : Prop where
  name : ∃ first more, functionName = first :: more ∧ first ∉ more ∧ isSpace first = false

theorem plainName_of_mem {functionName : Bytes} (h : functionName ∈ featureFunctions) :
    PlainName functionName := by
  simp only [featureFunctions, List.mem_cons, List.not_mem_nil, or_false] at h
  rcases h with rfl | rfl
  · exact ⟨⟨byte 'f', ascii "eature_enabled", rfl, by decide, by decide⟩⟩
  · exact ⟨⟨byte 'f', ascii "eature_value", rfl, by decide, by decide⟩⟩

/-- What the program finds in a text. -/
def found (functionName text : Bytes) : List Bytes :=
  featureFlagFunctionArguments functionName (text.length + 1) text

section

variable {functionName : Bytes}

/-- More fuel than bytes is enough. -/
theorem arguments_fuel (hplain : PlainName functionName) {n m : Nat} {text : Bytes} (hn : text.length < n)
    (hm : text.length < m) :
    featureFlagFunctionArguments functionName n text = featureFlagFunctionArguments functionName m text := by
  induction n generalizing m text with
  | zero => exact absurd hn (Nat.not_lt_zero _)
  | succ n ih =>
    cases m with
    | zero => exact absurd hm (Nat.not_lt_zero _)
    | succ m =>
      cases text with
      | nil => rfl
      | cons ch rest =>
        rw [List.length_cons] at hn hm
        rw [featureFlagFunctionArguments, featureFlagFunctionArguments]
        cases hstrip : Bytes.stripPrefix functionName (ch :: rest) with
        | none => exact ih (by omega) (by omega)
        | some behind =>
          -- the name is not empty, so what is behind it is shorter
          have hlength : behind.length ≤ rest.length := by
            obtain ⟨first, more, hname, -⟩ := hplain.name
            have htext := congrArg List.length (Bytes.stripPrefix_iff.mp hstrip)
            rw [hname, List.length_append, List.length_cons, List.length_cons] at htext
            omega
          have hdrop : (behind.dropWhile isSpace).length ≤ behind.length := (List.dropWhile_suffix _).length_le
          simp only
          split
          · rfl
          · rename_i next after hafter
            rw [hafter, List.length_cons] at hdrop
            split
            · cases hsplit : Bytes.splitOnce (byte ')') after with
              | none => rfl
              | some parts =>
                have hparts := congrArg List.length (Bytes.splitOnce_sound hsplit).1
                rw [List.length_append, List.length_cons] at hparts
                have hrest : parts.2.length < n ∧ parts.2.length < m := by omega
                simp only
                rw [ih hrest.1 hrest.2]
            · exact ih (by rw [List.length_cons]; omega) (by rw [List.length_cons]; omega)

/-- Where the name does not stand the search goes on. -/
theorem found_unnamed {ch : UInt8} {rest : Bytes} (h : ¬ functionName <+: ch :: rest) :
    found functionName (ch :: rest) = found functionName rest := by
  have hstrip : Bytes.stripPrefix functionName (ch :: rest) = none := by
    cases hstrip : Bytes.stripPrefix functionName (ch :: rest) with
    | none => rfl
    | some behind => exact absurd ⟨behind, (Bytes.stripPrefix_iff.mp hstrip).symm⟩ h
  rw [found, featureFlagFunctionArguments, hstrip]
  rfl

section

variable {blanks behind : Bytes} (hplain : PlainName functionName)
include hplain

/-- A name without a `(` is passed over, with the blanks behind it. -/
theorem found_word (hblanks : ∀ ch ∈ blanks, isSpace ch = true) (hend : beginsWith isSpace behind = false)
    (hword : beginsWith (· == byte '(') behind = false) :
    found functionName (functionName ++ (blanks ++ behind)) = found functionName behind := by
  obtain ⟨first, more, hname, -⟩ := hplain.name
  have hstrip : Bytes.stripPrefix functionName (functionName ++ (blanks ++ behind)) = some (blanks ++ behind) :=
    Bytes.stripPrefix_iff.mpr rfl
  have hdrop := dropWhile_front hblanks hend
  have htext : functionName ++ (blanks ++ behind) = first :: (more ++ (blanks ++ behind)) := by rw [hname]; rfl
  rw [found, htext, featureFlagFunctionArguments, ← htext, hstrip]
  simp only [hdrop]
  cases behind with
  | nil => rfl
  | cons next behind =>
    have hnext : ¬ next = byte '(' := fun h => by rw [h] at hword; cases hword
    simp only [if_neg hnext]
    refine arguments_fuel hplain ?_ (Nat.lt_succ_self _)
    rw [hname]
    simp only [List.length_append, List.length_cons]
    omega

/-- A name with a `(` and no `)` ends the search. -/
theorem found_unclosed (hblanks : ∀ ch ∈ blanks, isSpace ch = true) (hclose : byte ')' ∉ behind) :
    found functionName (functionName ++ (blanks ++ byte '(' :: behind)) = [] := by
  obtain ⟨first, more, hname, -⟩ := hplain.name
  have hstrip : Bytes.stripPrefix functionName (functionName ++ (blanks ++ byte '(' :: behind)) =
      some (blanks ++ byte '(' :: behind) := Bytes.stripPrefix_iff.mpr rfl
  have hdrop : (blanks ++ byte '(' :: behind).dropWhile isSpace = byte '(' :: behind :=
    dropWhile_front hblanks (show isSpace (byte '(') = false by decide)
  have htext : functionName ++ (blanks ++ byte '(' :: behind) =
      first :: (more ++ (blanks ++ byte '(' :: behind)) := by rw [hname]; rfl
  rw [found, htext, featureFlagFunctionArguments, ← htext, hstrip]
  simp only [hdrop, if_pos, splitOnce_none hclose]

/-- A name with a `(` and a `)` is a reference. -/
theorem found_closed (hblanks : ∀ ch ∈ blanks, isSpace ch = true) {argument after : Bytes}
    (hclose : byte ')' ∉ argument) :
    found functionName (functionName ++ (blanks ++ byte '(' :: (argument ++ byte ')' :: after))) =
      argument.filter (fun ch => !isSpace ch) :: found functionName after := by
  obtain ⟨first, more, hname, -⟩ := hplain.name
  have hstrip : Bytes.stripPrefix functionName
      (functionName ++ (blanks ++ byte '(' :: (argument ++ byte ')' :: after))) =
      some (blanks ++ byte '(' :: (argument ++ byte ')' :: after)) := Bytes.stripPrefix_iff.mpr rfl
  have hdrop : (blanks ++ byte '(' :: (argument ++ byte ')' :: after)).dropWhile isSpace =
      byte '(' :: (argument ++ byte ')' :: after) :=
    dropWhile_front hblanks (show isSpace (byte '(') = false by decide)
  have htext : functionName ++ (blanks ++ byte '(' :: (argument ++ byte ')' :: after)) =
      first :: (more ++ (blanks ++ byte '(' :: (argument ++ byte ')' :: after))) := by rw [hname]; rfl
  rw [found, htext, featureFlagFunctionArguments, ← htext, hstrip]
  simp only [hdrop, if_pos, Bytes.splitOnce_glue after hclose]
  congr 1
  refine arguments_fuel hplain ?_ (Nat.lt_succ_self _)
  rw [hname]
  simp only [List.length_append, List.length_cons]
  omega

/-- Bytes in which the name does not begin are passed over. -/
theorem found_passed {part : Bytes} (hpart : ∀ first more, functionName = first :: more → first ∉ part) :
    found functionName (part ++ behind) = found functionName behind := by
  induction part with
  | nil => rfl
  | cons ch part ih =>
    have hunnamed : ¬ functionName <+: ch :: (part ++ behind) := by
      rintro ⟨rest, hrest⟩
      obtain ⟨first, more, hname, -⟩ := hplain.name
      have hfirst : first = ch := (List.cons.inj (by rw [← hrest, hname]; rfl)).1
      exact hpart first more hname (hfirst ▸ List.mem_cons_self)
    rw [List.cons_append, found_unnamed hunnamed]
    exact ih fun first more hname hmem => hpart first more hname (List.mem_cons_of_mem _ hmem)

omit hplain in
/-- A text that begins with the name has blanks behind it, and what is no blank. -/
theorem unnamed_or (functionName text : Bytes) : ¬ functionName <+: text ∨ ∃ blanks behind,
    (∀ ch ∈ blanks, isSpace ch = true) ∧ beginsWith isSpace behind = false ∧
      text = functionName ++ (blanks ++ behind) := by
  by_cases h : functionName <+: text
  · obtain ⟨rest, rfl⟩ := h
    refine Or.inr ⟨rest.takeWhile isSpace, rest.dropWhile isSpace, ?_, not_beginsWith_dropWhile _ _, ?_⟩
    · exact fun ch hch => List.mem_takeWhile_imp hch
    · rw [List.takeWhile_append_dropWhile]
  · exact Or.inl h

/-- Without a `)` there is no reference. -/
theorem found_none {text : Bytes} (hclose : byte ')' ∉ text) : found functionName text = [] := by
  -- what is behind a name is shorter than the text
  induction hn : text.length using Nat.strong_induction_on generalizing text with
  | _ n ih =>
    cases text with
    | nil => rfl
    | cons ch rest =>
      have hrest : byte ')' ∉ rest := fun h => hclose (List.mem_cons_of_mem _ h)
      rcases unnamed_or functionName (ch :: rest) with
        hunnamed | ⟨blanks, behind, hblanks, hend, htext⟩
      · rw [found_unnamed hunnamed]
        exact ih rest.length (by rw [← hn]; exact Nat.lt_succ_self _) hrest rfl
      · rw [htext]
        have hbehind : byte ')' ∉ behind := fun h => hclose (by
          rw [htext]
          exact List.mem_append_right _ (List.mem_append_right _ h))
        have hlength : behind.length < n := by
          obtain ⟨first, more, hname, -⟩ := hplain.name
          rw [← hn, htext, hname]
          simp only [List.length_append, List.length_cons]
          omega
        by_cases hword : beginsWith (· == byte '(') behind = false
        · rw [found_word hplain hblanks hend hword]
          exact ih behind.length hlength hbehind rfl
        · cases behind with
          | nil => exact absurd rfl hword
          | cons next behind =>
            have hnext : next = byte '(' := by
              have h : (next == byte '(') = true := Bool.not_eq_false _ ▸ hword
              exact beq_iff_eq.mp h
            rw [hnext]
            exact found_unclosed hplain hblanks fun h => hbehind (List.mem_cons_of_mem _ h)

/-- Where no reference begins the search goes on with the next byte. -/
theorem found_skip {ch : UInt8} {rest : Bytes} (h : ¬ HeadAt functionName (ch :: rest)) :
    found functionName (ch :: rest) = found functionName rest := by
  rcases unnamed_or functionName (ch :: rest) with
    hunnamed | ⟨blanks, behind, hblanks, hend, htext⟩
  · exact found_unnamed hunnamed
  · obtain ⟨first, more, hname, hfresh, hfirst⟩ := hplain.name
    have hrest : rest = (more ++ blanks) ++ behind := by
      rw [hname, List.cons_append, List.cons.injEq, ← List.append_assoc] at htext
      exact htext.2
    -- the name does not begin again in itself, nor in blanks
    have hpassed : ∀ first' more', functionName = first' :: more' → first' ∉ more ++ blanks := by
      intro first' more' hname' hmem
      obtain ⟨rfl, -⟩ := List.cons.inj (hname.symm.trans hname')
      rcases List.mem_append.mp hmem with hmem | hmem
      · exact hfresh hmem
      · rw [hblanks first hmem] at hfirst
        cases hfirst
    rw [hrest, found_passed hplain hpassed, ← hrest]
    by_cases hword : beginsWith (· == byte '(') behind = false
    · rw [htext, found_word hplain hblanks hend hword]
    · cases behind with
      | nil => exact absurd rfl hword
      | cons next behind =>
        have hnext : next = byte '(' := by
          have h : (next == byte '(') = true := Bool.not_eq_false _ ▸ hword
          exact beq_iff_eq.mp h
        subst hnext
        have hclose : byte ')' ∉ behind := fun hclose => h ⟨blanks, behind, hblanks, hclose, htext⟩
        rw [htext, found_unclosed hplain hblanks hclose, found_none hplain]
        rw [List.mem_cons, not_or]
        exact ⟨by decide, hclose⟩

/-- A part in which no reference begins is passed over. -/
theorem found_noHead {part : Bytes} (h : NoHead functionName part behind) :
    found functionName (part ++ behind) = found functionName behind := by
  induction part with
  | nil => rfl
  | cons ch part ih =>
    have hskip : ¬ HeadAt functionName (ch :: (part ++ behind)) := h [] (ch :: part) rfl (List.cons_ne_nil _ _)
    rw [List.cons_append, found_skip hplain hskip]
    refine ih fun front back hback hne => h (ch :: front) back ?_ hne
    rw [hback, List.cons_append]

end

end

/-! ## Calls among the tokens -/

theorem laidText_append (pieces more : List Piece) (ending : Bytes) :
    laidText (pieces ++ more) ending = laidText pieces (laidText more ending) := by
  induction pieces with
  | nil => rfl
  | cons piece pieces ih => rw [List.cons_append, laidText, laidText, ih]

theorem laidText_behind (pieces : List Piece) (ending : Bytes) :
    laidText pieces ending = laidText pieces [] ++ ending := by
  induction pieces with
  | nil => rfl
  | cons piece pieces ih => rw [laidText, laidText, ih, List.append_assoc, List.append_assoc]

theorem Lays.lexeme {ending : Bytes} {pieces : List Piece} (h : Lays ending pieces) :
    ∀ piece ∈ pieces, Lexeme piece.kind piece.lexeme := by
  induction h with
  | done _ _ => exact nofun
  | token _ hlexeme _ _ ih =>
    intro piece hpiece
    rcases List.mem_cons.mp hpiece with rfl | hpiece
    · exact hlexeme
    · exact ih piece hpiece

/-- A token of a plain argument. -/
structure PlainPiece (piece : Piece) : Prop where
  gap : ∀ ch ∈ piece.gap, isSpace ch = true
  opens : piece.kind ≠ .leftParen
  closes : piece.kind ≠ .rightParen
  lexeme : ∀ ch ∈ piece.lexeme, ch ≠ byte ')' ∧ isSpace ch = false

/-- A plain argument goes up to the first `)` among the tokens. -/
theorem PlainArgument.split {pieces : List Piece} (h : PlainArgument pieces) : ∃ inner close after,
    pieces = inner ++ close :: after ∧ (∀ piece ∈ inner, PlainPiece piece) ∧
      close.kind = .rightParen ∧ ∀ ch ∈ close.gap, isSpace ch = true := by
  induction h with
  | @close gap lexeme rest hgap => exact ⟨[], ⟨gap, .rightParen, lexeme⟩, rest, rfl, nofun, rfl, hgap⟩
  | @next gap kind lexeme rest hgap hopen hclose hlexeme _ ih =>
    obtain ⟨inner, close, after, rfl, hinner, hkind, hblank⟩ := ih
    refine ⟨⟨gap, kind, lexeme⟩ :: inner, close, after, rfl, ?_, hkind, hblank⟩
    intro piece hpiece
    rcases List.mem_cons.mp hpiece with rfl | hpiece
    · exact ⟨hgap, hopen, hclose, hlexeme⟩
    · exact hinner piece hpiece

section

variable {inner : List Piece} (hinner : ∀ piece ∈ inner, PlainPiece piece)
include hinner

/-- The text of a plain argument has no `)`. -/
theorem plain_unclosed : byte ')' ∉ laidText inner [] := by
  induction inner with
  | nil => exact List.not_mem_nil
  | cons piece inner ih =>
    have hpiece := hinner piece List.mem_cons_self
    rw [laidText, List.mem_append, List.mem_append]
    rintro (hmem | hmem | hmem)
    · have hspace := hpiece.gap _ hmem
      rw [show isSpace (byte ')') = false by decide] at hspace
      cases hspace
    · exact (hpiece.lexeme _ hmem).1 rfl
    · exact ih (fun other hother => hinner other (List.mem_cons_of_mem _ hother)) hmem

/-- Without its blanks it is its tokens. -/
theorem plain_filter :
    (laidText inner []).filter (fun ch => !isSpace ch) = inner.flatMap Piece.lexeme := by
  induction inner with
  | nil => rfl
  | cons piece inner ih =>
    have hpiece := hinner piece List.mem_cons_self
    have hgap : piece.gap.filter (fun ch => !isSpace ch) = [] := by
      rw [List.filter_eq_nil_iff]
      intro ch hch
      rw [hpiece.gap ch hch]
      exact Bool.false_ne_true
    have hlexeme : piece.lexeme.filter (fun ch => !isSpace ch) = piece.lexeme := by
      rw [List.filter_eq_self]
      intro ch hch
      rw [(hpiece.lexeme ch hch).2]
      rfl
    rw [laidText, List.filter_append, List.filter_append, hgap, hlexeme,
      ih fun other hother => hinner other (List.mem_cons_of_mem _ hother)]
    rfl

/-- It is the argument that the parenthesis closes. -/
theorem plain_argument {close : Spelling} (hclose : close.1 = .rightParen) (rest : List Spelling) :
    closedArgument 0 (inner.map Piece.spelling ++ close :: rest) = inner.flatMap Piece.lexeme := by
  induction inner with
  | nil =>
    obtain ⟨kind, lexeme⟩ := close
    have hclose : kind = .rightParen := hclose
    show closedArgument 0 ((kind, lexeme) :: rest) = []
    rw [closedArgument, if_pos hclose]
  | cons piece inner ih =>
    have hpiece := hinner piece List.mem_cons_self
    show closedArgument 0 ((piece.kind, piece.lexeme) :: (inner.map Piece.spelling ++ close :: rest)) = _
    rw [closedArgument, if_neg hpiece.closes, if_neg hpiece.opens,
      ih fun other hother => hinner other (List.mem_cons_of_mem _ hother)]
    rfl

end

theorem callArgument_of_kind {functionName : Bytes} {spelling next : Spelling} {rest : List Spelling}
    (h : next.1 ≠ .leftParen) : callArgument functionName spelling (next :: rest) = [] := by
  obtain ⟨kind, lexeme⟩ := next
  unfold callArgument
  split
  · next hnext => cases hnext; exact absurd rfl h
  · rfl

/-- No call begins in a plain argument. -/
theorem plain_calls {functionName : Bytes} {inner : List Piece} (hinner : ∀ piece ∈ inner, PlainPiece piece)
    {close : Spelling} (hclose : close.1 = .rightParen) (rest : List Spelling) :
    callArguments functionName (inner.map Piece.spelling ++ close :: rest) =
      callArguments functionName (close :: rest) := by
  induction inner with
  | nil => rfl
  | cons piece inner ih =>
    have hrest := ih fun other hother => hinner other (List.mem_cons_of_mem _ hother)
    rw [List.map_cons, List.cons_append, callArguments, hrest]
    -- what is behind the token is another one of them, or the parenthesis that closes
    cases inner with
    | nil =>
      have hkind : close.1 ≠ .leftParen := by rw [hclose]; decide
      rw [List.map_nil, List.nil_append, callArgument_of_kind hkind, List.nil_append]
    | cons next inner =>
      have hkind : next.spelling.1 ≠ .leftParen :=
        (hinner next (List.mem_cons_of_mem _ List.mem_cons_self)).opens
      rw [List.map_cons, List.cons_append, callArgument_of_kind hkind, List.nil_append]

/-- A token that is no name calls nothing. -/
theorem callArguments_cons {functionName : Bytes} {spelling : Spelling} (h : spelling.1 ≠ .identifier)
    (rest : List Spelling) :
    callArguments functionName (spelling :: rest) = callArguments functionName rest := by
  have hnone : callArgument functionName spelling rest = [] := by
    unfold callArgument
    split
    · rw [if_neg]
      rintro rfl
      exact h rfl
    · rfl
  rw [callArguments, hnone, List.nil_append]

theorem PlainFor.of_cons {functionName ending : Bytes} {piece : Piece} {rest : List Piece}
    (h : PlainFor functionName ending (piece :: rest)) : PlainFor functionName ending rest := by
  cases h with
  | call _ _ _ _ h => exact h
  | other _ _ h => exact h

theorem PlainFor.behind {functionName ending : Bytes} {front rest : List Piece}
    (h : PlainFor functionName ending (front ++ rest)) : PlainFor functionName ending rest := by
  induction front with
  | nil => exact h
  | cons piece front ih => exact ih h.of_cons

/-! ## Correctness -/

section

variable {functionName ending : Bytes} {piece next close : Piece} {inner after : List Piece}

/-- In a plain call the program finds the tokens of the argument, and goes on behind its `)`. -/
theorem found_call (hname : PlainName functionName)
    (hlexemes : ∀ piece ∈ next :: (inner ++ close :: after), Lexeme piece.kind piece.lexeme)
    (hopen : next.kind = .leftParen) (hgap : ∀ ch ∈ next.gap, isSpace ch = true)
    (hinner : ∀ piece ∈ inner, PlainPiece piece) (hclose : close.kind = .rightParen)
    (hblank : ∀ ch ∈ close.gap, isSpace ch = true) :
    found functionName (functionName ++ laidText (next :: (inner ++ close :: after)) ending) =
      inner.flatMap Piece.lexeme :: found functionName (laidText after ending) := by
  have hnext : next.lexeme = [byte '('] := by
    have hmem := hlexemes next List.mem_cons_self
    rw [hopen] at hmem
    exact hmem.symbol_eq (by decide)
  have hlast : close.lexeme = [byte ')'] := by
    have hmem := hlexemes close (by simp)
    rw [hclose] at hmem
    exact hmem.symbol_eq (by decide)
  have htext : laidText (next :: (inner ++ close :: after)) ending =
      next.gap ++ byte '(' :: ((laidText inner [] ++ close.gap) ++ byte ')' :: laidText after ending) := by
    rw [laidText, laidText_append, laidText_behind, laidText, hnext, hlast]
    simp only [List.append_assoc, List.cons_append, List.nil_append]
  -- the text of the argument goes up to the first `)`
  have hunclosed : byte ')' ∉ laidText inner [] ++ close.gap := by
    rw [List.mem_append]
    rintro (hmem | hmem)
    · exact plain_unclosed hinner hmem
    · have hspace := hblank _ hmem
      rw [show isSpace (byte ')') = false by decide] at hspace
      cases hspace
  have hblanks : close.gap.filter (fun ch => !isSpace ch) = [] := by
    rw [List.filter_eq_nil_iff]
    intro ch hch
    rw [hblank ch hch]
    exact Bool.false_ne_true
  rw [htext, found_closed hname hgap hunclosed, List.filter_append, plain_filter hinner, hblanks, List.append_nil]

/-- So it is among the tokens. -/
theorem calls_call (hcall : IsCall functionName piece (next :: (inner ++ close :: after)))
    (hinner : ∀ piece ∈ inner, PlainPiece piece) (hclose : close.kind = .rightParen) :
    callArguments functionName ((piece :: next :: (inner ++ close :: after)).map Piece.spelling) =
      inner.flatMap Piece.lexeme :: callArguments functionName (after.map Piece.spelling) := by
  obtain ⟨hspelling, hopen⟩ := hcall
  have hspellings : (piece :: next :: (inner ++ close :: after)).map Piece.spelling =
      (.identifier, functionName) :: (.leftParen, next.lexeme) ::
        (inner.map Piece.spelling ++ close.spelling :: after.map Piece.spelling) := by
    rw [List.map_cons, List.map_cons, List.map_append, List.map_cons, hspelling,
      show next.spelling = (.leftParen, next.lexeme) from Prod.ext hopen rfl]
  have hcloses : close.spelling.1 ≠ .identifier := by
    rw [show close.spelling.1 = .rightParen from hclose]
    decide
  rw [hspellings, callArguments, callArgument, if_pos rfl, plain_argument hinner hclose,
    callArguments_cons (show TokenKind.leftParen ≠ .identifier by decide), plain_calls hinner hclose,
    callArguments_cons hcloses]
  rfl

theorem callArgument_of_not_call {rest : List Piece} (hcall : ¬ IsCall functionName piece rest) :
    callArgument functionName piece.spelling (rest.map Piece.spelling) = [] := by
  cases rest with
  | nil => rfl
  | cons next rest =>
    show callArgument functionName piece.spelling ((next.kind, next.lexeme) :: rest.map Piece.spelling) = []
    by_cases hkind : next.kind = .leftParen
    · rw [hkind, callArgument, if_neg fun hspelling => hcall ⟨hspelling, hkind⟩]
    · exact callArgument_of_kind hkind

end

/-- The program finds the arguments of the calls, in their order. -/
theorem found_calls {functionName ending : Bytes} (hname : PlainName functionName) {pieces : List Piece}
    (hlexemes : ∀ piece ∈ pieces, Lexeme piece.kind piece.lexeme) (h : PlainFor functionName ending pieces) :
    found functionName (laidText pieces ending) = callArguments functionName (pieces.map Piece.spelling) := by
  -- behind a call the search goes on behind its argument
  induction hn : pieces.length using Nat.strong_induction_on generalizing pieces with
  | _ n ih =>
    cases h with
    | done hnone =>
      have hfound := found_noHead hname hnone
      rw [List.append_nil] at hfound
      exact hfound
    | @other piece rest hcall hfront h =>
      have hrest : found functionName (laidText rest ending) =
          callArguments functionName (rest.map Piece.spelling) := by
        refine ih rest.length ?_ (fun other hother => hlexemes other (List.mem_cons_of_mem _ hother)) h rfl
        rw [← hn]
        exact Nat.lt_succ_self _
      rw [laidText, ← List.append_assoc, found_noHead hname hfront, hrest, List.map_cons, callArguments,
        callArgument_of_not_call hcall, List.nil_append]
    | @call piece next rest hcall hfront hgap hargument h =>
      obtain ⟨inner, close, after, rfl, hinner, hclose, hblank⟩ := hargument.split
      have hlexeme : piece.lexeme = functionName := congrArg Prod.snd hcall.1
      have hafter : found functionName (laidText after ending) =
          callArguments functionName (after.map Piece.spelling) := by
        refine ih after.length ?_ (fun other hother => hlexemes other (by simp [hother])) ?_ rfl
        · rw [← hn]
          simp only [List.length_cons, List.length_append]
          omega
        · exact h.of_cons.behind.of_cons
      have hbehind := fun other hother => hlexemes other (List.mem_cons_of_mem _ hother)
      rw [laidText, found_noHead hname hfront, hlexeme, calls_call hcall hinner hclose,
        found_call hname hbehind hcall.2 hgap hinner hclose hblank, hafter]

theorem noHead_of_tails {functionName part behind : Bytes}
    (h : part.tails.all (fun back => back.isEmpty || !functionName.isPrefixOf (back ++ behind)) = true) :
    NoHead functionName part behind := by
  rintro front back rfl hne ⟨blanks, rest, -, -, htext⟩
  have hback := List.all_eq_true.mp h back ((List.mem_tails _ _).mpr (List.suffix_append front back))
  have hstands : functionName.isPrefixOf (back ++ behind) = true := by
    rw [List.isPrefixOf_iff_prefix, htext]
    exact List.prefix_append _ _
  rw [hstands, Bool.not_true, Bool.or_false, List.isEmpty_iff] at hback
  exact hne hback

/-- The call `feature_enabled( A )`. -/
def enabledPieces : List Piece :=
  [⟨[], .identifier, ascii "feature_enabled"⟩, ⟨[], .leftParen, ascii "("⟩, ⟨ascii " ", .identifier, ascii "A"⟩,
    ⟨ascii " ", .rightParen, ascii ")"⟩]

theorem plainReferences_enabled :
    PlainReferences (ascii "feature_enabled( A )") (enabledPieces.map Piece.spelling) := by
  have hname : Lexeme .identifier (ascii "feature_enabled") :=
    @Lexeme.word (byte 'f') (ascii "eature_enabled") rfl (by decide +kernel)
  have hflag : Lexeme .identifier (ascii "A") := @Lexeme.word (byte 'A') [] rfl (List.forall_mem_nil _)
  have hblank : Trivia (ascii " ") .closed := .blank rfl .nil
  refine ⟨enabledPieces, [], ?_, by decide, rfl, ?_⟩
  · refine .token .nil hname (by decide) (.token .nil (.symbol (by decide)) (by decide) ?_)
    refine .token hblank hflag (by decide) (.token hblank (.symbol (by decide)) (by decide) ?_)
    exact .done .nil (by decide)
  · intro functionName hmem
    simp only [featureFunctions, List.mem_cons, List.not_mem_nil, or_false] at hmem
    have hdone : ∀ name, PlainFor name [] [] := fun _ => .done fun front back hnil hne =>
      absurd (List.append_eq_nil_iff.mp hnil.symm).2 hne
    rcases hmem with rfl | rfl
    · refine .call ⟨rfl, rfl⟩ (noHead_of_tails (by decide)) (List.forall_mem_nil _) ?_ ?_
      · exact .next (by decide +kernel) (by decide) (by decide) (by decide +kernel) (.close (by decide +kernel))
      · refine .other (fun h => absurd h.1 (by decide)) (noHead_of_tails (by decide)) ?_
        refine .other (fun h => absurd h.1 (by decide)) (noHead_of_tails (by decide)) ?_
        exact .other id (noHead_of_tails (by decide)) (hdone _)
    · refine .other (fun h => absurd h.1 (by decide)) (noHead_of_tails (by decide)) ?_
      refine .other (fun h => absurd h.1 (by decide)) (noHead_of_tails (by decide)) ?_
      refine .other (fun h => absurd h.1 (by decide)) (noHead_of_tails (by decide)) ?_
      exact .other id (noHead_of_tails (by decide)) (hdone _)

end StateSpec.Compiler
