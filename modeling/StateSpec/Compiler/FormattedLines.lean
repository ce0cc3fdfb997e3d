/-
  FORMATTING TWICE — the formatter on the tokens of what it has written.

  The second run reads the lines that the first one has written, and has to end them where the first one did.

  1. **One iteration** (`formatToken_again`) — the second run writes what the first one has written and stands in
     its state, but for the line of the source.  Behind a token of two lines it may find the next token in the
     second of them, where the first run was told to begin a line; it then writes an empty line between them,
     unless the line before them is one already (`SteadyAt`).
  2. **The run** (`laid_again_iff`) — what is written stays as it is exactly when each iteration is steady.
  3. **Correctness** (`formatted_iff`) — the formatter keeps the tokens of a text, and returns what it has
     returned, exactly when nothing is glued and each iteration is steady.
-/
import StateSpec.Compiler.FormattedTokens

namespace StateSpec.Compiler

/-! ## Steady runs -/

/-- A token does not begin in the last line of one of two lines, unless the line before is empty. -/
def SteadyAt (earlier : List Token) (token : Token) (s : FormatState) : Prop :=
  ∀ previous ∈ earlier.head?, previous.range.end'.line = previous.range.begin.line + 1 →
    token.range.begin.line = previous.range.end'.line → s.previousWasBlankLine = true

/-- Each iteration of the loop is steady. -/
def Steady (earlier : List Token) : List Token → FormatState → Prop
  | [], _ => True
  | token :: rest, s =>
    token.kind = .endOfFile ∨
      SteadyAt earlier token s ∧ Steady (token :: earlier) rest (formatToken earlier token rest.head? s).2

/-! ## One iteration -/

/-- The state of a run that has met the last token in another line. -/
def FormatState.fromLine (s : FormatState) (line : Nat) : FormatState := { s with previousSourceLine := line }

theorem newline_fromLine (blankAfter : Bool) (s : FormatState) (line : Nat) :
    newline blankAfter (s.fromLine line) = ((newline blankAfter s).1, (newline blankAfter s).2.fromLine line) := by
  rw [newline_eq, newline_eq]
  rfl

theorem breaks_newline (blankAfter : Bool) (s : FormatState) :
    breaks (newline blankAfter s).1 = newlines blankAfter s := by
  rw [newline_eq]
  exact breaks_replicate _

theorem breaks_indentation (indent : Nat) : breaks (indentation indent) = 0 := by
  refine List.count_eq_zero.mpr fun hmem => ?_
  exact absurd (List.eq_of_mem_replicate hmem) (by decide)

theorem breaks_spacing (s : FormatState) (kind : TokenKind) : breaks (spacing s kind) = 0 := by
  have hblank : breaks (ascii " ") = 0 := by decide
  unfold spacing
  split
  · exact breaks_indentation _
  split
  · exact hblank
  split
  · exact hblank
  split
  · rfl
  split
  · exact hblank
  split
  · exact hblank
  split
  · exact hblank
  · rfl

/-- As many line breaks are written where an empty line is asked for because there is one already. -/
theorem newlines_again (always blankAfter again : Bool) (s : FormatState)
    (h : again = decide (1 < newlines (always || blankAfter) s)) :
    newlines (always || again) s = newlines (always || blankAfter) s := by
  rw [h]
  unfold newlines
  cases always <;> cases blankAfter <;> cases s.previousWasBlankLine <;> rfl

theorem newlines_of_line {s : FormatState} (h : s.previousWasBlankLine = false) (blankAfter : Bool) :
    newlines blankAfter s = if blankAfter = true then 2 else 1 := by
  rw [newlines, h]
  cases blankAfter <;> rfl

theorem newlines_of_blank {s : FormatState} (h : s.previousWasBlankLine = true) (blankAfter : Bool) :
    newlines blankAfter s = 1 := by
  rw [newlines, h, if_neg fun hand => Bool.false_ne_true hand.2.symm]

section

variable {earlier earlier' : List Token} {token token' : Token} {next next' : Option Token} {s : FormatState}

theorem startsMember_again (hspelling : token'.spelling = token.spelling) (line : Nat) :
    startsMember (s.fromLine line) token' = startsMember s token := by
  have hkind : token'.kind = token.kind := congrArg Prod.fst hspelling
  have hlexeme : token'.lexeme = token.lexeme := congrArg Prod.snd hspelling
  unfold startsMember isFeatureFlagMemberStart isStateOptionMemberStart isGarbageCollectionMemberStart
  rw [hkind, hlexeme]
  rfl

theorem spacing_fromLine (s : FormatState) (line : Nat) (kind : TokenKind) :
    spacing (s.fromLine line) kind = spacing s kind := rfl

/-- The second run begins a line in front of the token where the first one did. -/
theorem toLine_again {line lines : Nat} (hspelling : token'.spelling = token.spelling)
    (hline : s.atLineStart = false → s.previousSourceLine + lines ≤ token.range.begin.line)
    (hline' : s.atLineStart = false → token'.range.begin.line = line + lines + breaks (toLine s token).1)
    (hsteady : s.atLineStart = false → lines = 1 → token.range.begin.line = s.previousSourceLine + 1 →
      s.previousWasBlankLine = true) :
    toLine (s.fromLine line) token' = ((toLine s token).1, (toLine s token).2.fromLine line) := by
  cases hstart : s.atLineStart with
  | true => rw [toLine_of_start hstart, toLine_of_start (show (s.fromLine line).atLineStart = true from hstart)]
  | false =>
    have hline := hline hstart
    have hline' := hline' hstart
    have hsteady := hsteady hstart
    have hkind : token'.kind = token.kind := congrArg Prod.fst hspelling
    by_cases hopens : opensLine s token = true
    · have hcount : newlines (decide (line + 1 < token'.range.begin.line)) s =
          newlines (decide (s.previousSourceLine + 1 < token.range.begin.line)) s := by
        cases hblank : s.previousWasBlankLine with
        | true => rw [newlines_of_blank hblank, newlines_of_blank hblank]
        | false =>
          rw [toLine, if_pos hopens, breaks_newline, newlines_of_line hblank] at hline'
          rw [newlines_of_line hblank, newlines_of_line hblank]
          by_cases hgap : s.previousSourceLine + 1 < token.range.begin.line
          · rw [decide_eq_true hgap, if_pos rfl] at hline' ⊢
            rw [decide_eq_true (show line + 1 < token'.range.begin.line by omega), if_pos rfl]
          · rw [decide_eq_false hgap, if_neg Bool.false_ne_true] at hline' ⊢
            -- the token does not begin in the second line of the one before
            have hone : lines ≠ 1 := by
              intro hone
              have hblank' := hsteady hone (by omega)
              rw [hblank] at hblank'
              cases hblank'
            have hnot : ¬ line + 1 < token'.range.begin.line := by omega
            rw [decide_eq_false hnot, if_neg Bool.false_ne_true]
      have hopens' : opensLine (s.fromLine line) token' = true := by
        have hpos := newlines_pos (decide (s.previousSourceLine + 1 < token.range.begin.line)) s
        rw [toLine, if_pos hopens, breaks_newline] at hline'
        have hlater : (s.fromLine line).previousSourceLine < token'.range.begin.line := by
          show line < _
          omega
        rw [opensLine, breaksLine, decide_eq_true hlater, show (s.fromLine line).atLineStart = false from hstart]
        rfl
      have hnewline : newline (decide (line + 1 < token'.range.begin.line)) s =
          newline (decide (s.previousSourceLine + 1 < token.range.begin.line)) s := by
        rw [newline_eq, newline_eq, hcount]
      rw [toLine, if_pos hopens', newline_fromLine, toLine, if_pos hopens, ← hnewline]
      rfl
    · have hstays : toLine s token = ([], s) := by rw [toLine, if_neg hopens]
      rw [hstays] at hline' ⊢
      rw [opensLine, breaksLine, hstart, Bool.or_eq_true, not_or, Bool.not_eq_true, Bool.not_eq_true] at hopens
      obtain ⟨hbreaks, hclose⟩ := hopens
      obtain ⟨hlater, hmember⟩ := Bool.or_eq_false_iff.mp hbreaks
      have hsame := of_decide_eq_false hlater
      have hnot : ¬ (s.fromLine line).previousSourceLine < token'.range.begin.line := by
        show ¬ line < _
        rw [hline', breaks_nil]
        omega
      have hopens' : ¬ opensLine (s.fromLine line) token' = true := by
        rw [opensLine, breaksLine, startsMember_again hspelling, hkind, decide_eq_false hnot, hmember]
        show ¬ (!s.atLineStart && false || !s.atLineStart && token.kind == .rightBrace) = true
        rw [hstart]
        show ¬ (false || (!false && token.kind == .rightBrace)) = true
        rw [hclose]
        exact Bool.false_ne_true
      rw [toLine, if_neg hopens']

theorem openedBlock_again (hearlier : earlier'.map Token.spelling = earlier.map Token.spelling) (line : Nat) :
    openedBlock (s.fromLine line) earlier' = openedBlock s earlier := by
  have hshort : ∀ {tokens : List Token}, tokens.length < 2 → openedBlock s tokens = (s.previousKind, []) := by
    intro tokens hlength
    unfold openedBlock
    split
    · rw [List.length_cons, List.length_cons] at hlength
      omega
    · rfl
  have hlength := congrArg List.length hearlier
  rw [List.length_map, List.length_map] at hlength
  show openedBlock s earlier' = _
  by_cases htwo : earlier.length < 2
  · rw [hshort htwo, hshort (by omega)]
  · match earlier, earlier' with
    | [], _ => exact absurd Nat.zero_lt_two htwo
    | [_], _ => exact absurd Nat.one_lt_two htwo
    | _ :: _ :: _, [] => exact absurd hlength.symm (Nat.succ_ne_zero _)
    | _ :: _ :: _, [_] => exact absurd (Nat.succ.inj hlength).symm (Nat.succ_ne_zero _)
    | name :: kind :: _, name' :: kind' :: _ =>
      obtain ⟨hname, hmore⟩ := List.cons.inj hearlier
      have hlexeme : name'.lexeme = name.lexeme := congrArg Prod.snd hname
      have hkind : kind'.kind = kind.kind := congrArg Prod.fst (List.cons.inj hmore).1
      have htwice : ∀ name kind more, openedBlock s (name :: kind :: more) =
          if s.previousKind = .identifier then (kind.kind, name.lexeme) else (s.previousKind, []) := by
        intro name kind more
        unfold openedBlock
        cases s.previousKind <;> rfl
      rw [htwice, htwice, hlexeme, hkind]

theorem placeToken_again (hspelling : token'.spelling = token.spelling)
    (hearlier : earlier'.map Token.spelling = earlier.map Token.spelling) (line : Nat) :
    placeToken earlier' token' (s.fromLine line) =
      ((placeToken earlier token s).1, (placeToken earlier token s).2.fromLine token'.range.begin.line) := by
  have hkind : token'.kind = token.kind := congrArg Prod.fst hspelling
  have hafter : behindToken earlier' token' ({ s with atLineStart := false }.fromLine line) =
      ((behindToken earlier token { s with atLineStart := false }).1,
        (behindToken earlier token { s with atLineStart := false }).2.fromLine line) := by
    rw [behindToken, behindToken, hkind, openedBlock_again hearlier]
    by_cases hopen : token.kind = .leftBrace
    · rw [if_pos hopen, if_pos hopen, ← newline_fromLine]
      rfl
    rw [if_neg hopen, if_neg hopen]
    by_cases hsemicolon : token.kind = .semicolon
    · rw [if_pos hsemicolon, if_pos hsemicolon, newline_fromLine]
    · rw [if_neg hsemicolon, if_neg hsemicolon]
  have hstart : ({ s.fromLine line with atLineStart := false } : FormatState) =
      { s with atLineStart := false }.fromLine line := rfl
  rw [placeToken, placeToken, hstart, hafter, hkind, spacing_fromLine]
  rfl

/-- What follows the token in both runs: nothing, or a token in the line that is written. -/
def FollowedAlike (stop : Nat) (behind : Bytes) (next next' : Option Token) : Prop :=
  (∀ n ∈ next, n.kind = .endOfFile) ∧ (∀ n ∈ next', n.kind = .endOfFile) ∨
    ∃ n n', next = some n ∧ next' = some n' ∧ n.kind ≠ .endOfFile ∧ n'.kind ≠ .endOfFile ∧
      n'.range.begin.line = stop + breaks behind

theorem afterBrace_again {line : Nat}
    (hnext : FollowedAlike token'.range.end'.line (afterBrace token next s).1 next next') :
    afterBrace token' next' (s.fromLine line) =
      ((afterBrace token next s).1, (afterBrace token next s).2.fromLine line) := by
  have hends : ∀ {token : Token} {next : Option Token} {s : FormatState}, (∀ n ∈ next, n.kind = .endOfFile) →
      afterBrace token next s = ([], s) := by
    intro token next s hall
    rcases afterBrace_cases token next s with ⟨heq, -⟩ | ⟨n, hn, hnot, -⟩
    · exact heq
    · exact absurd (hall n hn) hnot
  rcases hnext with ⟨hlast, hlast'⟩ | ⟨n, n', rfl, rfl, hkind, hkind', hline⟩
  · rw [hends hlast, hends hlast']
  · have hbrace : afterBrace token (some n) s =
        newline (decide (s.indent = 0) || decide (token.range.end'.line + 1 < n.range.begin.line)) s := by
      rw [afterBrace, if_neg hkind]
    rw [hbrace, breaks_newline] at hline
    have hcount := newlines_again (decide (s.indent = 0))
      (decide (token.range.end'.line + 1 < n.range.begin.line))
      (decide (token'.range.end'.line + 1 < n'.range.begin.line)) s
      (decide_eq_decide.mpr (by rw [hline]; omega))
    rw [hbrace, afterBrace, if_neg hkind', newline_fromLine, newline_eq, newline_eq]
    show ((List.replicate (newlines (decide (s.indent = 0) || _) s) _), _) = _
    rw [show (s.fromLine line).indent = s.indent from rfl, hcount]

/-- **One iteration of the second run** writes what the first one has written. -/
theorem formatToken_again {line lines : Nat} (hspelling : token'.spelling = token.spelling)
    (hearlier : earlier'.map Token.spelling = earlier.map Token.spelling)
    (hline : s.atLineStart = false → s.previousSourceLine + lines ≤ token.range.begin.line)
    (hline' : s.atLineStart = false → token'.range.begin.line = line + lines + breaks (toLine s token).1)
    (hsteady : s.atLineStart = false → lines = 1 → token.range.begin.line = s.previousSourceLine + 1 →
      s.previousWasBlankLine = true)
    (hnext : token.kind = .rightBrace →
      FollowedAlike token'.range.end'.line (formatToken earlier token next s).1.behind next next') :
    formatToken earlier' token' next' (s.fromLine line) =
      ((formatToken earlier token next s).1,
        (formatToken earlier token next s).2.fromLine token'.range.begin.line) := by
  have hkind : token'.kind = token.kind := congrArg Prod.fst hspelling
  have htoLine := toLine_again hspelling hline hline' hsteady
  by_cases hclose : token.kind = .rightBrace
  · have hbrace := hnext hclose
    rw [formatToken_close hclose] at hbrace ⊢
    have hclosed : closeBlock token.kind ((toLine s token).2.fromLine line) =
        (closeBlock token.kind (toLine s token).2).fromLine line := rfl
    rw [formatToken_close (hkind.trans hclose), htoLine, hkind]
    dsimp only
    rw [hclosed, afterBrace_again hbrace]
    rfl
  · rw [formatToken_place hclose, formatToken_place (hkind ▸ hclose), htoLine, hkind]
    dsimp only
    rw [placeToken_again hspelling hearlier, spacing_fromLine]

theorem breaks_before (earlier : List Token) (token : Token) (next : Option Token) (s : FormatState) :
    breaks (formatToken earlier token next s).1.before = breaks (toLine s token).1 := by
  by_cases hkind : token.kind = .rightBrace
  · rw [formatToken_close hkind, breaks_append, breaks_indentation, Nat.add_zero]
  · rw [formatToken_place hkind, breaks_append, breaks_spacing, Nat.add_zero]

/-- In front of a token that begins a line stand its line breaks and its indentation. -/
theorem before_of_opens (hopens : opensLine s token = true) : ∃ indent,
    (formatToken earlier token next s).1.before =
      (newline (decide (s.previousSourceLine + 1 < token.range.begin.line)) s).1 ++ indentation indent := by
  by_cases hkind : token.kind = .rightBrace
  · rw [formatToken_close hkind, toLine, if_pos hopens]
    exact ⟨_, rfl⟩
  · have hstart : (newline (decide (s.previousSourceLine + 1 < token.range.begin.line)) s).2.atLineStart = true := by
      rw [newline_eq]
    rw [formatToken_place hkind, toLine, if_pos hopens, spacing, if_pos hstart]
    exact ⟨_, rfl⟩

/-- Behind a token of two lines, the second run writes an empty line where the first one wrote none. -/
theorem not_steady_differs {line : Nat} {lexeme rest rest' : Bytes} (hlexeme : Lexeme token.kind lexeme)
    (hstart : s.atLineStart = false) (hblank : s.previousWasBlankLine = false)
    (hline : token.range.begin.line = s.previousSourceLine + 1)
    (hline' : token'.range.begin.line = line + 1 + breaks (toLine s token).1) :
    (formatToken earlier token next s).1.before ++ (lexeme ++ rest) ≠
      (formatToken earlier' token' next' (s.fromLine line)).1.before ++ (lexeme ++ rest') := by
  have hopens : opensLine s token = true := by
    rw [opensLine, breaksLine, hstart, decide_eq_true (show s.previousSourceLine < _ by omega)]
    rfl
  have hone : newlines (decide (s.previousSourceLine + 1 < token.range.begin.line)) s = 1 := by
    rw [newlines_of_line hblank, decide_eq_false (by omega), if_neg Bool.false_ne_true]
  rw [toLine, if_pos hopens, breaks_newline, hone] at hline'
  have hopens' : opensLine (s.fromLine line) token' = true := by
    rw [opensLine, breaksLine, show (s.fromLine line).atLineStart = false from hstart,
      decide_eq_true (show (s.fromLine line).previousSourceLine < _ by show line < _; omega)]
    rfl
  have htwo : newlines (decide ((s.fromLine line).previousSourceLine + 1 < token'.range.begin.line))
      (s.fromLine line) = 2 := by
    have hblank' : (s.fromLine line).previousWasBlankLine = false := hblank
    have hlater : (s.fromLine line).previousSourceLine + 1 < token'.range.begin.line := by
      show line + 1 < _
      omega
    rw [newlines_of_line hblank', decide_eq_true hlater, if_pos rfl]
  obtain ⟨indent, hbefore⟩ := @before_of_opens earlier token next s hopens
  obtain ⟨indent', hbefore'⟩ := @before_of_opens earlier' token' next' (s.fromLine line) hopens'
  rw [hbefore, hbefore', newline_eq, newline_eq, hone, htwo]
  intro hsame
  -- behind the first line break the one text goes on with a blank or the token, the other with a line break
  have hhead : (indentation indent ++ (lexeme ++ rest)).head? = some (byte '\n') := by
    have htail := congrArg List.tail hsame
    rw [List.append_assoc, List.append_assoc] at htail
    exact congrArg List.head? htail
  cases indent with
  | succ indent => cases hhead
  | zero =>
    rw [show indentation 0 = [] from rfl, List.nil_append, List.head?_append_of_ne_nil _ hlexeme.ne_nil] at hhead
    have hnot := hlexeme.not_startsTrivia (goesOn_nil token.kind)
    rw [List.append_nil, startsTrivia, Bool.or_eq_false_iff, beginsWith, hhead] at hnot
    exact absurd hnot.1 (by decide)

end

/-! ## The run -/

/-- Both runs stand behind the same token, and the second one where the first one has written it. -/
structure Abreast (earlier : List Token) (pending : Bytes) (s : FormatState) (stop stop' line : Nat) : Prop where
  atStart : s.atLineStart = true → ∀ previous ∈ earlier.head?,
    previous.range.end'.line = previous.range.begin.line
  inLine : s.atLineStart = false → pending = [] ∧ ∃ previous lines, previous ∈ earlier.head? ∧
    s.previousSourceLine = previous.range.begin.line ∧ stop = previous.range.end'.line ∧
    stop = s.previousSourceLine + lines ∧ stop' = line + lines

theorem abreast_start (stop stop' line : Nat) : Abreast [] [] {} stop stop' line :=
  ⟨fun _ => nofun, fun hstart => absurd hstart.symm Bool.false_ne_true⟩

/-- Only what is one symbol ends a line. -/
theorem Lexeme.breaks_of_endsLine {kind : TokenKind} {lexeme : Bytes} (h : Lexeme kind lexeme)
    (hends : endsLine kind = true) : breaks lexeme = 0 := by
  have hall : ∀ kind ∈ [TokenKind.leftBrace, .rightBrace, .semicolon],
      ∃ symbol ∈ symbols, symbol.1 = kind ∧ breaks symbol.2 = 0 := by decide
  obtain ⟨⟨_, other⟩, hmem, rfl, hnone⟩ := hall kind (of_decide_eq_true hends)
  rw [h.symbol_eq hmem]
  exact hnone

theorem abreast_formatToken (earlier : List Token) {token token' : Token} (next : Option Token) (s : FormatState)
    (hlexeme : Lexeme token.kind token.lexeme)
    (hend : token.range.end'.line = token.range.begin.line + breaks token.lexeme)
    (hend' : token'.range.end'.line = token'.range.begin.line + breaks token.lexeme) :
    Abreast (token :: earlier) (formatToken earlier token next s).1.behind (formatToken earlier token next s).2
      token.range.end'.line token'.range.end'.line token'.range.begin.line := by
  have hfollows := follows_formatToken earlier token next s
  constructor
  · rintro hstart previous ⟨⟩
    rw [hend, hlexeme.breaks_of_endsLine (hfollows.atStart hstart).2, Nat.add_zero]
  · intro hstart
    exact ⟨(hfollows.inLine hstart).1, token, breaks token.lexeme, rfl, hfollows.line, rfl,
      by rw [hend, hfollows.line], hend'⟩

/-- What stands behind a `}` in the first run is what the second run meets there. -/
theorem followedAlike {stop stop' : Nat} {pieces : List Piece} {earlier tokens again : List Token} {behind : Bytes}
    {s : FormatState} (hlines : LinesUp stop pieces tokens)
    (hagain : LinesUp stop' (formatPieces behind earlier tokens s) again)
    (hstart : ∀ n ∈ tokens.head?, n.kind ≠ .endOfFile → s.atLineStart = true) :
    FollowedAlike stop' behind tokens.head? again.head? := by
  cases hlines with
  | @done _ last hlast =>
    have hkind : last.kind = .endOfFile := congrArg Prod.fst hlast
    rw [formatPieces, if_pos hkind] at hagain
    cases hagain with
    | @done _ last' hlast' =>
      refine .inl ⟨?_, ?_⟩
      · rintro n ⟨⟩
        exact hkind
      · rintro n ⟨⟩
        exact congrArg Prod.fst hlast'
  | @token _ _ _ n tokens _ hkind _ _ _ =>
    rw [formatPieces, if_neg hkind] at hagain
    cases hagain with
    | @token _ _ _ n' again _ hkind' hbegin' _ _ =>
      refine .inr ⟨n, n', rfl, rfl, hkind, hkind', ?_⟩
      rw [hbegin', breaks_append, breaks_before, toLine_of_start (hstart n rfl hkind)]
      rfl

theorem atLineStart_of_close {earlier : List Token} {token : Token} {next : Option Token} {s : FormatState}
    (hclose : token.kind = .rightBrace) :
    ∀ n ∈ next, n.kind ≠ .endOfFile → (formatToken earlier token next s).2.atLineStart = true := by
  intro n hn hkind
  rw [formatToken_close hclose]
  rcases afterBrace_cases token next (closeBlock token.kind (toLine s token).2) with ⟨-, hlast⟩ | ⟨_, -, -, heq⟩
  · exact absurd (hlast n hn) hkind
  · rw [heq, newline_eq]

/-- **The second run** writes what the first one has written exactly when each iteration is steady. -/
theorem laid_again_iff {stop stop' line : Nat} {pieces : List Piece} {earlier earlier' tokens again : List Token}
    {pending ending : Bytes} {s : FormatState} (hlines : LinesUp stop pieces tokens) (hspelled : Spelled pieces)
    (hagain : LinesUp stop' (formatPieces pending earlier tokens s) again)
    (hearlier : earlier'.map Token.spelling = earlier.map Token.spelling)
    (habreast : Abreast earlier pending s stop stop' line) :
    laidText (formatPieces pending earlier' again (s.fromLine line)) ending =
        laidText (formatPieces pending earlier tokens s) ending ↔
      Steady earlier tokens s := by
  induction hlines generalizing stop' line earlier earlier' pending s again with
  | @done _ last hlast =>
    have hkind : last.kind = .endOfFile := congrArg Prod.fst hlast
    rw [formatPieces, if_pos hkind] at hagain ⊢
    cases hagain with
    | @done _ last' hlast' =>
      have hkind' : last'.kind = .endOfFile := congrArg Prod.fst hlast'
      rw [formatPieces, if_pos hkind']
      exact ⟨fun _ => .inl hkind, fun _ => rfl⟩
  | @token stop piece rest token tokens hspelling hkind hbegin hend hrest ih =>
    have hlexeme := hspelled.lexeme hspelling
    have hsame : token.lexeme = piece.lexeme := congrArg Prod.snd hspelling
    rw [formatPieces, if_neg hkind] at hagain ⊢
    cases hagain with
    | @token _ _ _ token' again hspelling' hkind' hbegin' hend' hrest' =>
      have hspelling' : token'.spelling = token.spelling := hspelling'
      have hlexeme' : token'.lexeme = token.lexeme := congrArg Prod.snd hspelling'
      rw [breaks_append, breaks_before] at hbegin'
      have hsteady : Steady earlier (token :: tokens) s ↔ SteadyAt earlier token s ∧
          Steady (token :: earlier) tokens (formatToken earlier token tokens.head? s).2 :=
        ⟨fun h => h.resolve_left hkind, .inr⟩
      rw [formatPieces, if_neg hkind', hsteady]
      by_cases hat : SteadyAt earlier token s
      · have hstep := @formatToken_again earlier earlier' token token' tokens.head? again.head? s line
          (stop' - line) hspelling' hearlier
          (by
            intro hstart
            obtain ⟨-, previous, lines, -, -, -, hstop, hstop'⟩ := habreast.inLine hstart
            omega)
          (by
            intro hstart
            obtain ⟨hpending, previous, lines, -, -, -, -, hstop'⟩ := habreast.inLine hstart
            rw [hpending, breaks_nil] at hbegin'
            omega)
          (by
            intro hstart hone hnext
            obtain ⟨-, previous, lines, hprevious, hline, hstop, hlines, hstop'⟩ := habreast.inLine hstart
            exact hat previous hprevious (by omega) (by omega))
          (fun hclose => followedAlike hrest hrest' (atLineStart_of_close hclose))
        rw [hstep, laidText, laidText, hlexeme', List.append_cancel_left_eq, List.append_cancel_left_eq]
        rw [ih hspelled.tail hrest' (by rw [List.map_cons, List.map_cons, hspelling', hearlier])
          (abreast_formatToken earlier tokens.head? s hlexeme (by rw [hsame]; exact hend) hend')]
        exact ⟨fun h => ⟨hat, h⟩, fun h => h.2⟩
      · refine ⟨fun htexts => ?_, fun h => absurd h.1 hat⟩
        rw [SteadyAt] at hat
        push Not at hat
        obtain ⟨previous, hprevious, htwo, hlast, hblank⟩ := hat
        have hstart : s.atLineStart = false := by
          cases hstart : s.atLineStart with
          | false => rfl
          | true =>
            have hone := habreast.atStart hstart previous hprevious
            omega
        obtain ⟨hpending, other, lines, hother, hline, hstop, hlines, hstop'⟩ := habreast.inLine hstart
        obtain rfl : previous = other := Option.mem_unique hprevious hother
        rw [hpending, breaks_nil] at hbegin'
        rw [laidText, laidText, hpending, hlexeme'] at htexts
        exact absurd htexts.symm (not_steady_differs hlexeme hstart (Bool.eq_false_iff.mpr hblank) (by omega)
          (by omega))
/-! ## Correctness -/

/-- The tokens of a text are written as they are laid out. -/
theorem formatTokens_lays {line : Nat} {pieces : List Piece} {tokens : List Token} {diagnostics : Diagnostics}
    (hclean : hasErrors diagnostics = false) (hlines : LinesUp line pieces tokens) (hspelled : Spelled pieces) :
    formatTokens tokens diagnostics = laidText (formatPieces [] [] tokens {}) (ascii "\n") := by
  refine formatTokens_eq hclean fun token htoken => ?_
  have hspelling := List.mem_map_of_mem (f := Token.spelling) htoken
  rw [hlines.written_spellings] at hspelling
  obtain ⟨piece, hpiece, hsame⟩ := List.mem_map.mp hspelling
  have hlexeme : piece.lexeme = token.lexeme := congrArg Prod.snd hsame
  rw [← hlexeme]
  exact ⟨(hspelled piece hpiece).ne_nil, (hspelled piece hpiece).endsInLine⟩

/-- Where nothing is glued, the tokens come back, and are written once more. -/
theorem lex_formatted {pieces : List Piece} {tokens : List Token} (hlines : LinesUp 1 pieces tokens)
    (hspelled : Spelled pieces) (happart : NumbersApart tokens) :
    ∃ again, lex (laidText (formatPieces [] [] tokens {}) (ascii "\n")) = some (again, []) ∧
      again.map Token.spelling = tokens.map Token.spelling ∧
      (formatTokens again [] = laidText (formatPieces [] [] tokens {}) (ascii "\n") ↔ Steady [] tokens {}) := by
  have hlays : Lays (ascii "\n") (formatPieces [] [] tokens {}) :=
    lays_formatPieces hlines hspelled happart allBreaks_nil
  obtain ⟨again, hlex, hagain⟩ := lex_of_lays hlays
  refine ⟨again, hlex, ?_, ?_⟩
  · rw [hagain.spellings, hlines.spellings, spellings_formatPieces, hlines.written_spellings]
  · have hsecond : formatTokens again [] = laidText (formatPieces [] [] again {}) (ascii "\n") :=
      formatTokens_lays rfl hagain hlays.lexeme
    rw [hsecond]
    exact laid_again_iff hlines hspelled hagain rfl (abreast_start 1 1 0)

/-- **The formatter keeps the tokens of a text, and returns what it has returned**, exactly when nothing is glued
    and each iteration is steady. -/
theorem formatted_iff {text : Bytes} {tokens : List Token} {diagnostics : Diagnostics}
    (hlex : lex text = some (tokens, diagnostics)) (hclean : hasErrors diagnostics = false) :
    (∃ again diagnostics', lex (formatTokens tokens diagnostics) = some (again, diagnostics') ∧
        again.map Token.spelling = tokens.map Token.spelling ∧
        formatTokens again diagnostics' = formatTokens tokens diagnostics) ↔
      NumbersApart tokens ∧ Steady [] tokens {} := by
  obtain ⟨pieces, ending, hlays, -, hlines, -⟩ := lays_of_lex hlex hclean
  have hspelled : Spelled pieces := hlays.lexeme
  rw [formatTokens_lays hclean hlines hspelled]
  constructor
  · rintro ⟨again, diagnostics', hlex', hspellings, hsame⟩
    -- nothing is returned where the text has errors
    have hclean' : hasErrors diagnostics' = false := by
      by_contra herrors
      rw [formatTokens, if_pos (Bool.eq_true_of_not_eq_false herrors), laidText_behind] at hsame
      exact absurd hsame.symm (List.append_ne_nil_of_right_ne_nil _ (by decide))
    have hrenders := lex_iff.mp ⟨again, diagnostics', hlex', hclean', hspellings.trans hlines.spellings⟩
    have happart := numbersApart_of_renders hlines hspelled allBreaks_nil hrenders
    obtain ⟨other, hother, -, hsteady⟩ := lex_formatted hlines hspelled happart
    rw [hlex'] at hother
    obtain ⟨rfl, rfl⟩ := Prod.mk.inj (Option.some.inj hother)
    exact ⟨happart, hsteady.mp hsame⟩
  · rintro ⟨happart, hsteady⟩
    obtain ⟨again, hlex', hspellings, hsame⟩ := lex_formatted hlines hspelled happart
    exact ⟨again, [], hlex', hspellings, hsame.mpr hsteady⟩
/-- A text that is formatted twice. -/
theorem exists_formatted {text : Bytes} {keeps stays : Bool}
    (h : (lex text).bind (fun r => (lex (formatTokens r.1 r.2)).map fun r' =>
      (r.2, r'.2, decide (r'.1.map Token.spelling = r.1.map Token.spelling),
        decide (formatTokens r'.1 r'.2 = formatTokens r.1 r.2))) = some ([], [], keeps, stays)) :
    ∃ tokens again, lex text = some (tokens, []) ∧ lex (formatTokens tokens []) = some (again, []) ∧
      (again.map Token.spelling = tokens.map Token.spelling ↔ keeps = true) ∧
      (formatTokens again [] = formatTokens tokens [] ↔ stays = true) := by
  obtain ⟨⟨tokens, diagnostics⟩, hlex, h⟩ := Option.bind_eq_some_iff.mp h
  obtain ⟨⟨again, diagnostics'⟩, hlex', h⟩ := Option.map_eq_some_iff.mp h
  obtain ⟨rfl, h⟩ := Prod.mk.inj h
  obtain ⟨rfl, h⟩ := Prod.mk.inj h
  obtain ⟨rfl, rfl⟩ := Prod.mk.inj h
  exact ⟨tokens, again, hlex, hlex', decide_eq_true_iff.symm, decide_eq_true_iff.symm⟩

/-- An entity is formatted. -/
theorem formatted_entity : ∃ tokens, lex (ascii "entity A {id : string; }") = some (tokens, []) ∧
    NumbersApart tokens ∧ Steady [] tokens {} := by
  obtain ⟨tokens, again, hlex, hlex', hkeeps, hstays⟩ :=
    @exists_formatted (ascii "entity A {id : string; }") true true (by decide +kernel)
  exact ⟨tokens, hlex, (formatted_iff hlex rfl).mp ⟨again, [], hlex', hkeeps.mpr rfl, hstays.mpr rfl⟩⟩

/-- A number, a `.` and digits become one number, and behind a string of two lines comes an empty one. -/
theorem formatted_disagrees :
    (∃ tokens, lex (ascii "5 . 3") = some (tokens, []) ∧
      ∃ again, lex (formatTokens tokens []) = some (again, []) ∧
        again.map Token.spelling ≠ tokens.map Token.spelling) ∧
      ∃ tokens, lex (ascii "\"a\nb\" c") = some (tokens, []) ∧
        ∃ again, lex (formatTokens tokens []) = some (again, []) ∧
          again.map Token.spelling = tokens.map Token.spelling ∧
          formatTokens again [] ≠ formatTokens tokens [] := by
  constructor
  · obtain ⟨tokens, again, hlex, hlex', hkeeps, -⟩ :=
      @exists_formatted (ascii "5 . 3") false true (by decide +kernel)
    exact ⟨tokens, hlex, again, hlex', fun h => Bool.false_ne_true (hkeeps.mp h)⟩
  · obtain ⟨tokens, again, hlex, hlex', hkeeps, hstays⟩ :=
      @exists_formatted (ascii "\"a\nb\" c") true false (by decide +kernel)
    exact ⟨tokens, hlex, again, hlex', hkeeps.mpr rfl, fun h => Bool.false_ne_true (hstays.mp h)⟩

end StateSpec.Compiler
