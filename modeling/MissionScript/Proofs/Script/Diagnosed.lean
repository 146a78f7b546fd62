import MissionScript.Proofs.Script.Pointing
import MissionScript.Script.Check

/-!
# Where diagnostics point

A fault of the lexer is at a line whose indentation fits no block, or at a word that cannot be read
(`Stuck`), and a fault of the parser is where it is known to be. So a diagnostic about a script
names a line of the text and shows that line (`SourceText.program_error`). Its span is in order with
one exception: where it is the span of a token without extent behind the first column, such as an
indentation or the end of a text, it ends in the column in front of the one in which it begins
(`SourceText.unexpected_indent_reversed`).
-/

namespace MissionScript

/-- The lexer cannot go on, for the fault that is told. -/
inductive Stuck : Scan → LexError → Prop
  | margin {layout : Layout} {c : Cursor} {sofar : List Token} {fault : LexFault}
      (hfresh : layout.fresh = true)
      (hindent : indentTo (nextLogicalLine (some 0) c.line c.col c.rest).1 layout.indents =
        .error fault) :
      Stuck ⟨layout, c, sofar⟩
        ⟨fault, .point (nextLogicalLine (some 0) c.line c.col c.rest).2.line
          (nextLogicalLine (some 0) c.line c.col c.rest).2.col⟩
  | word {layout : Layout} {c : Cursor} {sofar : List Token} {x : Char} {cs : List Char}
      {e : LexError} (hc : c.rest = x :: cs) (hscan : scanLexeme x c = .error e) :
      Stuck ⟨layout, c, sofar⟩ e

section Lexer

variable {layout : Layout} {c : Cursor} {sofar : List Token} {e : LexError}

theorem startLine_stuck (h : startLine layout c sofar = .error e) :
    Stuck ⟨layout, c, sofar⟩ e := by
  unfold startLine at h
  split at h
  · rename_i hfresh
    rw [Bool.and_eq_true] at hfresh
    dsimp only at h
    split at h
    · cases h
    · split at h <;> cases h
      exact .margin hfresh.1 ‹_›
  · cases h

theorem scanStep_stuck (h : scanStep layout c sofar = .error e) : Stuck ⟨layout, c, sofar⟩ e := by
  unfold scanStep at h
  split at h
  · cases h
  rename_i x xs hc
  split at h
  · cases h
  split at h
  · split at h <;> cases h
  · split at h <;> cases h
    exact .word hc ‹_›

/-- A reading that fails is turns up to where the lexer is stuck. -/
theorem scanFrom_stuck {steps : Nat} (hlayout : layout.fresh = true → layout.brackets = 0)
    (h : scanFrom steps layout c sofar = .error e) :
    ∃ s, Turns ⟨layout, c, sofar⟩ s ∧ Stuck s e := by
  induction steps generalizing layout c sofar with
  | zero => cases h
  | succ steps ih =>
    unfold scanFrom at h
    split at h
    · cases h
      exact ⟨_, .refl, startLine_stuck ‹_›⟩
    rename_i layout' c' sofar' hstart
    obtain ⟨hbegun, hwithin, -⟩ := startLine_turns hlayout hstart
    have hthere : Turns ⟨layout, c, sofar⟩ ⟨layout', c'.skipWhile isSpace, sofar'⟩ :=
      hbegun.tail (.space hwithin)
    dsimp only at h
    split at h
    · cases h
      exact ⟨_, hthere, scanStep_stuck ‹_›⟩
    · cases h
    · rename_i layout'' c'' sofar'' hstep
      obtain ⟨hturn, hlayout', -⟩ := scanStep_turn hwithin hstep
      obtain ⟨s, hturns, hstuck⟩ := ih hlayout' h
      exact ⟨s, (hthere.tail hturn).trans hturns, hstuck⟩

/-- The fault is at characters of the line from the cursor on. -/
def LexError.Ahead (c : Cursor) (e : LexError) : Prop :=
  ∃ c' : Cursor, e.span = c'.spanFrom c.pos ∧ c'.line = c.line ∧ c.col < c'.col

theorem scanString_ahead {quote : Char} (h : scanString quote c = .error e) : e.Ahead c := by
  unfold scanString at h
  dsimp only at h
  split at h <;> cases h
  refine ⟨_, rfl, rfl, ?_⟩
  simp only [Cursor.skip]
  omega

theorem scanSymbol_ahead {x : Char} (h : scanSymbol x c = .error e) : e.Ahead c := by
  unfold scanSymbol at h
  dsimp only at h
  split at h
  · cases h
  · split at h <;> cases h
    exact ⟨_, rfl, rfl, Nat.lt_succ_self _⟩

theorem scanNumber_ahead {x : Char} {xs : List Char} (hc : c.rest = x :: xs)
    (hx : x.isDigit = true) (h : scanNumber c = .error e) : e.Ahead c := by
  have hdigit : 0 < (c.run Char.isDigit).length := by
    rw [Cursor.run, hc, List.takeWhile_cons_of_pos hx]
    exact Nat.succ_pos _
  unfold scanNumber at h
  dsimp only at h
  repeat' split at h
  all_goals cases h
  all_goals
    refine ⟨_, rfl, rfl, ?_⟩
    simp only [Cursor.skip, Cursor.skipWhile]
    omega

theorem scanLexeme_ahead {x : Char} {xs : List Char} (hc : c.rest = x :: xs)
    (h : scanLexeme x c = .error e) : e.Ahead c := by
  unfold scanLexeme at h
  split at h
  · exact scanString_ahead h
  split at h
  · exact scanNumber_ahead hc ‹_› h
  split at h
  · cases h
  · exact scanSymbol_ahead h

end Lexer

section Texts

variable {text : String}

theorem Stuck.sited {s : Scan} {e : LexError} (h : Stuck s e) (hs : s.Sited text) :
    e.span.Sited text := by
  obtain ⟨commented, read, haccounted⟩ := hs.accounted
  cases h with
  | margin hfresh _ =>
    obtain ⟨commented', read', hpassed, -⟩ := haccounted.atLine hfresh
    exact Span.sited_point hpassed.in
  | word hc hscan =>
    obtain ⟨c', hspan, hline, hcol⟩ := scanLexeme_ahead hc hscan
    rw [hspan]
    exact Span.sited_spanFrom hs.in hline hcol

theorem Token.scan_error_sited {e : LexError} (h : Token.scan text = .error e) :
    e.span.Sited text := by
  obtain ⟨s, hturns, hstuck⟩ := scanFrom_stuck (fun _ => rfl) h
  refine hstuck.sited ?_
  clear hstuck
  induction hturns with
  | refl => exact Scan.sited_start text
  | tail _ hlast ih => exact ih.turn hlast

end Texts

/-- The diagnostic names a line of the source and shows it. Its span has a first and a last place
and is in order, unless it is that of a layout token and ends in the column in front of it. -/
structure Diagnostic.PointsInto (source : SourceText) (d : Diagnostic) : Prop where
  line : 1 ≤ d.span.line ∧ d.span.line ≤ source.lineCount
  shown : source.line? d.span.line = some d.sourceLine
  start : 1 ≤ d.span.start.line ∧ 1 ≤ d.span.start.col
  stop : 1 ≤ d.span.stop.line ∧ 1 ≤ d.span.stop.col
  ordered : d.span.start.le d.span.stop = true ∨
    ∃ ts, source.tokens = .ok ts ∧ ∃ t ∈ ts, t.lexeme.isLayout = true ∧ t.span = d.span ∧
      d.span.start = ⟨d.span.stop.line, d.span.stop.col + 1⟩

section Sources

variable {source : SourceText}

theorem Diagnostic.pointsInto_within {code : Code} {message : String} {span : Span}
    {suggestion : Option String} (hplaced : span.Placed source.text)
    (hordered : span.Ordered ∨
      ∃ ts, source.tokens = .ok ts ∧ ∃ t ∈ ts, t.lexeme.isLayout = true ∧ t.span = span ∧
        span.Reversed) :
    (Diagnostic.within source code message span suggestion).PointsInto source := by
  have hone := hplaced.start.one_le
  obtain ⟨before, rest, htext, hstart⟩ := hplaced.start
  obtain ⟨hcount, line, hline⟩ := SourceText.line?_after htext
  rw [← hstart] at hcount hline
  refine ⟨⟨hone.1, hcount⟩, ?_, hone, hplaced.stop, hordered⟩
  have hshown : source.lineText span.line = line := by
    rw [SourceText.lineText, Span.line, hline, Option.getD_some]
  exact hline.trans (congrArg some hshown.symm)

theorem SourceText.program_error {d : Diagnostic} (h : source.program = .error d) :
    d.PointsInto source := by
  unfold program tokens programOf at h
  rcases hscan : Token.scan source.text with e | ts <;> rw [hscan] at h <;> dsimp only at h
  · have hsited := Token.scan_error_sited hscan
    cases h
    exact Diagnostic.pointsInto_within hsited.placed (.inl hsited.ordered)
  · rcases hparse : Program.ofTokens ts with e | p <;> rw [hparse] at h <;> cases h
    have hknown := Program.ofTokens_known hscan hparse
    have htokens : source.tokens = .ok ts := by rw [tokens, hscan]
    exact Diagnostic.pointsInto_within hknown.placed
      (hknown.ordered.imp_right fun ht => ⟨ts, htokens, ht⟩)

end Sources

/-- A bracket that is never closed, on the second line. -/
theorem SourceText.program_error_bracket :
    ∃ d, SourceText.program ⟨defaultScriptName, "x = 1\ny = (x\n"⟩ = .error d ∧
      d.PointsInto ⟨defaultScriptName, "x = 1\ny = (x\n"⟩ := by
  obtain ⟨d, h⟩ : ∃ d, SourceText.program ⟨defaultScriptName, "x = 1\ny = (x\n"⟩ = .error d :=
    ⟨_, rfl⟩
  exact ⟨d, h, SourceText.program_error h⟩

/-- A line with two blanks too many is refused at a span from its third column to its second. -/
theorem SourceText.unexpected_indent_reversed :
    ∃ d, SourceText.program ⟨defaultScriptName, "  x = 1\n"⟩ = .error d ∧
      d.span = ⟨⟨1, 3⟩, ⟨1, 2⟩⟩ ∧ d.span.start.le d.span.stop = false :=
  ⟨_, rfl, rfl, rfl⟩

end MissionScript
