import MissionScript.Proofs.Script.LogicalLines
import MissionScript.Proofs.Source.Columns

/-!
# Words and what is between them

A text that is read consists of the words of its tokens and of blanks, comments and ends of lines
(`Traced`). The lexer keeps this of what it has passed over, turn by turn, so that it holds of the
whole text (`Token.scan_traced`): no character of the text is lost, and none is read twice.
-/

namespace MissionScript

/-- The span of a word behind the characters `before` of a text. -/
def Span.ofWord (before w : List Char) : Span :=
  ⟨Pos.after before, (Pos.after before).line, (Pos.after before).col + w.length - 1⟩

/-- The characters are words, read as the tokens, and what may stand between words. Whether they end
within a comment is told apart, for a comment goes on to the end of the line. -/
inductive Traced : Bool → List Char → List Token → Prop
  | start : Traced false [] []
  | blank {cs : List Char} {ts : List Token} {x : Char} (h : Traced false cs ts)
      (hx : isSpace x = true) : Traced false (cs ++ [x]) ts
  | newline {commented : Bool} {cs : List Char} {ts : List Token} (h : Traced commented cs ts) :
      Traced false (cs ++ ['\n']) ts
  | hash {cs : List Char} {ts : List Token} (h : Traced false cs ts) : Traced true (cs ++ ['#']) ts
  | comment {cs : List Char} {ts : List Token} {x : Char} (h : Traced true cs ts) (hx : x ≠ '\n') :
      Traced true (cs ++ [x]) ts
  | word {cs w : List Char} {ts : List Token} {l : Lexeme} (h : Traced false cs ts)
      (hw : Cuts w l) : Traced false (cs ++ w) (ts ++ [⟨l, .ofWord cs w⟩])

section Stretches

variable {cs w : List Char} {ts : List Token}

theorem Traced.blanks (h : Traced false cs ts) (hw : ∀ x ∈ w, isSpace x = true) :
    Traced false (cs ++ w) ts := by
  induction w generalizing cs with
  | nil => rwa [List.append_nil]
  | cons x xs ih =>
    rw [List.forall_mem_cons] at hw
    rw [List.append_cons]
    exact ih (h.blank hw.1) hw.2

theorem Traced.comments (h : Traced true cs ts) (hw : ∀ x ∈ w, x ≠ '\n') :
    Traced true (cs ++ w) ts := by
  induction w generalizing cs with
  | nil => rwa [List.append_nil]
  | cons x xs ih =>
    rw [List.forall_mem_cons] at hw
    rw [List.append_cons]
    exact ih (h.comment hw.1) hw.2

end Stretches

/-- The tokens that stand for characters of the text. -/
def wordsOf (ts : List Token) : List Token := ts.filter fun t => !t.lexeme.isLayout

section Words

variable {sofar : List Token}

theorem wordsOf_cons_layout {t : Token} (ht : t.lexeme.isLayout = true) :
    wordsOf (t :: sofar) = wordsOf sofar := by
  simp [wordsOf, ht]

theorem wordsOf_cons_word {t : Token} (ht : t.lexeme.isLayout = false) :
    wordsOf (t :: sofar) = t :: wordsOf sofar := by
  simp [wordsOf, ht]

theorem wordsOf_pushLayout (c : Cursor) {ls : List Lexeme} (hls : ∀ l ∈ ls, l.isLayout = true) :
    wordsOf (pushLayout c ls sofar) = wordsOf sofar := by
  unfold pushLayout
  induction ls generalizing sofar with
  | nil => rfl
  | cons l ls ih =>
    rw [List.forall_mem_cons] at hls
    rw [List.foldl_cons, ih hls.2, wordsOf_cons_layout hls.1]

/-- A text is closed by layout alone. -/
theorem closeText_eq (layout : Layout) (c : Cursor) (sofar : List Token) :
    ∃ ls : List Lexeme, (∀ l ∈ ls, l.isLayout = true) ∧
      closeText layout c sofar = (pushLayout c ls sofar).reverse := by
  refine ⟨_, ?_, rfl⟩
  intro l hl
  rw [List.mem_append, List.mem_append, List.mem_replicate, List.mem_singleton] at hl
  rcases hl with (hl | ⟨-, rfl⟩) | rfl
  · split at hl
    · cases hl
    · split at hl
      · cases hl
      · rw [List.mem_singleton.mp hl]
        rfl
  · rfl
  · rfl

theorem wordsOf_closeText (layout : Layout) (c : Cursor) :
    wordsOf (closeText layout c sofar) = (wordsOf sofar).reverse := by
  obtain ⟨ls, hls, hclose⟩ := closeText_eq layout c sofar
  rw [hclose, wordsOf, List.filter_reverse, ← wordsOf, wordsOf_pushLayout _ hls]

theorem Margin.forall_layout {ls : List Lexeme} (h : Margin ls) : ∀ l ∈ ls, l.isLayout = true := by
  cases h with
  | indent =>
    rintro l (_ | ⟨_, ⟨⟩⟩)
    rfl
  | dedents n =>
    intro l hl
    rw [List.eq_of_mem_replicate hl]
    rfl

end Words

/-- The cursor stands behind the characters `read` of the text, and they are traced. -/
structure Passed (text : String) (c : Cursor) (ts : List Token) (commented : Bool)
    (read : List Char) : Prop where
  text : text.toList = read ++ c.rest
  pos : c.pos = Pos.after read
  traced : Traced commented read ts

section Passing

variable {text : String} {c c' : Cursor} {ts ts' : List Token} {commented commented' : Bool}
  {read w : List Char}

theorem Passed.within (h : Passed text c ts commented read) (hc : c.Within w c')
    (hline : '\n' ∉ w) (htraced : Traced commented' (read ++ w) ts') :
    Passed text c' ts' commented' (read ++ w) := by
  refine ⟨by rw [h.text, hc.rest, List.append_assoc], ?_, htraced⟩
  rw [Pos.after_within hline, ← h.pos, Cursor.pos, hc.line, hc.col]
  rfl

theorem Passed.newline {xs : List Char} {line col : Nat}
    (h : Passed text ⟨'\n' :: xs, line, col⟩ ts commented read) :
    Passed text ⟨xs, line + 1, 1⟩ ts false (read ++ ['\n']) := by
  refine ⟨by rw [h.text, ← List.append_cons], ?_, h.traced.newline⟩
  rw [Pos.after_concat, ← h.pos]
  rfl

/-- Up to the next line that begins, there are blanks, comments and ends of lines. -/
theorem nextLogicalLine_passed (cs : List Char) (width : Option Nat) (line col : Nat)
    {read : List Char} (h : Passed text ⟨cs, line, col⟩ ts width.isNone read) :
    ∃ commented' read', Passed text (nextLogicalLine width line col cs).2 ts commented' read' ∧
      (commented' = true → (nextLogicalLine width line col cs).2.rest = []) := by
  induction cs generalizing width line col read with
  | nil => exact ⟨_, _, h, fun _ => rfl⟩
  | cons x xs ih =>
    unfold nextLogicalLine
    by_cases hnewline : x = '\n'
    · subst hnewline
      rw [if_pos rfl]
      exact ih (some 0) _ _ h.newline
    have hnext {commented'} (htraced : Traced commented' (read ++ [x]) ts) :
        Passed text ⟨xs, line, col + 1⟩ ts commented' (read ++ [x]) :=
      h.within ⟨rfl, rfl, rfl⟩ (by simpa using Ne.symm hnewline) htraced
    rw [if_neg hnewline]
    cases width with
    | none => exact ih none _ _ (hnext (h.traced.comment hnewline))
    | some width =>
      have hblank (hx : isSpace x = true) := hnext (h.traced.blank hx)
      dsimp only
      split
      · exact ih _ _ _ (hblank (by simp [isSpace, *]))
      split
      · exact ih _ _ _ (hblank (by simp [isSpace, *]))
      split
      · exact ih _ _ _ (hblank (by simp [isSpace, *]))
      split
      · rename_i hcomment
        subst hcomment
        exact ih none _ _ (hnext h.traced.hash)
      · exact ⟨_, _, h, fun hcommented => absurd hcommented Bool.false_ne_true⟩

end Passing

/-- What the lexer has passed over is accounted for; a comment is passed over to the end of its
line. -/
structure Accounted (text : String) (s : Scan) (commented : Bool) (read : List Char) : Prop where
  passed : Passed text s.cursor (wordsOf s.sofar).reverse commented read
  within : commented = true → s.layout.fresh = false
  next : commented = true → ∀ x ∈ s.cursor.rest.head?, x = '\n'

section Reading

variable {text : String} {s s' : Scan} {commented : Bool} {read : List Char}

theorem accounted_start (text : String) : Accounted text (.start text) false [] where
  passed := ⟨rfl, rfl, .start⟩
  within := nofun
  next := nofun

/-- In front of anything but the end of a line, no comment is open. -/
theorem Accounted.uncommented (h : Accounted text s commented read) {x : Char} {xs : List Char}
    (hc : s.cursor.rest = x :: xs) (hx : x ≠ '\n') : commented = false := by
  cases commented with
  | false => rfl
  | true => exact absurd (h.next rfl x (by rw [hc]; rfl)) hx

theorem Accounted.atLine (h : Accounted text s commented read) (hfresh : s.layout.fresh = true) :
    ∃ commented' read',
      Passed text (nextLogicalLine (some 0) s.cursor.line s.cursor.col s.cursor.rest).2
        (wordsOf s.sofar).reverse commented' read' ∧
      (commented' = true →
        (nextLogicalLine (some 0) s.cursor.line s.cursor.col s.cursor.rest).2.rest = []) := by
  have huncommented : commented = false := by
    cases commented with
    | false => rfl
    | true => rw [h.within rfl] at hfresh; cases hfresh
  subst huncommented
  exact nextLogicalLine_passed _ (some 0) _ _ h.passed

theorem spanFrom_eq_ofWord {c c' : Cursor} {w : List Char} (hpos : c.pos = Pos.after read)
    (hc : c.Within w c') (hw : 0 < w.length) : c'.spanFrom c.pos = .ofWord read w := by
  have hcol : c.col = (Pos.after read).col := congrArg Pos.col hpos
  have hone := (Pos.one_le_after read).2
  rw [Cursor.spanFrom, Span.ofWord, hpos, hc.line, hc.col, ← hpos]
  have hmax : max (c.col + w.length - 1) 1 = c.col + w.length - 1 := by omega
  rw [hmax]
  rfl

/-- Behind anything but a comment there is nothing more to say. -/
theorem Accounted.of_passed (h : Passed text s.cursor (wordsOf s.sofar).reverse false read) :
    Accounted text s false read where
  passed := h
  within hcommented := absurd hcommented Bool.false_ne_true
  next hcommented := absurd hcommented Bool.false_ne_true

theorem Accounted.turn (h : Accounted text s commented read) (hturn : Turn s s') :
    ∃ commented' read', Accounted text s' commented' read' := by
  have hpassed := h.passed
  cases hturn with
  | ended hfresh hrest =>
    obtain ⟨commented', read', hpassed', -⟩ := h.atLine hfresh
    exact ⟨commented', read', hpassed', fun _ => rfl, fun _ => by simp [hrest]⟩
  | begin hfresh hrest hindent =>
    obtain ⟨commented', read', hpassed', hover⟩ := h.atLine hfresh
    refine ⟨commented', read', ?_, fun _ => rfl, fun hcommented => absurd (hover hcommented) hrest⟩
    rwa [wordsOf_pushLayout _ (margin_of_indentTo hindent).forall_layout]
  | @space layout c sofar hwithin =>
    have hskip := c.within_skipWhile isSpace
    have hspace := run_forall isSpace c
    cases commented with
    | false =>
      exact ⟨false, _, .of_passed (hpassed.within hskip (notMem_of_forall rfl hspace)
        (hpassed.traced.blanks hspace))⟩
    | true =>
      -- the comment has been passed over to the end of its line, where there is no space
      have hrun : c.run isSpace = [] := by
        rcases hrest : c.rest with _ | ⟨x, xs⟩
        · rw [Cursor.run, hrest]
          rfl
        · have hx : x = '\n' := h.next rfl x (congrArg List.head? hrest)
          rw [Cursor.run, hrest, hx]
          rfl
      rw [hrun] at hskip
      have htraced : Traced true (read ++ []) (wordsOf sofar).reverse := by
        simpa using hpassed.traced
      refine ⟨true, _, hpassed.within hskip List.not_mem_nil htraced, fun _ => hwithin,
        fun _ => ?_⟩
      rw [← List.nil_append (c.skipWhile isSpace).rest, ← hskip.rest]
      exact h.next rfl
  | @comment layout c sofar cs hwithin hc =>
    obtain rfl := h.uncommented hc (by decide)
    have hskip := c.within_skipWhile isNotNewline
    have hline := run_forall isNotNewline c
    have hrun : c.run isNotNewline = '#' :: cs.takeWhile isNotNewline := by
      rw [Cursor.run, hc, List.takeWhile_cons_of_pos rfl]
    refine ⟨true, _, hpassed.within hskip (notMem_of_forall rfl hline) ?_, fun _ => hwithin,
      fun _ x hx => ?_⟩
    · rw [hrun] at hline ⊢
      rw [List.append_cons]
      exact hpassed.traced.hash.comments fun x hx =>
        of_decide_eq_true (hline x (List.mem_cons_of_mem _ hx))
    · rw [skipWhile_rest] at hx
      have hstop := List.head?_dropWhile_not isNotNewline c.rest
      rw [hx] at hstop
      simpa [isNotNewline] using hstop
  | @join layout c sofar cs hwithin hc hbrackets =>
    obtain ⟨_, line, col⟩ := c
    cases hc
    exact ⟨false, _, .of_passed hpassed.newline⟩
  | @newline layout c sofar cs hwithin hc =>
    obtain ⟨_, line, col⟩ := c
    cases hc
    refine ⟨false, read ++ ['\n'], .of_passed ?_⟩
    rw [wordsOf_cons_layout rfl]
    exact hpassed.newline
  | @word layout c c' sofar x cs l hwithin hc hscan =>
    obtain ⟨w, hskip, hcuts⟩ := scanLexeme_cuts hc hscan
    obtain ⟨y, ys, rfl, -, -, hnewline⟩ := hcuts.spells.start
    obtain rfl : x = y := by
      rw [hskip.rest] at hc
      exact (List.cons.inj hc).1.symm
    obtain rfl := h.uncommented hc hnewline
    refine ⟨false, _, .of_passed (hpassed.within hskip hcuts.line ?_)⟩
    rw [wordsOf_cons_word (scanLexeme_word hscan), List.reverse_cons,
      spanFrom_eq_ofWord hpassed.pos hskip hcuts.length_pos]
    exact hpassed.traced.word hcuts

end Reading

/-- A text that is read is traced by the tokens that stand for characters of it. -/
theorem Token.scan_traced {text : String} {ts : List Token} (h : Token.scan text = .ok ts) :
    ∃ commented, Traced commented text.toList (wordsOf ts) := by
  obtain ⟨s, ⟨commented, read, haccounted⟩, hover, rfl⟩ :=
    Token.scan_invariant (P := fun s => ∃ commented read, Accounted text s commented read)
      ⟨_, _, accounted_start text⟩ (fun _ _ hturn ⟨_, _, h⟩ => h.turn hturn) h
  have htext := haccounted.passed.text
  rw [hover, List.append_nil] at htext
  rw [htext, wordsOf_closeText]
  exact ⟨commented, haccounted.passed.traced⟩

end MissionScript
