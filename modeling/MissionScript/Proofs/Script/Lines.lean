import MissionScript.Script.Lexer

/-!
# How tokens are laid out

Every token list that a text is read as consists of lines, each of at least one word and with an
end; a block opens and closes between two lines, and a word follows its opening; all blocks are
closed before the end (`Laid`). The invariant of the reading (`Readied`) says what may still come:
whatever is laid out from here on completes what there is so far.
-/

namespace MissionScript

/-- The lexemes are laid out, from the start of a line if `fresh` and from behind a word otherwise,
with `open_` blocks open. -/
inductive Laid : Bool → Nat → List Lexeme → Prop
  | eof : Laid true 0 [.eof]
  | dedent {open_ : Nat} {ls : List Lexeme} :
      Laid true open_ ls → Laid true (open_ + 1) (.dedent :: ls)
  | indent {open_ : Nat} {l : Lexeme} {ls : List Lexeme} :
      l.isLayout = false → Laid false (open_ + 1) ls → Laid true open_ (.indent :: l :: ls)
  | word {fresh : Bool} {open_ : Nat} {l : Lexeme} {ls : List Lexeme} :
      l.isLayout = false → Laid false open_ ls → Laid fresh open_ (l :: ls)
  | newline {open_ : Nat} {ls : List Lexeme} :
      Laid true open_ ls → Laid false open_ (.newline :: ls)

theorem Laid.dedents {open_ n : Nat} {ls : List Lexeme} (h : Laid true open_ ls) :
    Laid true (open_ + n) (List.replicate n .dedent ++ ls) := by
  induction n with
  | zero => exact h
  | succ n ih => exact ih.dedent

theorem Laid.getLast?_eq {fresh : Bool} {open_ : Nat} {ls : List Lexeme} (h : Laid fresh open_ ls) :
    ls.getLast? = some .eof := by
  induction h with
  | eof => rfl
  | dedent _ ih | word _ _ ih | newline _ ih => rw [List.getLast?_cons, ih]; rfl
  | indent _ _ ih => rw [List.getLast?_cons, List.getLast?_cons, ih]; rfl

section Words

variable {c c' : Cursor} {l : Lexeme}

theorem scanNumber_word (h : scanNumber c = .ok (l, c')) : l.isLayout = false := by
  unfold scanNumber at h
  dsimp only at h
  repeat' split at h
  all_goals cases h
  · rfl
  all_goals
    rename_i hint
    split at hint <;> cases hint
    rfl

theorem scanLexeme_word {x : Char} (h : scanLexeme x c = .ok (l, c')) : l.isLayout = false := by
  unfold scanLexeme at h
  split at h
  · unfold scanString at h
    dsimp only at h
    split at h <;> cases h
    rfl
  split at h
  · exact scanNumber_word h
  split at h
  · unfold scanName at h
    dsimp only at h
    cases h
    split <;> rfl
  · unfold scanSymbol at h
    dsimp only at h
    split at h
    · cases h
      rfl
    · split at h <;> cases h
      rfl

end Words

/-- Whatever is laid out from here on completes the tokens so far. -/
def Opens (fresh : Bool) (open_ : Nat) (sofar : List Token) : Prop :=
  ∀ ls, Laid fresh open_ ls → Laid true 0 ((sofar.map (·.lexeme)).reverse ++ ls)

/-- A word may come next, and then what is laid out behind it. -/
def OpensWord (open_ : Nat) (sofar : List Token) : Prop :=
  ∀ l, l.isLayout = false → ∀ span, Opens false open_ (⟨l, span⟩ :: sofar)

section Opening

variable {fresh : Bool} {open_ n : Nat} {sofar : List Token}

theorem opens_start : Opens true 0 [] := fun _ h => h

theorem Opens.word (h : Opens fresh open_ sofar) : OpensWord open_ sofar := by
  intro l hl span ls hls
  simpa using h _ (.word hl hls)

theorem Opens.newline (h : Opens false open_ sofar) (span : Span) :
    Opens true open_ (⟨.newline, span⟩ :: sofar) := by
  intro ls hls
  simpa using h _ (.newline hls)

theorem Opens.indent (h : Opens true open_ sofar) (c : Cursor) :
    OpensWord (open_ + 1) (pushLayout c [.indent] sofar) := by
  intro l hl span ls hls
  simpa [pushLayout] using h _ (.indent hl hls)

theorem lexemes_pushLayout (c : Cursor) (ls : List Lexeme) (sofar : List Token) :
    ((pushLayout c ls sofar).map (·.lexeme)).reverse = (sofar.map (·.lexeme)).reverse ++ ls := by
  unfold pushLayout
  induction ls generalizing sofar with
  | nil => simp
  | cons l ls ih => rw [List.foldl_cons, ih]; simp

theorem Opens.dedents (h : Opens true (open_ + n) sofar) (c : Cursor) :
    Opens true open_ (pushLayout c (List.replicate n .dedent) sofar) := by
  intro ls hls
  rw [lexemes_pushLayout, List.append_assoc]
  exact h _ hls.dedents

end Opening

/-- Where the tokens so far stop: at the start of a line or behind a word. -/
structure Readied (fresh : Bool) (open_ : Nat) (sofar : List Token) : Prop where
  opens : Opens fresh open_ sofar
  last : if fresh then ∀ t ∈ sofar.head?, t.lexeme = .newline
    else ∃ t ∈ sofar.head?, t.lexeme.isLayout = false

/-- A text that ends behind the end of a line gets no other. -/
theorem lexemes_closeText_between {layout : Layout} {c : Cursor} {sofar : List Token}
    (h : ∀ t ∈ sofar.head?, t.lexeme = .newline) :
    (closeText layout c sofar).map (·.lexeme) = (sofar.map (·.lexeme)).reverse ++
      List.replicate layout.indents.length .dedent ++ [.eof] := by
  unfold closeText
  rw [List.map_reverse, lexemes_pushLayout]
  split
  · simp
  · rename_i t ht
    rw [if_pos (by simp [h t ht])]
    simp

/-- A text that ends within a line gets the end of the line. -/
theorem lexemes_closeText_within {layout : Layout} {c : Cursor} {sofar : List Token} {t : Token}
    (ht : sofar.head? = some t) (hword : t.lexeme.isLayout = false) :
    (closeText layout c sofar).map (·.lexeme) = (sofar.map (·.lexeme)).reverse ++ [.newline] ++
      List.replicate layout.indents.length .dedent ++ [.eof] := by
  have hne : ¬(t.lexeme = .newline ∨ t.lexeme = .dedent) := by
    rintro (h | h) <;> rw [h] at hword <;> cases hword
  unfold closeText
  rw [List.map_reverse, lexemes_pushLayout, ht]
  simp [hne]

theorem closeText_laid {fresh : Bool} {layout : Layout} {sofar : List Token} (c : Cursor)
    (h : Readied fresh layout.indents.length sofar) :
    Laid true 0 ((closeText layout c sofar).map (·.lexeme)) := by
  have hall :
    Laid true layout.indents.length (List.replicate layout.indents.length .dedent ++ [.eof]) := by
    simpa using Laid.eof.dedents (n := layout.indents.length)
  have hlast := h.last
  cases fresh with
  | true =>
    rw [lexemes_closeText_between hlast, List.append_assoc]
    exact h.opens _ hall
  | false =>
    obtain ⟨t, ht, hword⟩ := hlast
    rw [lexemes_closeText_within ht hword, List.append_assoc, List.append_assoc]
    exact h.opens _ (.newline hall)

section Steps

variable {layout layout' : Layout} {c c' : Cursor} {sofar sofar' : List Token}

/-- Where a line begins that is neither blank nor a comment. -/
theorem nextLogicalLine_rest (cs : List Char) (width : Option Nat) (line col : Nat) {x : Char}
    {xs : List Char} (h : (nextLogicalLine width line col cs).2.rest = x :: xs) :
    isSpace x = false ∧ x ≠ '\n' ∧ x ≠ '#' := by
  induction cs generalizing width line col with
  | nil => cases h
  | cons y ys ih =>
    unfold nextLogicalLine at h
    repeat' split at h
    all_goals first | exact ih _ _ _ h | skip
    cases h
    simp_all [isSpace]

theorem closeBlocks_length (width : Nat) (ws : Indents) :
    (closeBlocks width ws).2.length + (closeBlocks width ws).1 = ws.length := by
  induction ws with
  | nil => rfl
  | cons w ws ih =>
    unfold closeBlocks
    split
    · rw [List.length_cons, ← ih, Nat.add_assoc]
    · rfl

theorem Opens.indentTo {width : Nat} {ws ws' : Indents} {ls : List Lexeme}
    (h : Opens true ws.length sofar) (hindent : indentTo width ws = .ok (ls, ws')) :
    OpensWord ws'.length (pushLayout c ls sofar) := by
  unfold MissionScript.indentTo at hindent
  split at hindent
  · cases hindent
    exact h.indent c
  · dsimp only at hindent
    split at hindent <;> cases hindent
    rw [← closeBlocks_length width ws] at h
    exact (h.dedents c).word

/-- The reading goes on between two tokens, outside of brackets if a line starts here. -/
structure Underway (layout : Layout) (sofar : List Token) : Prop where
  readied : Readied layout.fresh layout.indents.length sofar
  unbracketed : layout.fresh = true → layout.brackets = 0

/-- After the layout at the start of a line, only a word can come. -/
structure Indented (layout : Layout) (c : Cursor) (sofar : List Token) : Prop where
  opens : OpensWord layout.indents.length sofar
  fresh : layout.fresh = false
  word {x : Char} {xs : List Char} : c.rest = x :: xs → isSpace x = false ∧ x ≠ '\n' ∧ x ≠ '#'
  rest : c.rest ≠ []

theorem Readied.next {open_ : Nat} {l : Lexeme} (h : OpensWord open_ sofar)
    (hl : l.isLayout = false) (span : Span) : Readied false open_ (⟨l, span⟩ :: sofar) :=
  ⟨h l hl span, ⟨l, span⟩, rfl, hl⟩

/-- At the start of a line, the text is over or a word is at hand; behind a word nothing happens. -/
theorem startLine_cases (h : Underway layout sofar)
    (hstart : startLine layout c sofar = .ok (layout', c', sofar')) :
    (Readied layout.fresh layout'.indents.length sofar' ∧ c'.rest = [] ∧ layout'.fresh = false) ∨
      Indented layout' c' sofar' ∨
      (layout.fresh = false ∧ layout' = layout ∧ c' = c ∧ sofar' = sofar) := by
  unfold startLine at hstart
  split at hstart
  · dsimp only at hstart
    split at hstart
    · rename_i hfresh hempty
      cases hstart
      exact .inl ⟨h.readied, by simpa using hempty, rfl⟩
    · rename_i hfresh hrest
      split at hstart <;> cases hstart
      rename_i hindent
      simp only [Bool.and_eq_true, decide_eq_true_eq] at hfresh
      refine .inr (.inl ⟨(hfresh.1 ▸ h.readied.opens).indentTo hindent, rfl, ?_,
        by simpa using hrest⟩)
      exact nextLogicalLine_rest _ _ _ _
  · rename_i hfresh
    cases hstart
    refine .inr (.inr ⟨?_, rfl, rfl, rfl⟩)
    rcases hf : layout.fresh with _ | _
    · rfl
    · simp [hf, h.unbracketed hf] at hfresh

theorem after_indents (layout : Layout) (l : Lexeme) :
    (layout.after l).indents = layout.indents ∧ (layout.after l).fresh = layout.fresh := by
  unfold Layout.after
  repeat' split
  all_goals exact ⟨rfl, rfl⟩

/-- Where a word is at hand, it is read. -/
theorem scanStep_word (h : OpensWord layout.indents.length sofar) (hfresh : layout.fresh = false)
    {x : Char} {xs : List Char} (hrest : c.rest = x :: xs) (hcomment : x ≠ '#')
    (hnewline : x ≠ '\n') {next : Option (Layout × Cursor × List Token)}
    (hstep : scanStep layout c sofar = .ok next) :
    ∃ layout' c' sofar', next = some (layout', c', sofar') ∧ Underway layout' sofar' := by
  unfold scanStep at hstep
  rw [hrest] at hstep
  simp only [if_neg hcomment, if_neg hnewline] at hstep
  split at hstep <;> cases hstep
  rename_i l c' hscan
  obtain ⟨hindents, hfresh'⟩ := after_indents layout l
  refine ⟨_, _, _, rfl, ?_, by simp [hfresh', hfresh]⟩
  rw [hfresh', hfresh, hindents]
  exact .next h (scanLexeme_word hscan) _

/-- Behind a word, a line may end and another word may come. -/
theorem scanStep_readied (h : Readied false layout.indents.length sofar)
    (hfresh : layout.fresh = false)
    (hstep : scanStep layout c sofar = .ok (some (layout', c', sofar'))) :
    Underway layout' sofar' := by
  have hsame : Underway layout sofar := ⟨hfresh ▸ h, by simp [hfresh]⟩
  rcases hrest : c.rest with _ | ⟨x, xs⟩
  · rw [scanStep, hrest] at hstep
    cases hstep
  by_cases hcomment : x = '#'
  · simp only [scanStep, hrest, if_pos hcomment] at hstep
    cases hstep
    exact hsame
  by_cases hnewline : x = '\n'
  · simp only [scanStep, hrest, if_neg hcomment, if_pos hnewline] at hstep
    split at hstep <;> cases hstep
    · rename_i hbrackets
      refine ⟨⟨h.opens.newline _, ?_⟩, fun _ => hbrackets⟩
      simp
    · exact hsame
  · obtain ⟨layout', c', sofar', heq, hnext⟩ :=
      scanStep_word h.opens.word hfresh hrest hcomment hnewline hstep
    cases heq
    exact hnext

theorem skipWhile_rest (p : Char → Bool) (c : Cursor) :
    (c.skipWhile p).rest = c.rest.dropWhile p := by
  have hsplit := @List.drop_left _ (c.rest.takeWhile p) (c.rest.dropWhile p)
  rwa [List.takeWhile_append_dropWhile] at hsplit

/-- What is read is laid out, wherever the reading stands. -/
theorem scanFrom_laid (steps : Nat) {ts : List Token} (h : Underway layout sofar)
    (hscan : scanFrom steps layout c sofar = .ok ts) : Laid true 0 (ts.map (·.lexeme)) := by
  induction steps generalizing layout c sofar with
  | zero =>
    cases hscan
    exact closeText_laid c h.readied
  | succ steps ih =>
    unfold scanFrom at hscan
    split at hscan
    · cases hscan
    rename_i layout' c' sofar' hstart
    dsimp only at hscan
    -- the text is over, or a word is at hand, or the reading stands behind one
    rcases startLine_cases h hstart with ⟨hreadied, hover, hfresh⟩ | hword | ⟨hfresh, rfl, rfl, rfl⟩
    · have hstep : scanStep layout' (c'.skipWhile isSpace) sofar' = .ok none := by
        rw [scanStep, skipWhile_rest, hover]
        rfl
      rw [hstep] at hscan
      cases hscan
      exact closeText_laid _ hreadied
    · obtain ⟨x, xs, hrest⟩ := List.exists_cons_of_ne_nil hword.rest
      obtain ⟨hspace, hnewline, hcomment⟩ := hword.word hrest
      have hhere : (c'.skipWhile isSpace).rest = x :: xs := by
        rw [skipWhile_rest, hrest, List.dropWhile_cons_of_neg (by simp [hspace])]
      split at hscan
      · cases hscan
      all_goals
        rename_i hstep
        obtain ⟨layout'', c'', sofar'', heq, hnext⟩ :=
          scanStep_word hword.opens hword.fresh hhere hcomment hnewline hstep
        cases heq
      exact ih hnext hscan
    · have hreadied : Readied false layout'.indents.length sofar' := hfresh ▸ h.readied
      split at hscan
      · cases hscan
      · cases hscan
        exact closeText_laid _ hreadied
      · rename_i hstep
        exact ih (scanStep_readied hreadied hfresh hstep) hscan

end Steps

theorem Token.scan_laid {text : String} {ts : List Token} (h : Token.scan text = .ok ts) :
    Laid true 0 (ts.map (·.lexeme)) :=
  scanFrom_laid _ ⟨⟨opens_start, by simp [Layout.start]⟩, fun _ => rfl⟩ h

end MissionScript
