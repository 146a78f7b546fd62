import Mathlib.Logic.Relation
import MissionScript.Proofs.Script.Munch

/-!
# The lexer turn by turn

Between two tokens the lexer opens or closes blocks at the start of a line, passes over space or a
comment, ends a line, or reads a word (`Turn`). The reading of a text is a sequence of such turns
up to the end of the text, where it is closed, and the steps the lexer is given are enough for it
(`Token.scan_turns`). So what every turn keeps holds at the end of every text
(`Token.scan_invariant`).
-/

namespace MissionScript

/-- Where the lexer stands, with the tokens so far, the last one first. -/
structure Scan where
  layout : Layout
  cursor : Cursor
  sofar : List Token

def Scan.start (text : String) : Scan := ⟨.start, .ofText text, []⟩

/-- What the lexer does between two tokens: at the start of a line it looks for the next one that is
neither blank nor a comment, and within a line it goes on. -/
inductive Turn : Scan → Scan → Prop
  /-- Nothing but blank lines and comments is left. -/
  | ended {layout : Layout} {c : Cursor} {sofar : List Token} (hfresh : layout.fresh = true)
      (hrest : (nextLogicalLine (some 0) c.line c.col c.rest).2.rest = []) :
      Turn ⟨layout, c, sofar⟩
        ⟨{ layout with fresh := false }, (nextLogicalLine (some 0) c.line c.col c.rest).2, sofar⟩
  | begin {layout : Layout} {c : Cursor} {sofar : List Token} {ls : List Lexeme}
      {indents : Indents} (hfresh : layout.fresh = true)
      (hrest : (nextLogicalLine (some 0) c.line c.col c.rest).2.rest ≠ [])
      (hindent : indentTo (nextLogicalLine (some 0) c.line c.col c.rest).1 layout.indents =
        .ok (ls, indents)) :
      Turn ⟨layout, c, sofar⟩
        ⟨{ layout with indents := indents, fresh := false },
          (nextLogicalLine (some 0) c.line c.col c.rest).2,
          pushLayout (nextLogicalLine (some 0) c.line c.col c.rest).2 ls sofar⟩
  | space {layout : Layout} {c : Cursor} {sofar : List Token} (hwithin : layout.fresh = false) :
      Turn ⟨layout, c, sofar⟩ ⟨layout, c.skipWhile isSpace, sofar⟩
  | comment {layout : Layout} {c : Cursor} {sofar : List Token} {cs : List Char}
      (hwithin : layout.fresh = false) (hc : c.rest = '#' :: cs) :
      Turn ⟨layout, c, sofar⟩ ⟨layout, c.skipWhile isNotNewline, sofar⟩
  /-- Between brackets a line does not end. -/
  | join {layout : Layout} {c : Cursor} {sofar : List Token} {cs : List Char}
      (hwithin : layout.fresh = false) (hc : c.rest = '\n' :: cs)
      (hbrackets : layout.brackets ≠ 0) :
      Turn ⟨layout, c, sofar⟩ ⟨layout, c.advance, sofar⟩
  | newline {layout : Layout} {c : Cursor} {sofar : List Token} {cs : List Char}
      (hwithin : layout.fresh = false) (hc : c.rest = '\n' :: cs) :
      Turn ⟨layout, c, sofar⟩
        ⟨{ layout with fresh := true }, c.advance, ⟨.newline, c.advance.spanFrom c.pos⟩ :: sofar⟩
  | word {layout : Layout} {c c' : Cursor} {sofar : List Token} {x : Char} {cs : List Char}
      {l : Lexeme} (hwithin : layout.fresh = false) (hc : c.rest = x :: cs)
      (hscan : scanLexeme x c = .ok (l, c')) :
      Turn ⟨layout, c, sofar⟩ ⟨layout.after l, c', ⟨l, c'.spanFrom c.pos⟩ :: sofar⟩

/-- The second place is reached from the first by turns of the lexer. -/
abbrev Turns : Scan → Scan → Prop := Relation.ReflTransGen Turn

theorem nextLogicalLine_suffix (cs : List Char) (width : Option Nat) (line col : Nat) :
    (nextLogicalLine width line col cs).2.rest <:+ cs := by
  induction cs generalizing width line col with
  | nil => exact List.suffix_rfl
  | cons x xs ih =>
    unfold nextLogicalLine
    repeat' split
    all_goals first | exact (ih _ _ _).trans (List.suffix_cons x xs) | exact List.suffix_rfl

theorem Cuts.length_pos {w : List Char} {l : Lexeme} (h : Cuts w l) : 0 < w.length := by
  obtain ⟨x, xs, rfl, -⟩ := h.spells.start
  exact Nat.succ_pos _

section Steps

variable {layout layout' : Layout} {c c' : Cursor} {sofar sofar' : List Token}

theorem startLine_turns (hlayout : layout.fresh = true → layout.brackets = 0)
    (h : startLine layout c sofar = .ok (layout', c', sofar')) :
    Turns ⟨layout, c, sofar⟩ ⟨layout', c', sofar'⟩ ∧ layout'.fresh = false ∧
      c'.rest.length ≤ c.rest.length := by
  have hsuffix := (nextLogicalLine_suffix c.rest (some 0) c.line c.col).length_le
  unfold startLine at h
  split at h
  · rename_i hfresh
    rw [Bool.and_eq_true] at hfresh
    dsimp only at h
    split at h
    · rename_i hempty
      cases h
      exact ⟨.single (.ended hfresh.1 (List.isEmpty_iff.mp hempty)), rfl, hsuffix⟩
    · rename_i hrest
      split at h <;> cases h
      rename_i hindent
      exact ⟨.single (.begin hfresh.1 (mt List.isEmpty_iff.mpr hrest) hindent), rfl, hsuffix⟩
  · rename_i hwithin
    cases h
    refine ⟨.refl, ?_, Nat.le_refl _⟩
    cases hfresh : layout.fresh with
    | false => rfl
    | true => simp [hfresh, hlayout hfresh] at hwithin

theorem scanStep_turn (hwithin : layout.fresh = false)
    (h : scanStep layout c sofar = .ok (some (layout', c', sofar'))) :
    Turn ⟨layout, c, sofar⟩ ⟨layout', c', sofar'⟩ ∧
      (layout'.fresh = true → layout'.brackets = 0) ∧ c'.rest.length < c.rest.length := by
  unfold scanStep at h
  split at h
  · cases h
  rename_i x xs hc
  split at h
  · rename_i hcomment
    subst hcomment
    cases h
    refine ⟨.comment hwithin hc, by simp [hwithin], ?_⟩
    rw [skipWhile_rest, hc, List.dropWhile_cons_of_pos rfl]
    exact Nat.lt_succ_of_le (List.dropWhile_suffix _).length_le
  split at h
  · rename_i hnewline
    subst hnewline
    have hshorter : c.advance.rest.length < c.rest.length := by simp [Cursor.advance, hc]
    split at h <;> cases h
    · exact ⟨.newline hwithin hc, fun _ => ‹_›, hshorter⟩
    · exact ⟨.join hwithin hc ‹_›, by simp [hwithin], hshorter⟩
  · split at h <;> cases h
    rename_i l hscan
    refine ⟨.word hwithin hc hscan, by simp [(after_indents layout l).2, hwithin], ?_⟩
    obtain ⟨w, hw, hcuts⟩ := scanLexeme_cuts hc hscan
    have hpos := hcuts.length_pos
    rw [hw.rest, List.length_append]
    omega

theorem scanStep_none (h : scanStep layout c sofar = .ok none) : c.rest = [] := by
  unfold scanStep at h
  split at h
  · assumption
  · repeat' split at h
    all_goals cases h

/-- With more steps than characters, the reading is turns to the end of the text. -/
theorem scanFrom_turns {steps : Nat} {ts : List Token} (hsteps : c.rest.length < steps)
    (hlayout : layout.fresh = true → layout.brackets = 0)
    (h : scanFrom steps layout c sofar = .ok ts) :
    ∃ s, Turns ⟨layout, c, sofar⟩ s ∧ s.cursor.rest = [] ∧
      ts = closeText s.layout s.cursor s.sofar := by
  induction steps generalizing layout c sofar with
  | zero => exact absurd hsteps (Nat.not_lt_zero _)
  | succ steps ih =>
    unfold scanFrom at h
    split at h
    · cases h
    rename_i layout' c' sofar' hstart
    obtain ⟨hbegun, hwithin, hline⟩ := startLine_turns hlayout hstart
    have hthere : Turns ⟨layout, c, sofar⟩ ⟨layout', c'.skipWhile isSpace, sofar'⟩ :=
      hbegun.tail (.space hwithin)
    dsimp only at h
    split at h
    · cases h
    · rename_i hstep
      cases h
      exact ⟨_, hthere, scanStep_none hstep, rfl⟩
    · rename_i layout'' c'' sofar'' hstep
      obtain ⟨hturn, hlayout', hshorter⟩ := scanStep_turn hwithin hstep
      have hspace := (List.dropWhile_suffix (l := c'.rest) isSpace).length_le
      rw [skipWhile_rest] at hshorter
      obtain ⟨s, hturns, hrest, hts⟩ := ih (by omega) hlayout' h
      exact ⟨s, (hthere.tail hturn).trans hturns, hrest, hts⟩

end Steps

section Texts

variable {text : String} {ts : List Token}

/-- The tokens of a text are those at the end of the text, with the text closed. -/
theorem Token.scan_turns (h : Token.scan text = .ok ts) :
    ∃ s, Turns (.start text) s ∧ s.cursor.rest = [] ∧
      ts = closeText s.layout s.cursor s.sofar :=
  scanFrom_turns (Nat.lt_succ_self _) (fun _ => rfl) h

/-- What holds at the start and is kept by every turn holds at the end. -/
theorem Token.scan_invariant {P : Scan → Prop} (hstart : P (.start text))
    (hturn : ∀ s s', Turn s s' → P s → P s') (h : Token.scan text = .ok ts) :
    ∃ s, P s ∧ s.cursor.rest = [] ∧ ts = closeText s.layout s.cursor s.sofar := by
  obtain ⟨s, hturns, hrest, hts⟩ := Token.scan_turns h
  refine ⟨s, ?_, hrest, hts⟩
  clear hrest hts
  induction hturns with
  | refl => exact hstart
  | tail _ hlast ih => exact hturn _ _ hlast ih

end Texts

end MissionScript
