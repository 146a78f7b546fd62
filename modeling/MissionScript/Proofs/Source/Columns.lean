import MissionScript.Source.Span
import MissionScript.Source.Text

/-!
# Places of characters

Reading a text puts each character at a place (`Pos.after`), further on than all before it. The line
of that place, as the text gives it, has the character in that column: what stands within one line
of the text is found in the line by its columns (`SourceText.line?_at`).
-/

namespace MissionScript

namespace Pos

/-- The place behind a character at `p`. -/
def past (p : Pos) (x : Char) : Pos :=
  if x = '\n' then ⟨p.line + 1, 1⟩ else ⟨p.line, p.col + 1⟩

/-- The place behind the characters at the start of a text. -/
def after (cs : List Char) : Pos := cs.foldl past ⟨1, 1⟩

/-- Further up, or on the same line and further left. -/
def Before (p q : Pos) : Prop := p.line < q.line ∨ p.line = q.line ∧ p.col < q.col

variable {p q r : Pos}

theorem Before.trans (h : p.Before q) (h' : q.Before r) : p.Before r := by
  unfold Before at *
  omega

theorem not_le_of_before (h : p.Before q) : q.le p = false := by
  unfold Before at h
  simp only [le, Bool.or_eq_false_iff, decide_eq_false_iff_not, Bool.and_eq_false_iff]
  omega

theorem before_past (p : Pos) (x : Char) : p.Before (p.past x) := by
  unfold past Before
  split
  · exact .inl (Nat.lt_succ_self _)
  · exact .inr ⟨rfl, Nat.lt_succ_self _⟩

theorem after_append (before cs : List Char) :
    after (before ++ cs) = cs.foldl past (after before) :=
  List.foldl_append

theorem after_concat (cs : List Char) (x : Char) : after (cs ++ [x]) = (after cs).past x :=
  after_append cs [x]

/-- Within a line only the column grows. -/
theorem foldl_past {w : List Char} (hline : '\n' ∉ w) (p : Pos) :
    w.foldl past p = ⟨p.line, p.col + w.length⟩ := by
  induction w generalizing p with
  | nil => rfl
  | cons x xs ih =>
    rw [List.mem_cons, not_or] at hline
    rw [List.foldl_cons, ih hline.2, past, if_neg (Ne.symm hline.1), List.length_cons,
      Nat.add_assoc, Nat.add_comm 1]

theorem after_within {w : List Char} (hline : '\n' ∉ w) (before : List Char) :
    after (before ++ w) = ⟨(after before).line, (after before).col + w.length⟩ := by
  rw [after_append, foldl_past hline]

/-- A place of a text is before every later one. -/
theorem after_before (cs : List Char) {ds : List Char} (hne : ds ≠ []) :
    (after cs).Before (after (cs ++ ds)) := by
  induction ds generalizing cs with
  | nil => exact absurd rfl hne
  | cons x xs ih =>
    have hnext : (after cs).Before (after (cs ++ [x])) := by
      rw [after_concat]
      exact before_past _ _
    rcases xs with _ | ⟨y, ys⟩
    · exact hnext
    · rw [List.append_cons]
      exact hnext.trans (ih _ (List.cons_ne_nil _ _))

theorem one_le_foldl_past (cs : List Char) (hp : 1 ≤ p.line ∧ 1 ≤ p.col) :
    1 ≤ (cs.foldl past p).line ∧ 1 ≤ (cs.foldl past p).col := by
  induction cs generalizing p with
  | nil => exact hp
  | cons x xs ih =>
    refine ih ?_
    unfold past
    split
    · exact ⟨Nat.le_succ_of_le hp.1, Nat.le_refl _⟩
    · exact ⟨hp.1, Nat.le_succ_of_le hp.2⟩

theorem one_le_after (cs : List Char) : 1 ≤ (after cs).line ∧ 1 ≤ (after cs).col :=
  one_le_foldl_past cs ⟨Nat.le_refl _, Nat.le_refl _⟩

end Pos

section Lines

theorem linesFrom_within {w : List Char} (hline : '\n' ∉ w) (sofar rest : List Char) :
    linesFrom sofar (w ++ rest) = linesFrom (w.reverse ++ sofar) rest := by
  induction w generalizing sofar with
  | nil => rfl
  | cons x xs ih =>
    rw [List.mem_cons, not_or] at hline
    rw [List.cons_append, linesFrom, if_neg (Ne.symm hline.1), ih hline.2, List.reverse_cons,
      List.append_assoc, List.singleton_append]

/-- The first line begins with the characters it has so far. -/
theorem linesFrom_head (sofar cs : List Char) :
    ∃ tail, (linesFrom sofar cs)[0]? = some (sofar.reverse ++ tail) := by
  induction cs generalizing sofar with
  | nil => exact ⟨[], by simp [linesFrom]⟩
  | cons x xs ih =>
    unfold linesFrom
    split
    · exact ⟨[], by simp⟩
    · obtain ⟨tail, htail⟩ := ih (x :: sofar)
      exact ⟨x :: tail, by simpa using htail⟩

/-- Behind some characters, as many lines are over as the place says, and the line so far has as
many characters as the column says. -/
theorem linesFrom_append (before rest sofar : List Char) {p : Pos}
    (hp : p.col = sofar.length + 1) :
    ∃ above here, linesFrom sofar (before ++ rest) = above ++ linesFrom here rest ∧
      (before.foldl Pos.past p).line = p.line + above.length ∧
      (before.foldl Pos.past p).col = here.length + 1 := by
  induction before generalizing sofar p with
  | nil => exact ⟨[], sofar, rfl, rfl, hp⟩
  | cons x xs ih =>
    rw [List.foldl_cons, List.cons_append, linesFrom, Pos.past]
    by_cases hx : x = '\n'
    · rw [if_pos hx, if_pos hx]
      obtain ⟨above, here, hlines, hline, hcol⟩ := ih [] (p := ⟨p.line + 1, 1⟩) rfl
      refine ⟨sofar.reverse :: above, here, by rw [hlines, List.cons_append], ?_, hcol⟩
      rw [hline, List.length_cons, Nat.add_assoc, Nat.add_comm 1]
    · rw [if_neg hx, if_neg hx]
      exact ih (x :: sofar) (p := ⟨p.line, p.col + 1⟩) (by rw [List.length_cons, hp])

end Lines

namespace SourceText

theorem withoutReturns_append {cs : List Char} (h : cs.getLast? ≠ some '\r') (tail : List Char) :
    withoutReturns (cs ++ tail) = cs ++ withoutReturns tail := by
  have hstop : cs.reverse.dropWhile (· = '\r') = cs.reverse := by
    rcases List.eq_nil_or_concat cs with rfl | ⟨init, x, rfl⟩
    · rfl
    · rw [List.concat_eq_append, List.getLast?_concat] at h
      rw [List.concat_eq_append, List.reverse_concat, List.dropWhile_cons_of_neg (by simpa using h)]
  unfold withoutReturns
  rw [List.reverse_append, List.dropWhile_append, hstop]
  split
  · rename_i hempty
    rw [List.isEmpty_iff.mp hempty, List.reverse_reverse, List.reverse_nil, List.append_nil]
  · rw [List.reverse_append, List.reverse_reverse]

section Places

variable {source : SourceText} {before rest : List Char}

/-- Behind some characters of a text, the lines above and the line so far are over. -/
theorem lines_after (htext : source.text.toList = before ++ rest) :
    ∃ above here, source.lines = above ++ linesFrom here rest ∧
      (Pos.after before).line = above.length + 1 ∧ (Pos.after before).col = here.length + 1 := by
  obtain ⟨above, here, hlines, hover, hcol⟩ := linesFrom_append before rest [] (p := ⟨1, 1⟩) rfl
  refine ⟨above, here, by rw [lines, htext, hlines], ?_, hcol⟩
  rw [Pos.after, hover, Nat.add_comm]

/-- A place of a text is on a line of it. -/
theorem line?_after (htext : source.text.toList = before ++ rest) :
    (Pos.after before).line ≤ source.lineCount ∧
      ∃ line, source.line? (Pos.after before).line = some line := by
  obtain ⟨above, here, hlines, hover, -⟩ := lines_after htext
  obtain ⟨right, hright⟩ := linesFrom_head here rest
  have hindex : source.lines[above.length]? = some (here.reverse ++ right) := by
    rw [hlines, List.getElem?_append_right (Nat.le_refl _), Nat.sub_self, hright]
  rw [hover]
  refine ⟨(List.getElem?_eq_some_iff.mp hindex).1,
    String.ofList (withoutReturns (here.reverse ++ right)), ?_⟩
  simp only [line?, hindex, Option.map_some]

/-- What stands within one line of a text is found in that line by its columns. -/
theorem line?_at {w : List Char} (htext : source.text.toList = before ++ w ++ rest)
    (hline : '\n' ∉ w) (hlast : w.getLast? ≠ some '\r') (hne : w ≠ []) :
    ∃ line, source.line? (Pos.after before).line = some line ∧
      ∃ left right, line.toList = left ++ w ++ right ∧
        (Pos.after before).col = left.length + 1 := by
  rw [List.append_assoc] at htext
  obtain ⟨above, here, hlines, hover, hcol⟩ := lines_after htext
  rw [linesFrom_within hline] at hlines
  obtain ⟨right, hright⟩ := linesFrom_head (w.reverse ++ here) rest
  rw [List.reverse_append, List.reverse_reverse] at hright
  have hindex : source.lines[above.length]? = some (here.reverse ++ w ++ right) := by
    rw [hlines, List.getElem?_append_right (Nat.le_refl _), Nat.sub_self, hright]
  have hlast' : (here.reverse ++ w).getLast? ≠ some '\r' := by
    rw [List.getLast?_append, List.getLast?_eq_some_getLast hne, Option.some_or]
    rwa [List.getLast?_eq_some_getLast hne] at hlast
  refine ⟨String.ofList (here.reverse ++ w ++ withoutReturns right), ?_,
    here.reverse, withoutReturns right, String.toList_ofList, ?_⟩
  · rw [hover]
    simp only [line?, hindex, Option.map_some, withoutReturns_append hlast']
  · rw [hcol, List.length_reverse]

end Places

end SourceText

end MissionScript
