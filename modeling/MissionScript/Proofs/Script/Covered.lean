import MissionScript.Proofs.Script.Traced

/-!
# What the spans of tokens cover

A text is read without loss and without invention (`Token.scan_covers`): the spans of the words lie
each within a line, one behind the other; the characters that the text has in such a span are read
on their own as the same word; and a character in none of the spans is a blank, the end of a line or
part of a comment.
-/

namespace MissionScript

/-- The place is neither before the first place of the span nor behind its last one. -/
def Span.Covers (s : Span) (p : Pos) : Prop := s.start.le p = true ∧ p.le s.stop = true

/-- The characters of a line from one column to another, both included. -/
def columns (line : String) (first last : Nat) : String :=
  String.ofList ((line.toList.drop (first - 1)).take (last + 1 - first))

/-- The character behind `before` belongs to a comment: on its line, or at its place, there is a
sign of a comment that is in none of the spans. -/
def InComment (ts : List Token) (before : List Char) (x : Char) : Prop :=
  ∃ pre body, before ++ [x] = pre ++ '#' :: body ∧ '\n' ∉ body ∧
    ∀ t ∈ ts, ¬t.span.Covers (Pos.after pre)

/-- The tokens stand for the text: nothing of it is lost, and nothing is added to it. -/
structure Covering (source : SourceText) (ts : List Token) : Prop where
  single {t : Token} : t ∈ ts → t.span.start.line = t.span.stop.line ∧
    1 ≤ t.span.start.col ∧ t.span.start.col ≤ t.span.stop.col
  ordered : ts.Pairwise fun t t' => t.span.stop.Before t'.span.start
  alone {t : Token} : t ∈ ts → ∃ line, source.line? t.span.start.line = some line ∧
    t.span.stop.col ≤ line.length ∧
    ∃ alone, Token.scan (columns line t.span.start.col t.span.stop.col) = .ok alone ∧
      alone.map (·.lexeme) = [t.lexeme, .newline, .eof]
  between {before after : List Char} {x : Char} : source.text.toList = before ++ x :: after →
    (∃ t ∈ ts, t.span.Covers (Pos.after before)) ∨
      isSpace x = true ∨ x = '\n' ∨ InComment ts before x

section Words

variable {before w : List Char} {l : Lexeme}

theorem Cuts.ne_nil (h : Cuts w l) : w ≠ [] := List.ne_nil_of_length_pos h.length_pos

theorem Cuts.stop_before (h : Cuts w l) (rest : List Char) :
    (Span.ofWord before w).stop.Before (Pos.after (before ++ w ++ rest)) := by
  have hpos := h.length_pos
  have hend : (Span.ofWord before w).stop.Before (Pos.after (before ++ w)) := by
    rw [Pos.after_within h.line]
    exact .inr ⟨rfl, by simp only [Span.ofWord]; omega⟩
  rcases rest with _ | ⟨x, xs⟩
  · rwa [List.append_nil]
  · exact hend.trans (Pos.after_before _ (List.cons_ne_nil _ _))

theorem Cuts.covers {u v : List Char} {x : Char} (h : Cuts (u ++ x :: v) l) :
    (Span.ofWord before (u ++ x :: v)).Covers (Pos.after (before ++ u)) := by
  have hu : '\n' ∉ u := fun hmem => h.line (List.mem_append_left _ hmem)
  rw [Pos.after_within hu]
  simp only [Span.Covers, Span.ofWord, Pos.le, List.length_append, List.length_cons,
    Bool.or_eq_true, Bool.and_eq_true, decide_eq_true_eq]
  exact ⟨.inr ⟨trivial, by omega⟩, .inr ⟨trivial, by omega⟩⟩

/-- The columns of a word in a line give the word. -/
theorem columns_of_append {line : String} {left right : List Char} {first : Nat}
    (hline : line.toList = left ++ w ++ right) (hfirst : first = left.length + 1) :
    first + w.length - 1 ≤ line.length ∧
      columns line first (first + w.length - 1) = String.ofList w := by
  subst hfirst
  have hlength : line.length = left.length + w.length + right.length := by
    rw [← String.length_toList, hline, List.length_append, List.length_append]
  have htake : left.length + 1 + w.length - 1 + 1 - (left.length + 1) = w.length := by omega
  refine ⟨by omega, ?_⟩
  rw [columns, hline, htake, Nat.add_sub_cancel, List.append_assoc, List.drop_left, List.take_left]

end Words

section Traces

variable {commented : Bool} {cs : List Char} {ts : List Token}

/-- Each word stands in the text where its span says. -/
theorem Traced.cuts (h : Traced commented cs ts) {t : Token} (ht : t ∈ ts) :
    ∃ before w rest, cs = before ++ w ++ rest ∧ Cuts w t.lexeme ∧ t.span = .ofWord before w := by
  induction h with
  | start => cases ht
  | blank _ _ ih | newline _ ih | hash _ ih | comment _ _ ih =>
    obtain ⟨before, w, rest, rfl, hw, hspan⟩ := ih ht
    exact ⟨before, w, rest ++ [_], by rw [← List.append_assoc], hw, hspan⟩
  | @word cs w ts l _ hw ih =>
    rcases List.mem_append.mp ht with ht | ht
    · obtain ⟨before, w', rest, rfl, hw', hspan⟩ := ih ht
      exact ⟨before, w', rest ++ w, by rw [← List.append_assoc], hw', hspan⟩
    · obtain rfl := List.mem_singleton.mp ht
      exact ⟨cs, w, [], by rw [List.append_nil], hw, rfl⟩

theorem Traced.stop_before (h : Traced commented cs ts) {t : Token} (ht : t ∈ ts) :
    t.span.stop.Before (Pos.after cs) := by
  obtain ⟨before, w, rest, rfl, hw, hspan⟩ := h.cuts ht
  rw [hspan]
  exact hw.stop_before rest

theorem Traced.ordered (h : Traced commented cs ts) :
    ts.Pairwise fun t t' => t.span.stop.Before t'.span.start := by
  induction h with
  | start => exact .nil
  | blank _ _ ih | newline _ ih | hash _ ih | comment _ _ ih => exact ih
  | word h _ ih =>
    refine List.pairwise_append.mpr ⟨ih, List.pairwise_singleton _ _, fun t ht t' ht' => ?_⟩
    obtain rfl := List.mem_singleton.mp ht'
    exact h.stop_before ht

/-- What is behind all words is in none of their spans. -/
theorem Traced.not_covers (h : Traced commented cs ts) : ∀ t ∈ ts, ¬t.span.Covers (Pos.after cs) :=
  fun _ ht hcovers => by
    have hstop := Pos.not_le_of_before (h.stop_before ht)
    rw [hcovers.2] at hstop
    cases hstop

/-- Within a comment, its sign stands further left on the line. -/
theorem Traced.sign (h : Traced commented cs ts) (hcommented : commented = true) :
    ∃ pre body, cs = pre ++ '#' :: body ∧ '\n' ∉ body ∧
      ∀ t ∈ ts, ¬t.span.Covers (Pos.after pre) := by
  induction h with
  | start | blank | newline | word => cases hcommented
  | hash h => exact ⟨_, [], rfl, nofun, h.not_covers⟩
  | comment _ hx ih =>
    obtain ⟨pre, body, rfl, hbody, hnone⟩ := ih rfl
    refine ⟨pre, body ++ [_], List.append_assoc _ _ _, ?_, hnone⟩
    simpa using ⟨hbody, Ne.symm hx⟩

/-- A character of a text put together of two stands in the first or in the second. -/
theorem cons_of_append {chunk before after : List Char} {x : Char}
    (h : cs ++ chunk = before ++ x :: after) :
    (∃ after', cs = before ++ x :: after') ∨ ∃ u, before = cs ++ u ∧ chunk = u ++ x :: after := by
  rcases List.append_eq_append_iff.mp h with ⟨u, hu, hchunk⟩ | ⟨u, hu, hchunk⟩
  · exact .inr ⟨u, hu, hchunk⟩
  · rcases u with _ | ⟨y, ys⟩
    · exact .inr ⟨[], by simp_all, by simp_all⟩
    · cases hchunk
      exact .inl ⟨ys, hu⟩

theorem cons_of_concat {before after : List Char} {x y : Char}
    (h : cs ++ [y] = before ++ x :: after) :
    (∃ after', cs = before ++ x :: after') ∨ before = cs ∧ x = y := by
  rcases cons_of_append h with hcs | ⟨u, rfl, hu⟩
  · exact .inl hcs
  · rcases u with _ | ⟨z, zs⟩
    · exact .inr ⟨List.append_nil _, (List.cons.inj hu).1.symm⟩
    · simp at hu

/-- A comment stays one when a word is read behind it. -/
theorem InComment.word {before after w : List Char} {x : Char} {l : Lexeme}
    (h : InComment ts before x) (hcs : cs = before ++ x :: after) :
    InComment (ts ++ [⟨l, .ofWord cs w⟩]) before x := by
  obtain ⟨pre, body, hsign, hbody, hnone⟩ := h
  refine ⟨pre, body, hsign, hbody, ?_⟩
  rw [List.forall_mem_append, List.forall_mem_singleton]
  refine ⟨hnone, fun hcovers => ?_⟩
  have hlater : (Pos.after pre).Before (Pos.after cs) := by
    rw [hcs, List.append_cons, hsign, List.append_assoc]
    exact Pos.after_before _ (List.cons_ne_nil _ _)
  have hstart : (Pos.after cs).le (Pos.after pre) = true := hcovers.1
  rw [Pos.not_le_of_before hlater] at hstart
  cases hstart

theorem Traced.between (h : Traced commented cs ts) {before after : List Char} {x : Char}
    (hcs : cs = before ++ x :: after) :
    (∃ t ∈ ts, t.span.Covers (Pos.after before)) ∨
      isSpace x = true ∨ x = '\n' ∨ InComment ts before x := by
  induction h generalizing after with
  | start => simp at hcs
  | blank _ hy ih =>
    rcases cons_of_concat hcs with ⟨after', hcs⟩ | ⟨rfl, rfl⟩
    · exact ih hcs
    · exact .inr (.inl hy)
  | newline _ ih =>
    rcases cons_of_concat hcs with ⟨after', hcs⟩ | ⟨rfl, rfl⟩
    · exact ih hcs
    · exact .inr (.inr (.inl rfl))
  | hash h ih =>
    rcases cons_of_concat hcs with ⟨after', hcs⟩ | ⟨rfl, rfl⟩
    · exact ih hcs
    · exact .inr (.inr (.inr ⟨_, [], rfl, nofun, h.not_covers⟩))
  | comment h hy ih =>
    rcases cons_of_concat hcs with ⟨after', hcs⟩ | ⟨rfl, rfl⟩
    · exact ih hcs
    · exact .inr (.inr (.inr ((h.comment hy).sign rfl)))
  | word _ hw ih =>
    rcases cons_of_append hcs with ⟨after', hcs⟩ | ⟨u, rfl, rfl⟩
    · rcases ih hcs with ⟨t, ht, hcovers⟩ | hspace | hnewline | hcomment
      · exact .inl ⟨t, List.mem_append_left _ ht, hcovers⟩
      · exact .inr (.inl hspace)
      · exact .inr (.inr (.inl hnewline))
      · exact .inr (.inr (.inr (hcomment.word hcs)))
    · exact .inl ⟨_, List.mem_append_right _ (List.mem_singleton_self _), hw.covers⟩

end Traces

/-- The words that are read from a text stand for it. -/
theorem Token.scan_covers {source : SourceText} {ts : List Token}
    (h : Token.scan source.text = .ok ts) : Covering source (wordsOf ts) := by
  obtain ⟨commented, htraced⟩ := Token.scan_traced h
  refine ⟨fun ht => ?_, htraced.ordered, fun {t} ht => ?_, htraced.between⟩
  · obtain ⟨before, w, rest, -, hw, hspan⟩ := htraced.cuts ht
    have hpos := hw.length_pos
    have hone := (Pos.one_le_after before).2
    rw [hspan]
    exact ⟨rfl, hone, by simp only [Span.ofWord]; omega⟩
  · obtain ⟨before, w, rest, htext, hw, hspan⟩ := htraced.cuts ht
    obtain ⟨line, hline, left, right, hchars, hcol⟩ :=
      SourceText.line?_at htext hw.line hw.last hw.ne_nil
    obtain ⟨hstop, hcolumns⟩ := columns_of_append hchars hcol
    have hword : t.lexeme.isLayout = false := by simpa using (List.mem_filter.mp ht).2
    rw [hspan]
    refine ⟨line, hline, hstop, hw.spells.scan_alone hword ?_⟩
    rw [Span.ofWord]
    dsimp only
    rw [hcolumns, String.toList_ofList]

theorem Token.scan_covers_comment :
    ∃ ts, Token.scan "a = [1, # one\n 1.5] // 2" = .ok ts ∧
      Covering ⟨"", "a = [1, # one\n 1.5] // 2"⟩ (wordsOf ts) := by
  obtain ⟨ts, h⟩ : ∃ ts, Token.scan "a = [1, # one\n 1.5] // 2" = .ok ts := ⟨_, rfl⟩
  exact ⟨ts, h, Token.scan_covers h⟩

end MissionScript
