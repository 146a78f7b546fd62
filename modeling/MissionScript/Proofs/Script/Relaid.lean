import MissionScript.Proofs.Script.WithinLine

/-!
# Texts laid out anew

A text is laid out anew (`Relaid`) where lines without words are put in between its lines, space is
put at the ends of lines, and a newline behind the last line. The lines with words in them stay what
they are but for the space at their ends, and the next one of them is found with the same
indentation in both texts (`nextLogicalLine_relaid`).
-/

namespace MissionScript

/-- A line without words: space, and perhaps a comment. -/
inductive Wordless : List Char → Prop
  | nil : Wordless []
  | space {x : Char} {u : List Char} : isSpace x = true → Wordless u → Wordless (x :: u)
  | comment {u : List Char} : '\n' ∉ u → Wordless ('#' :: u)

/-- The second text has the lines of the first from line `n` on, `d` lines further down. Line `k`
of the first text has `δ k` lines more above it in the second. -/
inductive Relaid (δ : Nat → Nat) : Nat → Nat → List Char → List Char → Prop
  | last {n d : Nat} {u : List Char} (hline : '\n' ∉ u) (hd : δ n = d) : Relaid δ n d u u
  | final {n d : Nat} {u : List Char} (hline : '\n' ∉ u) (hd : δ n = d) :
      Relaid δ n d u (u ++ ['\n'])
  | line {n d : Nat} {u e t t' : List Char} (hline : '\n' ∉ u) (hd : δ n = d)
      (he : ∀ x ∈ e, isSpace x = true) (h : Relaid δ (n + 1) d t t') :
      Relaid δ n d (u ++ '\n' :: t) (u ++ (e ++ '\n' :: t'))
  | blank {n d : Nat} {w t t' : List Char} (hw : Wordless w) (h : Relaid δ n (d + 1) t t') :
      Relaid δ n d t (w ++ '\n' :: t')

/-- What comes behind the same characters of line `n` in both texts. -/
inductive LineEnd (δ : Nat → Nat) (n : Nat) : List Char → List Char → Prop
  | last : LineEnd δ n [] []
  | final : LineEnd δ n [] ['\n']
  | line {e t t' : List Char} (he : ∀ x ∈ e, isSpace x = true) (h : Relaid δ (n + 1) (δ n) t t') :
      LineEnd δ n ('\n' :: t) (e ++ '\n' :: t')

theorem Trails.append {e v : List Char} (he : ∀ x ∈ e, isSpace x = true) (hv : Trails v) :
    Trails (e ++ v) := by
  induction e with
  | nil => exact hv
  | cons x xs ih =>
    rw [List.forall_mem_cons] at he
    exact .space he.1 (ih he.2)

section Wordless

variable {u e w : List Char}

theorem Wordless.append (hu : Wordless u) (he : ∀ x ∈ e, isSpace x = true) : Wordless (u ++ e) := by
  induction hu with
  | nil =>
    induction e with
    | nil => exact .nil
    | cons x xs ih =>
      rw [List.forall_mem_cons] at he
      exact .space he.1 (ih he.2)
  | space hx _ ih => exact .space hx ih
  | comment hline =>
    refine .comment fun h => ?_
    rcases List.mem_append.mp h with h | h
    · exact hline h
    · exact absurd (he _ h) (by decide)

/-- A line is without words, or a word begins behind the space at its start. -/
theorem wordless_or_word (hline : '\n' ∉ u) :
    Wordless u ∨ ∃ s x w, u = s ++ x :: w ∧ (∀ y ∈ s, isSpace y = true) ∧ isSpace x = false ∧
      x ≠ '#' := by
  induction u with
  | nil => exact .inl .nil
  | cons x xs ih =>
    rw [List.mem_cons, not_or] at hline
    cases hspace : isSpace x with
    | false =>
      by_cases hx : x = '#'
      · subst hx
        exact .inl (.comment hline.2)
      · exact .inr ⟨[], x, xs, rfl, nofun, hspace, hx⟩
    | true =>
      rcases ih hline.2 with hw | ⟨s, y, w, rfl, hs, hy⟩
      · exact .inl (.space hspace hw)
      · exact .inr ⟨x :: s, y, w, rfl, List.forall_mem_cons.mpr ⟨hspace, hs⟩, hy⟩

/-- A line without words is space, or has a comment behind the space. -/
theorem Wordless.space_or_comment {u : List Char} (hu : Wordless u) :
    (∀ x ∈ u, isSpace x = true) ∨
      ∃ s w, u = s ++ '#' :: w ∧ (∀ x ∈ s, isSpace x = true) ∧ '\n' ∉ w := by
  induction hu with
  | nil => exact .inl nofun
  | @space x u hx _ ih =>
    rcases ih with hu | ⟨s, w, rfl, hs, hw⟩
    · exact .inl (List.forall_mem_cons.mpr ⟨hx, hu⟩)
    · exact .inr ⟨x :: s, w, rfl, List.forall_mem_cons.mpr ⟨hx, hs⟩, hw⟩
  | @comment u hline => exact .inr ⟨[], u, rfl, nofun, hline⟩

end Wordless

section LineEnds

variable {δ : Nat → Nat} {p : Char → Bool} {n : Nat} {v v' : List Char}

theorem LineEnd.trails (h : LineEnd δ n v v') :
    Trails v ∧ Trails v' := by
  cases h with
  | last => exact ⟨.nil, .nil⟩
  | final => exact ⟨.nil, .newline []⟩
  | line he _ => exact ⟨.newline _, (Trails.newline _).append he⟩

/-- Behind the space at the end of the line, both texts are over, or the second ends with a newline,
or both go on with the next line. -/
theorem LineEnd.dropWhile (hnewline : p '\n' = false)
    (hspace : ∀ x, isSpace x = true → p x = true) (h : LineEnd δ n v v') :
    v.dropWhile p = [] ∧ (v'.dropWhile p = [] ∨ v'.dropWhile p = ['\n']) ∨
      ∃ t t', v.dropWhile p = '\n' :: t ∧ v'.dropWhile p = '\n' :: t' ∧
        Relaid δ (n + 1) (δ n) t t' := by
  have hstop : ∀ t, ('\n' :: t).dropWhile p = '\n' :: t := fun t =>
    List.dropWhile_cons_of_neg (by simp [hnewline])
  cases h with
  | last => exact .inl ⟨rfl, .inl rfl⟩
  | final => exact .inl ⟨rfl, .inr (hstop [])⟩
  | @line e t t' he h =>
    refine .inr ⟨t, t', hstop t, ?_, h⟩
    rw [List.dropWhile_append_of_pos fun x hx => hspace x (he x hx), hstop]

theorem LineEnd.after {p : Char → Bool} (hnewline : p '\n' = false)
    (hspace : ∀ x, isSpace x = true → p x = true) (h : LineEnd δ n v v') :
    LineEnd δ n (v.dropWhile p) (v'.dropWhile p) := by
  rcases h.dropWhile hnewline hspace with ⟨hv, hv' | hv'⟩ | ⟨t, t', hv, hv', ht⟩ <;> rw [hv, hv']
  · exact .last
  · exact .final
  · exact .line (e := []) nofun ht

end LineEnds

section LogicalLines

theorem nextLogicalLine_space {x : Char} (hx : isSpace x = true) (w : Nat) :
    ∃ w', ∀ line col rest, nextLogicalLine (some w) line col (x :: rest) =
      nextLogicalLine (some w') line (col + 1) rest := by
  rcases isSpace_iff.mp hx with rfl | rfl | rfl
  · exact ⟨w + 1, fun _ _ _ => by rw [nextLogicalLine]; rfl⟩
  · exact ⟨(w / tabWidth + 1) * tabWidth, fun _ _ _ => by rw [nextLogicalLine]; rfl⟩
  · exact ⟨w, fun _ _ _ => by rw [nextLogicalLine]; rfl⟩

/-- The width of the space at the start of a line. -/
theorem nextLogicalLine_spaces {s : List Char} (hs : ∀ y ∈ s, isSpace y = true) (w : Nat) :
    ∃ w', ∀ line col rest, nextLogicalLine (some w) line col (s ++ rest) =
      nextLogicalLine (some w') line (col + s.length) rest := by
  induction s generalizing w with
  | nil => exact ⟨w, fun _ _ _ => rfl⟩
  | cons x xs ih =>
    rw [List.forall_mem_cons] at hs
    obtain ⟨w', hw'⟩ := nextLogicalLine_space hs.1 w
    obtain ⟨w'', hw''⟩ := ih hs.2 w'
    refine ⟨w'', fun line col rest => ?_⟩
    rw [List.cons_append, hw', hw'', List.length_cons, Nat.add_assoc, Nat.add_comm 1]

theorem nextLogicalLine_word {s : List Char} {x : Char} (hs : ∀ y ∈ s, isSpace y = true)
    (hx : isSpace x = false) (hcomment : x ≠ '#') (hnewline : x ≠ '\n') :
    ∃ w, ∀ line col rest, nextLogicalLine (some 0) line col (s ++ x :: rest) =
      (w, ⟨x :: rest, line, col + s.length⟩) := by
  obtain ⟨w, hw⟩ := nextLogicalLine_spaces hs 0
  refine ⟨w, fun line col rest => ?_⟩
  rw [hw, nextLogicalLine]
  simp_all [isSpace]

theorem nextLogicalLine_comment {u : List Char} (hline : '\n' ∉ u) (line col : Nat)
    (rest : List Char) :
    nextLogicalLine none line col (u ++ rest) =
      nextLogicalLine none line (col + u.length) rest := by
  induction u generalizing col with
  | nil => rfl
  | cons x xs ih =>
    rw [List.mem_cons, not_or] at hline
    rw [List.cons_append, nextLogicalLine, if_neg (Ne.symm hline.1), ih hline.2, List.length_cons,
      Nat.add_assoc, Nat.add_comm 1]

/-- A line without words is passed over. -/
theorem nextLogicalLine_wordless {u : List Char} (hu : Wordless u) (w line col : Nat)
    (rest : List Char) :
    nextLogicalLine (some w) line col (u ++ '\n' :: rest) =
      nextLogicalLine (some 0) (line + 1) 1 rest := by
  induction hu generalizing w col with
  | nil => rw [List.nil_append, nextLogicalLine, if_pos rfl]
  | space hx _ ih =>
    obtain ⟨w', hw'⟩ := nextLogicalLine_space hx w
    rw [List.cons_append, hw', ih]
  | comment hline =>
    rw [List.cons_append, nextLogicalLine]
    simp [nextLogicalLine_comment hline, nextLogicalLine]

theorem nextLogicalLine_over {u : List Char} (hu : Wordless u) (w line col : Nat) :
    (nextLogicalLine (some w) line col u).2.rest = [] := by
  induction hu generalizing w col with
  | nil => rfl
  | space hx _ ih =>
    obtain ⟨w', hw'⟩ := nextLogicalLine_space hx w
    rw [hw', ih]
  | @comment u hline =>
    have hover := nextLogicalLine_comment hline line (col + 1) []
    rw [List.append_nil] at hover
    rw [nextLogicalLine]
    simp [hover, nextLogicalLine]

end LogicalLines

section Margin

variable {δ : Nat → Nat} {n d : Nat} {t t' : List Char}

/-- From the start of a line on, neither text has a word, or both have the same one behind the same
space next. -/
theorem nextLogicalLine_relaid (h : Relaid δ n d t t') :
    ((nextLogicalLine (some 0) n 1 t).2.rest = [] ∧
        (nextLogicalLine (some 0) (n + d) 1 t').2.rest = []) ∨
      ∃ w m k x u v v', nextLogicalLine (some 0) n 1 t = (w, ⟨x :: u ++ v, m, k⟩) ∧
        nextLogicalLine (some 0) (n + d) 1 t' = (w, ⟨x :: u ++ v', m + δ m, k⟩) ∧
        '\n' ∉ x :: u ∧ isSpace x = false ∧ x ≠ '#' ∧ LineEnd δ m v v' := by
  have hword {n d : Nat} {s : List Char} {x : Char} {u v v' : List Char} (hd : δ n = d)
      (hline : '\n' ∉ s ++ x :: u) (hs : ∀ y ∈ s, isSpace y = true) (hx : isSpace x = false)
      (hcomment : x ≠ '#') (hend : LineEnd δ n v v') :
      ∃ w m k y u' v₁ v₁', nextLogicalLine (some 0) n 1 (s ++ x :: u ++ v) =
          (w, ⟨y :: u' ++ v₁, m, k⟩) ∧
        nextLogicalLine (some 0) (n + d) 1 (s ++ x :: u ++ v') =
          (w, ⟨y :: u' ++ v₁', m + δ m, k⟩) ∧
        '\n' ∉ y :: u' ∧ isSpace y = false ∧ y ≠ '#' ∧ LineEnd δ m v₁ v₁' := by
    subst hd
    have hline' : '\n' ∉ x :: u := fun h => hline (List.mem_append_right s h)
    have hnewline : x ≠ '\n' := fun h => hline' (h ▸ List.mem_cons_self)
    obtain ⟨w, hw⟩ := nextLogicalLine_word hs hx hcomment hnewline
    refine ⟨w, n, 1 + s.length, x, u, v, v', ?_, ?_, hline', hx, hcomment, hend⟩
    · rw [List.append_assoc, List.cons_append, hw]
    · rw [List.append_assoc, List.cons_append, hw]
  induction h with
  | @last n d u hline hd =>
    rcases wordless_or_word hline with hu | ⟨s, x, w, rfl, hs, hx, hcomment⟩
    · exact .inl ⟨nextLogicalLine_over hu _ _ _, nextLogicalLine_over hu _ _ _⟩
    · refine .inr ?_
      simpa only [List.append_nil] using hword hd hline hs hx hcomment .last
  | @final n d u hline hd =>
    rcases wordless_or_word hline with hu | ⟨s, x, w, rfl, hs, hx, hcomment⟩
    · refine .inl ⟨nextLogicalLine_over hu _ _ _, ?_⟩
      rw [nextLogicalLine_wordless hu]
      rfl
    · refine .inr ?_
      simpa only [List.append_nil] using hword hd hline hs hx hcomment .final
  | @line n d u e t t' hline hd he h ih =>
    rcases wordless_or_word hline with hu | ⟨s, x, w, rfl, hs, hx, hcomment⟩
    · rw [nextLogicalLine_wordless hu, ← List.append_assoc, nextLogicalLine_wordless (hu.append he),
        Nat.add_right_comm]
      exact ih
    · exact .inr (hword hd hline hs hx hcomment (.line he (hd ▸ h)))
  | blank hw _ ih =>
    rw [nextLogicalLine_wordless hw]
    exact ih

end Margin

section Lines

variable {δ : Nat → Nat} {n d : Nat} {t t' : List Char}

/-- Every text is a line, or a line and a newline in front of a text. -/
theorem lines_induction {P : List Char → Prop} (last : ∀ u, '\n' ∉ u → P u)
    (line : ∀ u t, '\n' ∉ u → P t → P (u ++ '\n' :: t)) (cs : List Char) : P cs := by
  induction hlength : cs.length using Nat.strongRecOn generalizing cs with
  | ind length ih =>
    by_cases hcs : '\n' ∈ cs
    · obtain ⟨u, t, rfl, hu⟩ := List.eq_append_cons_of_mem hcs
      refine line u t hu (ih t.length ?_ t rfl)
      rw [← hlength, List.length_append, List.length_cons]
      omega
    · exact last cs hcs

theorem count_newline_line {u : List Char} (hline : '\n' ∉ u) (t : List Char) :
    (u ++ '\n' :: t).count '\n' = t.count '\n' + 1 := by
  rw [List.count_append, List.count_eq_zero.mpr hline, List.count_cons_self, Nat.zero_add]

/-- A text that is left as it is. -/
theorem Relaid.refl (hδ : ∀ k, n ≤ k → δ k = d) : Relaid δ n d t t := by
  induction t using lines_induction generalizing n with
  | last u hline => exact .last hline (hδ n (Nat.le_refl n))
  | line u t hline ih =>
    exact .line (e := []) hline (hδ n (Nat.le_refl n)) nofun
      (ih fun k hk => hδ k (Nat.le_of_succ_le hk))

/-- A text that is changed from some line on. -/
theorem Relaid.behind (cs : List Char) (hδ : ∀ k, n ≤ k → k ≤ n + cs.count '\n' → δ k = d)
    (h : Relaid δ (n + cs.count '\n' + 1) d t t') :
    Relaid δ n d (cs ++ '\n' :: t) (cs ++ '\n' :: t') := by
  induction cs using lines_induction generalizing n with
  | last u hline =>
    rw [List.count_eq_zero.mpr hline] at h
    exact .line (e := []) hline (hδ n (Nat.le_refl n) (Nat.le_add_right n _)) nofun h
  | line u s hline ih =>
    rw [count_newline_line hline] at hδ h
    rw [List.append_assoc, List.append_assoc]
    refine .line (e := []) hline (hδ n (Nat.le_refl n) (Nat.le_add_right n _)) nofun (ih ?_ ?_)
    · exact fun k hk hk' => hδ k (Nat.le_of_succ_le hk) (by omega)
    · rwa [Nat.add_right_comm n 1]

end Lines

end MissionScript
