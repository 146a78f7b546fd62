import MissionScript.Proofs.Script.Scanning

/-!
# Logical lines

Every text that is read at all is read as logical lines: at the margin one block opens or some
close, then there are words and the end of the line. Behind the last line the open blocks close and
the text ends, once. Nowhere have more blocks closed than opened, and at the end all of them have
(`Token.scan_logicalLines`). This holds as well where the text ends between brackets or within a
line.
-/

namespace MissionScript

/-- What may stand at the margin of a line: one block opens, or any number of blocks close. -/
inductive Margin : List Lexeme → Prop
  | indent : Margin [.indent]
  | dedents (n : Nat) : Margin (List.replicate n .dedent)

/-- The lexemes of a line: its margin, at least one word, and its end. -/
inductive LogicalLine : List Lexeme → Prop
  | mk {margin words : List Lexeme} (hmargin : Margin margin) (hne : words ≠ [])
      (hwords : ∀ l ∈ words, l.isLayout = false) : LogicalLine (margin ++ words ++ [.newline])

/-- No prefix closes more blocks than it opens, and `depth` blocks are open at the end. -/
structure Balanced (depth : Nat) (ls : List Lexeme) : Prop where
  within {p : List Lexeme} : p <+: ls → p.count .dedent ≤ p.count .indent
  total : ls.count .indent = ls.count .dedent + depth

section Nesting

variable {depth : Nat} {ls : List Lexeme}

theorem balanced_nil : Balanced 0 [] :=
  ⟨fun h => by rw [List.prefix_nil.mp h]; exact Nat.le_refl _, rfl⟩

theorem Balanced.indent (h : Balanced depth ls) : Balanced (depth + 1) (ls ++ [.indent]) := by
  have htotal := h.total
  refine ⟨fun hp => ?_, by simp; omega⟩
  rcases List.prefix_concat_iff.mp hp with rfl | hp
  · simp; omega
  · exact h.within hp

theorem Balanced.dedent (h : Balanced (depth + 1) ls) : Balanced depth (ls ++ [.dedent]) := by
  have htotal := h.total
  refine ⟨fun hp => ?_, by simp; omega⟩
  rcases List.prefix_concat_iff.mp hp with rfl | hp
  · simp; omega
  · exact h.within hp

theorem Balanced.dedents {n : Nat} (h : Balanced (depth + n) ls) :
    Balanced depth (ls ++ List.replicate n .dedent) := by
  induction n generalizing ls with
  | zero => simpa using h
  | succ n ih =>
    rw [List.replicate_succ, List.append_cons]
    exact ih h.dedent

theorem Balanced.flat {l : Lexeme} (h : Balanced depth ls) (hl : l ≠ .indent ∧ l ≠ .dedent) :
    Balanced depth (ls ++ [l]) := by
  have htotal := h.total
  have hcount : [l].count .indent = 0 ∧ [l].count .dedent = 0 := by simp [hl]
  refine ⟨fun hp => ?_, by simp only [List.count_append]; omega⟩
  rcases List.prefix_concat_iff.mp hp with rfl | hp
  · simp only [List.count_append]; omega
  · exact h.within hp

theorem margin_of_indentTo {width : Nat} {ws ws' : Indents}
    (h : indentTo width ws = .ok (ls, ws')) : Margin ls := by
  unfold indentTo at h
  split at h
  · cases h
    exact .indent
  · dsimp only at h
    split at h <;> cases h
    exact .dedents _

theorem Balanced.indentTo {width : Nat} {ws ws' : Indents} {margin : List Lexeme}
    (h : Balanced ws.length ls) (hindent : MissionScript.indentTo width ws = .ok (margin, ws')) :
    Balanced ws'.length (ls ++ margin) := by
  unfold MissionScript.indentTo at hindent
  split at hindent
  · cases hindent
    exact h.indent
  · dsimp only at hindent
    split at hindent <;> cases hindent
    rw [← closeBlocks_length width ws] at h
    exact h.dedents

end Nesting

/-- What the reading has come to: whole lines, and of the line it stands in the margin and the words
so far. -/
structure Forming (s : Scan) (lines : List (List Lexeme)) (margin words : List Lexeme) : Prop where
  forall_lines : ∀ line ∈ lines, LogicalLine line
  isMargin : Margin margin
  forall_words : ∀ l ∈ words, l.isLayout = false
  sofar : (s.sofar.map (·.lexeme)).reverse = lines.flatten ++ margin ++ words
  balanced : Balanced s.layout.indents.length (lines.flatten ++ margin ++ words)
  fresh : s.layout.fresh = true → margin = [] ∧ words = []
  /-- Behind a margin without words, a word is at hand; without a margin, the text is over. -/
  next : s.layout.fresh = false → words = [] → margin = [] ∧ s.cursor.rest = [] ∨
    ∃ x xs, s.cursor.rest = x :: xs ∧ isSpace x = false ∧ x ≠ '\n' ∧ x ≠ '#'

section Reading

variable {s s' : Scan} {lines : List (List Lexeme)} {margin words : List Lexeme}

theorem flatten_line (lines : List (List Lexeme)) (margin words : List Lexeme) :
    (lines ++ [margin ++ words ++ [Lexeme.newline]]).flatten =
      lines.flatten ++ margin ++ words ++ [.newline] := by
  simp

theorem forming_start (text : String) : Forming (.start text) [] [] [] where
  forall_lines := nofun
  isMargin := .dedents 0
  forall_words := nofun
  sofar := rfl
  balanced := balanced_nil
  fresh := fun _ => ⟨rfl, rfl⟩
  next := nofun

/-- A turn that reads no token and stays within the line keeps what is formed, if a word at hand
remains at hand. -/
theorem Forming.move {layout : Layout} {c c' : Cursor} {sofar : List Token}
    (h : Forming ⟨layout, c, sofar⟩ lines margin words)
    (hrest : c.rest = [] → c'.rest = [])
    (hword : ∀ x xs, c.rest = x :: xs → isSpace x = false → x ≠ '\n' → x ≠ '#' →
      c'.rest = c.rest) :
    Forming ⟨layout, c', sofar⟩ lines margin words := by
  refine { h with next := fun hfresh hnone => ?_ }
  rcases h.next hfresh hnone with ⟨hmargin, hover⟩ | ⟨x, xs, hc, hspace, hnewline, hcomment⟩
  · exact .inl ⟨hmargin, hrest hover⟩
  · exact .inr ⟨x, xs, (hword x xs hc hspace hnewline hcomment).trans hc, hspace, hnewline,
      hcomment⟩

theorem Forming.turn (h : Forming s lines margin words) (hturn : Turn s s') :
    ∃ lines' margin' words', Forming s' lines' margin' words' := by
  cases hturn with
  | ended hfresh hrest =>
    obtain ⟨rfl, rfl⟩ := h.fresh hfresh
    exact ⟨lines, [], [], { h with
      fresh := nofun
      next := fun _ _ => .inl ⟨rfl, hrest⟩ }⟩
  | @begin layout c sofar ls indents hfresh hrest hindent =>
    obtain ⟨rfl, rfl⟩ := h.fresh hfresh
    have hsofar := h.sofar
    have hbalanced := h.balanced
    simp only [List.append_nil] at hsofar hbalanced
    obtain ⟨x, xs, hword⟩ := List.exists_cons_of_ne_nil hrest
    refine ⟨lines, ls, [], h.forall_lines, margin_of_indentTo hindent, nofun, ?_, ?_, nofun, ?_⟩
    · rw [lexemes_pushLayout, hsofar, List.append_nil]
    · rw [List.append_nil]
      exact hbalanced.indentTo hindent
    · exact fun _ _ => .inr ⟨x, xs, hword, nextLogicalLine_rest _ _ _ _ hword⟩
  | @space layout c sofar hwithin =>
    refine ⟨lines, margin, words, h.move (fun hc => ?_) fun x xs hc hspace _ _ => ?_⟩
    · rw [skipWhile_rest, hc]
      rfl
    · rw [skipWhile_rest, hc, List.dropWhile_cons_of_neg (by simp [hspace])]
  | comment hwithin hc =>
    refine ⟨lines, margin, words, h.move (fun hnil => ?_) fun x xs hc' _ _ hcomment => ?_⟩
    · rw [hc] at hnil
      cases hnil
    · cases hc.symm.trans hc'
      exact absurd rfl hcomment
  | join hwithin hc hbrackets =>
    refine ⟨lines, margin, words, h.move (fun hnil => ?_) fun x xs hc' _ hnewline _ => ?_⟩
    · rw [hc] at hnil
      cases hnil
    · cases hc.symm.trans hc'
      exact absurd rfl hnewline
  | @newline layout c sofar cs hwithin hc =>
    have hne : words ≠ [] := by
      rintro rfl
      rcases h.next hwithin rfl with ⟨-, hover⟩ | ⟨x, xs, hc', -, hnewline, -⟩
      · cases hc.symm.trans hover
      · cases hc.symm.trans hc'
        exact hnewline rfl
    refine ⟨lines ++ [margin ++ words ++ [.newline]], [], [], ?_, .dedents 0, nofun, ?_, ?_,
      fun _ => ⟨rfl, rfl⟩, nofun⟩
    · rw [List.forall_mem_append, List.forall_mem_singleton]
      exact ⟨h.forall_lines, .mk h.isMargin hne h.forall_words⟩
    · rw [List.append_nil, List.append_nil, flatten_line, List.map_cons, List.reverse_cons,
        h.sofar]
    · rw [List.append_nil, List.append_nil, flatten_line]
      exact h.balanced.flat ⟨nofun, nofun⟩
  | @word layout c c' sofar x cs l hwithin hc hscan =>
    have hl := scanLexeme_word hscan
    obtain ⟨hindents, hfresh⟩ := after_indents layout l
    refine ⟨lines, margin, words ++ [l], h.forall_lines, h.isMargin, ?_, ?_, ?_, ?_, ?_⟩
    · rw [List.forall_mem_append, List.forall_mem_singleton]
      exact ⟨h.forall_words, hl⟩
    · rw [List.map_cons, List.reverse_cons, h.sofar, List.append_assoc]
    · rw [hindents, ← List.append_assoc]
      refine h.balanced.flat ⟨?_, ?_⟩ <;> rintro rfl <;> cases hl
    · intro hstart
      rw [hfresh, hwithin] at hstart
      cases hstart
    · exact fun _ hnone => absurd hnone (List.append_ne_nil_of_right_ne_nil _ nofun)

/-- Where whole lines have been read, the last lexeme is the end of a line. -/
theorem getLast?_flatten_lines (h : ∀ line ∈ lines, LogicalLine line) :
    ∀ l ∈ lines.flatten.getLast?, l = .newline := by
  rcases List.eq_nil_or_concat lines with rfl | ⟨before, line, rfl⟩
  · exact nofun
  · obtain ⟨-, -, -⟩ := h line (by simp)
    intro l hl
    rw [List.concat_eq_append, List.flatten_append, List.flatten_singleton, ← List.append_assoc,
      List.getLast?_concat] at hl
    exact (Option.some.inj hl).symm

/-- At the end of the text, the line that is begun is ended and what is open is closed. -/
theorem Forming.close (h : Forming s lines margin words) (hover : s.cursor.rest = []) :
    ∃ lines' : List (List Lexeme), (∀ line ∈ lines', LogicalLine line) ∧
      Balanced s.layout.indents.length lines'.flatten ∧
      (closeText s.layout s.cursor s.sofar).map (·.lexeme) =
        lines'.flatten ++ List.replicate s.layout.indents.length .dedent ++ [.eof] := by
  have hlast : s.sofar.head?.map (·.lexeme) = (lines.flatten ++ margin ++ words).getLast? := by
    rw [← h.sofar, List.getLast?_reverse, List.head?_map]
  by_cases hwords : words = []
  · subst hwords
    have hmargin : margin = [] := by
      cases hfresh : s.layout.fresh with
      | true => exact (h.fresh hfresh).1
      | false =>
        rcases h.next hfresh rfl with ⟨hmargin, -⟩ | ⟨x, xs, hc, -⟩
        · exact hmargin
        · rw [hover] at hc
          cases hc
    subst hmargin
    have hsofar := h.sofar
    have hbalanced := h.balanced
    simp only [List.append_nil] at hsofar hbalanced hlast
    refine ⟨lines, h.forall_lines, hbalanced, ?_⟩
    rw [lexemes_closeText_between, hsofar]
    intro t ht
    refine getLast?_flatten_lines h.forall_lines _ ?_
    rw [← hlast, ht]
    rfl
  · refine ⟨lines ++ [margin ++ words ++ [.newline]], ?_, ?_, ?_⟩
    · rw [List.forall_mem_append, List.forall_mem_singleton]
      exact ⟨h.forall_lines, .mk h.isMargin hwords h.forall_words⟩
    · rw [flatten_line]
      exact h.balanced.flat ⟨nofun, nofun⟩
    · obtain ⟨before, l, rfl⟩ := (List.eq_nil_or_concat words).resolve_left hwords
      rw [List.concat_eq_append, ← List.append_assoc, List.getLast?_concat] at hlast
      obtain ⟨t, ht, rfl⟩ := Option.map_eq_some_iff.mp hlast
      rw [flatten_line, lexemes_closeText_within ht (h.forall_words _ (by simp)), h.sofar]

end Reading

/-- What is read are logical lines, then what closes the blocks that are open, and one end. -/
theorem Token.scan_logicalLines {text : String} {ts : List Token} (h : Token.scan text = .ok ts) :
    (∃ (lines : List (List Lexeme)) (n : Nat), (∀ line ∈ lines, LogicalLine line) ∧
      ts.map (·.lexeme) = lines.flatten ++ List.replicate n .dedent ++ [.eof]) ∧
    Balanced 0 (ts.map (·.lexeme)) := by
  obtain ⟨s, ⟨lines, margin, words, hforming⟩, hover, rfl⟩ :=
    Token.scan_invariant
      (P := fun s => ∃ lines margin words, Forming s lines margin words)
      ⟨_, _, _, forming_start text⟩ (fun _ _ hturn ⟨_, _, _, hforming⟩ => hforming.turn hturn) h
  obtain ⟨lines', hlines, hbalanced, hts⟩ := hforming.close hover
  refine ⟨⟨lines', _, hlines, hts⟩, ?_⟩
  rw [hts]
  rw [← Nat.zero_add s.layout.indents.length] at hbalanced
  exact hbalanced.dedents.flat ⟨nofun, nofun⟩

theorem Token.scan_logicalLines_block :
    ∃ ts, Token.scan "if n < 3:\n    a = [1,\n2]\n\nb()" = .ok ts ∧
      (∃ (lines : List (List Lexeme)) (n : Nat), (∀ line ∈ lines, LogicalLine line) ∧
        ts.map (·.lexeme) = lines.flatten ++ List.replicate n .dedent ++ [.eof]) ∧
      Balanced 0 (ts.map (·.lexeme)) := by
  obtain ⟨ts, h⟩ : ∃ ts, Token.scan "if n < 3:\n    a = [1,\n2]\n\nb()" = .ok ts := ⟨_, rfl⟩
  exact ⟨ts, h, Token.scan_logicalLines h⟩

end MissionScript
