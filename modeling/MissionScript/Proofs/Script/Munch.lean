import MissionScript.Proofs.Script.Spelling

/-!
# How words are cut off

What the lexer takes for a word is a word on its own: it lies within a line, and read without what
follows it in the text, it is the same lexeme (`scanLexeme_cuts`). A text that is nothing but such a
word is read as its lexeme, the end of the line and the end of the text (`Spells.scan_alone`).
-/

namespace MissionScript

/-- The cursor `c'` is behind the characters `w` of the line in which `c` stands in front of
them. -/
structure Cursor.Within (c : Cursor) (w : List Char) (c' : Cursor) : Prop where
  rest : c.rest = w ++ c'.rest
  line : c'.line = c.line
  col : c'.col = c.col + w.length

/-- The characters are a word within a line, and without anything behind them are read as `l`. -/
structure Cuts (w : List Char) (l : Lexeme) : Prop where
  spells : Spells w l []
  line : '\n' ∉ w
  last : w.getLast? ≠ some '\r'

section Cursors

variable {c c' c'' : Cursor} {w w' : List Char}

theorem Cursor.within_skip {n : Nat} {w rest : List Char} (hc : c.rest = w ++ rest)
    (hn : n = w.length) : c.Within w (c.skip n) := by
  subst hn
  exact ⟨by simp [Cursor.skip, hc], rfl, rfl⟩

theorem Cursor.within_skipWhile (p : Char → Bool) (c : Cursor) :
    c.Within (c.run p) (c.skipWhile p) := by
  have hrest : c.rest = c.run p ++ c.rest.dropWhile p := by
    rw [Cursor.run, List.takeWhile_append_dropWhile]
  exact within_skip hrest rfl

theorem Cursor.Within.trans (h : c.Within w c') (h' : c'.Within w' c'') :
    c.Within (w ++ w') c'' :=
  ⟨by rw [h.rest, h'.rest, List.append_assoc], h'.line.trans h.line,
    by rw [h'.col, h.col, List.length_append, Nat.add_assoc]⟩

end Cursors

section Classes

theorem notMem_of_forall {p : Char → Bool} {y : Char} (hp : p y = false) {w : List Char}
    (hw : ∀ x ∈ w, p x = true) : y ∉ w := fun hmem => by
  rw [hw y hmem] at hp
  cases hp

/-- Characters of a class without newlines and carriage returns form no end of a line. -/
theorem within_line {p : Char → Bool} (hp : p '\n' = false ∧ p '\r' = false) {w : List Char}
    (hw : ∀ x ∈ w, p x = true) : '\n' ∉ w ∧ w.getLast? ≠ some '\r' :=
  ⟨notMem_of_forall hp.1 hw, fun h => notMem_of_forall hp.2 hw (List.mem_of_getLast? h)⟩

theorem run_forall (p : Char → Bool) (c : Cursor) : ∀ x ∈ c.run p, p x = true :=
  fun _ hx => List.all_eq_true.mp List.all_takeWhile _ hx

end Classes

section Words

variable {c c' : Cursor} {l : Lexeme}

theorem scanName_cuts {x : Char} {xs : List Char} (hc : c.rest = x :: xs)
    (hx : isNameStart x = true) (hscan : scanName c = (l, c')) :
    ∃ w, c.Within w c' ∧ Cuts w l := by
  obtain ⟨rfl, rfl⟩ : wordOf (c.run isNameChar) = l ∧ c.skipWhile isNameChar = c' := by
    cases hscan
    exact ⟨rfl, rfl⟩
  have hall := run_forall isNameChar c
  have hrun : c.run isNameChar = x :: xs.takeWhile isNameChar := by
    rw [Cursor.run, hc, List.takeWhile_cons_of_pos (isNameChar_of_isNameStart hx)]
  obtain ⟨hline, hlast⟩ := within_line ⟨rfl, rfl⟩ hall
  refine ⟨_, c.within_skipWhile isNameChar, ?_, hline, hlast⟩
  rw [hrun] at hall ⊢
  exact spells_word hx (fun y hy => hall y (List.mem_cons_of_mem x hy)) apart_nil

theorem spells_pair {x y : Char} {s : Symbol} (hpair : Symbol.ofPair? x y = some s)
    (rest : List Char) : Spells [x, y] (.symbol s) rest := by
  have hx : isSpace x = false ∧ x ≠ '#' ∧ x ≠ '\n' ∧ (x = '\x22' || x = '\x27') = false ∧
      x.isDigit = false ∧ isNameStart x = false := by
    unfold Symbol.ofPair? at hpair
    split at hpair <;> cases hpair <;> decide
  obtain ⟨hspace, hcomment, hnewline, hquote, hdigit, hname⟩ := hx
  refine ⟨⟨x, [y], rfl, hspace, hcomment, hnewline⟩, fun {z c} hz hc => ?_⟩
  cases hz
  refine ⟨c.skip 2, ?_, by simp [Cursor.skip, hc]⟩
  simp [scanLexeme, hquote, hdigit, hname, scanSymbol, hc, hpair]

theorem scanSymbol_cuts {x : Char} {xs : List Char} (hc : c.rest = x :: xs)
    (hscan : scanSymbol x c = .ok (l, c')) : ∃ w, c.Within w c' ∧ Cuts w l := by
  unfold scanSymbol at hscan
  dsimp only at hscan
  split at hscan
  · rename_i s hpair
    cases hscan
    rcases xs with _ | ⟨y, ys⟩ <;> rw [hc] at hpair
    · cases hpair
    · have hline : '\n' ∉ [x, y] ∧ [x, y].getLast? ≠ some '\r' := by
        dsimp only at hpair
        unfold Symbol.ofPair? at hpair
        split at hpair <;> cases hpair <;> decide
      exact ⟨[x, y], Cursor.within_skip hc rfl, spells_pair hpair [], hline.1, hline.2⟩
  · split at hscan
    · rename_i s hs
      cases hscan
      have hline : '\n' ∉ [x] ∧ [x].getLast? ≠ some '\r' := by
        unfold Symbol.ofChar? at hs
        split at hs <;> cases hs <;> decide
      exact ⟨[x], Cursor.within_skip hc rfl, spells_symbol hs nofun, hline.1, hline.2⟩
    · cases hscan

/-- A number is whole, or has digits on both sides of its point. -/
theorem scanNumber_cases (hscan : scanNumber c = .ok (l, c')) :
    (c' = c.skipWhile Char.isDigit ∧ Decimal.natOfDigits (c.run Char.isDigit) ≤ largestInt ∧
        l = .int (Int64.ofNat (Decimal.natOfDigits (c.run Char.isDigit)))) ∨
      ∃ d next point, (c.skipWhile Char.isDigit).rest = '.' :: d :: next ∧ d.isDigit = true ∧
        point = (c.skipWhile Char.isDigit).skip 1 ∧ c' = point.skipWhile Char.isDigit ∧
        l = .float (Decimal.floatOfDigits (c.run Char.isDigit) (point.run Char.isDigit)) := by
  unfold scanNumber at hscan
  dsimp only at hscan
  repeat' split at hscan
  all_goals cases hscan
  · rename_i next hpoint _ d hd hdigit _
    obtain ⟨next, rfl⟩ : ∃ ds, next = d :: ds := List.head?_eq_some_iff.mp hd
    exact .inr ⟨d, next, _, hpoint, hdigit, rfl, rfl, rfl⟩
  all_goals
    rename_i hint
    split at hint <;> cases hint
    exact .inl ⟨rfl, ‹_›, rfl⟩

theorem scanNumber_cuts {x : Char} {xs : List Char} (hc : c.rest = x :: xs)
    (hx : x.isDigit = true) (hscan : scanNumber c = .ok (l, c')) :
    ∃ w, c.Within w c' ∧ Cuts w l := by
  have hne : c.run Char.isDigit ≠ [] := by
    rw [Cursor.run, hc, List.takeWhile_cons_of_pos hx]
    exact List.cons_ne_nil _ _
  have hdigits := run_forall Char.isDigit c
  rcases scanNumber_cases hscan with ⟨rfl, hn, rfl⟩ | ⟨d, next, point, hpoint, hd, rfl, rfl, rfl⟩
  · obtain ⟨hline, hlast⟩ := within_line ⟨rfl, rfl⟩ hdigits
    exact ⟨_, c.within_skipWhile _, spells_digits hne hdigits hn apart_nil, hline, hlast⟩
  · generalize hafter : c.skipWhile Char.isDigit = afterWhole at hpoint ⊢
    have hfraction := run_forall Char.isDigit (afterWhole.skip 1)
    have hne' : (afterWhole.skip 1).run Char.isDigit ≠ [] := by
      rw [Cursor.run, Cursor.skip, hpoint, List.drop_succ_cons, List.drop_zero,
        List.takeWhile_cons_of_pos hd]
      exact List.cons_ne_nil _ _
    have hall : ∀ y ∈ c.run Char.isDigit ++ '.' :: (afterWhole.skip 1).run Char.isDigit,
        (y.isDigit || y = '.') = true := by
      simp only [List.forall_mem_append, List.forall_mem_cons]
      exact ⟨fun y hy => by rw [hdigits y hy]; rfl, rfl, fun y hy => by rw [hfraction y hy]; rfl⟩
    obtain ⟨hline, hlast⟩ := within_line ⟨rfl, rfl⟩ hall
    refine ⟨_, ?_, spells_fraction hne hdigits hne' hfraction apart_nil, hline, hlast⟩
    have hwhole : c.Within _ afterWhole := hafter ▸ c.within_skipWhile Char.isDigit
    exact hwhole.trans ((Cursor.within_skip (w := ['.']) hpoint rfl).trans
      (Cursor.within_skipWhile _ _))

/-- What is read up to the closing quote does not depend on what follows it. -/
theorem stringBody_cuts {quote : Char} (cs : List Char) {out out' rest : List Char} {count n : Nat}
    (h : stringBody quote out count cs = .ok (out', rest, n)) :
    ∃ w, cs = w ++ rest ∧ n = count + w.length ∧ '\n' ∉ w ∧ w.getLast? = some quote ∧
      stringBody quote out count w = .ok (out', [], n) := by
  fun_induction stringBody quote out count cs with
  | case1 | case2 | case4 | case5 => cases h
  | case3 out count cs hnewline =>
    cases h
    refine ⟨[quote], rfl, rfl, by simpa using Ne.symm hnewline, rfl, ?_⟩
    simp [stringBody, hnewline]
  | case6 out count e cs he x hx hnewline hquote ih =>
    obtain ⟨w, rfl, rfl, hline, hlast, hw⟩ := ih h
    refine ⟨'\\' :: e :: w, rfl, by simp only [List.length_cons]; omega, ?_, ?_, ?_⟩
    · simpa using ⟨Ne.symm he, hline⟩
    · simp [List.getLast?_cons, hlast]
    · rw [stringBody.eq_def]
      simp [hquote, he, hx, hw]
  | case7 out count e cs he hx hnewline hquote ih =>
    obtain ⟨w, rfl, rfl, hline, hlast, hw⟩ := ih h
    refine ⟨'\\' :: e :: w, rfl, by simp only [List.length_cons]; omega, ?_, ?_, ?_⟩
    · simpa using ⟨Ne.symm he, hline⟩
    · simp [List.getLast?_cons, hlast]
    · rw [stringBody.eq_def]
      simp [hquote, he, hx, hw]
  | case8 out count x cs hnewline hquote hescape ih =>
    obtain ⟨w, rfl, rfl, hline, hlast, hw⟩ := ih h
    refine ⟨x :: w, rfl, by simp only [List.length_cons]; omega, ?_, ?_, ?_⟩
    · simpa using ⟨Ne.symm hnewline, hline⟩
    · simp [List.getLast?_cons, hlast]
    · rw [stringBody.eq_def]
      simp [hnewline, hquote, hescape, hw]

theorem scanString_cuts {quote : Char} (hquote : quote = '\x22' ∨ quote = '\x27') {xs : List Char}
    (hc : c.rest = quote :: xs) (hscan : scanString quote c = .ok (l, c')) :
    ∃ w, c.Within w c' ∧ Cuts w l := by
  have hstart : isSpace quote = false ∧ quote ≠ '#' ∧ quote ≠ '\n' ∧ quote ≠ '\r' ∧
      (quote = '\x22' || quote = '\x27') = true := by
    rcases hquote with rfl | rfl <;> decide
  obtain ⟨hspace, hcomment, hnewline, hreturn, hstring⟩ := hstart
  have hinside : (c.skip 1).rest = xs := by simp [Cursor.skip, hc]
  unfold scanString at hscan
  dsimp only at hscan
  rw [hinside] at hscan
  split at hscan <;> cases hscan
  rename_i out rest n hbody
  obtain ⟨w, rfl, hn, hline, hlast, hw⟩ := stringBody_cuts xs hbody
  rw [Nat.zero_add] at hn
  refine ⟨quote :: w, ?_, ⟨⟨quote, w, rfl, hspace, hcomment, hnewline⟩, fun {y d} hy hd => ?_⟩, ?_,
    ?_⟩
  · exact (Cursor.within_skip (w := [quote]) hc rfl).trans (Cursor.within_skip hinside hn)
  · cases hy
    rw [List.append_nil] at hd
    refine ⟨(d.skip 1).skip n, ?_, by simp [Cursor.skip, hd, hn]⟩
    have hd' : (d.skip 1).rest = w := by simp [Cursor.skip, hd]
    simp only [scanLexeme, if_pos hstring, scanString, hd', hw]
  · simpa using ⟨Ne.symm hnewline, hline⟩
  · rw [List.getLast?_cons, hlast]
    simpa using hreturn

/-- What is read as a word is a word on its own. -/
theorem scanLexeme_cuts {x : Char} {xs : List Char} (hc : c.rest = x :: xs)
    (hscan : scanLexeme x c = .ok (l, c')) : ∃ w, c.Within w c' ∧ Cuts w l := by
  unfold scanLexeme at hscan
  split at hscan
  · rename_i hquote
    exact scanString_cuts (by simpa using hquote) hc hscan
  split at hscan
  · exact scanNumber_cuts hc ‹_› hscan
  split at hscan
  · exact scanName_cuts hc ‹_› (Except.ok.inj hscan)
  · exact scanSymbol_cuts hc hscan

end Words

section Alone

variable {text : String} {brackets : Nat} {ls : List Lexeme} {l : Lexeme}

/-- A text may end behind a word, also where brackets are open. -/
theorem Reached.over (h : Reached text brackets [] (ls ++ [l])) (hl : l.isLayout = false) :
    ∃ ts, Token.scan text = .ok ts ∧ ts.map (·.lexeme) = ls ++ [l, .newline, .eof] := by
  obtain ⟨steps, c, sofar, hscan, hsteps, hc, hsofar⟩ := h
  obtain ⟨steps, rfl⟩ : ∃ n, steps = n + 1 := Nat.exists_eq_add_one.mpr (by simpa using hsteps)
  have hhere : (c.skipWhile isSpace).rest = [] := by rw [skipWhile_rest, hc]; rfl
  have hstep : scanStep ⟨[], brackets, false⟩ (c.skipWhile isSpace) sofar = .ok none := by
    rw [scanStep, hhere]
  refine ⟨closeText ⟨[], brackets, false⟩ (c.skipWhile isSpace) sofar, ?_, ?_⟩
  · rw [hscan, scanFrom_within, hstep]
  · rw [List.reverse_append, List.reverse_singleton, List.singleton_append] at hsofar
    obtain ⟨t, before, rfl, rfl, hbefore⟩ := List.map_eq_cons_iff.mp hsofar
    rw [lexemes_closeText_within rfl hl]
    simp [hbefore]

/-- A text that is one word. -/
theorem Spells.scan_alone {w : List Char} (h : Spells w l []) (hl : l.isLayout = false)
    (htext : text.toList = w) :
    ∃ ts, Token.scan text = .ok ts ∧ ts.map (·.lexeme) = [l, .newline, .eof] := by
  obtain ⟨x, xs, rfl, hspace, hcomment, hnewline⟩ := h.start
  have hstart : Reached text 0 ((x :: xs) ++ []) [] := by
    rw [List.append_nil, ← htext]
    exact .start htext hspace hcomment hnewline
  have hword : Reached text _ [] ([] ++ [l]) := hstart.word h
  exact hword.over hl

end Alone

end MissionScript
