import MissionScript.Proofs.Script.Munch

/-!
# Reading within a line

A word is told by the line on which it stands: what is read at a place of a line, be it a word or a
fault, is the same whether the text, a newline, or some space and then one of these comes behind the
line (`scanLexeme_settled`). A number, a name or a symbol stops in front of space and newlines. A
string without a closing quote on its line stays open up to the end of the line, and so does one
that ends with a backslash, also where the backslash is followed by a space.
-/

namespace MissionScript

/-- Nothing but space is left of the line. -/
inductive Trails : List Char → Prop
  | nil : Trails []
  | newline (rest : List Char) : Trails ('\n' :: rest)
  | space {x : Char} {rest : List Char} : isSpace x = true → Trails rest → Trails (x :: rest)

/-- The reading from a place in column `col` gives the same lexeme, up to the same place of the
line, or the same fault, whatever ends the line and whichever number the line has. -/
inductive Settled (col : Nat) (scan : List Char → Nat → Scanned) : Prop
  | word (l : Lexeme) (u : List Char) (k : Nat) (hline : '\n' ∉ u)
      (h : ∀ v n, Trails v → scan v n = .ok (l, ⟨u ++ v, n, k⟩))
  | fault (f : LexFault)
      (h : ∀ v n, Trails v → ∃ stop, scan v n = .error ⟨f, ⟨⟨n, col⟩, stop⟩⟩)

theorem Settled.congr {col : Nat} {scan scan' : List Char → Nat → Scanned}
    (h : Settled col scan') (heq : ∀ v n, Trails v → scan v n = scan' v n) : Settled col scan := by
  cases h with
  | word l u k hline h => exact .word l u k hline fun v n hv => (heq v n hv).trans (h v n hv)
  | fault f h =>
    refine .fault f fun v n hv => ?_
    obtain ⟨stop, hstop⟩ := h v n hv
    exact ⟨stop, (heq v n hv).trans hstop⟩

section Space

variable {p : Char → Bool} {x : Char} {u v : List Char}

theorem isSpace_iff : isSpace x = true ↔ x = ' ' ∨ x = '\t' ∨ x = '\r' := by
  simp [isSpace, or_assoc]

/-- What begins behind a line is of no class that has neither space nor newline in it. -/
theorem Trails.head (hv : Trails v) (hp : [' ', '\t', '\r', '\n'].any p = false) :
    ∀ y ∈ v.head?, p y = false := by
  have hnone : ∀ y ∈ [' ', '\t', '\r', '\n'], p y = false := fun y hy =>
    eq_false_of_ne_true (List.any_eq_false.mp hp y hy)
  rintro y hy
  cases hv with
  | nil => cases hy
  | newline =>
    cases hy
    exact hnone '\n' (by decide)
  | space hx =>
    cases hy
    rcases isSpace_iff.mp hx with rfl | rfl | rfl <;> exact hnone _ (by decide)

theorem takeWhile_before (hv : ∀ y ∈ v.head?, p y = false) (u : List Char) :
    (u ++ v).takeWhile p = u.takeWhile p ∧ (u ++ v).dropWhile p = u.dropWhile p ++ v := by
  induction u with
  | nil =>
    cases v with
    | nil => exact ⟨rfl, rfl⟩
    | cons y ys => simp [hv y rfl]
  | cons x xs ih =>
    cases hx : p x <;> simp [hx, ih]

theorem run_before (hv : ∀ y ∈ v.head?, p y = false) (n k : Nat) :
    (⟨u ++ v, n, k⟩ : Cursor).run p = u.takeWhile p :=
  (takeWhile_before hv u).1

theorem skipWhile_before (hv : ∀ y ∈ v.head?, p y = false) (n k : Nat) :
    (⟨u ++ v, n, k⟩ : Cursor).skipWhile p =
      ⟨u.dropWhile p ++ v, n, k + (u.takeWhile p).length⟩ := by
  have hrest := skipWhile_rest p ⟨u ++ v, n, k⟩
  rw [(takeWhile_before hv u).2] at hrest
  rw [← hrest, ← run_before hv n k]
  rfl

theorem notMem_dropWhile (hline : '\n' ∉ u) : '\n' ∉ u.dropWhile p :=
  fun h => hline ((List.dropWhile_sublist p).subset h)

end Space

section Words

variable {u : List Char} {col : Nat}

theorem scanName_settled (hline : '\n' ∉ u) :
    Settled col fun v n => .ok (scanName ⟨u ++ v, n, col⟩) := by
  refine .word (wordOf (u.takeWhile isNameChar)) (u.dropWhile isNameChar)
    (col + (u.takeWhile isNameChar).length) (notMem_dropWhile hline) fun v n hv => ?_
  have hstop := hv.head (p := isNameChar) rfl
  rw [← skipWhile_before hstop, ← run_before hstop n col]
  rfl

theorem ofPair?_before {v : List Char} (hv : Trails v) (x : Char) :
    ∀ y ∈ v.head?, Symbol.ofPair? x y = none := fun y hy => by
  have hstop := hv.head (p := fun y => (Symbol.ofPair? x y).isSome) (by simp [Symbol.ofPair?]) y hy
  exact Option.isNone_iff_eq_none.mp (Option.isSome_eq_false_iff.mp hstop)

/-- A symbol of one character, where no longer one stands. -/
theorem scanSymbol_single {c : Cursor} {x : Char} {rest : List Char} (hc : c.rest = x :: rest)
    (hpair : ∀ y ∈ rest.head?, Symbol.ofPair? x y = none) :
    (∀ s, Symbol.ofChar? x = some s → scanSymbol x c = .ok (.symbol s, c.skip 1)) ∧
      (Symbol.ofChar? x = none →
        scanSymbol x c = .error ⟨.invalidCharacter x, (c.skip 1).spanFrom c.pos⟩) := by
  unfold scanSymbol
  rw [hc]
  cases rest with
  | nil => exact ⟨fun s hs => by simp only [hs], fun h => by simp only [h]⟩
  | cons y ys =>
    have hnone := hpair y rfl
    exact ⟨fun s hs => by simp only [hnone, hs], fun h => by simp only [hnone, h]⟩

theorem scanSymbol_settled_single {x : Char} (hline : '\n' ∉ u)
    (hpair : ∀ v, Trails v → ∀ y ∈ (u ++ v).head?, Symbol.ofPair? x y = none) :
    Settled col fun v n => scanSymbol x ⟨x :: u ++ v, n, col⟩ := by
  cases hchar : Symbol.ofChar? x with
  | some s =>
    exact .word (.symbol s) u (col + 1) hline fun v n hv =>
      (scanSymbol_single rfl (hpair v hv)).1 s hchar
  | none =>
    exact .fault (.invalidCharacter x) fun v n hv =>
      ⟨⟨n, max (col + 1 - 1) 1⟩, (scanSymbol_single rfl (hpair v hv)).2 hchar⟩

theorem scanSymbol_settled {x : Char} (hline : '\n' ∉ u) :
    Settled col fun v n => scanSymbol x ⟨x :: u ++ v, n, col⟩ := by
  rcases u with _ | ⟨y, ys⟩
  · exact scanSymbol_settled_single hline fun v hv => ofPair?_before hv x
  cases hpair : Symbol.ofPair? x y with
  | none => exact scanSymbol_settled_single hline fun v _ z hz => by cases hz; exact hpair
  | some s =>
    have hline' : '\n' ∉ ys := fun h => hline (List.mem_cons_of_mem y h)
    refine .word (.symbol s) ys (col + 2) hline' fun v n _ => ?_
    simp only [scanSymbol, List.cons_append, hpair]
    rfl

/-- A string does not end in the space behind its line. -/
theorem stringBody_open {quote : Char} (hquote : quote = '\x22' ∨ quote = '\x27') {v : List Char}
    (hv : Trails v) (out : List Char) (count : Nat) :
    ∃ n, stringBody quote out count v = .error n := by
  induction hv generalizing out count with
  | nil => exact ⟨count, rfl⟩
  | newline rest => exact ⟨count, by rw [stringBody.eq_def]; rfl⟩
  | @space x rest hx _ ih =>
    have hplain : x ≠ '\n' ∧ x ≠ quote ∧ x ≠ '\\' := by
      rcases isSpace_iff.mp hx with rfl | rfl | rfl <;> rcases hquote with rfl | rfl <;> decide
    obtain ⟨n, hn⟩ := ih (x :: out) (count + 1)
    refine ⟨n, ?_⟩
    rw [stringBody.eq_def]
    simp only [if_neg hplain.1, if_neg hplain.2.1, if_neg hplain.2.2, hn]

/-- A backslash at the end of a line closes no string either. -/
theorem stringBody_backslash {quote : Char} (hquote : quote = '\x22' ∨ quote = '\x27')
    {v : List Char} (hv : Trails v) (out : List Char) (count : Nat) :
    ∃ n, stringBody quote out count ('\\' :: v) = .error n := by
  have hne : '\\' ≠ quote := by
    rcases hquote with rfl | rfl <;> decide
  rw [stringBody.eq_def]
  cases hv with
  | nil => exact ⟨count + 1, by simp [hne]⟩
  | newline rest => exact ⟨count + 1, by simp [hne]⟩
  | @space x rest hx hrest =>
    have hx' : x ≠ '\n' := by
      rcases isSpace_iff.mp hx with rfl | rfl | rfl <;> decide
    cases he : escaped? x with
    | some y =>
      obtain ⟨n, hn⟩ := stringBody_open hquote hrest (y :: out) (count + 2)
      exact ⟨n, by simp [hne, hx', he, hn]⟩
    | none =>
      obtain ⟨n, hn⟩ := stringBody_open hquote hrest (x :: '\\' :: out) (count + 2)
      exact ⟨n, by simp [hne, hx', he, hn]⟩

/-- The closing quote stands on the line, or there is none. -/
theorem stringBody_line {quote : Char} (hquote : quote = '\x22' ∨ quote = '\x27') {u : List Char}
    (hline : '\n' ∉ u) (out : List Char) (count : Nat) :
    (∃ out' u' n, '\n' ∉ u' ∧ ∀ v, stringBody quote out count (u ++ v) = .ok (out', u' ++ v, n)) ∨
      ∀ v, Trails v → ∃ n, stringBody quote out count (u ++ v) = .error n := by
  fun_induction stringBody quote out count u with
  | case1 out count => exact .inr fun v hv => stringBody_open hquote hv out count
  | case2 | case5 => simp at hline
  | case3 out count cs hnewline =>
    rw [List.mem_cons, not_or] at hline
    refine .inl ⟨out, cs, count + 1, hline.2, fun v => ?_⟩
    rw [List.cons_append, stringBody.eq_def]
    simp [hnewline]
  | case4 out count => exact .inr fun v hv => stringBody_backslash hquote hv out count
  | case6 out count e cs he x hx hnewline hne ih =>
    rw [List.mem_cons, List.mem_cons, not_or, not_or] at hline
    have hstep : ∀ v, stringBody quote out count ('\\' :: e :: cs ++ v) =
        stringBody quote (x :: out) (count + 2) (cs ++ v) := fun v => by
      rw [List.cons_append, List.cons_append, stringBody.eq_def]
      simp [hne, he, hx]
    simpa only [hstep] using ih hline.2.2
  | case7 out count e cs he hx hnewline hne ih =>
    rw [List.mem_cons, List.mem_cons, not_or, not_or] at hline
    have hstep : ∀ v, stringBody quote out count ('\\' :: e :: cs ++ v) =
        stringBody quote (e :: '\\' :: out) (count + 2) (cs ++ v) := fun v => by
      rw [List.cons_append, List.cons_append, stringBody.eq_def]
      simp [hne, he, hx]
    simpa only [hstep] using ih hline.2.2
  | case8 out count x cs hnewline hne hescape ih =>
    rw [List.mem_cons, not_or] at hline
    have hstep : ∀ v, stringBody quote out count (x :: cs ++ v) =
        stringBody quote (x :: out) (count + 1) (cs ++ v) := fun v => by
      rw [List.cons_append, stringBody.eq_def]
      simp [hnewline, hne, hescape]
    simpa only [hstep] using ih hline.2

theorem scanString_settled {quote : Char} (hquote : quote = '\x22' ∨ quote = '\x27')
    (hline : '\n' ∉ u) : Settled col fun v n => scanString quote ⟨quote :: u ++ v, n, col⟩ := by
  rcases stringBody_line hquote hline [] 0 with ⟨out, u', n, hline', hbody⟩ | hopen
  · refine .word (.str (String.ofList out.reverse)) u' (col + 1 + n) hline' fun v m _ => ?_
    obtain ⟨w, hw, hn, -⟩ := stringBody_cuts _ (hbody v)
    rw [Nat.zero_add] at hn
    have hrest : (u ++ v).drop n = u' ++ v := by rw [hw, hn, List.drop_left]
    simp only [scanString, Cursor.skip, List.cons_append, List.drop_succ_cons, List.drop_zero,
      hbody v, hrest]
  · refine .fault (.unterminatedString quote) fun v n hv => ?_
    obtain ⟨m, hm⟩ := hopen v hv
    simp only [scanString, Cursor.skip, List.cons_append, List.drop_succ_cons, List.drop_zero, hm]
    exact ⟨_, rfl⟩

end Words

section Numbers

/-- The end of a number: with a letter behind it, it is no number. -/
def finishNumber (start : Pos) (text : List Char) (value : Except LexFault Lexeme) (c : Cursor) :
    Scanned :=
  let tail := c.run isNameChar
  if (c.rest.head?.map isNameStart).getD false then
    let stop := c.skip tail.length
    .error ⟨.badNumber (String.ofList (text ++ tail)), stop.spanFrom start⟩
  else
    match value with
    | .ok l => .ok (l, c)
    | .error f => .error ⟨f, c.spanFrom start⟩

def integerOf (digits : List Char) : Except LexFault Lexeme :=
  let n := Decimal.natOfDigits digits
  if n ≤ largestInt then .ok (.int (Int64.ofNat n))
  else .error (.integerTooLarge (String.ofList digits))

variable {c : Cursor} {u next : List Char} {d : Char} {col : Nat}

/-- Digits without a point, or with a point and a letter behind them. -/
theorem scanNumber_whole (h : ∀ next, (c.skipWhile Char.isDigit).rest = '.' :: next →
      ∃ d ∈ next.head?, isNameStart d = true) :
    scanNumber c = finishNumber c.pos (c.run Char.isDigit) (integerOf (c.run Char.isDigit))
      (c.skipWhile Char.isDigit) := by
  unfold scanNumber
  dsimp only
  split
  · rename_i next hpoint
    obtain ⟨d, hd, hstart⟩ := h next hpoint
    rw [hd]
    simp only [isDigit_of_isNameStart hstart, hstart]
    rfl
  · rfl

theorem scanNumber_fraction (h : (c.skipWhile Char.isDigit).rest = '.' :: d :: next)
    (hd : d.isDigit = true) :
    scanNumber c = finishNumber c.pos
      (c.run Char.isDigit ++ '.' :: ((c.skipWhile Char.isDigit).skip 1).run Char.isDigit)
      (.ok (.float (Decimal.floatOfDigits (c.run Char.isDigit)
        (((c.skipWhile Char.isDigit).skip 1).run Char.isDigit))))
      (((c.skipWhile Char.isDigit).skip 1).skipWhile Char.isDigit) := by
  unfold scanNumber
  simp only [h, List.head?_cons, hd]
  rfl

theorem scanNumber_bare (h : (c.skipWhile Char.isDigit).rest = '.' :: next)
    (hnext : ∀ d ∈ next.head?, isNameChar d = false) :
    scanNumber c = .error ⟨.bareFraction (String.ofList (c.run Char.isDigit ++ ['.'])),
      ((c.skipWhile Char.isDigit).skip 1).spanFrom c.pos⟩ := by
  unfold scanNumber
  simp only [h]
  cases next with
  | nil => rfl
  | cons d next =>
    obtain ⟨hdigit, hstart⟩ := of_isNameChar_eq_false (hnext d rfl)
    simp only [List.head?_cons, hdigit, hstart]
    rfl

theorem finishNumber_settled (hline : '\n' ∉ u) (text : List Char)
    (value : Except LexFault Lexeme) (k : Nat) :
    Settled col fun v n => finishNumber ⟨n, col⟩ text value ⟨u ++ v, n, k⟩ := by
  have hhead : ∀ v, Trails v → ((u ++ v).head?.map isNameStart).getD false =
      (u.head?.map isNameStart).getD false := by
    intro v hv
    cases u with
    | nil =>
      have hstop := hv.head (p := isNameStart) rfl
      cases v with
      | nil => rfl
      | cons y ys => exact hstop y rfl
    | cons y ys => rfl
  cases hletter : (u.head?.map isNameStart).getD false with
  | true =>
    refine .fault (.badNumber (String.ofList (text ++ u.takeWhile isNameChar))) fun v n hv => ?_
    have hrun := run_before (u := u) (hv.head (p := isNameChar) rfl) n k
    simp only [finishNumber, hhead v hv, hletter, hrun]
    exact ⟨_, rfl⟩
  | false =>
    cases value with
    | ok l =>
      refine .word l u k hline fun v n hv => ?_
      simp only [finishNumber, hhead v hv, hletter]
      rfl
    | error f =>
      refine .fault f fun v n hv => ?_
      simp only [finishNumber, hhead v hv, hletter]
      exact ⟨_, rfl⟩

theorem scanNumber_settled (hline : '\n' ∉ u) :
    Settled col fun v n => scanNumber ⟨u ++ v, n, col⟩ := by
  obtain ⟨whole, rest, k, hrest, hcursor⟩ : ∃ whole rest k, '\n' ∉ rest ∧
      ∀ v n, Trails v → (⟨u ++ v, n, col⟩ : Cursor).run Char.isDigit = whole ∧
        (⟨u ++ v, n, col⟩ : Cursor).skipWhile Char.isDigit = ⟨rest ++ v, n, k⟩ :=
    ⟨_, _, _, notMem_dropWhile hline, fun v n hv =>
      ⟨run_before (hv.head rfl) n col, skipWhile_before (hv.head rfl) n col⟩⟩
  have hinteger (hpoint : ∀ v, Trails v → ∀ next, rest ++ v = '.' :: next →
        ∃ d ∈ next.head?, isNameStart d = true) :
      Settled col fun v n => scanNumber ⟨u ++ v, n, col⟩ := by
    refine (finishNumber_settled hrest whole (integerOf whole) k).congr fun v n hv => ?_
    obtain ⟨hrun, hafter⟩ := hcursor v n hv
    rw [scanNumber_whole (by rw [hafter]; exact hpoint v hv), hrun, hafter]
    rfl
  rcases rest with _ | ⟨y, s⟩
  · refine hinteger fun v hv next hnext => ?_
    have hstop := hv.head (p := (· = '.')) rfl
    rw [List.nil_append] at hnext
    rw [hnext] at hstop
    exact absurd rfl (of_decide_eq_false (hstop '.' rfl))
  rcases (Decidable.em (y = '.')).symm with hy | rfl
  · exact hinteger fun v _ next hnext => absurd (List.cons.inj hnext).1 hy
  rw [List.mem_cons, not_or] at hrest
  by_cases hbare : ∀ d ∈ s.head?, isNameChar d = false
  · refine .fault (.bareFraction (String.ofList (whole ++ ['.']))) fun v n hv => ?_
    obtain ⟨hrun, hafter⟩ := hcursor v n hv
    have hnext : ∀ d ∈ (s ++ v).head?, isNameChar d = false := by
      cases s with
      | nil => exact hv.head rfl
      | cons d ds => exact hbare
    rw [scanNumber_bare (by rw [hafter]; rfl) hnext, hrun]
    exact ⟨_, rfl⟩
  · obtain ⟨d, ds, rfl, hd⟩ : ∃ d ds, s = d :: ds ∧ isNameChar d = true := by
      rcases s with _ | ⟨d, ds⟩
      · exact absurd nofun hbare
      · exact ⟨d, ds, rfl, by simpa using hbare⟩
    cases hdigit : d.isDigit with
    | true =>
      refine (finishNumber_settled (notMem_dropWhile (p := Char.isDigit) hrest.2)
        (whole ++ '.' :: (d :: ds).takeWhile Char.isDigit)
        (.ok (.float (Decimal.floatOfDigits whole ((d :: ds).takeWhile Char.isDigit))))
        (k + 1 + ((d :: ds).takeWhile Char.isDigit).length)).congr fun v n hv => ?_
      obtain ⟨hrun, hafter⟩ := hcursor v n hv
      have hpoint : (⟨'.' :: d :: ds ++ v, n, k⟩ : Cursor).skip 1 = ⟨d :: ds ++ v, n, k + 1⟩ := rfl
      rw [scanNumber_fraction (by rw [hafter]; rfl) hdigit, hrun, hafter, hpoint,
        run_before (hv.head rfl), skipWhile_before (hv.head rfl)]
      rfl
    | false =>
      refine hinteger fun v _ next hnext => ⟨d, ?_, ?_⟩
      · rw [← (List.cons.inj hnext).2]
        rfl
      · rwa [isNameChar, Char.isAlphanum, hdigit, Bool.or_false] at hd

end Numbers

section Lexemes

variable {u : List Char} {x : Char}

/-- What is read at a place of a line does not depend on how the line ends. -/
theorem scanLexeme_settled (hline : '\n' ∉ x :: u) (col : Nat) :
    Settled col fun v n => scanLexeme x ⟨x :: u ++ v, n, col⟩ := by
  have hline' : '\n' ∉ u := fun h => hline (List.mem_cons_of_mem x h)
  unfold scanLexeme
  by_cases hquote : (x = '\x22' || x = '\x27') = true
  · simpa only [if_pos hquote] using scanString_settled (by simpa using hquote) hline'
  by_cases hdigit : x.isDigit = true
  · simpa only [if_neg hquote, if_pos hdigit] using scanNumber_settled hline
  by_cases hname : isNameStart x = true
  · simpa only [if_neg hquote, if_neg hdigit, if_pos hname] using scanName_settled hline
  · simpa only [if_neg hquote, if_neg hdigit, if_neg hname] using scanSymbol_settled hline'

end Lexemes

end MissionScript
