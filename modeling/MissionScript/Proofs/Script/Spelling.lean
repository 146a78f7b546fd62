import MissionScript.Proofs.Script.Lines
import MissionScript.Proofs.Value.Written

/-!
# How words are spelled

Where the reading of a text stands at characters that spell a word, it goes on behind them with the
word read (`Reached.word`). Which characters spell a word depends on what follows: a number and a
name go on as long as they can. A string may be spelled with either quote, and an escaped character
is the character again.
-/

namespace MissionScript

/-- The reading of a text has come to `rest`, behind the start of a line without indentation, with
`brackets` open, and has read the lexemes `ls` on the way. -/
def Reached (text : String) (brackets : Nat) (rest : List Char) (ls : List Lexeme) : Prop :=
  ∃ steps c sofar, Token.scan text = scanFrom steps ⟨[], brackets, false⟩ c sofar ∧
    rest.length < steps ∧ c.rest = rest ∧ sofar.map (·.lexeme) = ls.reverse

/-- The characters, in front of `rest`, are read as one word. -/
structure Spells (cs : List Char) (l : Lexeme) (rest : List Char) : Prop where
  start : ∃ x xs, cs = x :: xs ∧ isSpace x = false ∧ x ≠ '#' ∧ x ≠ '\n'
  scan {x : Char} {c : Cursor} (hx : x ∈ cs.head?) (hc : c.rest = cs ++ rest) :
    ∃ c', scanLexeme x c = .ok (l, c') ∧ c'.rest = rest

theorem scanFrom_within (steps brackets : Nat) (c : Cursor) (sofar : List Token) :
    scanFrom (steps + 1) ⟨[], brackets, false⟩ c sofar =
      match scanStep ⟨[], brackets, false⟩ (c.skipWhile isSpace) sofar with
      | .error e => .error e
      | .ok none => .ok (closeText ⟨[], brackets, false⟩ (c.skipWhile isSpace) sofar)
      | .ok (some (layout, c, sofar)) => scanFrom steps layout c sofar := rfl

theorem skipWhile_of_cons {p : Char → Bool} {c : Cursor} {x : Char} {xs : List Char}
    (hc : c.rest = x :: xs) :
    c.skipWhile p = if p x then (c.skip 1).skipWhile p else c := by
  obtain ⟨_, line, col⟩ := c
  cases hc
  cases hx : p x <;>
    simp [Cursor.skipWhile, Cursor.run, Cursor.skip, hx, Nat.add_comm, Nat.add_left_comm]

/-- At the end of the text nothing is left but to close it. -/
theorem scanFrom_over {c : Cursor} (hc : c.rest = []) (steps : Nat) (sofar : List Token) :
    scanFrom (steps + 1) ⟨[], 0, true⟩ c sofar = .ok (closeText ⟨[], 0, false⟩ c sofar) := by
  obtain ⟨_, line, col⟩ := c
  cases hc
  rfl

theorem Layout.after_eq (layout : Layout) (l : Lexeme) :
    layout.after l = ⟨layout.indents, (layout.after l).brackets, layout.fresh⟩ := by
  obtain ⟨hindents, hfresh⟩ := after_indents layout l
  rw [← hindents, ← hfresh]

/-- What follows is read as no part of a number or name in front of it. -/
def Apart (rest : List Char) : Prop := ∀ y ∈ rest.head?, isNameChar y = false ∧ y ≠ '.'

theorem apart_nil : Apart [] := by
  rintro _ ⟨⟩

namespace Reached

variable {text : String} {brackets : Nat} {rest : List Char} {ls : List Lexeme}

/-- At the start of a text that does not begin with a space, a comment or an empty line. -/
theorem start {x : Char} {xs : List Char} (htext : text.toList = x :: xs)
    (hspace : isSpace x = false) (hcomment : x ≠ '#') (hnewline : x ≠ '\n') :
    Reached text 0 text.toList [] := by
  have hline : nextLogicalLine (some 0) 1 1 (x :: xs) = (0, ⟨x :: xs, 1, 1⟩) := by
    unfold nextLogicalLine
    simp_all [isSpace]
  refine ⟨text.toList.length + 1, .ofText text, [], ?_, Nat.lt_succ_self _, rfl, rfl⟩
  rw [htext, Token.scan]
  simp only [Cursor.ofText, htext, scanFrom, startLine, Layout.start, hline]
  rfl

theorem space (h : Reached text brackets (' ' :: rest) ls) : Reached text brackets rest ls := by
  obtain ⟨steps, c, sofar, hscan, hsteps, hc, hsofar⟩ := h
  obtain ⟨steps, rfl⟩ : ∃ n, steps = n + 1 := Nat.exists_eq_add_one.mpr (by omega)
  refine ⟨steps + 1, c.skip 1, sofar, ?_, Nat.lt_of_succ_lt hsteps, by simp [Cursor.skip, hc],
    hsofar⟩
  rw [hscan, scanFrom_within, scanFrom_within, skipWhile_of_cons hc]
  rfl

/-- The reading goes on behind a word. -/
theorem word {cs : List Char} {l : Lexeme} (h : Reached text brackets (cs ++ rest) ls)
    (hl : Spells cs l rest) :
    Reached text (Layout.after ⟨[], brackets, false⟩ l).brackets rest (ls ++ [l]) := by
  obtain ⟨steps, c, sofar, hscan, hsteps, hc, hsofar⟩ := h
  obtain ⟨x, xs, rfl, hspace, hcomment, hnewline⟩ := hl.start
  obtain ⟨c', hlexeme, hc'⟩ := hl.scan rfl hc
  obtain ⟨steps, rfl⟩ : ∃ n, steps = n + 1 := Nat.exists_eq_add_one.mpr (by omega)
  have hstep : scanStep ⟨[], brackets, false⟩ c sofar =
      .ok (some (Layout.after ⟨[], brackets, false⟩ l, c', ⟨l, c'.spanFrom c.pos⟩ :: sofar)) := by
    simp only [scanStep, hc, List.cons_append, if_neg hcomment, if_neg hnewline, hlexeme]
  refine ⟨steps, c', ⟨l, c'.spanFrom c.pos⟩ :: sofar, ?_, ?_, hc', by simp [hsofar]⟩
  · rw [hscan, scanFrom_within, skipWhile_of_cons hc, hspace, if_neg Bool.false_ne_true, hstep,
      Layout.after_eq]
  · simp only [List.length_append, List.length_cons] at hsteps
    omega

/-- At the end of a text of one line. -/
theorem finish (h : Reached text 0 ['\n'] ls) :
    ∃ ts, Token.scan text = .ok ts ∧ ts.map (·.lexeme) = ls ++ [.newline, .eof] := by
  obtain ⟨steps, c, sofar, hscan, hsteps, hc, hsofar⟩ := h
  obtain ⟨steps, rfl⟩ : ∃ n, steps = n + 2 := ⟨steps - 2, by simp at hsteps; omega⟩
  have hstep : scanStep ⟨[], 0, false⟩ c sofar = .ok (some (⟨[], 0, true⟩, c.advance,
      ⟨.newline, c.advance.spanFrom c.pos⟩ :: sofar)) := by
    simp [scanStep, hc]
  have hrest : c.advance.rest = [] := by simp [Cursor.advance, hc]
  refine ⟨closeText ⟨[], 0, false⟩ c.advance (⟨.newline, c.advance.spanFrom c.pos⟩ :: sofar),
    ?_, ?_⟩
  · rw [hscan, scanFrom_within, skipWhile_of_cons hc, if_neg (by decide), hstep]
    exact scanFrom_over hrest _ _
  · simp [closeText, pushLayout, hsofar]

end Reached

section Words

variable {rest : List Char}

theorem Cursor.run_append {p : Char → Bool} {c : Cursor} {cs : List Char} (hc : c.rest = cs ++ rest)
    (hcs : ∀ x ∈ cs, p x = true) (hrest : ∀ x ∈ rest.head?, p x = false) :
    c.run p = cs ∧ (c.skipWhile p).rest = rest := by
  have hstop : rest.takeWhile p = [] := by
    cases rest with
    | nil => rfl
    | cons x xs => simp [hrest x rfl]
  have hrun : c.run p = cs := by
    rw [Cursor.run, hc, List.takeWhile_append_of_pos hcs, hstop, List.append_nil]
  refine ⟨hrun, ?_⟩
  rw [Cursor.skipWhile, hrun, Cursor.skip, hc, List.drop_left]

/-- A character of a class with no space, quote or sign of a comment in it starts a word. -/
theorem startsWord {p : Char → Bool}
    (hp : [' ', '\t', '\r', '#', '\n', '\x22', '\x27'].any p = false) {x : Char}
    (hx : p x = true) :
    isSpace x = false ∧ x ≠ '#' ∧ x ≠ '\n' ∧ (x = '\x22' || x = '\x27') = false := by
  have hne : ∀ y, y ∈ [' ', '\t', '\r', '#', '\n', '\x22', '\x27'] → x ≠ y := by
    rintro y hy rfl
    exact List.any_eq_false.mp hp x hy hx
  simp only [List.forall_mem_cons] at hne
  simp [isSpace, hne]

theorem isDigit_of_isNameStart {x : Char} (h : isNameStart x = true) : x.isDigit = false := by
  rw [isNameStart, Bool.or_eq_true, decide_eq_true_eq] at h
  rcases h with h | rfl
  · unfold Char.isAlpha Char.isUpper Char.isLower at h
    unfold Char.isDigit
    grind
  · rfl

theorem isNameChar_of_isNameStart {x : Char} (h : isNameStart x = true) : isNameChar x = true := by
  rw [isNameStart, Bool.or_eq_true] at h
  rw [isNameChar, Char.isAlphanum, Bool.or_assoc, Bool.or_eq_true]
  exact h.imp_right fun h => by rw [h, Bool.or_true]

theorem of_isNameChar_eq_false {x : Char} (h : isNameChar x = false) :
    x.isDigit = false ∧ isNameStart x = false := by
  constructor
  · rw [isNameChar, Char.isAlphanum, Bool.or_eq_false_iff, Bool.or_eq_false_iff] at h
    exact h.1.2
  · refine eq_false_of_ne_true fun hstart => ?_
    rw [isNameChar_of_isNameStart hstart] at h
    cases h

theorem Apart.head_not_nameStart (h : Apart rest) :
    (rest.head?.map isNameStart).getD false = false := by
  cases rest with
  | nil => rfl
  | cons y ys => exact (of_isNameChar_eq_false (h y rfl).1).2

/-- A symbol that makes no longer one with what follows. -/
theorem spells_symbol {x : Char} {s : Symbol} (hx : Symbol.ofChar? x = some s)
    (hpair : ∀ y ∈ rest.head?, Symbol.ofPair? x y = none) : Spells [x] (.symbol s) rest := by
  obtain ⟨hspace, hcomment, hnewline, hquote⟩ :=
    @startsWord (fun x => (Symbol.ofChar? x).isSome) rfl x (by rw [hx]; rfl)
  have hclass : x.isDigit = false ∧ isNameStart x = false := by
    unfold Symbol.ofChar? at hx
    split at hx <;> cases hx <;> decide
  refine ⟨⟨x, [], rfl, hspace, hcomment, hnewline⟩, fun {y c} hy hc => ?_⟩
  cases hy
  refine ⟨c.skip 1, ?_, by simp [Cursor.skip, hc]⟩
  simp only [scanLexeme, hquote, hclass, scanSymbol, hc, List.cons_append, List.nil_append]
  cases rest with
  | nil => simp [hx]
  | cons y ys => simp [hpair y rfl, hx]

/-- A reserved word, or else a name. -/
def wordOf (cs : List Char) : Lexeme :=
  match Keyword.ofText? (String.ofList cs) with
  | some k => .keyword k
  | none => .name (String.ofList cs)

theorem spells_word {x : Char} {xs : List Char} (hx : isNameStart x = true)
    (hxs : ∀ y ∈ xs, isNameChar y = true) (hrest : Apart rest) :
    Spells (x :: xs) (wordOf (x :: xs)) rest := by
  obtain ⟨hspace, hcomment, hnewline, hquote⟩ := startsWord rfl hx
  refine ⟨⟨x, xs, rfl, hspace, hcomment, hnewline⟩, fun {y c} hy hc => ?_⟩
  cases hy
  obtain ⟨hrun, hafter⟩ := Cursor.run_append hc
    (List.forall_mem_cons.mpr ⟨isNameChar_of_isNameStart hx, hxs⟩) fun y hy => (hrest y hy).1
  refine ⟨c.skipWhile isNameChar, ?_, hafter⟩
  simp only [scanLexeme, hquote, isDigit_of_isNameStart hx, hx, scanName, hrun]
  rfl

/-- The digits of a number that is small enough. -/
theorem spells_digits {ds : List Char} (hne : ds ≠ []) (hds : ∀ y ∈ ds, y.isDigit = true)
    (hn : Decimal.natOfDigits ds ≤ largestInt) (hrest : Apart rest) :
    Spells ds (.int (Int64.ofNat (Decimal.natOfDigits ds))) rest := by
  obtain ⟨x, xs, rfl⟩ := List.exists_cons_of_ne_nil hne
  have hx := hds x List.mem_cons_self
  obtain ⟨hspace, hcomment, hnewline, hquote⟩ := startsWord rfl hx
  refine ⟨⟨x, xs, rfl, hspace, hcomment, hnewline⟩, fun {y c} hy hc => ?_⟩
  cases hy
  obtain ⟨hrun, hafter⟩ := Cursor.run_append hc hds fun y hy =>
    (of_isNameChar_eq_false (hrest y hy).1).1
  refine ⟨c.skipWhile Char.isDigit, ?_, hafter⟩
  simp only [scanLexeme, hquote, hx, scanNumber, hrun, hafter, if_pos hn,
    hrest.head_not_nameStart, Bool.false_eq_true, if_false, if_true]
  -- a point behind the digits would begin a fraction
  split
  · exact absurd rfl (hrest '.' rfl).2
  · rfl

/-- Digits on both sides of a point. -/
theorem spells_fraction {ds fs : List Char} (hne : ds ≠ []) (hds : ∀ y ∈ ds, y.isDigit = true)
    (hne' : fs ≠ []) (hfs : ∀ y ∈ fs, y.isDigit = true) (hrest : Apart rest) :
    Spells (ds ++ '.' :: fs) (.float (Decimal.floatOfDigits ds fs)) rest := by
  obtain ⟨x, xs, rfl⟩ := List.exists_cons_of_ne_nil hne
  obtain ⟨f, fs, rfl⟩ := List.exists_cons_of_ne_nil hne'
  have hx := hds x List.mem_cons_self
  have hf := hfs f List.mem_cons_self
  obtain ⟨hspace, hcomment, hnewline, hquote⟩ := startsWord rfl hx
  refine ⟨⟨x, _, rfl, hspace, hcomment, hnewline⟩, fun {y c} hy hc => ?_⟩
  cases hy
  rw [List.append_assoc] at hc
  obtain ⟨hrun, hafter⟩ := Cursor.run_append hc hds (by simp)
  have hfraction : ((c.skipWhile Char.isDigit).skip 1).rest = (f :: fs) ++ rest := by
    simp [Cursor.skip, hafter]
  obtain ⟨hrun', hafter'⟩ := Cursor.run_append hfraction hfs fun y hy =>
    (of_isNameChar_eq_false (hrest y hy).1).1
  refine ⟨((c.skipWhile Char.isDigit).skip 1).skipWhile Char.isDigit, ?_, hafter'⟩
  rw [Cursor.skipWhile, hrun'] at hafter' ⊢
  simp only [scanLexeme, hquote, hx, scanNumber, hrun, hafter, List.cons_append, List.head?_cons,
    hf, hrun', hafter', hrest.head_not_nameStart, Bool.false_eq_true, if_false, if_true]

/-- The decimal digits of a number that is small enough. -/
theorem spells_int {n : Nat} (hn : n ≤ largestInt) (hrest : Apart rest) :
    Spells (Nat.toDigits 10 n) (.int (Int64.ofNat n)) rest := by
  have hvalue : Decimal.natOfDigits (Nat.toDigits 10 n) = n :=
    Nat.ofDigitChars_toDigits (by decide) (by decide)
  have h := spells_digits Nat.toDigits_ne_nil
    (fun y hy => Nat.isDigit_of_mem_toDigits (by decide) (by decide) hy) (hvalue.symm ▸ hn) hrest
  rwa [hvalue] at h

/-- Between quotes a character is written as an escape that stands for it, or is plain. -/
theorem inQuotes_cases {quote : Char} (hquote : quote = '\x27' ∨ quote = '\x22') (c : Char) :
    (∃ e, (Value.inQuotes quote c).toList = ['\\', e] ∧ escaped? e = some c ∧ e ≠ '\n') ∨
      ((Value.inQuotes quote c).toList = [c] ∧ c ≠ '\n' ∧ c ≠ quote ∧ c ≠ '\\') := by
  unfold Value.inQuotes
  split
  · subst c
    exact .inl ⟨'\\', rfl, rfl, by decide⟩
  split
  · subst c
    exact .inl ⟨'n', rfl, rfl, by decide⟩
  split
  · subst c
    exact .inl ⟨'t', rfl, rfl, by decide⟩
  split
  · subst c
    exact .inl ⟨'r', rfl, rfl, by decide⟩
  split
  · subst c
    rcases hquote with rfl | rfl
    · exact .inl ⟨'\x27', rfl, rfl, by decide⟩
    · exact .inl ⟨'\x22', rfl, rfl, by decide⟩
  · rename_i hback hnewline _ _ hne
    exact .inr ⟨by simp, hnewline, hne, hback⟩

/-- What is written between quotes is read up to the closing one. -/
theorem stringBody_escape {quote : Char} (hquote : quote = '\x27' ∨ quote = '\x22') (cs : List Char)
    (out : List Char) (count : Nat) :
    stringBody quote out count (Value.escape quote cs ++ quote :: rest)
      = .ok (cs.reverse ++ out, rest, count + ((Value.escape quote cs).length + 1)) := by
  have hplain : quote ≠ '\n' ∧ '\\' ≠ quote := by
    rcases hquote with rfl | rfl <;> decide
  induction cs generalizing out count with
  | nil =>
    simp only [Value.escape, List.flatMap_nil, List.nil_append]
    rw [stringBody.eq_def]
    simp [hplain.1]
  | cons c cs ih =>
    have hcons : Value.escape quote (c :: cs)
        = (Value.inQuotes quote c).toList ++ Value.escape quote cs := rfl
    rw [hcons, List.append_assoc, List.length_append]
    rcases inQuotes_cases hquote c with ⟨e, htext, he, hnewline⟩ | ⟨htext, hnewline, hne, hback⟩
    · rw [htext, List.cons_append, List.cons_append, List.nil_append, stringBody.eq_def]
      simp only [if_neg hplain.2, if_neg hnewline, he, ih]
      simp [Nat.add_assoc]
    · rw [htext, List.cons_append, List.nil_append, stringBody.eq_def]
      simp only [if_neg hnewline, if_neg hne, if_neg hback, ih]
      simp [Nat.add_assoc]

/-- A text between quotes, either ones. -/
theorem spells_str {quote : Char} (hquote : quote = '\x27' ∨ quote = '\x22') (s : String) :
    Spells (quote :: (Value.escape quote s.toList ++ [quote])) (.str s) rest := by
  refine ⟨⟨quote, _, rfl, ?_⟩, fun {y c} hy hc => ?_⟩
  · rcases hquote with rfl | rfl <;> decide
  cases hy
  have hscan : (quote = '\x22' || quote = '\x27') = true := by
    rcases hquote with rfl | rfl <;> rfl
  have hinside : (c.skip 1).rest = Value.escape quote s.toList ++ quote :: rest := by
    simp [Cursor.skip, hc]
  refine ⟨(c.skip 1).skip ((Value.escape quote s.toList).length + 1), ?_, ?_⟩
  · simp only [scanLexeme, if_pos hscan, scanString, hinside, stringBody_escape hquote]
    simp
  · simp [Cursor.skip, hc]

end Words

end MissionScript
