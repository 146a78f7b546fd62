import Mathlib.Data.List.Forall2
import MissionScript.Proofs.Script.Relaid
import MissionScript.Proofs.Script.Sited
import MissionScript.Script.Check

/-!
# Reading a text laid out anew

The readings of a text and of the same text laid out anew go on side by side (`Abreast`). Each word,
each end of a line and each start of a line is met by both in one step. Between brackets the second
one may also have to pass a line without words, one or two steps in which the first one waits. So
the readings end alike (`endsAlike`), by induction on the steps of the second one with a lemma for
each place at which they may stand, and the text laid out anew has the tokens of the text, or its
fault, in the lines to which they are moved (`SourceText.tokens_relaid`).
-/

namespace MissionScript

/-- Both succeed, with results as related by `R`, or both fail, with faults as related by `E`. -/
inductive Alike {ε α : Type} (E : ε → ε → Prop) (R : α → α → Prop) :
    Except ε α → Except ε α → Prop
  | ok {a a' : α} (h : R a a') : Alike E R (.ok a) (.ok a')
  | error {e e' : ε} (h : E e e') : Alike E R (.error e) (.error e')

/-- The span, `k` lines further down. -/
def Span.below (k : Nat) (s : Span) : Span :=
  ⟨⟨s.start.line + k, s.start.col⟩, ⟨s.stop.line + k, s.stop.col⟩⟩

/-- The same lexeme, in a line that lies as much further down as told. Where layout is does not
count. -/
structure Token.Moved (δ : Nat → Nat) (t t' : Token) : Prop where
  lexeme : t'.lexeme = t.lexeme
  span : t.lexeme.isLayout = false → t'.span = t.span.below (δ t.span.line)

/-- The same fault, in a line that lies as much further down as told. -/
structure LexError.Moved (δ : Nat → Nat) (e e' : LexError) : Prop where
  fault : e'.fault = e.fault
  start : e'.span.start = ⟨e.span.line + δ e.span.line, e.span.start.col⟩

abbrev TokensMoved (δ : Nat → Nat) : List Token → List Token → Prop :=
  List.Forall₂ (Token.Moved δ)

/-- The same tokens or the same fault, in lines that lie as much further down as told. -/
abbrev ScansAlike (δ : Nat → Nat) :
    Except LexError (List Token) → Except LexError (List Token) → Prop :=
  Alike (LexError.Moved δ) (TokensMoved δ)

/-- Two readings stand at the same place of the two texts: at the start of a line, on the same line,
or between brackets, where the second one may have to pass a line without words first. -/
inductive Abreast (δ : Nat → Nat) (layout : Layout) : Cursor → Cursor → Prop
  | margin {n d : Nat} {t t' : List Char} (hfresh : layout.fresh = true)
      (hbrackets : layout.brackets = 0) (h : Relaid δ n d t t') :
      Abreast δ layout ⟨t, n, 1⟩ ⟨t', n + d, 1⟩
  | line {n k k' : Nat} {u v v' : List Char} (hwithin : layout.fresh = false) (hline : '\n' ∉ u)
      (hcol : u ≠ [] → k' = k) (hend : LineEnd δ n v v') :
      Abreast δ layout ⟨u ++ v, n, k⟩ ⟨u ++ v', n + δ n, k'⟩
  | blank {n d k' : Nat} {w t t' : List Char} (hwithin : layout.fresh = false)
      (hbrackets : layout.brackets ≠ 0) (hw : Wordless w) (h : Relaid δ n (d + 1) t t') :
      Abreast δ layout ⟨t, n, 1⟩ ⟨w ++ '\n' :: t', n + d, k'⟩

section Steps

variable {δ : Nat → Nat} {layout layout' : Layout} {c c' here : Cursor} {sofar sofar' : List Token}
  {e : LexError} {steps : Nat}

theorem startLine_within (hwithin : layout.fresh = false) :
    startLine layout c sofar = .ok (layout, c, sofar) := by
  unfold startLine
  rw [if_neg (by simp [hwithin])]

theorem scanFrom_error (hwithin : layout.fresh = false)
    (hstep : scanStep layout (c.skipWhile isSpace) sofar = .error e) :
    scanFrom (steps + 1) layout c sofar = .error e := by
  simp only [scanFrom, startLine_within hwithin, hstep]

theorem scanFrom_none (hwithin : layout.fresh = false) (hover : (c.skipWhile isSpace).rest = []) :
    scanFrom (steps + 1) layout c sofar = .ok (closeText layout (c.skipWhile isSpace) sofar) := by
  have hstep : scanStep layout (c.skipWhile isSpace) sofar = .ok none := by
    rw [scanStep, hover]
  simp only [scanFrom, startLine_within hwithin, hstep]

theorem scanFrom_some (hwithin : layout.fresh = false)
    (hstep : scanStep layout (c.skipWhile isSpace) sofar = .ok (some (layout', c', sofar'))) :
    scanFrom (steps + 1) layout c sofar = scanFrom steps layout' c' sofar' := by
  simp only [scanFrom, startLine_within hwithin, hstep]

theorem scanStep_shorter (hwithin : layout.fresh = false)
    (hstep : scanStep layout (c.skipWhile isSpace) sofar = .ok (some (layout', c', sofar'))) :
    c'.rest.length < c.rest.length := by
  have hspace := (List.dropWhile_suffix (l := c.rest) isSpace).length_le
  have hshorter := (scanStep_turn hwithin hstep).2.2
  rw [skipWhile_rest] at hshorter
  omega

/-- At the start of a line, with no word left. -/
theorem scanFrom_ended (hfresh : layout.fresh = true) (hbrackets : layout.brackets = 0)
    (hover : (nextLogicalLine (some 0) c.line c.col c.rest).2.rest = []) (steps : Nat)
    (sofar : List Token) :
    ∃ c', scanFrom (steps + 1) layout c sofar = .ok (closeText layout c' sofar) := by
  refine ⟨(nextLogicalLine (some 0) c.line c.col c.rest).2.skipWhile isSpace, ?_⟩
  have hstart : startLine layout c sofar = .ok ({ layout with fresh := false },
      (nextLogicalLine (some 0) c.line c.col c.rest).2, sofar) := by
    simp [startLine, hfresh, hbrackets, hover]
  have hstep : scanStep { layout with fresh := false }
      ((nextLogicalLine (some 0) c.line c.col c.rest).2.skipWhile isSpace) sofar = .ok none := by
    rw [scanStep, skipWhile_rest, hover]
    rfl
  simp only [scanFrom, hstart, hstep]
  rfl

/-- At the start of a line, with a word next. -/
theorem scanFrom_begin {w : Nat} (hfresh : layout.fresh = true) (hbrackets : layout.brackets = 0)
    (hline : nextLogicalLine (some 0) c.line c.col c.rest = (w, here)) (hne : here.rest ≠ []) :
    scanFrom (steps + 1) layout c sofar =
      match indentTo w layout.indents with
      | .ok (ls, indents) => scanFrom (steps + 1) { layout with indents := indents, fresh := false }
          here (pushLayout here ls sofar)
      | .error f => .error ⟨f, .point here.line here.col⟩ := by
  cases hindent : indentTo w layout.indents with
  | ok next =>
    obtain ⟨ls, indents⟩ := next
    have hstart : startLine layout c sofar = .ok
        ({ layout with indents := indents, fresh := false }, here, pushLayout here ls sofar) := by
      simp [startLine, hfresh, hbrackets, hline, hindent, hne]
    simp only [scanFrom, hstart, startLine_within]
  | error f =>
    have hstart : startLine layout c sofar = .error ⟨f, .point here.line here.col⟩ := by
      simp [startLine, hfresh, hbrackets, hline, hindent, hne]
    simp only [scanFrom, hstart]

end Steps

section Layout

variable {δ : Nat → Nat} {layout : Layout} {sofar sofar' : List Token}

theorem Token.moved_layout {l : Lexeme} (hl : l.isLayout = true) (span span' : Span) :
    Token.Moved δ ⟨l, span⟩ ⟨l, span'⟩ :=
  ⟨rfl, fun h => by rw [hl] at h; cases h⟩

theorem pushLayout_moved {ls : List Lexeme} (hls : ∀ l ∈ ls, l.isLayout = true)
    (h : TokensMoved δ sofar sofar') (c c' : Cursor) :
    TokensMoved δ (pushLayout c ls sofar) (pushLayout c' ls sofar') := by
  induction ls generalizing sofar sofar' with
  | nil => exact h
  | cons l ls ih =>
    rw [List.forall_mem_cons] at hls
    exact ih hls.2 (.cons (Token.moved_layout hls.1 _ _) h)

theorem closing_layout (layout : Layout) :
    ∀ l ∈ List.replicate layout.indents.length Lexeme.dedent ++ [.eof], l.isLayout = true := by
  intro l hl
  rcases List.mem_append.mp hl with hl | hl
  · rw [List.eq_of_mem_replicate hl]
    rfl
  · rw [List.mem_singleton.mp hl]
    rfl

theorem indentTo_layout {w : Nat} {ws ws' : Indents} {ls : List Lexeme}
    (h : indentTo w ws = .ok (ls, ws')) : ∀ l ∈ ls, l.isLayout = true := by
  unfold indentTo at h
  split at h
  · cases h
    exact List.forall_mem_singleton.mpr rfl
  · dsimp only at h
    split at h <;> cases h
    intro l hl
    rw [List.eq_of_mem_replicate hl]
    rfl

theorem closeText_moved (h : TokensMoved δ sofar sofar') (c c' : Cursor) :
    TokensMoved δ (closeText layout c sofar) (closeText layout c' sofar') := by
  have hclosing := closing_layout layout
  refine List.forall₂_reverse_iff.mpr ?_
  cases h with
  | nil => exact pushLayout_moved hclosing .nil c c'
  | cons ht h =>
    simp only [List.head?_cons, ht.lexeme]
    split
    · exact pushLayout_moved hclosing (.cons ht h) c c'
    · exact pushLayout_moved (List.forall_mem_cons.mpr ⟨rfl, hclosing⟩) (.cons ht h) c c'

/-- Behind a word, a line that ends with the text is closed as one that ends with a newline. -/
theorem closeText_newline (h : TokensMoved δ sofar sofar')
    (hlast : ∃ t ∈ sofar.head?, t.lexeme.isLayout = false) (c c' : Cursor) (span : Span) :
    TokensMoved δ (closeText layout c sofar)
      (closeText layout c' (⟨.newline, span⟩ :: sofar')) := by
  obtain ⟨t, ht, hword⟩ := hlast
  have hne : ¬(t.lexeme = .newline ∨ t.lexeme = .dedent) := by
    rintro (h | h) <;> rw [h] at hword <;> cases hword
  refine List.forall₂_reverse_iff.mpr ?_
  rw [ht]
  simp only [Bool.or_eq_true, decide_eq_true_eq, if_neg hne, List.head?_cons, true_or, if_true]
  exact pushLayout_moved (closing_layout layout) (.cons (Token.moved_layout rfl _ _) h) c c'

end Layout

section Skipping

variable {p : Char → Bool} {s : List Char}

theorem skipWhile_class (hs : ∀ y ∈ s, p y = true) (rest : List Char) (n k : Nat) :
    ∃ k', (⟨s ++ rest, n, k⟩ : Cursor).skipWhile p = ⟨rest.dropWhile p, n, k'⟩ := by
  refine ⟨k + ((s ++ rest).takeWhile p).length, ?_⟩
  have hrest := skipWhile_rest p ⟨s ++ rest, n, k⟩
  rw [List.dropWhile_append_of_pos hs] at hrest
  rw [← hrest]
  rfl

theorem skipWhile_class_cons {x : Char} (hs : ∀ y ∈ s, p y = true) (hx : p x = false)
    (rest : List Char) (n k : Nat) :
    (⟨s ++ x :: rest, n, k⟩ : Cursor).skipWhile p = ⟨x :: rest, n, k + s.length⟩ := by
  obtain ⟨hrun, -⟩ := Cursor.run_append (c := ⟨s ++ x :: rest, n, k⟩) rfl hs
    (by rintro _ ⟨⟩; exact hx)
  rw [Cursor.skipWhile, hrun, Cursor.skip, List.drop_left]

end Skipping

section Words

variable {δ : Nat → Nat} {layout : Layout} {n : Nat} {x : Char} {u v v' : List Char}

theorem scanStep_of_scanLexeme {c : Cursor} {t : List Char} (hc : c.rest = x :: t)
    (hcomment : x ≠ '#') (hnewline : x ≠ '\n') (sofar : List Token) :
    (∀ l c', scanLexeme x c = .ok (l, c') → scanStep layout c sofar =
        .ok (some (layout.after l, c', ⟨l, c'.spanFrom c.pos⟩ :: sofar))) ∧
      ∀ e, scanLexeme x c = .error e → scanStep layout c sofar = .error e := by
  constructor
  · intro l c' h
    simp only [scanStep, hc, if_neg hcomment, if_neg hnewline, h]
  · intro e h
    simp only [scanStep, hc, if_neg hcomment, if_neg hnewline, h]

/-- The next word of the line is the same in both texts, or the same fault is in it. -/
theorem scanStep_settled (hwithin : layout.fresh = false) (hline : '\n' ∉ x :: u)
    (hcomment : x ≠ '#') (hend : LineEnd δ n v v') (k : Nat) (sofar sofar' : List Token) :
    (∃ e e', scanStep layout ⟨x :: u ++ v, n, k⟩ sofar = .error e ∧
        scanStep layout ⟨x :: u ++ v', n + δ n, k⟩ sofar' = .error e' ∧ e.Moved δ e') ∨
      ∃ l c c' t t',
        scanStep layout ⟨x :: u ++ v, n, k⟩ sofar = .ok (some (layout.after l, c, t :: sofar)) ∧
        scanStep layout ⟨x :: u ++ v', n + δ n, k⟩ sofar' =
          .ok (some (layout.after l, c', t' :: sofar')) ∧
        t.Moved δ t' ∧ t.lexeme.isLayout = false ∧ Abreast δ (layout.after l) c c' := by
  have hnewline : x ≠ '\n' := fun h => hline (h ▸ List.mem_cons_self)
  have hstep (v : List Char) (n : Nat) (sofar : List Token) :=
    @scanStep_of_scanLexeme layout x ⟨x :: u ++ v, n, k⟩ (u ++ v) rfl hcomment hnewline sofar
  obtain ⟨hv, hv'⟩ := hend.trails
  rcases scanLexeme_settled hline k with ⟨l, u', k', hline', h⟩ | ⟨f, h⟩
  · exact .inr ⟨l, _, _, _, _, (hstep v n sofar).1 l _ (h v n hv),
      (hstep v' (n + δ n) sofar').1 l _ (h v' (n + δ n) hv'), ⟨rfl, fun _ => rfl⟩,
      scanLexeme_word (h v n hv),
      .line ((after_indents layout l).2.trans hwithin) hline' (fun _ => rfl) hend⟩
  · obtain ⟨stop, herror⟩ := h v n hv
    obtain ⟨stop', herror'⟩ := h v' (n + δ n) hv'
    exact .inl ⟨_, _, (hstep v n sofar).2 _ herror, (hstep v' (n + δ n) sofar').2 _ herror', rfl,
      rfl⟩

/-- Between brackets, a line is begun as any other place is gone on from. -/
theorem Relaid.abreast {d : Nat} {t t' : List Char} (hwithin : layout.fresh = false)
    (hbrackets : layout.brackets ≠ 0) (h : Relaid δ n d t t') :
    Abreast δ layout ⟨t, n, 1⟩ ⟨t', n + d, 1⟩ := by
  cases h with
  | last hline hd =>
    subst hd
    rw [← List.append_nil t]
    exact .line hwithin hline (fun _ => rfl) .last
  | final hline hd =>
    subst hd
    have hplace : Abreast δ layout ⟨t ++ [], n, 1⟩ ⟨t ++ ['\n'], n + δ n, 1⟩ :=
      .line hwithin hline (fun _ => rfl) .final
    rwa [List.append_nil] at hplace
  | line hline hd he h =>
    subst hd
    exact .line hwithin hline (fun _ => rfl) (.line he h)
  | blank hw h => exact .blank hwithin hbrackets hw h

end Words

section Reading

variable {δ : Nat → Nat} {layout : Layout} {c c' : Cursor} {sofar sofar' : List Token}
  {steps steps' n k k' : Nat} {u v v' t t' : List Char}

theorem length_of_skipWhile {p : Char → Bool} {w : List Char} (hc : c.skipWhile p = ⟨w, n, k⟩) :
    w.length ≤ c.rest.length := by
  have hrest : w = c.rest.dropWhile p := by rw [← skipWhile_rest, hc]
  rw [hrest]
  exact (List.dropWhile_suffix p).length_le

/-- Outside of brackets, a newline ends the line. -/
theorem scanFrom_ends (hwithin : layout.fresh = false) (hbrackets : layout.brackets = 0)
    (hc : c.skipWhile isSpace = ⟨'\n' :: t, n, k⟩) :
    scanFrom (steps + 1) layout c sofar = scanFrom steps { layout with fresh := true } ⟨t, n + 1, 1⟩
      (⟨.newline, Cursor.spanFrom ⟨n, k⟩ ⟨t, n + 1, 1⟩⟩ :: sofar) := by
  refine scanFrom_some hwithin ?_
  rw [hc, scanStep]
  simp only [Cursor.advance, hbrackets, if_true]
  rfl

/-- Between brackets, a newline is passed over. -/
theorem scanFrom_joins (hwithin : layout.fresh = false) (hbrackets : layout.brackets ≠ 0)
    (hc : c.skipWhile isSpace = ⟨'\n' :: t, n, k⟩) :
    scanFrom (steps + 1) layout c sofar = scanFrom steps layout ⟨t, n + 1, 1⟩ sofar := by
  refine scanFrom_some hwithin ?_
  rw [hc, scanStep]
  simp [Cursor.advance, hbrackets]

/-- A comment is passed over up to the end of the line. -/
theorem scanFrom_comment (hwithin : layout.fresh = false) (hline : '\n' ∉ u)
    (hc : c.skipWhile isSpace = ⟨'#' :: u ++ v, n, k⟩) (steps : Nat) (sofar : List Token) :
    ∃ k', scanFrom (steps + 1) layout c sofar =
      scanFrom steps layout ⟨v.dropWhile isNotNewline, n, k'⟩ sofar := by
  have hcomment : ∀ y ∈ '#' :: u, isNotNewline y = true :=
    List.forall_mem_cons.mpr ⟨rfl, fun y hy => decide_eq_true fun h => hline (h ▸ hy)⟩
  obtain ⟨k', hk'⟩ := skipWhile_class hcomment v n k
  refine ⟨k', scanFrom_some hwithin ?_⟩
  rw [hc, ← hk', scanStep]
  rfl

/-- Readings at the same place, the second of them with `steps'` steps left, end alike. Within a
line they stand behind a word. -/
def EndsAlike (δ : Nat → Nat) (steps' : Nat) : Prop :=
  ∀ {steps layout c c' sofar sofar'}, Abreast δ layout c c' → TokensMoved δ sofar sofar' →
    (layout.fresh = false → ∃ t ∈ sofar.head?, t.lexeme.isLayout = false) →
    c.rest.length < steps → c'.rest.length < steps' →
    ScansAlike δ (scanFrom steps layout c sofar) (scanFrom steps' layout c' sofar')

theorem EndsAlike.word (ih : EndsAlike δ steps') {x : Char} (hwithin : layout.fresh = false)
    (hc : c.skipWhile isSpace = ⟨x :: u ++ v, n, k⟩)
    (hc' : c'.skipWhile isSpace = ⟨x :: u ++ v', n + δ n, k⟩) (hline : '\n' ∉ x :: u)
    (hcomment : x ≠ '#') (hend : LineEnd δ n v v') (hsofar : TokensMoved δ sofar sofar')
    (hsteps : c.rest.length < steps + 1) (hsteps' : c'.rest.length < steps' + 1) :
    ScansAlike δ (scanFrom (steps + 1) layout c sofar)
      (scanFrom (steps' + 1) layout c' sofar') := by
  have hstep := scanStep_settled hwithin hline hcomment hend k sofar sofar'
  rw [← hc, ← hc'] at hstep
  rcases hstep with ⟨e, e', h, h', he⟩ | ⟨l, d, d', t, t', h, h', ht, hword, hplace⟩
  · rw [scanFrom_error hwithin h, scanFrom_error hwithin h']
    exact .error he
  · have hshorter := scanStep_shorter hwithin h
    have hshorter' := scanStep_shorter hwithin h'
    rw [scanFrom_some hwithin h, scanFrom_some hwithin h']
    exact ih hplace (.cons ht hsofar) (fun _ => ⟨t, rfl, hword⟩) (by omega) (by omega)

theorem EndsAlike.comment (ih : EndsAlike δ steps') (hwithin : layout.fresh = false)
    (hc : c.skipWhile isSpace = ⟨'#' :: u ++ v, n, k⟩)
    (hc' : c'.skipWhile isSpace = ⟨'#' :: u ++ v', n + δ n, k'⟩) (hline : '\n' ∉ u)
    (hend : LineEnd δ n v v') (hsofar : TokensMoved δ sofar sofar')
    (hlast : ∃ t ∈ sofar.head?, t.lexeme.isLayout = false)
    (hsteps : c.rest.length < steps + 1) (hsteps' : c'.rest.length < steps' + 1) :
    ScansAlike δ (scanFrom (steps + 1) layout c sofar)
      (scanFrom (steps' + 1) layout c' sofar') := by
  have hlength := length_of_skipWhile hc
  have hlength' := length_of_skipWhile hc'
  have hshorter := (List.dropWhile_suffix (l := v) isNotNewline).length_le
  have hshorter' := (List.dropWhile_suffix (l := v') isNotNewline).length_le
  rw [List.length_append, List.length_cons] at hlength hlength'
  obtain ⟨k₁, hscan⟩ := scanFrom_comment hwithin hline hc steps sofar
  obtain ⟨k₁', hscan'⟩ := scanFrom_comment hwithin hline hc' steps' sofar'
  have hend' : LineEnd δ n (v.dropWhile isNotNewline) (v'.dropWhile isNotNewline) := by
    refine hend.after rfl fun x hx => ?_
    rcases isSpace_iff.mp hx with rfl | rfl | rfl <;> rfl
  rw [hscan, hscan']
  refine ih (.line (u := []) hwithin nofun (absurd rfl) hend') hsofar (fun _ => hlast) ?_ ?_
  · dsimp only
    omega
  · dsimp only
    omega

/-- At the end of a line. -/
theorem EndsAlike.ending (ih : EndsAlike δ steps') (hwithin : layout.fresh = false)
    (hc : c.skipWhile isSpace = ⟨v.dropWhile isSpace, n, k⟩)
    (hc' : c'.skipWhile isSpace = ⟨v'.dropWhile isSpace, n + δ n, k'⟩)
    (hend : LineEnd δ n v v') (hsofar : TokensMoved δ sofar sofar')
    (hlast : ∃ t ∈ sofar.head?, t.lexeme.isLayout = false)
    (hsteps : c.rest.length < steps + 1) (hsteps' : c'.rest.length < steps' + 1) :
    ScansAlike δ (scanFrom (steps + 1) layout c sofar)
      (scanFrom (steps' + 1) layout c' sofar') := by
  rcases hend.dropWhile rfl fun _ => id with ⟨hv, hv' | hv'⟩ | ⟨t, t', hv, hv', ht⟩ <;>
    rw [hv] at hc <;> rw [hv'] at hc'
  · rw [scanFrom_none hwithin (by rw [hc]), scanFrom_none hwithin (by rw [hc'])]
    exact .ok (closeText_moved hsofar _ _)
  · rw [scanFrom_none hwithin (by rw [hc])]
    -- the newline at the end of the second text takes a step of its own
    have hlength' := length_of_skipWhile hc'
    rw [List.length_singleton] at hlength'
    obtain ⟨steps', rfl⟩ : ∃ m, steps' = m + 1 := Nat.exists_eq_add_one.mpr (by omega)
    by_cases hbrackets : layout.brackets = 0
    · rw [scanFrom_ends hwithin hbrackets hc']
      have hover : (nextLogicalLine (some 0) (n + δ n + 1) 1 []).2.rest = [] := rfl
      obtain ⟨d, hd⟩ := @scanFrom_ended { layout with fresh := true } ⟨[], n + δ n + 1, 1⟩ rfl
        hbrackets hover steps'
        (⟨.newline, Cursor.spanFrom ⟨n + δ n, k'⟩ ⟨[], n + δ n + 1, 1⟩⟩ :: sofar')
      rw [hd]
      exact .ok (closeText_newline hsofar hlast _ _ _)
    · rw [scanFrom_joins hwithin hbrackets hc', scanFrom_none hwithin rfl]
      exact .ok (closeText_moved hsofar _ _)
  · have hlength := length_of_skipWhile hc
    have hlength' := length_of_skipWhile hc'
    rw [List.length_cons] at hlength hlength'
    by_cases hbrackets : layout.brackets = 0
    · rw [scanFrom_ends hwithin hbrackets hc, scanFrom_ends hwithin hbrackets hc',
        Nat.add_right_comm]
      exact ih (.margin rfl hbrackets ht) (.cons (Token.moved_layout rfl _ _) hsofar) nofun
        (Nat.lt_of_lt_of_le hlength (Nat.le_of_lt_succ hsteps))
        (Nat.lt_of_lt_of_le hlength' (Nat.le_of_lt_succ hsteps'))
    · rw [scanFrom_joins hwithin hbrackets hc, scanFrom_joins hwithin hbrackets hc',
        Nat.add_right_comm]
      exact ih (ht.abreast hwithin hbrackets) hsofar (fun _ => hlast)
        (Nat.lt_of_lt_of_le hlength (Nat.le_of_lt_succ hsteps))
        (Nat.lt_of_lt_of_le hlength' (Nat.le_of_lt_succ hsteps'))

theorem EndsAlike.line (ih : EndsAlike δ steps') (hwithin : layout.fresh = false) (hline : '\n' ∉ u)
    (hcol : u ≠ [] → k' = k) (hend : LineEnd δ n v v') (hsofar : TokensMoved δ sofar sofar')
    (hlast : ∃ t ∈ sofar.head?, t.lexeme.isLayout = false)
    (hsteps : (u ++ v).length < steps + 1) (hsteps' : (u ++ v').length < steps' + 1) :
    ScansAlike δ (scanFrom (steps + 1) layout ⟨u ++ v, n, k⟩ sofar)
      (scanFrom (steps' + 1) layout ⟨u ++ v', n + δ n, k'⟩ sofar') := by
  have hskip {s w : List Char} {x : Char} (hu : u = s ++ x :: w)
      (hs : ∀ y ∈ s, isSpace y = true) (hx : isSpace x = false) (v : List Char) (n k : Nat) :
      (⟨u ++ v, n, k⟩ : Cursor).skipWhile isSpace = ⟨x :: w ++ v, n, k + s.length⟩ := by
    rw [hu, List.append_assoc, List.cons_append, skipWhile_class_cons hs hx]
  rcases wordless_or_word hline with hu | ⟨s, x, w, rfl, hs, hx, hcomment⟩
  · rcases hu.space_or_comment with hu | ⟨s, w, rfl, hs, hw⟩
    · obtain ⟨k₁, hk₁⟩ := skipWhile_class hu v n k
      obtain ⟨k₁', hk₁'⟩ := skipWhile_class hu v' (n + δ n) k'
      exact ih.ending hwithin hk₁ hk₁' hend hsofar hlast hsteps hsteps'
    · exact ih.comment hwithin (hskip rfl hs rfl v n k) (hskip rfl hs rfl v' (n + δ n) k') hw hend
        hsofar hlast hsteps hsteps'
  · obtain rfl := hcol (by simp)
    exact ih.word hwithin (hskip rfl hs hx v n k') (hskip rfl hs hx v' (n + δ n) k')
      (fun h => hline (List.mem_append_right s h)) hcomment hend hsofar hsteps hsteps'

/-- Between brackets, a line without words is passed over in one step or two. -/
theorem EndsAlike.blank {w : List Char} {d : Nat} (ih : EndsAlike δ steps')
    (hwithin : layout.fresh = false) (hbrackets : layout.brackets ≠ 0) (hw : Wordless w)
    (h : Relaid δ n (d + 1) t t') (hsofar : TokensMoved δ sofar sofar')
    (hlast : ∃ t ∈ sofar.head?, t.lexeme.isLayout = false)
    (hsteps : t.length < steps) (hsteps' : (w ++ '\n' :: t').length < steps' + 1) :
    ScansAlike δ (scanFrom steps layout ⟨t, n, 1⟩ sofar)
      (scanFrom (steps' + 1) layout ⟨w ++ '\n' :: t', n + d, k'⟩ sofar') := by
  rw [List.length_append, List.length_cons] at hsteps'
  rcases hw.space_or_comment with hw | ⟨s, u, rfl, hs, hline⟩
  · obtain ⟨k₁, hk₁⟩ := skipWhile_class hw ('\n' :: t') (n + d) k'
    rw [scanFrom_joins hwithin hbrackets hk₁]
    exact ih (h.abreast hwithin hbrackets) hsofar (fun _ => hlast) hsteps (by dsimp only; omega)
  · have hskip : (⟨s ++ '#' :: u ++ '\n' :: t', n + d, k'⟩ : Cursor).skipWhile isSpace =
        ⟨'#' :: u ++ '\n' :: t', n + d, k' + s.length⟩ := by
      rw [List.append_assoc, List.cons_append, skipWhile_class_cons hs rfl]
    obtain ⟨k₁, hscan⟩ := scanFrom_comment hwithin hline hskip steps' sofar'
    have hstop : ('\n' :: t').dropWhile isNotNewline = '\n' :: t' := rfl
    rw [hscan, hstop]
    refine ih (.blank (w := []) hwithin hbrackets .nil h) hsofar (fun _ => hlast) hsteps ?_
    simp only [List.length_append, List.length_cons] at hsteps' ⊢
    omega

theorem EndsAlike.margin {d : Nat} (ih : EndsAlike δ steps') (hfresh : layout.fresh = true)
    (hbrackets : layout.brackets = 0) (h : Relaid δ n d t t') (hsofar : TokensMoved δ sofar sofar')
    (hsteps : t.length < steps + 1) (hsteps' : t'.length < steps' + 1) :
    ScansAlike δ (scanFrom (steps + 1) layout ⟨t, n, 1⟩ sofar)
      (scanFrom (steps' + 1) layout ⟨t', n + d, 1⟩ sofar') := by
  rcases nextLogicalLine_relaid h with ⟨hover, hover'⟩ |
    ⟨w, m, k, x, u, v, v', hnext, hnext', hline, hx, hcomment, hend⟩
  · obtain ⟨c, hc⟩ := @scanFrom_ended layout ⟨t, n, 1⟩ hfresh hbrackets hover steps sofar
    obtain ⟨c', hc'⟩ := @scanFrom_ended layout ⟨t', n + d, 1⟩ hfresh hbrackets hover' steps' sofar'
    rw [hc, hc']
    exact .ok (closeText_moved hsofar _ _)
  · have hlength := (nextLogicalLine_suffix t (some 0) n 1).length_le
    have hlength' := (nextLogicalLine_suffix t' (some 0) (n + d) 1).length_le
    rw [hnext] at hlength
    rw [hnext'] at hlength'
    rw [scanFrom_begin hfresh hbrackets hnext (List.cons_ne_nil _ _),
      scanFrom_begin hfresh hbrackets hnext' (List.cons_ne_nil _ _)]
    cases hindent : indentTo w layout.indents with
    | error f => exact .error ⟨rfl, rfl⟩
    | ok next =>
      obtain ⟨ls, indents⟩ := next
      have hsofar' : TokensMoved δ (pushLayout ⟨x :: u ++ v, m, k⟩ ls sofar)
          (pushLayout ⟨x :: u ++ v', m + δ m, k⟩ ls sofar') :=
        pushLayout_moved (indentTo_layout hindent) hsofar _ _
      have hskip (v : List Char) (n : Nat) : (⟨x :: u ++ v, n, k⟩ : Cursor).skipWhile isSpace =
          ⟨x :: u ++ v, n, k⟩ := skipWhile_class_cons (s := []) nofun hx (u ++ v) n k
      exact ih.word rfl (hskip v m) (hskip v' (m + δ m)) hline hcomment hend hsofar'
        (Nat.lt_of_le_of_lt hlength hsteps) (Nat.lt_of_le_of_lt hlength' hsteps')

/-- Two readings that stand at the same place of texts that are laid out anew end alike. -/
theorem endsAlike (δ : Nat → Nat) (steps' : Nat) : EndsAlike δ steps' := by
  induction steps' with
  | zero => exact fun _ _ _ _ hsteps' => absurd hsteps' (Nat.not_lt_zero _)
  | succ steps' ih =>
    intro steps layout c c' sofar sofar' hplace hsofar hlast hsteps hsteps'
    obtain ⟨steps, rfl⟩ : ∃ m, steps = m + 1 := Nat.exists_eq_add_one.mpr (by omega)
    cases hplace with
    | margin hfresh hbrackets h => exact ih.margin hfresh hbrackets h hsofar hsteps hsteps'
    | line hwithin hline hcol hend =>
      exact ih.line hwithin hline hcol hend hsofar (hlast hwithin) hsteps hsteps'
    | blank hwithin hbrackets hw h =>
      exact ih.blank hwithin hbrackets hw h hsofar (hlast hwithin) hsteps hsteps'

end Reading

section Texts

variable {δ : Nat → Nat}

/-- The words and faults of a text that is laid out anew are those of the text, in the lines to
which they are moved. -/
theorem Token.scan_relaid {text text' : String} (h : Relaid δ 1 0 text.toList text'.toList) :
    ScansAlike δ (Token.scan text) (Token.scan text') :=
  endsAlike δ _ (.margin rfl rfl h) .nil nofun (Nat.lt_succ_self _) (Nat.lt_succ_self _)

theorem SourceText.tokens_relaid {source source' : SourceText} {E : Diagnostic → Diagnostic → Prop}
    {R : Token → Token → Prop} (h : Relaid δ 1 0 source.text.toList source'.text.toList)
    (hfault : ∀ e e' : LexError, e.Moved δ e' → E (e.diagnostic source) (e'.diagnostic source'))
    (htoken : ∀ t t' : Token, t.Sited source.text → t.Moved δ t' → R t t') :
    Alike E (List.Forall₂ R) source.tokens source'.tokens := by
  have halike := Token.scan_relaid h
  have hsited := @Token.scan_sited source.text
  unfold tokens
  generalize Token.scan source.text = scanned at halike hsited
  generalize Token.scan source'.text = scanned' at halike
  cases halike with
  | error he => exact .error (hfault _ _ he)
  | ok hts =>
    have hall := (List.forall₂_and_left _ _).mpr ⟨hsited rfl, hts⟩
    exact .ok (hall.imp fun t t' ht => htoken t t' ht.1 ht.2)

end Texts

end MissionScript
