import MissionScript.Proofs.Script.Traced
import MissionScript.Script.StmtParser

/-!
# Spans in a text

A span that begins at a place of a text and ends no earlier is sited in the text. The tokens of
words are sited, and so is the least span that covers a sited one and any other
(`Span.Sited.merge`). A token that says where a line or a block ends may have no extent. Its span is
sited in the first column only. In any other column it ends in front of the place where it begins
(`Span.Reversed`), so of the tokens of a text it is known that their spans begin in the text, and
that they are in order or of no extent (`Token.scan_sited`).
-/

namespace MissionScript

/-- A character of the text stands at the place, or the text ends there. -/
def Pos.In (text : String) (p : Pos) : Prop :=
  ∃ before rest, text.toList = before ++ rest ∧ p = Pos.after before

theorem Pos.le_iff {p q : Pos} :
    p.le q = true ↔ p.line < q.line ∨ p.line = q.line ∧ p.col ≤ q.col := by
  simp [le]

theorem Pos.In.one_le {text : String} {p : Pos} (h : p.In text) : 1 ≤ p.line ∧ 1 ≤ p.col := by
  obtain ⟨before, rest, -, rfl⟩ := h
  exact one_le_after before

namespace Span

/-- The span begins at a place of the text, and ends where there are lines and columns. -/
structure Placed (text : String) (s : Span) : Prop where
  start : s.start.In text
  stop : 1 ≤ s.stop.line ∧ 1 ≤ s.stop.col

/-- The span ends where it begins or behind that place. -/
def Ordered (s : Span) : Prop := s.start.le s.stop = true

/-- The span ends one column in front of the place where it begins. -/
def Reversed (s : Span) : Prop := s.start = ⟨s.stop.line, s.stop.col + 1⟩

structure Sited (text : String) (s : Span) : Prop where
  placed : s.Placed text
  ordered : s.Ordered

/-- The span is sited, or it is the span of a layout token of no extent. -/
structure Known (text : String) (ts : List Token) (s : Span) : Prop where
  placed : s.Placed text
  ordered : s.Ordered ∨ ∃ t ∈ ts, t.lexeme.isLayout = true ∧ t.span = s ∧ s.Reversed

variable {text : String} {ts : List Token} {a b : Span}

theorem Sited.known (h : a.Sited text) : a.Known text ts := ⟨h.placed, .inl h.ordered⟩

theorem Placed.merge (ha : a.Placed text) (hb : b.Placed text) : (a.merge b).Placed text := by
  unfold Span.merge
  constructor <;> dsimp only <;> split
  · exact ha.start
  · exact hb.start
  · exact hb.stop
  · exact ha.stop

/-- Covering more moves the ends of a span apart. -/
theorem Ordered.merge (ha : a.Ordered) (b : Span) : (a.merge b).Ordered := by
  unfold Ordered Span.merge at *
  simp only [Pos.le_iff] at *
  split <;> split <;> omega

theorem Sited.merge (ha : a.Sited text) (hb : b.Placed text) : (a.merge b).Sited text :=
  ⟨ha.placed.merge hb, ha.ordered.merge b⟩

theorem sited_point {p : Pos} (hp : p.In text) : (point p.line p.col).Sited text :=
  ⟨⟨hp, hp.one_le⟩, Pos.le_iff.mpr (.inr ⟨rfl, Nat.le_refl _⟩)⟩

/-- The span of characters within a line. -/
theorem sited_spanFrom {p : Pos} {c : Cursor} (hp : p.In text) (hline : c.line = p.line)
    (hcol : p.col < c.col) : (c.spanFrom p).Sited text := by
  have hone := hp.one_le
  refine ⟨⟨hp, ?_⟩, Pos.le_iff.mpr (.inr ⟨hline.symm, ?_⟩)⟩
  · simp only [Cursor.spanFrom]
    omega
  · simp only [Cursor.spanFrom]
    omega

/-- The span of no characters is in order in the first column only. -/
theorem spanFrom_self {c : Cursor} (hc : c.pos.In text) :
    (c.spanFrom c.pos).Placed text ∧
      ((c.spanFrom c.pos).Ordered ∨ (c.spanFrom c.pos).Reversed) := by
  have hone : 1 ≤ c.line ∧ 1 ≤ c.col := hc.one_le
  refine ⟨⟨hc, hone.1, Nat.le_max_right _ _⟩, ?_⟩
  rcases Nat.eq_or_lt_of_le hone.2 with hcol | hcol
  · refine .inl (Pos.le_iff.mpr (.inr ⟨rfl, ?_⟩))
    simp only [Cursor.pos, Cursor.spanFrom]
    omega
  · refine .inr ?_
    have hstop : max (c.col - 1) 1 + 1 = c.col := by omega
    rw [Reversed, Cursor.spanFrom]
    dsimp only
    rw [hstop]
    rfl

end Span

/-- The span of the token is sited, unless the token is layout of no extent. -/
structure Token.Sited (text : String) (t : Token) : Prop where
  placed : t.span.Placed text
  ordered : t.span.Ordered ∨ t.lexeme.isLayout = true ∧ t.span.Reversed

theorem Token.Sited.known {text : String} {ts : List Token} {t : Token} (h : t.Sited text)
    (ht : t ∈ ts) : t.span.Known text ts :=
  ⟨h.placed, h.ordered.imp_right fun ⟨hlayout, hreversed⟩ => ⟨t, ht, hlayout, rfl, hreversed⟩⟩

theorem Token.Sited.word {text : String} {t : Token} (h : t.Sited text)
    (hword : t.lexeme.isLayout = false) : t.span.Sited text := by
  refine ⟨h.placed, h.ordered.resolve_right fun ⟨hlayout, _⟩ => ?_⟩
  rw [hword] at hlayout
  cases hlayout

section Tokens

variable {text : String} {ts : List Token} {c : Cursor} {commented : Bool} {read : List Char}

theorem Passed.in (h : Passed text c ts commented read) : c.pos.In text := ⟨_, _, h.text, h.pos⟩

/-- The tokens that were read so far are sited in the text that was passed over. -/
structure Scan.Sited (text : String) (s : Scan) : Prop where
  accounted : ∃ commented read, Accounted text s commented read
  tokens : ∀ t ∈ s.sofar, t.Sited text

theorem Scan.Sited.in {s : Scan} (h : s.Sited text) : s.cursor.pos.In text := by
  obtain ⟨commented, read, haccounted⟩ := h.accounted
  exact haccounted.passed.in

theorem sited_pushLayout (hc : c.pos.In text) {ls : List Lexeme}
    (hls : ∀ l ∈ ls, l.isLayout = true) {sofar : List Token} (h : ∀ t ∈ sofar, t.Sited text) :
    ∀ t ∈ pushLayout c ls sofar, t.Sited text := by
  unfold pushLayout
  induction ls generalizing sofar with
  | nil => exact h
  | cons l ls ih =>
    rw [List.forall_mem_cons] at hls
    obtain ⟨hplaced, hordered⟩ := Span.spanFrom_self hc
    have ht : Token.Sited text ⟨l, c.spanFrom c.pos⟩ :=
      ⟨hplaced, hordered.imp_right fun hreversed => ⟨hls.1, hreversed⟩⟩
    exact ih hls.2 (List.forall_mem_cons.mpr ⟨ht, h⟩)

theorem Scan.Sited.turn {s s' : Scan} (h : s.Sited text) (hturn : Turn s s') : s'.Sited text := by
  obtain ⟨commented, read, haccounted⟩ := h.accounted
  obtain ⟨commented', read', haccounted'⟩ := haccounted.turn hturn
  refine ⟨⟨_, _, haccounted'⟩, ?_⟩
  have hthere := haccounted'.passed.in
  have hhere := h.in
  cases hturn with
  | ended | space | comment | join => exact h.tokens
  | begin _ _ hindent =>
    exact sited_pushLayout hthere (margin_of_indentTo hindent).forall_layout h.tokens
  | @newline layout c sofar cs _ hc =>
    refine List.forall_mem_cons.mpr ⟨?_, h.tokens⟩
    obtain ⟨_, line, col⟩ := c
    cases hc
    refine ⟨⟨hhere, ?_, Nat.le_refl _⟩, .inl (Pos.le_iff.mpr (.inl (Nat.lt_succ_self _)))⟩
    exact Nat.le_succ_of_le hhere.one_le.1
  | @word layout c c' sofar x cs l _ hc hscan =>
    obtain ⟨w, hwithin, hcuts⟩ := scanLexeme_cuts hc hscan
    have hcol := Nat.lt_add_of_pos_right (n := c.col) hcuts.length_pos
    have hspan := Span.sited_spanFrom hhere hwithin.line (hwithin.col ▸ hcol)
    exact List.forall_mem_cons.mpr ⟨⟨hspan.placed, .inl hspan.ordered⟩, h.tokens⟩

theorem Scan.sited_start (text : String) : (Scan.start text).Sited text :=
  ⟨⟨_, _, accounted_start text⟩, nofun⟩

theorem Token.scan_sited (h : Token.scan text = .ok ts) : ∀ t ∈ ts, t.Sited text := by
  obtain ⟨s, hs, -, rfl⟩ := Token.scan_invariant (P := Scan.Sited text) (Scan.sited_start text)
    (fun _ _ hturn h => h.turn hturn) h
  obtain ⟨ls, hls, hclose⟩ := closeText_eq s.layout s.cursor s.sofar
  intro t ht
  rw [hclose, List.mem_reverse] at ht
  exact sited_pushLayout hs.in hls hs.tokens t ht

end Tokens

end MissionScript
