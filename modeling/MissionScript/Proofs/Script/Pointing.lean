import MissionScript.Proofs.Script.Beginnings
import MissionScript.Proofs.Script.Reading
import MissionScript.Proofs.Script.Sited

/-!
# Where parsers point

Parsers give a tree the places of the tokens that they take, and report a fault at the token at hand
or at a tree that they have read. So on the tokens of a text they point into the text (`Points`):
expressions begin with a word, and their spans are sited; statements begin on lines, which count
from one (`Program.one_le_lines`); and of the span of a fault as much is known as of those of the
tokens (`Program.ofTokens_known`).
-/

namespace MissionScript

variable {text : String} {ts : List Token}

/-- The tokens that are left, and the one last taken, are in the text. -/
structure Reader.Sited (text : String) (ts : List Token) (r : Reader) : Prop where
  known : ∀ t ∈ r.rest, t.span.Known text ts
  words : ∀ t ∈ r.rest, t.lexeme.isLayout = false → t.span.Sited text
  previous : r.previous.Known text ts

namespace Reader

variable {r : Reader}

theorem Sited.here (h : r.Sited text ts) : r.here.Known text ts := by
  obtain ⟨_ | ⟨t, rest⟩, previous⟩ := r
  · exact h.previous
  · exact h.known t List.mem_cons_self

theorem Sited.word (h : r.Sited text ts) (hword : r.peek.isLayout = false) :
    r.here.Sited text := by
  obtain ⟨_ | ⟨t, rest⟩, previous⟩ := r
  · cases hword
  · exact h.words t List.mem_cons_self hword

theorem Sited.advance (h : r.Sited text ts) : r.advance.Sited text ts := by
  obtain ⟨_ | ⟨t, rest⟩, previous⟩ := r
  · exact h
  · refine ⟨fun t' ht' => ?_, fun t' ht' => ?_, h.known t List.mem_cons_self⟩
    · exact h.known t' (List.mem_cons_of_mem _ ht')
    · exact h.words t' (List.mem_cons_of_mem _ ht')

theorem sited_ofTokens (h : ∀ t ∈ ts, t.Sited text) : (Reader.ofTokens ts).Sited text ts := by
  have hpoint : (Span.point 1 1).Sited text := Span.sited_point ⟨[], text.toList, rfl, rfl⟩
  have hknown : ∀ t ∈ ts, t.span.Known text ts := fun t ht => (h t ht).known ht
  have hwords : ∀ t ∈ ts, t.lexeme.isLayout = false → t.span.Sited text :=
    fun t ht => (h t ht).word
  unfold ofTokens
  split
  · exact ⟨List.forall_mem_singleton.mpr hpoint.known, List.forall_mem_singleton.mpr nofun,
      hpoint.known⟩
  · rename_i t ht
    split
    · exact ⟨hknown, hwords, hpoint.known⟩
    · refine ⟨?_, ?_, hpoint.known⟩ <;> rw [List.forall_mem_append, List.forall_mem_singleton]
      · exact ⟨hknown, hknown t (List.mem_of_getLast? ht)⟩
      · exact ⟨hwords, nofun⟩

end Reader

namespace Parse

variable {α β : Type} {P : α → Prop} {Q : β → Prop}

/-- On the tokens of a text the parser gives a value with the property and stays on the tokens, or
fails at a span that is known. -/
def Points (text : String) (ts : List Token) (p : Parse α) (P : α → Prop) : Prop :=
  ∀ ⦃r⦄, r.Sited text ts →
    match p r with
    | .ok (a, r') => r'.Sited text ts ∧ P a
    | .error e => e.span.Known text ts

/-- The same where `l` is at hand. -/
def PointsAt (text : String) (ts : List Token) (l : Lexeme) (p : Parse α) (P : α → Prop) : Prop :=
  ∀ ⦃r⦄, r.peek = l → r.Sited text ts →
    match p r with
    | .ok (a, r') => r'.Sited text ts ∧ P a
    | .error e => e.span.Known text ts

section Parts

theorem Points.at {p : Parse α} (h : Points text ts p P) (l : Lexeme) : PointsAt text ts l p P :=
  fun _ _ hr => h hr

theorem points_pure {a : α} (h : P a) : Points text ts (pure a) P := fun _ hr => ⟨hr, h⟩

theorem points_failAt (fault : ParseFault) {span : Span} (h : span.Known text ts) :
    Points text ts (failAt fault span) P := fun _ _ => h

theorem points_fail (fault : ParseFault) : Points text ts (fail fault) P := fun _ hr => hr.here

theorem PointsAt.bind {l : Lexeme} {p : Parse α} {f : α → Parse β} (hp : PointsAt text ts l p P)
    (hf : ∀ a, P a → Points text ts (f a) Q) : PointsAt text ts l (p >>= f) Q := by
  intro r hl hr
  have hpr := hp hl hr
  rcases hrun : p r with e | ⟨a, r'⟩ <;> rw [hrun] at hpr
  · rw [bind_of_error hrun]
    exact hpr
  · rw [bind_of_ok hrun]
    exact hf a hpr.2 hpr.1

theorem Points.bind {p : Parse α} {f : α → Parse β} (hp : Points text ts p P)
    (hf : ∀ a, P a → Points text ts (f a) Q) : Points text ts (p >>= f) Q :=
  fun r hr => (hp.at r.peek).bind hf rfl hr

theorem Points.mono {P' : α → Prop} {p : Parse α} (h : Points text ts p P)
    (hP : ∀ a, P a → P' a) : Points text ts p P' := by
  intro r hr
  have hpr := h hr
  rcases hrun : p r with e | ⟨a, r'⟩ <;> rw [hrun] at hpr
  · exact hpr
  · exact ⟨hpr.1, hP a hpr.2⟩

theorem Points.ite {c : Prop} [Decidable c] {p q : Parse α} (hp : Points text ts p P)
    (hq : Points text ts q P) : Points text ts (if c then p else q) P := by
  split
  · exact hp
  · exact hq

/-- A parser that looks at the lexeme at hand first. -/
theorem points_peek {f : Lexeme → Parse α} (h : ∀ l, PointsAt text ts l (f l) P) :
    Points text ts (peek >>= f) P := fun r hr => h r.peek rfl hr

/-- A parser that first asks whether `l` is at hand. -/
theorem points_if {l : Lexeme} {p q : Parse α} (hp : PointsAt text ts l p P)
    (hq : Points text ts q P) :
    Points text ts (do if (← peek) = l then p else q) P := by
  refine points_peek fun l' => ?_
  split
  · rename_i hl
    subst hl
    exact hp
  · exact hq.at l'

theorem points_take : Points text ts take (Span.Known text ts) :=
  fun _ hr => ⟨hr.advance, hr.here⟩

theorem pointsAt_take {l : Lexeme} (hl : l.isLayout = false) :
    PointsAt text ts l take (Span.Sited text) := by
  rintro r rfl hr
  exact ⟨hr.advance, hr.word hl⟩

theorem points_previous : Points text ts previous (Span.Known text ts) :=
  fun _ hr => ⟨hr, hr.previous⟩

theorem points_remaining : Points text ts remaining fun _ => True := fun _ hr => ⟨hr, trivial⟩

theorem points_eat (l : Lexeme) : Points text ts (eat l) fun _ => True :=
  points_if ((points_take.bind fun _ _ => points_pure trivial).at l) (points_pure trivial)

theorem points_expect (l : Lexeme) : Points text ts (expect l) fun _ => True :=
  points_peek fun l' =>
    (Points.ite (points_take.mono fun _ _ => trivial) (points_fail _)).at l'

theorem points_expectColon (after : String) :
    Points text ts (expectColon after) fun _ => True :=
  points_if ((points_take.bind fun _ _ => points_pure trivial).at _) (points_fail _)

theorem points_expectLineEnd : Points text ts expectLineEnd fun _ => True := by
  refine points_peek fun l => Points.at ?_ l
  split
  · exact points_take.bind fun _ _ => points_pure trivial
  · exact points_pure trivial
  · exact points_pure trivial
  · exact points_fail _

theorem points_expectName (role : String) :
    Points text ts (expectName role) fun x => x.span.Sited text := by
  refine points_peek fun l => ?_
  split
  · exact (pointsAt_take rfl).bind fun _ hspan => points_pure hspan
  · exact (points_fail _).at _
  · exact (points_fail _).at _

theorem points_separated {item : Parse α} (hitem : Points text ts item fun _ => True)
    (close : Symbol) : ∀ (bound : Nat) (sofar : List α),
      Points text ts (separated item close bound sofar) fun _ => True
  | 0, _ => points_pure trivial
  | bound + 1, _ =>
    points_if ((points_pure trivial).at _) <|
      hitem.bind fun _ _ => (points_eat _).bind fun _ _ =>
        .ite (points_separated hitem close bound _) (points_pure trivial)

theorem points_enclosed {item : Parse α} (hitem : Points text ts item fun _ => True)
    (close : Symbol) : Points text ts (enclosed item close) fun _ => True :=
  points_remaining.bind fun _ _ => (points_separated hitem close _ _).bind fun _ _ =>
    (points_expect _).bind fun _ _ => points_pure trivial

end Parts

end Parse

open Parse

/-- The span of the expression is sited. -/
def Expr.Sited (text : String) (e : Expr) : Prop := e.span.Sited text

theorem Expr.sited_new (e : Expr) {s : Span} (hs : s.Sited text) : (e.new s).Sited text := by
  rwa [Expr.Sited, span_new]

/-- The parsers of a level of nesting give expressions that are sited. -/
structure Nested.Points (text : String) (ts : List Token) (d : Nested) : Prop where
  expression : Parse.Points text ts d.expression (Expr.Sited text)
  negation : Parse.Points text ts d.negation (Expr.Sited text)
  signed : Parse.Points text ts d.signed (Expr.Sited text)

section Expressions

theorem points_bounded {e : Expr} (he : e.Sited text) :
    Points text ts (bounded e) (Expr.Sited text) :=
  .ite (points_pure he) (points_failAt _ he.known)

/-- What two expressions are the sides of. -/
theorem Expr.Sited.joined {left right : Expr} (hleft : left.Sited text)
    (hright : right.Sited text) (op : BinOp) : (joined left op right).Sited text :=
  Expr.sited_new _ (Span.Sited.merge hleft hright.placed)

section Chains

variable {operand : Parse Expr} (hoperand : Points text ts operand (Expr.Sited text))
  (op? : Lexeme → Option BinOp)
include hoperand

theorem points_chainFrom : ∀ (bound : Nat) {left : Expr}, left.Sited text →
    Points text ts (chainFrom operand op? bound left) (Expr.Sited text)
  | 0, _, hleft => points_pure hleft
  | bound + 1, left, hleft => by
    refine points_peek fun l => Points.at ?_ l
    split
    · exact points_pure hleft
    · rename_i op _
      refine points_take.bind fun _ _ => hoperand.bind fun right hright => ?_
      exact (points_bounded (hleft.joined hright op)).bind fun e he => points_chainFrom bound he

theorem points_chain : Points text ts (chain operand op?) (Expr.Sited text) :=
  hoperand.bind fun _ hleft => points_remaining.bind fun n _ =>
    points_chainFrom hoperand op? n hleft

end Chains

theorem points_comparisonHere : Points text ts comparisonHere? fun _ => True :=
  fun _ hr => ⟨hr, trivial⟩

/-- What is in brackets begins where they open. -/
theorem pointsAt_bracketed {α : Type} {l : Lexeme} (hl : l.isLayout = false) {inside : Parse α}
    (hinside : Points text ts inside fun _ => True) {tree : α → Span → Expr}
    (htree : ∀ a {s : Span}, s.Sited text → (tree a s).Sited text) :
    PointsAt text ts l
      (do
        let start ← take
        let a ← inside
        return tree a (start.merge (← previous))) (Expr.Sited text) :=
  (pointsAt_take hl).bind fun _ hstart => hinside.bind fun a _ =>
    points_previous.bind fun _ hstop => points_pure (htree a (hstart.merge hstop.placed))

variable {d : Nested} (hd : d.Points text ts)
include hd

theorem points_items (close : Symbol) :
    Points text ts (enclosed d.expression close) fun _ => True :=
  points_enclosed (hd.expression.mono fun _ _ => trivial) close

theorem points_entry : Points text ts (entry d) fun _ => True :=
  hd.expression.bind fun _ _ => (points_expect _).bind fun _ _ =>
    hd.expression.bind fun _ _ => points_pure trivial

theorem pointsAt_parenthesized :
    PointsAt text ts (.symbol .lparen) (parenthesized d) (Expr.Sited text) :=
  (pointsAt_take rfl).bind fun _ hstart => hd.expression.bind fun inner _ =>
    points_if ((points_fail _).at _) <| (points_expect _).bind fun _ _ =>
      points_previous.bind fun _ hstop =>
        points_pure (inner.sited_new (hstart.merge hstop.placed))

theorem points_primary : Points text ts (primary d) (Expr.Sited text) := by
  refine points_peek fun l => ?_
  cases l with
  | int | float | str | name =>
    exact (pointsAt_take rfl).bind fun _ hspan => points_pure hspan
  | keyword k =>
    cases k with
    | trueWord | falseWord | noneWord =>
      exact (pointsAt_take rfl).bind fun _ hspan => points_pure hspan
    | _ => exact (points_fail _).at _
  | symbol s =>
    cases s with
    | lparen => exact pointsAt_parenthesized hd
    | lbracket => exact pointsAt_bracketed rfl (points_items hd _) fun _ _ hs => hs
    | lbrace =>
      exact pointsAt_bracketed rfl (points_enclosed (points_entry hd) _) fun _ _ hs => hs
    | _ => exact (points_fail _).at _
  | newline | indent | dedent | eof => exact (points_fail _).at _

theorem points_unlessAt (stop : Symbol) : Points text ts (unlessAt stop d) fun _ => True :=
  points_if ((points_pure trivial).at _) (hd.expression.bind fun _ _ => points_pure trivial)

section Suffixes

variable {e : Expr} (he : e.Sited text)
include he

omit hd in
/-- What follows a value goes up to a closing bracket. -/
theorem points_suffixed {tree : Span → Expr}
    (htree : ∀ {s : Span}, s.Sited text → (tree s).Sited text) :
    Points text ts (do return tree (e.span.merge (← previous))) (Expr.Sited text) :=
  points_previous.bind fun _ hstop => points_pure (htree (Span.Sited.merge he hstop.placed))

theorem points_subscript : Points text ts (subscript d e) (Expr.Sited text) := by
  refine (points_unlessAt hd _).bind fun start _ => (points_eat _).bind fun _ _ => ?_
  refine .ite ?_ ?_
  · exact (points_unlessAt hd _).bind fun _ _ => (points_expect _).bind fun _ _ =>
      points_suffixed he fun hs => hs
  · cases start with
    | some i => exact (points_expect _).bind fun _ _ => points_suffixed he fun hs => hs
    | none => exact points_fail _

theorem points_callOf : Points text ts (callOf d e) (Expr.Sited text) := by
  unfold callOf
  split
  · exact points_take.bind fun _ _ => (points_items hd _).bind fun _ _ =>
      points_suffixed he fun hs => hs
  · exact points_fail _

theorem points_methodOf : Points text ts (methodOf d e) (Expr.Sited text) := by
  refine points_take.bind fun _ _ => (points_expectName _).bind fun _ hname =>
    points_if (Points.at ?_ _) (points_failAt _ hname.known)
  exact points_take.bind fun _ _ => (points_items hd _).bind fun _ _ =>
    points_suffixed he fun hs => hs

end Suffixes

theorem points_postfixFrom : ∀ (bound : Nat) {e : Expr}, e.Sited text →
    Points text ts (postfixFrom d bound e) (Expr.Sited text)
  | 0, _, he => points_pure he
  | bound + 1, e, he => by
    have hnext {suffixed : Parse Expr} (h : Points text ts suffixed (Expr.Sited text)) :
        Points text ts (do postfixFrom d bound (← bounded (← suffixed))) (Expr.Sited text) :=
      h.bind fun _ he => (points_bounded he).bind fun _ he => points_postfixFrom bound he
    refine points_peek fun l => Points.at ?_ l
    split
    · exact hnext (points_callOf hd he)
    · exact points_take.bind fun _ _ => hnext (points_subscript hd he)
    · exact hnext (points_methodOf hd he)
    · exact points_pure he

theorem points_postfixed : Points text ts (postfixed d) (Expr.Sited text) :=
  (points_primary hd).bind fun _ he => points_remaining.bind fun n _ =>
    points_postfixFrom hd n he

theorem points_signedWith : Points text ts (signedWith d) (Expr.Sited text) := by
  refine points_peek fun l => ?_
  split
  · rename_i op hsign
    have hword : l.isLayout = false := by
      cases l with
      | newline | indent | dedent | eof => cases hsign
      | _ => rfl
    exact (pointsAt_take hword).bind fun _ hstart => hd.signed.bind fun _ hoperand =>
      points_pure (Span.Sited.merge hstart hoperand.placed)
  · exact (points_postfixed hd).at l

theorem points_comparisonWith : Points text ts (comparisonWith d) (Expr.Sited text) := by
  have hsum := points_chain (points_chain (points_signedWith hd) productOp?) sumOp?
  refine hsum.bind fun left hleft => points_comparisonHere.bind fun c _ => ?_
  split
  · exact points_pure hleft
  · refine points_take.bind fun _ _ => .ite (points_take.bind fun _ _ => ?_) ?_
    all_goals
      refine hsum.bind fun right hright => points_comparisonHere.bind fun c' _ => ?_
      split
      · exact points_fail _
      · exact points_pure (hleft.joined hright _)

theorem points_negationWith : Points text ts (negationWith d) (Expr.Sited text) :=
  points_if
    ((pointsAt_take rfl).bind fun _ hstart => hd.negation.bind fun _ hoperand =>
      points_pure (Span.Sited.merge hstart hoperand.placed))
    (points_comparisonWith hd)

theorem points_expressionWith : Points text ts (expressionWith d) (Expr.Sited text) :=
  (points_chain (points_chain (points_negationWith hd) andOp?) orOp?).bind
    fun _ he => points_bounded he

omit hd in
theorem points_levels : ∀ n, (Nested.levels n).Points text ts
  | 0 => ⟨points_fail _, points_fail _, points_fail _⟩
  | n + 1 =>
    have h := points_levels n
    ⟨points_expressionWith h, points_negationWith h, points_signedWith h⟩

omit hd in
theorem points_expression : Points text ts expression (Expr.Sited text) :=
  (points_levels nestingLimit).expression

end Expressions

/-- The span begins on a line, and lines count from one. -/
def Span.Numbered (s : Span) : Prop := 1 ≤ s.line

theorem Span.Placed.numbered {s : Span} (h : s.Placed text) : s.Numbered := h.start.one_le.1

theorem Span.Numbered.merge {a b : Span} (ha : a.Numbered) (hb : b.Numbered) :
    (a.merge b).Numbered := by
  unfold Numbered line Span.merge
  dsimp only
  split
  · exact ha
  · exact hb

/-- All that is attributed to lines in the statement is on lines of the text. -/
def Stmt.Numbered (s : Stmt) : Prop := ∀ n ∈ s.lines, 1 ≤ n

theorem Stmt.Numbered.span {s : Stmt} (h : s.Numbered) : s.span.Numbered :=
  h _ s.line_mem_lines

structure Block.Numbered (b : Block) : Prop where
  lines : ∀ n ∈ b.lines, 1 ≤ n
  span : b.span.Numbered

/-- A condition and its block. -/
structure Branch.Numbered (branch : Expr × Block) : Prop where
  condition : branch.1.span.Numbered
  block : branch.2.Numbered

section Statements

theorem numbered_stmts {ss : List Stmt} (h : ∀ s ∈ ss, s.Numbered) :
    ∀ n ∈ linesOfStmts ss, 1 ≤ n := by
  induction ss with
  | nil => exact nofun
  | cons s ss ih =>
    rw [List.forall_mem_cons] at h
    exact List.forall_mem_append.mpr ⟨h.1, ih h.2⟩

theorem numbered_branches {branches : List (Expr × Block)}
    (h : ∀ b ∈ branches, Branch.Numbered b) : ∀ n ∈ linesOfBranches branches, 1 ≤ n := by
  induction branches with
  | nil => exact nofun
  | cons b rest ih =>
    rw [List.forall_mem_cons] at h
    exact List.forall_mem_cons.mpr
      ⟨h.1.condition, List.forall_mem_append.mpr ⟨h.1.block.lines, ih h.2⟩⟩

theorem numbered_coveringSpan {empty : Span} (hempty : empty.Numbered) {ss : List Stmt}
    (h : ∀ s ∈ ss, s.Numbered) : (coveringSpan empty ss).Numbered := by
  unfold coveringSpan
  split
  · rename_i first last hfirst hlast
    exact (h first (List.mem_of_head? hfirst)).span.merge (h last (List.mem_of_getLast? hlast)).span
  · exact hempty

theorem numbered_block {ss : List Stmt} {empty : Span} (hempty : empty.Numbered)
    (h : ∀ s ∈ ss, s.Numbered) : (Block.mk ss (coveringSpan empty ss)).Numbered :=
  ⟨numbered_stmts h, numbered_coveringSpan hempty h⟩

/-- A statement whose only line is that of its span. -/
theorem numbered_simple {s : Stmt} (hlines : s.lines = [s.span.line]) (hspan : s.span.Numbered) :
    s.Numbered := by
  unfold Stmt.Numbered
  rw [hlines]
  exact List.forall_mem_singleton.mpr hspan

theorem points_start : Points text ts take Span.Numbered :=
  points_take.mono fun _ hspan => hspan.placed.numbered

theorem points_assignmentOrExpr : Points text ts assignmentOrExpr Stmt.Numbered := by
  refine points_expression.bind fun left hleft => points_peek fun l => Points.at ?_ l
  split
  · exact points_pure (numbered_simple rfl hleft.placed.numbered)
  · split
    · exact points_failAt _ hleft.known
    · exact points_take.bind fun _ _ => points_expression.bind fun value hvalue =>
        points_pure (numbered_simple rfl (hleft.merge hvalue.placed).placed.numbered)

theorem points_returnStmt (s : Setting) : Points text ts (returnStmt s) Stmt.Numbered := by
  refine .ite ?_ (points_fail _)
  refine points_start.bind fun _ hstart => points_peek fun l => Points.at ?_ l
  split
  case h_4 =>
    exact points_expression.bind fun value hvalue =>
      points_pure (numbered_simple rfl (hstart.merge hvalue.placed.numbered))
  all_goals exact points_pure (numbered_simple rfl hstart)

theorem points_simpleStmt (s : Setting) : Points text ts (simpleStmt s) Stmt.Numbered := by
  have hword (st : Span → Stmt) (hst : ∀ span, (st span).lines = [(st span).span.line])
      (hspan : ∀ span, (st span).span = span) :
      Points text ts (return st (← take)) Stmt.Numbered :=
    points_start.bind fun span h =>
      points_pure (numbered_simple (hst span) ((hspan span).symm ▸ h))
  refine points_peek fun l => Points.at ?_ l
  split
  · exact .ite (hword .brk (fun _ => rfl) fun _ => rfl) (points_fail _)
  · exact .ite (hword .cont (fun _ => rfl) fun _ => rfl) (points_fail _)
  · exact hword .pass (fun _ => rfl) fun _ => rfl
  · exact points_returnStmt s
  · exact points_fail _
  · exact points_fail _
  · exact points_fail _
  · exact points_assignmentOrExpr

theorem points_simpleLine (s : Setting) : Points text ts (simpleLine s) Stmt.Numbered :=
  (points_simpleStmt s).bind fun _ hst => points_expectLineEnd.bind fun _ _ => points_pure hst

/-- What a loop has collected in reverse. -/
theorem forall_mem_reverse {α : Type} {P : α → Prop} {sofar : List α} (h : ∀ a ∈ sofar, P a) :
    ∀ a ∈ sofar.reverse, P a := fun a ha => h a (List.mem_reverse.mp ha)

theorem points_blockFrom {inner : Parse Stmt} (hinner : Points text ts inner Stmt.Numbered) :
    ∀ (bound : Nat) {sofar : List Stmt}, (∀ s ∈ sofar, s.Numbered) →
      Points text ts (blockFrom inner bound sofar) fun ss => ∀ s ∈ ss, s.Numbered
  | 0, _, h => points_pure (forall_mem_reverse h)
  | bound + 1, sofar, h => by
    refine points_peek fun l => Points.at ?_ l
    split
    · exact points_pure (forall_mem_reverse h)
    · exact points_pure (forall_mem_reverse h)
    · exact hinner.bind fun st hst =>
        points_blockFrom hinner bound (List.forall_mem_cons.mpr ⟨hst, h⟩)

section Compound

variable {inner : Setting → Parse Stmt} (hinner : ∀ s, Points text ts (inner s) Stmt.Numbered)
include hinner

theorem points_block (s : Setting) (owner : String) :
    Points text ts (block inner s owner) Block.Numbered := by
  refine (points_eat _).bind fun _ _ => .ite ?_ ?_
  · refine (points_eat _).bind fun _ _ => .ite ?_ (points_fail _)
    exact points_remaining.bind fun n _ =>
      (points_blockFrom (hinner _) n (List.forall_mem_nil _)).bind fun ss hss =>
        (points_eat _).bind fun _ _ => points_previous.bind fun _ hempty =>
          points_pure (numbered_block hempty.placed.numbered hss)
  · refine (points_simpleLine s).bind fun st hst => points_pure ⟨?_, hst.span⟩
    exact numbered_stmts (List.forall_mem_singleton.mpr hst)

theorem points_guarded (s : Setting) (clause owner : String) :
    Points text ts (guarded inner s clause owner) Branch.Numbered :=
  points_expression.bind fun _ hcondition => (points_expectColon _).bind fun _ _ =>
    (points_block hinner s owner).bind fun _ hb => points_pure ⟨hcondition.placed.numbered, hb⟩

theorem points_elifsFrom (s : Setting) : ∀ (bound : Nat) {sofar : List (Expr × Block)},
    (∀ b ∈ sofar, Branch.Numbered b) →
      Points text ts (elifsFrom inner s bound sofar) fun bs => ∀ b ∈ bs, Branch.Numbered b
  | 0, _, h => points_pure (forall_mem_reverse h)
  | bound + 1, _, h =>
    (points_eat _).bind fun _ _ => .ite
      ((points_guarded hinner s _ _).bind fun _ hb =>
        points_elifsFrom s bound (List.forall_mem_cons.mpr ⟨hb, h⟩))
      (points_pure (forall_mem_reverse h))

theorem points_ifStmt (s : Setting) : Points text ts (ifStmt inner s) Stmt.Numbered := by
  refine points_start.bind fun start hstart => (points_guarded hinner s _ _).bind
    fun first hfirst => points_remaining.bind fun n _ =>
      (points_elifsFrom hinner s n (List.forall_mem_singleton.mpr hfirst)).bind
        fun branches hbranches => ?_
  have hlines := numbered_branches hbranches
  refine (points_eat _).bind fun _ _ => .ite ?_ ?_
  · refine (points_expectColon _).bind fun _ _ => (points_block hinner s _).bind
      fun otherwise helse => points_pure ?_
    exact List.forall_mem_cons.mpr
      ⟨hstart.merge helse.span, List.forall_mem_append.mpr ⟨hlines, helse.lines⟩⟩
  · have hlast : Branch.Numbered (branches.getLast?.getD first) := by
      rcases hlast : branches.getLast? with _ | b
      · exact hfirst
      · exact hbranches b (List.mem_of_getLast? hlast)
    exact points_pure (List.forall_mem_cons.mpr
      ⟨hstart.merge hlast.block.span, List.forall_mem_append.mpr
        ⟨hlines, fun _ hn => (List.not_mem_nil hn).elim⟩⟩)

omit hinner in
theorem numbered_loopOver (var : Ident) (items : Expr) {body : Block} {span : Span}
    (hspan : span.Numbered) (hbody : body.Numbered) : (loopOver var items body span).Numbered := by
  have hlines : (loopOver var items body span).lines = span.line :: body.lines := by
    unfold loopOver
    repeat' split
    all_goals rfl
  unfold Stmt.Numbered
  rw [hlines]
  exact List.forall_mem_cons.mpr ⟨hspan, hbody.lines⟩

theorem points_forStmt (s : Setting) : Points text ts (forStmt inner s) Stmt.Numbered :=
  points_start.bind fun _ hstart => (points_expectName _).bind fun var _ =>
    (points_expect _).bind fun _ _ => points_expression.bind fun items _ =>
      (points_expectColon _).bind fun _ _ => (points_block hinner _ _).bind fun _ hbody =>
        points_pure (numbered_loopOver var items (hstart.merge hbody.span) hbody)

omit hinner in
theorem points_paramsFrom : ∀ (bound : Nat) (sofar : List Ident),
    Points text ts (paramsFrom bound sofar) fun _ => True
  | 0, _ => points_pure trivial
  | bound + 1, _ =>
    points_if ((points_pure trivial).at _) <|
      (points_expectName _).bind fun _ hname => .ite (points_failAt _ hname.known) <|
        (points_eat _).bind fun _ _ => .ite (points_paramsFrom bound _) (points_pure trivial)

theorem points_defStmt (s : Setting) : Points text ts (defStmt inner s) Stmt.Numbered := by
  refine .ite (points_fail _) <| points_start.bind fun _ hstart =>
    (points_expectName _).bind fun _ _ => (points_expect _).bind fun _ _ =>
      points_remaining.bind fun n _ => (points_paramsFrom n []).bind fun _ _ =>
        (points_expect _).bind fun _ _ => (points_expectColon _).bind fun _ _ =>
          (points_block hinner _ _).bind fun _ hbody => points_pure ?_
  exact List.forall_mem_cons.mpr ⟨hstart.merge hbody.span, hbody.lines⟩

theorem points_stmtWith (s : Setting) : Points text ts (stmtWith inner s) Stmt.Numbered := by
  refine points_peek fun l => Points.at ?_ l
  split
  · exact points_ifStmt hinner s
  · exact points_forStmt hinner s
  · exact points_defStmt hinner s
  · exact points_fail _
  · exact points_fail _
  · exact points_fail _
  · exact points_simpleLine s

end Compound

theorem points_stmtAt : ∀ (depth : Nat) (s : Setting), Points text ts (stmtAt depth s) Stmt.Numbered
  | 0, s => points_simpleLine s
  | depth + 1, s => points_stmtWith (points_stmtAt depth) s

theorem points_stmtsFrom {stmt : Parse Stmt} (hstmt : Points text ts stmt Stmt.Numbered) :
    ∀ (bound : Nat) {sofar : List Stmt}, (∀ s ∈ sofar, s.Numbered) →
      Points text ts (stmtsFrom stmt bound sofar) fun ss => ∀ s ∈ ss, s.Numbered
  | 0, _, h => points_pure (forall_mem_reverse h)
  | bound + 1, sofar, h => by
    refine points_peek fun l => Points.at ?_ l
    split
    · exact points_pure (forall_mem_reverse h)
    · exact points_take.bind fun _ _ => points_stmtsFrom hstmt bound h
    · exact hstmt.bind fun _ hst =>
        points_stmtsFrom hstmt bound (List.forall_mem_cons.mpr ⟨hst, h⟩)

theorem points_program : Points text ts program fun p => ∀ n ∈ p.lines, 1 ≤ n :=
  points_remaining.bind fun n _ =>
    (points_stmtsFrom (points_stmtAt n _) n (List.forall_mem_nil _)).bind
      fun _ hss => points_pure (numbered_stmts hss)

end Statements

section Texts

theorem points_ofTokens (hscan : Token.scan text = .ok ts) :
    match Program.ofTokens ts with
    | .ok p => ∀ n ∈ p.lines, 1 ≤ n
    | .error e => e.span.Known text ts := by
  have h := points_program (Reader.sited_ofTokens (Token.scan_sited hscan))
  unfold Program.ofTokens
  rw [StateT.run]
  rcases hrun : program (.ofTokens ts) with e | ⟨p, r⟩ <;> rw [hrun] at h
  · exact h
  · exact h.2

/-- The lines of a script are lines of the text that it is read from. -/
theorem Program.one_le_lines {p : Program} (hscan : Token.scan text = .ok ts)
    (hp : Program.ofTokens ts = .ok p) : ∀ n ∈ p.lines, 1 ≤ n := by
  have h := points_ofTokens hscan
  rw [hp] at h
  exact h

theorem Program.ofTokens_known {e : ParseError} (hscan : Token.scan text = .ok ts)
    (he : Program.ofTokens ts = .error e) : e.span.Known text ts := by
  have h := points_ofTokens hscan
  rw [he] at h
  exact h

end Texts

end MissionScript
