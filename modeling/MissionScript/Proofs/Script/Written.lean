import MissionScript.Proofs.Script.StmtRead

/-!
# Expressions as they are written

A tree is written with parentheses around an operand exactly if the operand is looser than what the
operator takes on that side. What is written is derived at the rank of the tree, with as many levels
of nesting as `Expr.nesting` counts, so it is read back as the same tree (`read_written`).
-/

namespace MissionScript

namespace Expr

/-- The rank at which a tree is written without parentheses. -/
def rank : Expr → Rank
  | int _ _ | float _ _ | str _ _ | bool _ _ | none _ | name _ _ | list _ _ | dict _ _ => .primary
  | call _ _ _ | method _ _ _ _ | index _ _ _ | slice _ _ _ _ => .suffixed
  | binary _ op _ _ => op.rank
  | unary op _ _ => op.rank

/-- Whether the tree needs parentheses where `needed` is taken. -/
def isLoose (e : Expr) (needed : Rank) : Bool := decide (e.rank.level < needed.level)

end Expr

/-- Lexemes in parentheses, if need be. -/
def parenthesizedIf (loose : Bool) (ls : List Lexeme) : List Lexeme :=
  if loose then .symbol .lparen :: (ls ++ [.symbol .rparen]) else ls

/-- Parentheses lead one level deeper. -/
def deeperIf (loose : Bool) (n : Nat) : Nat := if loose then n + 1 else n

namespace Expr

open Grammar (listing)

mutual

/-- The lexemes of the tree, with parentheses only where they are needed. -/
def written : Expr → List Lexeme
  | int n _ => [.int n]
  | float x _ => [.float x]
  | str s _ => [.str s]
  | bool b _ => [.keyword (if b then .trueWord else .falseWord)]
  | none _ => [.keyword .noneWord]
  | name s _ => [.name s]
  | list items _ => .symbol .lbracket :: (listing false (writtenAll items) ++ [.symbol .rbracket])
  | dict entries _ =>
    .symbol .lbrace :: (listing false (writtenEntries entries) ++ [.symbol .rbrace])
  | call callee args _ =>
    .name callee.name :: .symbol .lparen :: (listing false (writtenAll args) ++ [.symbol .rparen])
  | method object m args _ =>
    parenthesizedIf (object.isLoose .suffixed) object.written ++
      .symbol .dot :: .name m.name :: .symbol .lparen ::
        (listing false (writtenAll args) ++ [.symbol .rparen])
  | binary left op right _ =>
    parenthesizedIf (left.isLoose op.leftRank) left.written ++
      (op.lexemes ++ parenthesizedIf (right.isLoose op.rightRank) right.written)
  | unary op operand _ =>
    op.lexeme :: parenthesizedIf (operand.isLoose op.rank) operand.written
  | index object i _ =>
    parenthesizedIf (object.isLoose .suffixed) object.written ++
      .symbol .lbracket :: (i.written ++ [.symbol .rbracket])
  | slice object start stop _ =>
    parenthesizedIf (object.isLoose .suffixed) object.written ++
      .symbol .lbracket :: (writtenOpt start ++
        .symbol .colon :: (writtenOpt stop ++ [.symbol .rbracket]))

def writtenAll : List Expr → List (List Lexeme)
  | [] => []
  | e :: es => e.written :: writtenAll es

def writtenEntries : List (Expr × Expr) → List (List Lexeme)
  | [] => []
  | (k, v) :: es => (k.written ++ .symbol .colon :: v.written) :: writtenEntries es

def writtenOpt : Option Expr → List Lexeme
  | Option.none => []
  | some e => e.written

end

mutual

/-- How many levels of nesting the written tree takes: each pair of brackets and each prefix
operator leads one level deeper. -/
def nesting : Expr → Nat
  | int _ _ | float _ _ | str _ _ | bool _ _ | none _ | name _ _ => 0
  | list items _ => nestingAll items
  | dict entries _ => nestingEntries entries
  | call _ args _ => nestingAll args
  | method object _ args _ =>
    max (deeperIf (object.isLoose .suffixed) object.nesting) (nestingAll args)
  | binary left op right _ =>
    max (deeperIf (left.isLoose op.leftRank) left.nesting)
      (deeperIf (right.isLoose op.rightRank) right.nesting)
  | unary op operand _ => deeperIf (operand.isLoose op.rank) operand.nesting + 1
  | index object i _ =>
    max (deeperIf (object.isLoose .suffixed) object.nesting) (i.nesting + 1)
  | slice object start stop _ =>
    max (deeperIf (object.isLoose .suffixed) object.nesting)
      (max (nestingOpt start) (nestingOpt stop))

/-- How many levels the items between brackets take. -/
def nestingAll : List Expr → Nat
  | [] => 0
  | e :: es => max (e.nesting + 1) (nestingAll es)

def nestingEntries : List (Expr × Expr) → Nat
  | [] => 0
  | (k, v) :: es => max (max (k.nesting + 1) (v.nesting + 1)) (nestingEntries es)

def nestingOpt : Option Expr → Nat
  | Option.none => 0
  | some e => e.nesting + 1

end

end Expr

open Grammar

variable {lax : Bool} {n : Nat}

section Deriving

theorem Expr.rank_ne (e : Expr) : e.rank ≠ .expr := by
  cases e with
  | binary _ op _ _ => cases op <;> exact Rank.noConfusion
  | unary op _ _ => cases op <;> exact Rank.noConfusion
  | _ => exact Rank.noConfusion

theorem BinOp.operand_ranks (op : BinOp) : op.leftRank ≠ .expr ∧ op.rightRank ≠ .expr := by
  cases op <;> decide

theorem UnaryOp.rank_ne (op : UnaryOp) : op.rank ≠ .expr := by
  cases op <;> decide

/-- Between brackets any expression may stand, one level deeper. -/
theorem derives_inner {e : Expr}
    (h : ∀ {n}, e.nesting ≤ n → Derives lax e.rank n e.written e.rebuilt)
    (hn : e.nesting + 1 ≤ n) : Derives lax .expr n e.written e.rebuilt := by
  obtain ⟨m, rfl⟩ : ∃ m, n = m + 1 := Nat.exists_eq_add_one.mpr (by omega)
  have hlevel : Rank.or.level ≤ e.rank.level := by
    have := e.rank_ne
    generalize e.rank = r at *
    cases r <;> first | contradiction | decide
  exact .expr ((h (by omega)).loosen (by decide) hlevel)

/-- Where a tree is taken at a rank, it stands there as it is or in parentheses. -/
theorem derives_operand {e : Expr} {needed : Rank}
    (h : ∀ {n}, e.nesting ≤ n → Derives lax e.rank n e.written e.rebuilt)
    (hneeded : needed ≠ .expr) (hn : deeperIf (e.isLoose needed) e.nesting ≤ n) :
    Derives lax needed n (parenthesizedIf (e.isLoose needed) e.written) e.rebuilt := by
  unfold parenthesizedIf
  unfold deeperIf at hn
  split at hn
  · rename_i hloose
    rw [if_pos hloose]
    exact (Derives.paren (derives_inner h hn)).loosen hneeded (by cases needed <;> decide)
  · rename_i hloose
    rw [if_neg hloose]
    exact (h hn).loosen hneeded (by simpa [Expr.isLoose] using hloose)

mutual

/-- What is written is derived at the rank of the tree. -/
theorem derives_written : ∀ (e : Expr) {n : Nat},
    e.nesting ≤ n → Derives lax e.rank n e.written e.rebuilt
  | .int _ _, _, _ | .float _ _, _, _ | .str _ _, _, _ | .name _ _, _, _ | .none _, _, _ =>
    .atom rfl
  | .bool b _, _, _ => .atom (by cases b <;> rfl)
  | .list items _, n, hn => by
    obtain ⟨parts, hwords, htrees, heach⟩ := derives_writtenAll items hn
    rw [Expr.written, Expr.rebuilt_eq_fresh, Expr.mapParts, ← hwords, ← htrees]
    exact .list false heach
  | .dict entries _, n, hn => by
    obtain ⟨parts, hwords, htrees, heach⟩ := derives_writtenEntries entries hn
    rw [Expr.written, Expr.rebuilt_eq_fresh, Expr.mapParts, ← hwords, ← htrees]
    exact .dict false (fun a ha => (heach a ha).1) fun a ha => (heach a ha).2
  | .call callee args _, n, hn => by
    obtain ⟨parts, hwords, htrees, heach⟩ := derives_writtenAll args hn
    rw [Expr.written, Expr.rebuilt_eq_fresh, Expr.mapParts, ← hwords, ← htrees]
    exact .call false (.next rfl (.atom rfl)) (fun _ => rfl) heach
  | .method object m args _, n, hn => by
    obtain ⟨hobject, hargs⟩ := Nat.max_le.mp hn
    obtain ⟨parts, hwords, htrees, heach⟩ := derives_writtenAll args hargs
    rw [Expr.written, Expr.rebuilt_eq_fresh, Expr.mapParts, ← hwords, ← htrees]
    exact .method m.name false (derives_operand (derives_written object) (by decide) hobject) heach
  | .binary left op right _, n, hn => by
    obtain ⟨hleft, hright⟩ := Nat.max_le.mp hn
    exact .binary op (derives_operand (derives_written left) op.operand_ranks.1 hleft)
      (derives_operand (derives_written right) op.operand_ranks.2 hright)
  | .unary op operand _, n, hn => by
    obtain ⟨m, rfl⟩ : ∃ m, n = m + 1 :=
      Nat.exists_eq_add_one.mpr (Nat.lt_of_lt_of_le (Nat.succ_pos _) hn)
    exact .unary op
      (derives_operand (derives_written operand) op.rank_ne (Nat.le_of_succ_le_succ hn))
  | .index object i _, n, hn => by
    obtain ⟨hobject, hi⟩ := Nat.max_le.mp hn
    exact .index (derives_operand (derives_written object) (by decide) hobject)
      (derives_inner (derives_written i) hi)
  | .slice object start stop _, n, hn => by
    obtain ⟨hobject, hbounds⟩ := Nat.max_le.mp hn
    obtain ⟨hstart, hstop⟩ := Nat.max_le.mp hbounds
    obtain ⟨p, hp, hpTree, hpDerives⟩ := derives_writtenOpt start hstart
    obtain ⟨q, hq, hqTree, hqDerives⟩ := derives_writtenOpt stop hstop
    rw [Expr.written, Expr.rebuilt_eq_fresh, Expr.mapParts, ← hp, ← hq, ← hpTree, ← hqTree]
    exact .slice (derives_operand (derives_written object) (by decide) hobject) hpDerives hqDerives

theorem derives_writtenAll : ∀ (es : List Expr) {n : Nat}, Expr.nestingAll es ≤ n →
    ∃ parts : List (Phrase Expr), parts.map (·.1) = Expr.writtenAll es ∧
      parts.map (·.2) = es.map Expr.rebuilt ∧ ∀ a ∈ parts, Derives lax .expr n a.1 a.2
  | [], _, _ => ⟨[], rfl, rfl, nofun⟩
  | e :: es, n, hn => by
    obtain ⟨he, hes⟩ := Nat.max_le.mp hn
    obtain ⟨parts, hwords, htrees, heach⟩ := derives_writtenAll es hes
    refine ⟨(e.written, e.rebuilt) :: parts, ?_, ?_, ?_⟩
    · rw [List.map_cons, hwords, Expr.writtenAll]
    · rw [List.map_cons, htrees, List.map_cons]
    · exact List.forall_mem_cons.mpr ⟨derives_inner (derives_written e) he, heach⟩

theorem derives_writtenEntries : ∀ (es : List (Expr × Expr)) {n : Nat}, Expr.nestingEntries es ≤ n →
    ∃ parts : List (Phrase Expr × Phrase Expr), parts.map entryLexemes = Expr.writtenEntries es ∧
      (parts.map fun a => (a.1.2, a.2.2)) = (es.map fun e => (e.1.rebuilt, e.2.rebuilt)) ∧
      ∀ a ∈ parts, Derives lax .expr n a.1.1 a.1.2 ∧ Derives lax .expr n a.2.1 a.2.2
  | [], _, _ => ⟨[], rfl, rfl, nofun⟩
  | (k, v) :: es, n, hn => by
    obtain ⟨hkv, hes⟩ := Nat.max_le.mp hn
    obtain ⟨hk, hv⟩ := Nat.max_le.mp hkv
    obtain ⟨parts, hwords, htrees, heach⟩ := derives_writtenEntries es hes
    refine ⟨((k.written, k.rebuilt), (v.written, v.rebuilt)) :: parts, ?_, ?_, ?_⟩
    · rw [List.map_cons, hwords, Expr.writtenEntries, entryLexemes]
    · rw [List.map_cons, htrees, List.map_cons]
    · refine List.forall_mem_cons.mpr ⟨?_, heach⟩
      exact ⟨derives_inner (derives_written k) hk, derives_inner (derives_written v) hv⟩

theorem derives_writtenOpt : ∀ (e : Option Expr) {n : Nat}, Expr.nestingOpt e ≤ n →
    ∃ p : Option (Phrase Expr), Grammar.optional p = Expr.writtenOpt e ∧
      p.map (·.2) = e.map Expr.rebuilt ∧ ∀ a ∈ p, Derives lax .expr n a.1 a.2
  | none, _, _ => ⟨none, rfl, rfl, nofun⟩
  | some e, n, hn =>
    ⟨some (e.written, e.rebuilt), rfl, rfl, by simpa using derives_inner (derives_written e) hn⟩

end

/-- Within the limits, what is written is an expression. -/
theorem expression_written {e : Expr} (hnesting : e.nesting < nestingLimit)
    (hheight : e.rebuilt.height ≤ heightLimit) : Expression lax e.written e.rebuilt :=
  ⟨derives_inner (derives_written e) hnesting, hheight⟩

end Deriving

section Needed

namespace Expr

variable (f : Expr → Nat)

theorem isLoose_bareWith (e : Expr) (needed : Rank) :
    (e.bareWith f).isLoose needed = e.isLoose needed := by
  cases e <;> rfl

mutual

theorem nesting_bareWith : ∀ e : Expr, (e.bareWith f).nesting = e.nesting
  | int _ _ | float _ _ | str _ _ | bool _ _ | none _ | name _ _ => rfl
  | list items _ => nestingAll_bare items
  | dict entries _ => nestingEntries_bare entries
  | call _ args _ => nestingAll_bare args
  | method object _ args _ => by
    simp only [bareWith, unplaced, withMark, nesting, isLoose_bareWith, nesting_bareWith object,
      nestingAll_bare args]
  | binary left _ right _ => by
    simp only [bareWith, unplaced, withMark, nesting, isLoose_bareWith, nesting_bareWith left,
      nesting_bareWith right]
  | unary _ operand _ => by
    simp only [bareWith, unplaced, withMark, nesting, isLoose_bareWith, nesting_bareWith operand]
  | index object i _ => by
    simp only [bareWith, unplaced, withMark, nesting, isLoose_bareWith, nesting_bareWith object,
      nesting_bareWith i]
  | slice object start stop _ => by
    simp only [bareWith, unplaced, withMark, nesting, isLoose_bareWith, nesting_bareWith object,
      nestingOpt_bare start, nestingOpt_bare stop]

theorem nestingAll_bare : ∀ es : List Expr, nestingAll (bareAll f es) = nestingAll es
  | [] => rfl
  | e :: es => by simp only [bareAll, nestingAll, nesting_bareWith e, nestingAll_bare es]

theorem nestingEntries_bare : ∀ es : List (Expr × Expr),
    nestingEntries (bareEntries f es) = nestingEntries es
  | [] => rfl
  | (k, v) :: es => by
    simp only [bareEntries, nestingEntries, nesting_bareWith k, nesting_bareWith v,
      nestingEntries_bare es]

theorem nestingOpt_bare : ∀ e : Option Expr, nestingOpt (bareOpt f e) = nestingOpt e
  | Option.none => rfl
  | some e => congrArg (· + 1) (nesting_bareWith e)

end

theorem nestingAll_le {es : List Expr} : nestingAll es ≤ n ↔ ∀ e ∈ es, e.nesting + 1 ≤ n := by
  induction es with
  | nil => simp [nestingAll]
  | cons e es ih => rw [nestingAll, Nat.max_le, ih, List.forall_mem_cons]

theorem nestingEntries_le {es : List (Expr × Expr)} :
    nestingEntries es ≤ n ↔ ∀ e ∈ es, e.1.nesting + 1 ≤ n ∧ e.2.nesting + 1 ≤ n := by
  induction es with
  | nil => simp [nestingEntries]
  | cons e es ih => rw [nestingEntries, Nat.max_le, Nat.max_le, ih, List.forall_mem_cons]

theorem nestingOpt_le {e : Option Expr} : nestingOpt e ≤ n ↔ ∀ x ∈ e, x.nesting + 1 ≤ n := by
  cases e <;> simp [nestingOpt]

end Expr

theorem deeperIf_of_rank (e : Expr) : deeperIf (e.isLoose e.rank) n = n := by
  simp [deeperIf, Expr.isLoose]

theorem deeperIf_bounds (loose : Bool) (n : Nat) :
    n ≤ deeperIf loose n ∧ deeperIf loose n ≤ n + 1 := by
  cases loose <;> simp [deeperIf]

theorem deeperIf_mono {e : Expr} {r r' : Rank} (h : r.level ≤ r'.level) :
    deeperIf (e.isLoose r) n ≤ deeperIf (e.isLoose r') n := by
  by_cases hloose : e.isLoose r = true
  · have hloose' : e.isLoose r' = true := by
      simp only [Expr.isLoose, decide_eq_true_eq] at hloose ⊢
      omega
    exact Nat.le_of_eq (by rw [hloose, hloose'])
  · rw [eq_false_of_ne_true hloose]
    exact (deeperIf_bounds _ n).1

/-- However a tree is written, it takes as many levels of nesting as with parentheses only where
they are needed. -/
theorem Grammar.Derives.nesting_le {r : Rank} {ls : List Lexeme} {e : Expr}
    (h : Derives lax r n ls e) :
    (r = .expr → e.nesting + 1 ≤ n) ∧ (r ≠ .expr → deeperIf (e.isLoose r) e.nesting ≤ n) := by
  have hown : ∀ {r : Rank} {e : Expr} {n : Nat}, r = e.rank → e.nesting ≤ n →
      (r = .expr → e.nesting + 1 ≤ n) ∧ (r ≠ .expr → deeperIf (e.isLoose r) e.nesting ≤ n) := by
    rintro _ e n rfl hn
    exact ⟨fun h => absurd h e.rank_ne, fun _ => (deeperIf_of_rank e).symm ▸ hn⟩
  induction h with
  | expr h ih =>
    have hn := ih.2 (by decide)
    exact ⟨fun _ => Nat.succ_le_succ (Nat.le_trans (deeperIf_bounds _ _).1 hn),
      fun h => absurd rfl h⟩
  | @next r r' n ls e hr h ih =>
    have hlevel := Rank.next?_level hr
    refine ⟨?_, fun _ => Nat.le_trans (deeperIf_mono (by omega)) (ih.2 ?_)⟩
    · rintro rfl
      cases hr
    · rintro rfl
      exact absurd hlevel.symm (Nat.succ_ne_zero _)
  | binary op ha hb iha ihb =>
    exact hown rfl (Nat.max_le.mpr ⟨iha.2 op.operand_ranks.1, ihb.2 op.operand_ranks.2⟩)
  | unary op h ih => exact hown rfl (Nat.succ_le_succ (ih.2 op.rank_ne))
  | call trailing h _ hargs ih ihargs =>
    refine hown rfl (Expr.nestingAll_le.mpr fun a ha => ?_)
    obtain ⟨p, hp, rfl⟩ := List.mem_map.mp ha
    exact (ihargs p hp).1 rfl
  | method m trailing h hargs ih ihargs =>
    refine hown rfl (Nat.max_le.mpr ⟨ih.2 (by decide), Expr.nestingAll_le.mpr fun a ha => ?_⟩)
    obtain ⟨p, hp, rfl⟩ := List.mem_map.mp ha
    exact (ihargs p hp).1 rfl
  | index h hi ih ihi => exact hown rfl (Nat.max_le.mpr ⟨ih.2 (by decide), ihi.1 rfl⟩)
  | slice h hstart hstop ih ihstart ihstop =>
    refine hown rfl (Nat.max_le.mpr ⟨ih.2 (by decide), Nat.max_le.mpr
      ⟨Expr.nestingOpt_le.mpr fun a ha => ?_, Expr.nestingOpt_le.mpr fun a ha => ?_⟩⟩)
    · obtain ⟨p, hp, rfl⟩ := Option.map_eq_some_iff.mp ha
      exact (ihstart p hp).1 rfl
    · obtain ⟨p, hp, rfl⟩ := Option.map_eq_some_iff.mp ha
      exact (ihstop p hp).1 rfl
  | atom h => cases Lexeme.atom?_eq_some_iff.mp h <;> exact hown rfl (Nat.zero_le _)
  | @paren n ls e h ih =>
    exact ⟨nofun, fun _ => Nat.le_trans (deeperIf_bounds _ _).2 (ih.1 rfl)⟩
  | list trailing h ih =>
    refine hown rfl (Expr.nestingAll_le.mpr fun a ha => ?_)
    obtain ⟨p, hp, rfl⟩ := List.mem_map.mp ha
    exact (ih p hp).1 rfl
  | dict trailing _ _ ihkeys ihvalues =>
    refine hown rfl (Expr.nestingEntries_le.mpr fun a ha => ?_)
    obtain ⟨p, hp, rfl⟩ := List.mem_map.mp ha
    exact ⟨(ihkeys p hp).1 rfl, (ihvalues p hp).1 rfl⟩

end Needed

/-- Words and then the end of the line and the text are laid out well. -/
theorem Grammar.Words.laid {ls : List Lexeme} (h : Words ls) (hne : ls ≠ []) :
    Laid true 0 (ls ++ [.newline, .eof]) := by
  have hend : ∀ ls, Words ls → Laid false 0 (ls ++ [.newline, .eof]) := by
    intro ls h
    induction ls with
    | nil => exact .newline .eof
    | cons l ls ih =>
      obtain ⟨hl, hls⟩ := words_cons.mp h
      exact .word hl (ih hls)
  obtain ⟨l, ls, rfl⟩ := List.exists_cons_of_ne_nil hne
  obtain ⟨hl, hls⟩ := words_cons.mp h
  exact .word hl (hend ls hls)

/-- A simple statement alone is a script. -/
theorem ofTokens_of_simple {ls : List Lexeme} {s : Stmt} {ts : List Token}
    (hs : DerivesSimple lax ls s) (hplaced : s.placed .top = true)
    (hts : ts.map (·.lexeme) = ls ++ [.newline, .eof]) :
    ∃ p s', Program.ofTokens ts = .ok p ∧ p.stmts = [s'] ∧ s'.bare = s := by
  have hlaid : Laid true 0 (ts.map (·.lexeme)) := hts ▸ hs.words.1.laid hs.words.2
  have hprogram : DerivesProgram lax (ts.map (·.lexeme)) ⟨[s], default⟩ := by
    have hlexemes : [(ls ++ [.newline], s)].flatMap (·.1) ++ [.eof] = ts.map (·.lexeme) := by
      simp [hts]
    rw [← hlexemes]
    exact .mk (by simpa using DerivesClause.simple hs)
  have hprogramPlaced : Program.placed ⟨[s], default⟩ = true := by
    rw [Program.placed, stmtsPlaced, hplaced]
    rfl
  obtain ⟨p, hp, hbare⟩ := ofTokens_of_derives hlaid hprogram hprogramPlaced
  obtain ⟨s', hstmts, hs'⟩ := List.map_eq_singleton_iff.mp (congrArg Program.stmts hbare)
  exact ⟨p, s', hp, hstmts, hs'⟩

/-- A tree that is written as a statement is read back as the same tree, up to spans, exactly within
the limits on nesting and height. The nodes that are read have the heights that they are made with;
where those of `e` have them too, `e.rebuilt` is `e.bare` (`Expr.Measured.rebuilt_eq`). -/
theorem read_written {e : Expr} {ts : List Token}
    (hts : ts.map (·.lexeme) = e.written ++ [.newline, .eof]) :
    (∃ p e' span, Program.ofTokens ts = .ok p ∧ p.stmts = [.expr e' span] ∧ e'.bare = e.rebuilt) ↔
      e.nesting + 1 ≤ nestingLimit ∧ e.rebuilt.height ≤ heightLimit := by
  constructor
  · rintro ⟨p, e', span, hp, hstmts, hbare⟩
    have hderives := @derives_written true e _ (Nat.le_refl _)
    obtain ⟨l, ls, hls, _⟩ := hderives.starts
    have hlaid := hderives.words.laid (hls ▸ List.cons_ne_nil _ _)
    rw [← hts] at hlaid
    obtain ⟨hprogram, -⟩ := derives_of_ofTokens hlaid hp
    have hlexemes : ts.map (·.lexeme) = (e.written ++ [.newline]) ++ [.eof] := by simp [hts]
    rw [Program.bare, hstmts, hlexemes] at hprogram
    obtain ⟨ls, hls, hsimple⟩ := (DerivesProgram.of_single hprogram).of_simple rfl
    cases hsimple with | expr he => ?_
    rw [hbare, ← List.append_cancel_right hls] at he
    exact ⟨e.nesting_bareWith Expr.newHeight ▸ he.derives.nesting_le.1 rfl, he.height_le⟩
  · rintro ⟨hnesting, hheight⟩
    have he : Expression true e.written e.rebuilt := expression_written hnesting hheight
    obtain ⟨p, st, hp, hstmts, hst⟩ := ofTokens_of_simple (.expr he) rfl hts
    cases st with
    | expr e' span => exact ⟨p, e', span, hp, hstmts, (Stmt.expr.inj hst).1⟩
    | _ => cases hst

/-- Membership of a negation, where both a looser left operand and a looser operand of a sign stand
in parentheses. -/
def membership : Expr :=
  .binary (.unary .not (.name "a" default) default) .isIn
    (.list [.unary .neg (.binary (.name "b" default) .add (.int 1 default) default) default,
      .method (.slice (.call ⟨"f", default⟩ [] default) (some (.int 1 default)) none default)
        ⟨"m", default⟩ [] default] default) default

/-- `(not a) in [-(b + 1), f()[1:].m()]` is read back. -/
theorem read_written_membership :
    membership.written = [.symbol .lparen, .keyword .notWord, .name "a", .symbol .rparen,
      .keyword .inWord, .symbol .lbracket, .symbol .minus, .symbol .lparen, .name "b",
      .symbol .plus,
      .int 1, .symbol .rparen, .symbol .comma, .name "f", .symbol .lparen, .symbol .rparen,
      .symbol .lbracket, .int 1, .symbol .colon, .symbol .rbracket, .symbol .dot, .name "m",
      .symbol .lparen, .symbol .rparen, .symbol .rbracket] ∧
    membership.nesting + 1 ≤ nestingLimit ∧ membership.rebuilt.height ≤ heightLimit ∧
    ∃ p e' span, Program.ofTokens
        ((membership.written ++ [Lexeme.newline, Lexeme.eof]).map (⟨·, default⟩)) = .ok p ∧
      p.stmts = [.expr e' span] ∧ e'.bare = membership.rebuilt :=
  ⟨rfl, by decide, by decide, (read_written rfl).mpr ⟨by decide, by decide⟩⟩

end MissionScript
