import MissionScript.Proofs.Run.ControlFlow

/-!
# The rules an accepted script obeys

A statement stands at the top level or in the blocks of other statements (`Stmt.Under`), and the
rules of placement are about these. In every script that is accepted, functions are defined at the
top level, with distinct parameters; loops are left from a loop and functions returned from a
function; no block is empty; and no tree of an expression is too tall (`accepted_ruled`). The height
that a node keeps is that of its longest branch, since the parser makes every node from its parts
(`Expr.Limited`).
-/

namespace MissionScript

namespace Expr

/-- The nodes of the tree keep the heights that they are made with, and these are within the
limit. -/
structure Limited (e : Expr) : Prop where
  measured : e.Measured
  height_le : e.height ≤ heightLimit

variable {e x : Expr}

theorem Limited.height_lt (h : e.Limited) : e.height < largestHeight :=
  Nat.lt_of_le_of_lt h.height_le (by decide)

theorem Limited.part (h : e.Limited) (hx : x ∈ e.parts) : x.Limited :=
  ⟨h.measured.part hx,
    Nat.le_of_lt (Nat.lt_of_lt_of_le (h.measured.height_lt h.height_lt hx) h.height_le)⟩

theorem Limited.node (h : e.Limited) (hx : e.Node x) : x.Limited := by
  induction hx with
  | root => exact h
  | part _ hy ih => exact ih.part hy

theorem Limited.new (h : e.Limited) (span : Span) : (e.new span).Limited :=
  ⟨measured_new (fun _ hx => h.measured.part hx) span, by
    rw [height_new, ← h.measured.height_eq]
    exact h.height_le⟩

theorem Limited.of_bare (h : e.bare.Limited) : e.Limited :=
  ⟨h.measured.of_bare, e.height_bare ▸ h.height_le⟩

end Expr

section Placed

/-- The statement is one of these, or it stands in their blocks; `heads` are the statements around
it, the outermost first. -/
inductive Stmt.Under (st : Stmt) : List Stmt → List Stmt → Prop
  | here {ss : List Stmt} (h : st ∈ ss) : Under st [] ss
  | inside {ss heads : List Stmt} {outer : Stmt} {b : Block} (houter : outer ∈ ss)
    (hb : b ∈ outer.blocks) (h : Under st heads b.stmts) : Under st (outer :: heads) ss

theorem Stmt.Under.placed {st : Stmt} {heads ss : List Stmt} (h : st.Under heads ss) :
    ∀ {s : Setting}, stmtsPlaced s ss = true → st.placed (heads.foldl Setting.below s) = true := by
  induction h with
  | here hmem => exact fun hplaced => stmtsPlaced_iff.mp hplaced st hmem
  | inside houter hb _ ih =>
    exact fun hplaced => ih (Stmt.blocks_placed (stmtsPlaced_iff.mp hplaced _ houter) hb)

theorem Setting.foldl_below (heads : List Stmt) (s : Setting) :
    heads.foldl below s =
      ⟨s.inLoop || heads.any (·.isLoop), s.inFunction || heads.any (·.isDefinition),
        s.inBlock || !heads.isEmpty⟩ := by
  induction heads generalizing s with
  | nil => simp
  | cons outer rest ih => simp [ih, below, Bool.or_assoc]

end Placed

section Derived

open Grammar

/-- The expressions of a statement, without those of the statements in its blocks. -/
def Stmt.exprs : Stmt → List Expr
  | .assign (.name _) _ value _ => [value]
  | .assign (.item object index) _ value _ => [object, index, value]
  | .ifElse branches _ _ => branches.map (·.1)
  | .forRange _ start stop step _ _ => start.toList ++ stop :: step.toList
  | .forEach _ items _ _ => [items]
  | .ret value _ => value.toList
  | .expr e _ => [e]
  | .define _ _ _ _ | .brk _ | .cont _ | .pass _ => []

theorem bareBranches_eq (bs : List (Expr × Block)) :
    bareBranches bs = bs.map fun b => (b.1.bare, b.2.bare) := by
  induction bs with
  | nil => rfl
  | cons b rest ih => rw [bareBranches, ih, List.map_cons]

theorem bareElse_eq (b : Option Block) : bareElse b = b.map Block.bare := by
  cases b <;> rfl

theorem Stmt.blocks_bare (st : Stmt) : st.bare.blocks = st.blocks.map Block.bare := by
  cases st with
  | ifElse branches otherwise =>
    cases otherwise <;> simp [bare, blocks, bareBranches_eq, bareElse_eq, Function.comp_def]
  | forRange | forEach | define => rfl
  | assign | ret | brk | cont | pass | expr => rfl

theorem Stmt.exprs_bare (st : Stmt) : st.bare.exprs = st.exprs.map Expr.bare := by
  cases st with
  | assign target => cases target <;> rfl
  | ifElse branches => simp [bare, exprs, bareBranches_eq, Function.comp_def]
  | forRange var start stop step => cases start <;> cases step <;> rfl
  | ret value => cases value <;> rfl
  | forEach | define | brk | cont | pass | expr => rfl

theorem Block.stmts_bare (b : Block) : b.bare.stmts = b.stmts.map Stmt.bare := by
  cases b
  exact bareStmts_eq _

/-- The value that is gone through is made again, and the arguments of a `range` that is counted
through are parts of the call. -/
theorem loopOver_parts (var : Ident) (e : Expr) (b : Block) (span : Span) :
    (loopOver var e b span).blocks = [b] ∧
      ∀ x ∈ (loopOver var e b span).exprs, x = e.new e.span ∨ x ∈ e.parts := by
  unfold loopOver
  repeat' split
  all_goals exact ⟨rfl, by simp [Stmt.exprs, Expr.parts]⟩

theorem Grammar.Expression.limited {lax : Bool} {ls : List Lexeme} {e : Expr}
    (h : Expression lax ls e) : e.Limited := ⟨h.derives.measured, h.height_le⟩

theorem Grammar.DerivesSimple.limited {lax : Bool} {ls : List Lexeme} {st : Stmt}
    (h : DerivesSimple lax ls st) : st.blocks = [] ∧ ∀ e ∈ st.exprs, e.Limited := by
  cases h with
  | brk | cont | pass => exact ⟨rfl, nofun⟩
  | ret h =>
    refine ⟨rfl, fun e he => ?_⟩
    obtain ⟨v, hv, rfl⟩ := Option.map_eq_some_iff.mp (Option.mem_toList.mp he)
    exact (h v hv).limited
  | @assign _ _ t e op ht hheight he =>
    refine ⟨rfl, ?_⟩
    cases t with
    | name x => simpa [Stmt.exprs] using he.limited
    | item object i =>
      have htarget : (Target.item object i).expr.Limited := ⟨ht.derives.measured, hheight⟩
      simp only [Stmt.exprs, List.forall_mem_cons]
      exact ⟨htarget.part (.head _), htarget.part (.tail _ (.head _)), he.limited, nofun⟩
  | expr h => exact ⟨rfl, by simpa [Stmt.exprs] using h.limited⟩

/-- The expressions of a statement are limited, and its blocks are derived as well. -/
theorem Grammar.DerivesClause.of_stmt {lax : Bool} {ls : List Lexeme} {st : Stmt}
    (h : DerivesClause lax (.stmt st) ls) :
    (∀ e ∈ st.exprs, e.Limited) ∧
      ∀ b ∈ st.blocks, ∃ ls', DerivesClause lax (.suite b) ls' := by
  generalize hc : Clause.stmt st = c at h
  cases h with
  | simple h =>
    cases hc
    obtain ⟨hblocks, hexprs⟩ := h.limited
    exact ⟨hexprs, by rw [hblocks]; exact nofun⟩
  | @ifElse first elifs otherwise hconditions hbodies helse =>
    cases hc
    constructor
    · intro e he
      simp only [Stmt.exprs, List.map_map] at he
      obtain ⟨b, hb, rfl⟩ := List.mem_map.mp he
      exact (hconditions b hb).limited
    · intro b hb
      simp only [Stmt.blocks, List.map_map] at hb
      rcases List.mem_append.mp hb with hb | hb
      · obtain ⟨branch, hbranch, rfl⟩ := List.mem_map.mp hb
        exact ⟨_, hbodies branch hbranch⟩
      · obtain ⟨p, hp, rfl⟩ := Option.map_eq_some_iff.mp (Option.mem_toList.mp hb)
        exact ⟨_, helse p hp⟩
  | @forLoop _ _ e b var he hb =>
    cases hc
    obtain ⟨hblocks, hexprs⟩ := loopOver_parts ⟨var, default⟩ e b default
    constructor
    · intro x hx
      rcases hexprs x hx with rfl | hpart
      · exact he.limited.new _
      · exact he.limited.part hpart
    · rw [hblocks, List.forall_mem_singleton]
      exact ⟨_, hb⟩
  | define name params trailing _ hb =>
    cases hc
    exact ⟨nofun, List.forall_mem_singleton.mpr ⟨_, hb⟩⟩
  | line | indented => cases hc

theorem Grammar.DerivesClause.of_suite {lax : Bool} {ls : List Lexeme} {b : Block}
    (h : DerivesClause lax (.suite b) ls) :
    b.stmts ≠ [] ∧ ∀ st ∈ b.stmts, ∃ ls', DerivesClause lax (.stmt st) ls' := by
  generalize hc : Clause.suite b = c at h
  cases h with
  | line h =>
    cases hc
    exact ⟨List.cons_ne_nil _ _, List.forall_mem_singleton.mpr ⟨_, .simple h⟩⟩
  | @indented body hne hbody =>
    cases hc
    refine ⟨by simpa [Block.stmts] using hne, fun st hst => ?_⟩
    obtain ⟨s, hs, rfl⟩ := List.mem_map.mp hst
    exact ⟨_, hbody s hs⟩
  | simple | ifElse | forLoop | define => cases hc

/-- The statement is one of the grammar, up to spans. -/
def Stmt.Derived (st : Stmt) : Prop := ∃ ls, DerivesClause true (.stmt st.bare) ls

variable {st : Stmt}

theorem Stmt.Derived.limited (h : st.Derived) {e : Expr} (he : e ∈ st.exprs) : e.Limited := by
  obtain ⟨ls, h⟩ := h
  refine .of_bare (h.of_stmt.1 _ ?_)
  rw [exprs_bare]
  exact List.mem_map_of_mem he

theorem Stmt.Derived.block (h : st.Derived) {b : Block} (hb : b ∈ st.blocks) :
    b.stmts ≠ [] ∧ ∀ st' ∈ b.stmts, st'.Derived := by
  obtain ⟨ls, h⟩ := h
  obtain ⟨ls', hsuite⟩ := h.of_stmt.2 b.bare (by rw [blocks_bare]; exact List.mem_map_of_mem hb)
  obtain ⟨hne, hall⟩ := hsuite.of_suite
  rw [Block.stmts_bare] at hne hall
  exact ⟨by simpa using hne, fun st' hst => hall _ (List.mem_map_of_mem hst)⟩

theorem Stmt.Under.derived {heads ss : List Stmt} (h : st.Under heads ss)
    (hall : ∀ st' ∈ ss, st'.Derived) : st.Derived := by
  induction h with
  | here hmem => exact hall st hmem
  | inside houter hb _ ih => exact ih ((hall _ houter).block hb).2

end Derived

/-- What holds of every script that is accepted. -/
structure Program.Ruled (p : Program) : Prop where
  definitions {st : Stmt} {heads : List Stmt} : st.Under heads p.stmts → st.isDefinition = true →
    heads = []
  parameters {name : Ident} {params : List Ident} {body : Block} {span : Span}
    {heads : List Stmt} : (Stmt.define name params body span).Under heads p.stmts →
      (params.map (·.name)).Nodup
  loops {st : Stmt} {heads : List Stmt} {span : Span} : st = .brk span ∨ st = .cont span →
    st.Under heads p.stmts → ∃ outer ∈ heads, outer.isLoop = true
  returns {value : Option Expr} {span : Span} {heads : List Stmt} :
    (Stmt.ret value span).Under heads p.stmts → ∃ outer ∈ heads, outer.isDefinition = true
  blocks {st : Stmt} {heads : List Stmt} {b : Block} : st.Under heads p.stmts → b ∈ st.blocks →
    b.stmts ≠ []
  heights {st : Stmt} {heads : List Stmt} {e x : Expr} : st.Under heads p.stmts → e ∈ st.exprs →
    e.Node x → IsGreatest {n | x.Branch n} x.height ∧ x.height ≤ 256

theorem Program.ruled_of_derived {p : Program} (hplaced : p.placed = true)
    (hderived : ∀ st ∈ p.stmts, st.Derived) : p.Ruled := by
  have hsetting {st : Stmt} {heads : List Stmt} (h : st.Under heads p.stmts) :
      st.placed ⟨heads.any (·.isLoop), heads.any (·.isDefinition), !heads.isEmpty⟩ = true := by
    have hst := h.placed (s := .top) hplaced
    rwa [Setting.foldl_below] at hst
  constructor
  case definitions =>
    intro st heads hunder hdefinition
    cases st with
    | define =>
      obtain ⟨hhead, -⟩ := Bool.and_eq_true_iff.mp (hsetting hunder)
      obtain ⟨hblock, -⟩ := Bool.and_eq_true_iff.mp hhead
      simpa using hblock
    | _ => cases hdefinition
  case parameters =>
    intro name params body span heads hunder
    obtain ⟨hhead, -⟩ := Bool.and_eq_true_iff.mp (hsetting hunder)
    exact of_decide_eq_true (Bool.and_eq_true_iff.mp hhead).2
  case loops =>
    rintro st heads span (rfl | rfl) hunder <;> exact List.any_eq_true.mp (hsetting hunder)
  case returns =>
    intro value span heads hunder
    exact List.any_eq_true.mp (hsetting hunder)
  case blocks =>
    intro st heads b hunder hb
    exact ((hunder.derived hderived).block hb).1
  case heights =>
    intro st heads e x hunder he hx
    have hlimited : x.Limited := ((hunder.derived hderived).limited he).node hx
    exact ⟨hlimited.measured.isGreatest_height hlimited.height_lt, hlimited.height_le⟩

theorem accepted_ruled {source : SourceText} {p : Program} (h : source.program = .ok p) :
    p.Ruled := by
  obtain ⟨ts, hscan, hparse⟩ := SourceText.program_eq_ok_iff.mp h
  obtain ⟨hderives, hplaced⟩ := derives_of_ofTokens (Token.scan_laid hscan) hparse
  rw [Program.placed_bare] at hplaced
  refine Program.ruled_of_derived hplaced ?_
  generalize hp : p.bare = q at hderives
  generalize ts.map (·.lexeme) = ls at hderives
  cases hderives with | @mk body hbody => ?_
  intro st hst
  have hmem : st.bare ∈ body.map (·.2) := by
    have hstmts : p.stmts.map Stmt.bare = body.map (·.2) := congrArg Program.stmts hp
    rw [← hstmts]
    exact List.mem_map_of_mem hst
  obtain ⟨s, hs, heq⟩ := List.mem_map.mp hmem
  exact ⟨s.1, heq ▸ hbody s hs⟩

/-- A loop in a function, left and gone on with from blocks inside of it. -/
theorem accepted_ruled_search :
    ∃ p, SourceText.program ⟨defaultScriptName,
        "def f(n, m):\n    for i in range(n):\n        if i * 2 == -m: return [i]\n" ++
        "        else: continue\n    return\nf(2 + 3, 1)\n"⟩ = .ok p ∧ p.Ruled := by
  have hread : (SourceText.program ⟨defaultScriptName,
      "def f(n, m):\n    for i in range(n):\n        if i * 2 == -m: return [i]\n" ++
      "        else: continue\n    return\nf(2 + 3, 1)\n"⟩).isOk = true := by
    decide +kernel
  rcases hp : SourceText.program _ with e | p <;> rw [hp] at hread
  · cases hread
  · exact ⟨p, rfl, accepted_ruled hp⟩

end MissionScript
