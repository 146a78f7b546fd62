import MissionScript.Proofs.Run.Congruence
import MissionScript.Proofs.Script.StmtAccepted
import MissionScript.Script.Check

/-!
# Control flow stays inside

The evaluator does not look at where a statement stands. A loop takes any `break` for its own, a
call drops whatever flow is left, and a script stops at the first statement that does not end
normally. That nothing is lost in this way is owed to the parser: where statements are placed as it
demands (`Stmt.placed`), a flow only comes from where it has a loop or a function to go to
(`Eval.stmt_fits`). So in a script that the parser accepts loops end normally or return, bodies of
functions too, statements at the top level end normally, and a script that succeeds has executed all
of them (`accepted_contained`).
-/

namespace MissionScript

/-- Loops over a range and loops over items. -/
def Stmt.isLoop : Stmt → Bool
  | .forRange _ _ _ _ _ _ | .forEach _ _ _ _ => true
  | _ => false

/-- The flow has somewhere to go to from where the statement stands. -/
def Flow.Fits (s : Setting) : Flow → Prop
  | .normal => True
  | .brk | .cont => s.inLoop = true
  | .ret _ => s.inFunction = true

namespace Flow

variable {flow : Flow}

/-- How a loop may end, and the body of a function. -/
def Leaves (flow : Flow) : Prop := flow = .normal ∨ ∃ v, flow = .ret v

theorem fits_normal (s : Setting) : Fits s .normal := trivial

theorem fits_anywhere (flow : Flow) (inBlock : Bool) : flow.Fits ⟨true, true, inBlock⟩ := by
  cases flow <;> trivial

/-- What fits outside of the loop fits in it too. -/
theorem Fits.leave {s : Setting} (h : flow.Fits { s with inLoop := false }) : flow.Fits s := by
  cases flow with
  | normal | ret v => exact h
  | brk | cont => cases h

theorem Fits.unblock {s : Setting} (h : flow.Fits { s with inBlock := true }) : flow.Fits s := by
  cases flow <;> exact h

theorem Fits.eq_normal {s : Setting} (h : flow.Fits s) (hloop : s.inLoop = false)
    (hfunction : s.inFunction = false) : flow = .normal := by
  cases flow with
  | normal => rfl
  | brk | cont => exact absurd (hloop.symm.trans h) Bool.false_ne_true
  | ret v => exact absurd (hfunction.symm.trans h) Bool.false_ne_true

theorem Fits.leaves {s : Setting} (h : flow.Fits s) (hloop : s.inLoop = false) : flow.Leaves := by
  cases flow with
  | normal => exact .inl rfl
  | brk | cont => exact absurd (hloop.symm.trans h) Bool.false_ne_true
  | ret v => exact .inr ⟨v, rfl⟩

end Flow

namespace Eval

/-- If the action succeeds, `P` holds of its result. -/
def Gives {α : Type} (P : α → Prop) (x : Eval α) : Prop := ∀ ⦃m a m'⦄, x m = .ok a m' → P a

section Gives

variable {α β : Type} {P : α → Prop} {Q : β → Prop}

theorem gives_pure {a : α} (h : P a) : Gives P (pure a : Eval α) := by
  intro m b m' hb
  cases hb
  exact h

theorem Gives.bind {x : Eval α} {f : α → Eval β} (hx : Gives P x)
    (hf : ∀ a, P a → Gives Q (f a)) : Gives Q (x >>= f) := by
  intro m b m' hb
  rw [bind_apply] at hb
  rcases hr : x m with ⟨a, m₁⟩ | ⟨e, m₁⟩ <;> rw [hr] at hb
  · exact hf a (hx hr) hb
  · cases hb

/-- Nothing need be known of what was done before. -/
theorem gives_of_bind {x : Eval α} {f : α → Eval β} (hf : ∀ a, Gives Q (f a)) :
    Gives Q (x >>= f) := by
  have hx : Gives (fun _ => True) x := fun _ _ _ _ => trivial
  exact hx.bind fun a _ => hf a

/-- What a statement starts with does not matter. -/
theorem gives_head {line : Nat} {x : Eval α} (h : Gives P x) :
    Gives P (do tick; setLine line; x) :=
  gives_of_bind fun _ => gives_of_bind fun _ => h

theorem Gives.mono {R : α → Prop} {x : Eval α} (hx : Gives P x) (h : ∀ a, P a → R a) :
    Gives R x := fun _ _ _ hr => h _ (hx hr)

theorem Gives.ite {c : Prop} [Decidable c] {x y : Eval α} (hx : Gives P x) (hy : Gives P y) :
    Gives P (if c then x else y) := by
  split
  · exact hx
  · exact hy

end Gives

section Loops

variable {s : Setting}

/-- Of the flows of its body a loop lets out a result, and it ends normally at a `break`. -/
theorem iteration_gives {P Q : Flow → Prop} (hbrk : P .brk → Q .normal)
    (hret : ∀ v, P (.ret v) → Q (.ret v)) (var : Ident) {body : Eval Flow} (hbody : Gives P body)
    (v : Value) : Gives (fun o => ∀ flow ∈ o, Q flow) (iteration var body v) := by
  refine gives_of_bind fun _ => gives_of_bind fun _ => hbody.bind fun flow hflow => ?_
  cases flow with
  | normal | cont => exact gives_pure fun _ h => nomatch h
  | brk =>
    refine gives_pure fun flow h => ?_
    cases h
    exact hbrk hflow
  | ret v =>
    refine gives_pure fun flow h => ?_
    cases h
    exact hret v hflow

/-- A loop takes `break` and `continue` for itself. -/
theorem iteration_fits (var : Ident) {body : Eval Flow}
    (hbody : Gives (Flow.Fits { s with inLoop := true }) body) (v : Value) :
    Gives (fun o => ∀ flow ∈ o, Flow.Fits { s with inLoop := false } flow)
      (iteration var body v) :=
  iteration_gives (P := Flow.Fits { s with inLoop := true })
    (Q := Flow.Fits { s with inLoop := false }) (fun _ => Flow.fits_normal _)
    (fun _ hflow => hflow) var hbody v

variable {P : Flow → Prop} {once : Value → Eval (Option Flow)} (hnormal : P .normal)
  (honce : ∀ v, Gives (fun o => ∀ flow ∈ o, P flow) (once v))
include hnormal honce

theorem loopItems_gives (vs : List Value) : Gives P (loopItems once vs) := by
  induction vs with
  | nil => exact gives_pure hnormal
  | cons v vs ih =>
    refine (honce v).bind fun o ho => ?_
    rcases o with _ | flow
    · exact ih
    · exact gives_pure (ho flow rfl)

theorem loopRange_gives (r : IntRange) : ∀ (n i : Nat), Gives P (loopRange once r i n)
  | 0, _ => gives_pure hnormal
  | n + 1, i => by
    refine (honce _).bind fun o ho => ?_
    rcases o with _ | flow
    · exact loopRange_gives r n (i + 1)
    · exact gives_pure (ho flow rfl)

end Loops

variable (call : Caller)

section Traversal

variable {s : Setting}

theorem forRange_fits {var : Ident} {start step : Option Expr} {stop : Expr} {body : Block}
    {span : Span} (hbody : Gives (Flow.Fits { s with inLoop := true }) (block call body)) :
    Gives (Flow.Fits { s with inLoop := false })
      (stmt call (.forRange var start stop step body span)) := by
  have honce := iteration_fits var hbody
  refine gives_head (gives_of_bind fun args => gives_of_bind fun m => .ite ?_ ?_)
  · exact gives_of_bind fun v => gives_of_bind fun vs =>
      loopItems_gives (Flow.fits_normal _) honce vs
  · exact gives_of_bind fun r => loopRange_gives (Flow.fits_normal _) honce r _ _

theorem forEach_fits {var : Ident} {items : Expr} {body : Block} {span : Span}
    (hbody : Gives (Flow.Fits { s with inLoop := true }) (block call body)) :
    Gives (Flow.Fits { s with inLoop := false }) (stmt call (.forEach var items body span)) := by
  have honce := iteration_fits var hbody
  exact gives_head (gives_of_bind fun v => gives_of_bind fun vs =>
    loopItems_gives (Flow.fits_normal _) honce vs)

mutual

/-- Where a statement is placed well, its flow has somewhere to go to. -/
theorem stmt_fits : ∀ (st : Stmt) (s : Setting), st.placed s = true →
    Gives (Flow.Fits s) (stmt call st)
  | .assign _ _ _ _, s, _ | .define _ _ _ _, s, _ | .expr _ _, s, _ =>
    gives_head (gives_of_bind fun _ => gives_pure (Flow.fits_normal s))
  | .pass _, s, _ => gives_head (gives_pure (Flow.fits_normal s))
  | .ifElse branches otherwise _, s, h => by
    obtain ⟨hbranches, helse⟩ := Bool.and_eq_true_iff.mp h
    exact gives_head (firstTrue_fits branches s hbranches (blockOpt_fits otherwise s helse))
  | .forRange _ _ _ _ body _, s, h =>
    (forRange_fits call (block_fits body _ h)).mono fun _ => Flow.Fits.leave
  | .forEach _ _ body _, s, h =>
    (forEach_fits call (block_fits body _ h)).mono fun _ => Flow.Fits.leave
  | .ret value _, s, h => by
    refine gives_head (gives_of_bind fun v => ?_)
    rcases v with _ | v
    · exact gives_pure h
    · exact gives_pure h
  | .brk _, _, h | .cont _, _, h => gives_head (gives_pure h)

theorem block_fits : ∀ (b : Block) (s : Setting), b.placed s = true →
    Gives (Flow.Fits s) (block call b)
  | .mk body _, _, h => (stmts_fits body _ h).mono fun _ => Flow.Fits.unblock

theorem stmts_fits : ∀ (ss : List Stmt) (s : Setting), stmtsPlaced s ss = true →
    Gives (Flow.Fits s) (stmts call ss)
  | [], s, _ => gives_pure (Flow.fits_normal s)
  | st :: rest, s, h => by
    obtain ⟨hst, hrest⟩ := Bool.and_eq_true_iff.mp h
    refine (stmt_fits st s hst).bind fun flow hflow => ?_
    cases flow with
    | normal => exact stmts_fits rest s hrest
    | brk | cont | ret v => exact gives_pure hflow

theorem firstTrue_fits : ∀ (bs : List (Expr × Block)) (s : Setting), branchesPlaced s bs = true →
    ∀ {otherwise : Eval Flow}, Gives (Flow.Fits s) otherwise →
      Gives (Flow.Fits s) (firstTrue call otherwise bs)
  | [], _, _, _, hotherwise => hotherwise
  | (condition, body) :: rest, s, h, _, hotherwise => by
    obtain ⟨hbody, hrest⟩ := Bool.and_eq_true_iff.mp h
    exact gives_of_bind fun _ => gives_of_bind fun v =>
      .ite (block_fits body s hbody) (firstTrue_fits rest s hrest hotherwise)

theorem blockOpt_fits : ∀ (b : Option Block) (s : Setting), elsePlaced s b = true →
    Gives (Flow.Fits s) (blockOpt call b)
  | none, s, _ => gives_pure (Flow.fits_normal s)
  | some b, s, h => block_fits b s h

end

end Traversal

/-- A loop takes `break` and `continue` for itself wherever it stands. -/
theorem loop_leaves {st : Stmt} (h : st.isLoop = true) : Gives Flow.Leaves (stmt call st) := by
  let s : Setting := ⟨true, true, true⟩
  have hbody (b : Block) : Gives (Flow.Fits { s with inLoop := true }) (block call b) :=
    fun _ flow _ _ => Flow.fits_anywhere flow true
  cases st with
  | forRange => exact (forRange_fits call (hbody _)).mono fun _ hflow => hflow.leaves rfl
  | forEach => exact (forEach_fits call (hbody _)).mono fun _ hflow => hflow.leaves rfl
  | _ => cases h

end Eval

/-- The blocks of a statement. -/
def Stmt.blocks : Stmt → List Block
  | .ifElse branches otherwise _ => branches.map (·.2) ++ otherwise.toList
  | .forRange _ _ _ _ body _ | .forEach _ _ body _ | .define _ _ body _ => [body]
  | .assign _ _ _ _ | .ret _ _ | .brk _ | .cont _ | .pass _ | .expr _ _ => []

/-- The statement is one of these, or stands in one of their blocks. -/
inductive Stmt.Among (st : Stmt) : List Stmt → Prop
  | here {ss : List Stmt} (h : st ∈ ss) : Among st ss
  | inside {ss : List Stmt} {outer : Stmt} {b : Block} (houter : outer ∈ ss)
    (hb : b ∈ outer.blocks) (h : Among st b.stmts) : Among st ss

/-- There is no loop around what stands outside of all blocks. -/
def Setting.Regular (s : Setting) : Prop := s.inBlock = false → s.inLoop = false

/-- Definitions of functions. -/
def Stmt.isDefinition : Stmt → Bool
  | .define _ _ _ _ => true
  | _ => false

/-- Where the statements in a block of `outer` stand. -/
def Setting.below (s : Setting) (outer : Stmt) : Setting :=
  ⟨s.inLoop || outer.isLoop, s.inFunction || outer.isDefinition, true⟩

theorem Stmt.blocks_placed {st : Stmt} {s : Setting} (h : st.placed s = true) {b : Block}
    (hb : b ∈ st.blocks) : stmtsPlaced (s.below st) b.stmts = true := by
  have hbody {s' : Setting} {b : Block} (hplaced : b.placed s' = true) :
      stmtsPlaced ⟨s'.inLoop, s'.inFunction, true⟩ b.stmts = true := by
    cases b
    exact hplaced
  obtain ⟨inLoop, inFunction, inBlock⟩ := s
  simp only [Setting.below]
  cases st with
  | ifElse branches otherwise span =>
    obtain ⟨hbranches, helse⟩ := Bool.and_eq_true_iff.mp h
    rw [branchesPlaced_eq, List.all_eq_true] at hbranches
    rw [elsePlaced_eq, Option.all_eq_true] at helse
    simp only [isLoop, isDefinition, Bool.or_false]
    rcases List.mem_append.mp hb with hb | hb
    · obtain ⟨branch, hbranch, rfl⟩ := List.mem_map.mp hb
      exact hbody (hbranches branch hbranch)
    · exact hbody (helse b (Option.mem_toList.mp hb))
  | forRange | forEach =>
    cases List.mem_singleton.mp hb
    simp only [isLoop, isDefinition, Bool.or_false, Bool.or_true]
    exact hbody h
  | define =>
    cases List.mem_singleton.mp hb
    simp only [isLoop, isDefinition, Bool.or_false, Bool.or_true]
    exact hbody (Bool.and_eq_true_iff.mp h).2
  | assign | ret | brk | cont | pass | expr => cases hb

theorem Stmt.Among.placed {st : Stmt} {ss : List Stmt} (h : st.Among ss) :
    ∀ {s : Setting}, s.Regular → stmtsPlaced s ss = true →
      ∃ s' : Setting, s'.Regular ∧ st.placed s' = true := by
  induction h with
  | here hmem =>
    intro s hregular hplaced
    exact ⟨s, hregular, stmtsPlaced_iff.mp hplaced st hmem⟩
  | @inside ss outer b houter hb _ ih =>
    intro s _ hplaced
    have houterPlaced := stmtsPlaced_iff.mp hplaced outer houter
    -- in a block nothing has to be known of the loops around it
    exact ih (s := s.below outer) (fun hnone => nomatch hnone) (outer.blocks_placed houterPlaced hb)

/-- The body of a function has no loop around it, so it ends normally or returns. -/
theorem Eval.body_leaves (call : Caller) {name : Ident} {params : List Ident} {body : Block}
    {span : Span} {s : Setting} (hregular : s.Regular)
    (h : (Stmt.define name params body span).placed s = true) :
    Gives Flow.Leaves (block call body) := by
  obtain ⟨hhead, hbody⟩ := Bool.and_eq_true_iff.mp h
  obtain ⟨hblock, -⟩ := Bool.and_eq_true_iff.mp hhead
  have hloop : s.inLoop = false := hregular (by simpa using hblock)
  exact (block_fits call body _ hbody).mono fun _ hflow => hflow.leaves hloop

/-- A script drops the flow that its statements end with. -/
theorem Eval.program_ok_iff {limits : Limits} {p : Program} {m m' : Machine} :
    program limits p m = .ok () m'
      ↔ ∃ flow, stmts (callWithin limits.callDepth) p.stmts m = .ok flow m' := by
  unfold program
  rw [bind_apply]
  rcases stmts (callWithin limits.callDepth) p.stmts m with ⟨flow, m₁⟩ | ⟨e, m₁⟩
  · constructor
    · intro h
      cases h
      exact ⟨flow, rfl⟩
    · rintro ⟨flow', h⟩
      cases h
      rfl
  · constructor
    · intro h
      cases h
    · rintro ⟨flow, h⟩
      cases h

/-- All of the statements have been executed, one after the other, and have ended normally. -/
inductive Eval.Executed (limits : Limits) : List Stmt → Machine → Machine → Prop
  | nil (m : Machine) : Executed limits [] m m
  | cons {st : Stmt} {rest : List Stmt} {m m₁ m' : Machine}
    (h : topLevel limits st m = .ok .normal m₁) (hrest : Executed limits rest m₁ m') :
    Executed limits (st :: rest) m m'

theorem Eval.stmts_ok_iff {limits : Limits} {ss : List Stmt}
    (hnormal : ∀ st ∈ ss, Gives (· = .normal) (topLevel limits st)) {m m' : Machine} :
    (∃ flow, stmts (callWithin limits.callDepth) ss m = .ok flow m')
      ↔ Executed limits ss m m' := by
  induction ss generalizing m with
  | nil =>
    constructor
    · rintro ⟨flow, h⟩
      cases h
      exact .nil _
    · rintro ⟨⟩
      exact ⟨.normal, rfl⟩
  | cons st rest ih =>
    obtain ⟨hst, hrest⟩ := List.forall_mem_cons.mp hnormal
    unfold stmts
    rw [bind_apply]
    rcases hr : stmt (callWithin limits.callDepth) st m with ⟨flow, m₁⟩ | ⟨e, m₁⟩
    · cases hst hr
      constructor
      · intro h
        exact .cons hr ((ih hrest).mp h)
      · rintro (_ | ⟨h, hlater⟩)
        cases hr.symm.trans h
        exact (ih hrest).mpr hlater
    · constructor
      · rintro ⟨flow, h⟩
        cases h
      · rintro (_ | ⟨h, -⟩)
        cases hr.symm.trans h

/-- Whatever the machine is like and however functions are called, flows stay inside of loops and
functions, and so a script that succeeds has executed all its statements. -/
structure Program.Contained (p : Program) : Prop where
  loops {st : Stmt} : st.Among p.stmts → st.isLoop = true →
    ∀ call m flow m', Eval.stmt call st m = .ok flow m' → flow = .normal ∨ ∃ v, flow = .ret v
  functions {name : Ident} {params : List Ident} {body : Block} {span : Span} :
    (Stmt.define name params body span).Among p.stmts →
      ∀ call m flow m', Eval.block call body m = .ok flow m' → flow = .normal ∨ ∃ v, flow = .ret v
  topLevel {st : Stmt} : st ∈ p.stmts →
    ∀ call m flow m', Eval.stmt call st m = .ok flow m' → flow = .normal
  executes (limits : Limits) (m m' : Machine) :
    Eval.program limits p m = .ok () m' ↔ Eval.Executed limits p.stmts m m'

theorem Program.contained_of_placed {p : Program} (h : p.placed = true) : p.Contained := by
  have htop {st : Stmt} (hst : st ∈ p.stmts) (call : Caller) :
      Eval.Gives (· = .normal) (Eval.stmt call st) := by
    have hplaced : st.placed .top = true := stmtsPlaced_iff.mp h st hst
    exact (Eval.stmt_fits call st .top hplaced).mono fun _ hflow => hflow.eq_normal rfl rfl
  constructor
  case loops =>
    intro st _ hloop call m flow m' hok
    exact Eval.loop_leaves call hloop hok
  case functions =>
    intro name params body span hmem call m flow m' hok
    obtain ⟨s, hregular, hplaced⟩ := hmem.placed (fun _ => rfl) h
    exact Eval.body_leaves call hregular hplaced hok
  case topLevel =>
    intro st hst call m flow m' hok
    exact htop hst call hok
  case executes =>
    intro limits m m'
    rw [Eval.program_ok_iff]
    exact Eval.stmts_ok_iff fun st hst => htop hst _

theorem SourceText.program_eq_ok_iff {source : SourceText} {p : Program} :
    source.program = .ok p
      ↔ ∃ ts, Token.scan source.text = .ok ts ∧ Program.ofTokens ts = .ok p := by
  unfold program tokens
  rcases Token.scan source.text with e | ts
  · simp
  · unfold programOf
    rcases hparse : Program.ofTokens ts with e | p' <;> simp [hparse]

theorem accepted_contained {source : SourceText} {p : Program} (h : source.program = .ok p) :
    p.Contained := by
  obtain ⟨ts, hscan, hparse⟩ := SourceText.program_eq_ok_iff.mp h
  obtain ⟨-, hplaced⟩ := derives_of_ofTokens (Token.scan_laid hscan) hparse
  rw [Program.placed_bare] at hplaced
  exact Program.contained_of_placed hplaced

/-- A function that looks for an item in a loop, returns it from there and leaves the loop early. -/
theorem accepted_contained_search :
    ∃ p, SourceText.program ⟨defaultScriptName,
        "def f(xs):\n    for x in xs:\n        if x: return x\n        else: break\nf([0, 1])\n"⟩
      = .ok p ∧ p.Contained := by
  have hread : (SourceText.program ⟨defaultScriptName,
      "def f(xs):\n    for x in xs:\n        if x: return x\n        else: break\nf([0, 1])\n"⟩
        ).isOk = true := by
    decide +kernel
  rcases hp : SourceText.program _ with e | p <;> rw [hp] at hread
  · cases hread
  · exact ⟨p, rfl, accepted_contained hp⟩

end MissionScript
