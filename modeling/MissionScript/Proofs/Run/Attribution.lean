import MissionScript.Proofs.Run.Counting
import MissionScript.Proofs.Run.Raise

/-!
# The lines of frames

A visible command records its frame on the current line. Every statement makes its own line the
current one, and so does every condition, but a function called in an expression executes
statements of its own before the expression goes on. Here it is shown that each frame is
nevertheless on the line of the statement or the condition in which the command is called
(`frames_attributed`).

To say this there is a second way to execute a script, in which no line is left behind by a
statement: each expression is evaluated `within` the line of the statement or the condition that it
belongs to, and what was the current line before is so again afterwards. Nothing is restored when a
function returns. The two ways record the same frames.
-/

namespace MissionScript

namespace Eval

section Attributing

variable {α β : Type} {P : Frame → Prop} {line : Nat}

/-- An action that begins on the line comes back to it, unless it fails, and the frames that it
records have the property or are on this line. -/
structure Attributes (P : Frame → Prop) (line : Nat) (x : Eval α) : Prop where
  keeps {m m' : Machine} {a : α} (hm : m.session.line = line) (h : x m = .ok a m') :
    m'.session.line = line
  frames {m : Machine} (hm : m.session.line = line) :
    ∃ new, framesAfter x m = m.session.frames ++ new ∧ ∀ f ∈ new, P f ∨ f.line = some line

theorem framesAfter_bind (x : Eval α) (f : α → Eval β) (m : Machine) :
    framesAfter (x >>= f) m =
      match x m with
      | .ok a m' => framesAfter (f a) m'
      | .error _ m' => m'.session.frames := by
  unfold framesAfter
  rw [bind_apply]
  rcases x m with ⟨a, m'⟩ | ⟨e, m'⟩ <;> rfl

theorem Attributes.bind {x : Eval α} {f : α → Eval β} (hx : Attributes P line x)
    (hf : ∀ a, Attributes P line (f a)) : Attributes P line (x >>= f) where
  keeps {m m' b} hm h := by
    rw [bind_apply] at h
    rcases hr : x m with ⟨a, n⟩ | ⟨e, n⟩ <;> rw [hr] at h
    · exact (hf a).keeps (hx.keeps hm hr) h
    · cases h
  frames {m} hm := by
    obtain ⟨new, hnew, hall⟩ := hx.frames hm
    rw [framesAfter_bind]
    unfold framesAfter at hnew
    rcases hr : x m with ⟨a, n⟩ | ⟨e, n⟩ <;> rw [hr] at hnew
    · obtain ⟨new', hnew', hall'⟩ := (hf a).frames (hx.keeps hm hr)
      refine ⟨new ++ new', ?_, List.forall_mem_append.mpr ⟨hall, hall'⟩⟩
      dsimp only at hnew ⊢
      rw [hnew', hnew, List.append_assoc]
    · exact ⟨new, hnew, hall⟩

/-- What does not touch the session records nothing. -/
theorem attributes_of_session {x : Eval α}
    (h : ∀ m, match x m with
      | .ok _ m' | .error _ m' => m'.session = m.session) : Attributes P line x where
  keeps {m m' a} hm hx := by
    have hsession := h m
    rw [hx] at hsession
    rw [hsession]
    exact hm
  frames {m} _ := by
    refine ⟨[], ?_, List.forall_mem_nil _⟩
    have hsession := h m
    unfold framesAfter
    rcases hr : x m with ⟨a, n⟩ | ⟨e, n⟩ <;> rw [hr] at hsession <;> dsimp only at hsession ⊢ <;>
      rw [hsession, List.append_nil]

theorem attributes_onSession {act : Act α} (hact : Session.OnOneLine act) :
    Attributes P line (onSession act) where
  keeps {m m' a} hm hx := by
    have h := hact m.session
    unfold onSession at hx
    rcases hr : act m.session with ⟨b, s⟩ | ⟨e, s⟩ <;> rw [hr] at h hx <;> cases hx
    exact h.1.trans hm
  frames {m} hm := by
    have h := hact m.session
    unfold framesAfter onSession
    rcases hr : act m.session with ⟨b, s⟩ | ⟨e, s⟩ <;> rw [hr] at h <;>
      obtain ⟨-, new, hnew, hall⟩ := h <;>
      exact ⟨new, hnew, fun f hf => .inr (hm ▸ hall f hf)⟩

theorem attributes_changePlace (place : Place) (change : Value → Value.Result (α × Value)) :
    Attributes P line (changePlace place change) := by
  refine attributes_of_session fun m => ?_
  rw [changePlace_eq]
  rcases m.env.get? place.root with _ | v
  · rfl
  · dsimp only
    rcases v.changeAt change place.path with e | ⟨a, v'⟩ <;> rfl

theorem attributes_setLine (line : Nat) : Attributes P line (setLine line) where
  keeps {m m' a} _ h := by
    cases h
    rfl
  frames {m} _ := ⟨[], (List.append_nil _).symm, List.forall_mem_nil _⟩

/-- Commands record their frames on the current line, and no command changes it. -/
theorem attributes_congruence (P : Frame → Prop) (line : Nat) :
    ExprCongruence (fun _ x _ => Attributes P line x) where
  pure _ := attributes_of_session fun _ => rfl
  bind hx hf := hx.bind hf
  fail _ := attributes_of_session fun _ => rfl
  look hf :=
    { keeps := fun {m _ _} hm h => (hf m m ⟨rfl, rfl, rfl⟩).keeps hm h
      frames := fun {m} hm => (hf m m ⟨rfl, rfl, rfl⟩).frames hm }
  charge n := attributes_onSession (Session.onOneLine_charge n)
  moveOnce d := attributes_onSession (Session.onOneLine_moveOnce d)
  speak text := attributes_onSession (Session.onOneLine_speak text)
  changePlace place change _ _ := attributes_changePlace place change

theorem inScope_line {f : Function} {args : List Value} {body : Eval Flow} {m m' : Machine}
    {v : Value} (h : inScope f args body m = .ok v m') : m'.session.line = m.session.line := by
  unfold inScope at h
  rcases hr : body { m with env := enter f args m.env } with ⟨flow, n⟩ | ⟨e, n⟩ <;> rw [hr] at h <;>
    cases h
  rfl

/-- A function that returns goes back to the line on which it was called. -/
theorem attributes_callWithin (line limit : Nat) (f : Function) (args : List Value) :
    Attributes (fun _ => True) line (callWithin limit f args) where
  keeps {m m' v} hm h := by
    unfold callWithin at h
    rw [bind_apply] at h
    rcases hr : (Arity.exact f.params.length).check f.name.name args.length with e | u <;>
      rw [hr] at h
    · cases h
    · cases limit with
      | zero => cases h
      | succ rest => exact (inScope_line h).trans hm
  frames {m} _ := by
    have htracked := related_callWithin tracked_congruence limit f args
    obtain ⟨new, hnew⟩ := Tracked.frames_prefix htracked m
    exact ⟨new, hnew.symm, fun _ _ => .inl trivial⟩

theorem attributes_expr {call : Caller} (hcall : ∀ f args, Attributes P line (call f args))
    (e : Expr) : Attributes P line (expr call e) :=
  have h := attributes_congruence P line
  @related_expr _ h call call (@related_callNamed _ h call call hcall) e

end Attributing

end Eval

namespace Lexical

open Command (ofResult)
open Eval (LineCongruence assign bounds callNamed define enter expr exprOpt iteration loopItems
  loopRange setLine tick)

/-- Does the action on a line, and afterwards the line is again what it was before, unless the
action fails. -/
def within {α : Type} (line : Nat) (x : Eval α) : Eval α := fun m =>
  match x (m.onLine line) with
  | .ok a m' => .ok a (m'.onLine m.session.line)
  | .error e m' => .error e m'

theorem within_apply {α : Type} (line : Nat) (x : Eval α) (m : Machine) :
    within line x m =
      match x (m.onLine line) with
      | .ok a m' => .ok a (m'.onLine m.session.line)
      | .error e m' => .error e m' := rfl

mutual

/-- Executes a statement. What is done within its line is to evaluate its own expressions. -/
def stmt (call : Caller) : Stmt → Eval Flow
  | .assign target op value span => do
    tick
    within span.line (assign call target op value)
    return .normal
  | .ifElse branches otherwise _ => do
    tick
    firstTrue call (blockOpt call otherwise) branches
  | .forRange var start stop step body span => do
    tick
    let args ← within span.line (bounds call start stop step)
    if ((← get).function? "range").isSome then
      let v ← within span.line (callNamed call "range" args)
      loopItems (iteration var (block call body)) (← ofResult v.items)
    else
      let r ← ofResult (IntRange.ofArgs args)
      loopRange (iteration var (block call body)) r 0 r.count
  | .forEach var items body span => do
    tick
    let v ← within span.line (expr call items)
    loopItems (iteration var (block call body)) (← ofResult v.items)
  | .define name params body _ => do
    tick
    modify fun m => { m with functions := ⟨name, params, body⟩ :: m.functions }
    return .normal
  | .ret value span => do
    tick
    match ← within span.line (exprOpt call value) with
    | some v => return .ret v
    | none => return .ret .none
  | .brk _ => do
    tick
    return .brk
  | .cont _ => do
    tick
    return .cont
  | .pass _ => do
    tick
    return .normal
  | .expr e span => do
    tick
    let _ ← within span.line (expr call e)
    return .normal

def block (call : Caller) : Block → Eval Flow
  | .mk body _ => stmts call body

def stmts (call : Caller) : List Stmt → Eval Flow
  | [] => return .normal
  | s :: rest => do
    match ← stmt call s with
    | .normal => stmts call rest
    | flow => return flow

def firstTrue (call : Caller) (otherwise : Eval Flow) : List (Expr × Block) → Eval Flow
  | [] => otherwise
  | (condition, body) :: rest => do
    let v ← within condition.span.line (expr call condition)
    if v.isTrue then block call body else firstTrue call otherwise rest

def blockOpt (call : Caller) : Option Block → Eval Flow
  | none => return .normal
  | some b => block call b

end

/-- Runs the body of a function in a scope of its own. -/
def inScope (f : Function) (args : List Value) (body : Eval Flow) : Eval Value := fun m =>
  match body { m with env := enter f args m.env } with
  | .ok flow m' => .ok flow.value { m' with env := m'.env.pop }
  | .error e m' => .error e { m' with env := m'.env.pop }

/-- Calls a function with calls nested up to `limit` deep. -/
def callWithin : Nat → Caller
  | limit, f, args => do
    ofResult ((Arity.exact f.params.length).check f.name.name args.length)
    match limit with
    | 0 => throw .recursionTooDeep
    | rest + 1 => inScope f args (block (callWithin rest) f.body)

/-- Executes all statements of a script. -/
def program (limits : Limits) (p : Program) : Eval Unit := do
  let _ ← stmts (callWithin limits.callDepth) p.stmts

section Matching

variable {α β : Type} {line : Nat}

/-- The second result is the first but for the current line, which is the given one if there was no
error. -/
inductive SameButLine (line : Nat) : EStateM.Result RuntimeError Machine α →
    EStateM.Result RuntimeError Machine α → Prop
  | ok (a : α) (m : Machine) : SameButLine line (.ok a m) (.ok a (m.onLine line))
  | error (e : RuntimeError) (m : Machine) (line' : Nat) :
      SameButLine line (.error e m) (.error e (m.onLine line'))

/-- On the line the two actions do the same, and the first is on this line again afterwards. -/
structure Follows (line : Nat) (x y : Eval α) : Prop where
  keeps {m m' : Machine} {a : α} (hm : m.session.line = line) (h : x m = .ok a m') :
    m'.session.line = line
  same {m : Machine} (hm : m.session.line = line) : SameButLine line (x m) (y m)

theorem onLine_eq {m : Machine} (hm : m.session.line = line) : m.onLine line = m := hm ▸ rfl

theorem Follows.refl {x : Eval α} (hx : Eval.Attributes (fun _ => True) line x) :
    Follows line x x where
  keeps hm h := hx.keeps hm h
  same {m} hm := by
    rcases hr : x m with ⟨a, n⟩ | ⟨e, n⟩
    · have h : SameButLine line (.ok a n) (.ok a (n.onLine line)) := .ok a n
      rw [onLine_eq (hx.keeps hm hr)] at h
      exact h
    · exact .error e n n.session.line

theorem Follows.bind {x y : Eval α} {f g : α → Eval β} (hxy : Follows line x y)
    (hf : ∀ a, Follows line (f a) (g a)) : Follows line (x >>= f) (y >>= g) where
  keeps {m m' b} hm h := by
    rw [bind_apply] at h
    rcases hr : x m with ⟨a, n⟩ | ⟨e, n⟩ <;> rw [hr] at h
    · exact (hf a).keeps (hxy.keeps hm hr) h
    · cases h
  same {m} hm := by
    have h := hxy.same hm
    rw [bind_apply, bind_apply]
    rcases hr : x m with ⟨a, n⟩ | ⟨e, n⟩ <;> rw [hr] at h
    · have hn := hxy.keeps hm hr
      generalize hy : y m = r at h
      cases h
      rw [onLine_eq hn]
      exact (hf a).same hn
    · generalize hy : y m = r at h
      cases h with
      | error _ _ line' => exact .error e n line'

/-- Expressions follow themselves where functions are called in two ways that follow each other. -/
theorem follows_congruence (line : Nat) :
    LineCongruence (fun _ x y => Follows line x y) (· = line) where
  pure a := .refl ((Eval.attributes_congruence _ line).pure a)
  bind := Follows.bind
  fail he := .refl ((Eval.attributes_congruence _ line).fail he)
  look hf :=
    { keeps := fun {m _ _} hm h => (hf m m ⟨rfl, rfl, rfl⟩).keeps hm h
      same := fun {m} hm => (hf m m ⟨rfl, rfl, rfl⟩).same hm }
  charge n := .refl ((Eval.attributes_congruence _ line).charge n)
  moveOnce d := .refl ((Eval.attributes_congruence _ line).moveOnce d)
  speak text := .refl ((Eval.attributes_congruence _ line).speak text)
  changePlace place _ h h' := .refl ((Eval.attributes_congruence _ line).changePlace place h h')
  setLine hn := hn ▸ .refl (Eval.attributes_setLine _)
  define _ _ := .refl (Eval.attributes_of_session fun _ => rfl)
  learn _ := .refl (Eval.attributes_of_session fun _ => rfl)

/-- The first action does on the line, or on every line, what the second one does anywhere. -/
def Matches (here : Nat → Prop) (x y : Eval α) : Prop :=
  ∀ m line, here m.session.line → SameButLine line (x m) (y (m.onLine line))

/-- The actions do the same on every line. -/
abbrev MatchesAll (x y : Eval α) : Prop := Matches (fun _ => True) x y

variable {here : Nat → Prop}

theorem MatchesAll.at {x y : Eval α} (h : MatchesAll x y) : Matches here x y :=
  fun m line _ => h m line trivial

theorem Matches.bind {x y : Eval α} {f g : α → Eval β} (hxy : Matches here x y)
    (hf : ∀ a, MatchesAll (f a) (g a)) : Matches here (x >>= f) (y >>= g) := by
  intro m line hm
  have h := hxy m line hm
  rw [bind_apply, bind_apply]
  rcases hr : x m with ⟨a, n⟩ | ⟨e, n⟩ <;> rw [hr] at h
  · generalize hy : y (m.onLine line) = r at h
    cases h
    exact hf a n line trivial
  · generalize hy : y (m.onLine line) = r at h
    cases h with
    | error _ _ line' => exact .error e n line'

theorem Matches.pure (a : α) : Matches here (pure a) (pure a) := fun m _ _ => .ok a m

theorem Matches.ofResult (r : Value.Result α) : Matches here (ofResult r) (ofResult r) := by
  intro m line _
  rcases r with e | a
  · exact .error e m line
  · exact .ok a m

theorem Matches.ite {c : Prop} [Decidable c] {x y x' y' : Eval α} (h : Matches here x y)
    (h' : Matches here x' y') : Matches here (if c then x else x') (if c then y else y') := by
  split
  · exact h
  · exact h'

theorem Matches.look {f g : Machine → Eval α}
    (h : ∀ m line, here m.session.line → Matches here (f m) (g (m.onLine line))) :
    Matches here (get >>= f) (get >>= g) :=
  fun m line hm => h m line hm m line hm

theorem matches_tick : MatchesAll tick tick := by
  intro m line _
  have hgas : (m.onLine line).session.gas = m.session.gas := rfl
  unfold tick Eval.onSession Session.charge
  rw [hgas]
  dsimp only
  cases (m.session.gas.charge 1).isSpent
  · exact .ok () _
  · exact .error _ _ line

theorem matches_define (name : String) (v : Value) :
    Matches here (define name v) (define name v) := fun _ _ _ => .ok () _

/-- What comes after the line has been made the current one. -/
theorem matches_setLine {x y : Eval α} (h : Matches (· = line) x y) :
    MatchesAll (do setLine line; x) y :=
  fun m line' _ => h (m.onLine line) line' rfl

theorem matches_head {x y : Eval α} (h : Matches (· = line) x y) :
    MatchesAll (do tick; setLine line; x) (do tick; y) :=
  matches_tick.bind fun _ => matches_setLine h

/-- An action on the line, and what comes after it, still on the line. -/
theorem Follows.within {x y : Eval α} {f g : α → Eval β} (hxy : Follows line x y)
    (hf : ∀ a, Matches (· = line) (f a) (g a)) :
    Matches (· = line) (x >>= f) (within line y >>= g) := by
  intro m line' hm
  have h := hxy.same hm
  have hback : (m.onLine line').onLine line = m := onLine_eq hm
  rw [bind_apply, bind_apply, within_apply, hback]
  rcases hr : x m with ⟨a, n⟩ | ⟨e, n⟩ <;> rw [hr] at h <;> generalize y m = r at h
  · cases h
    exact hf a n line' (hxy.keeps hm hr)
  · cases h with
    | error _ _ line'' => exact .error e n line''

end Matching

section Statements

variable {call call' : Caller}

theorem matches_loopItems {once once' : Value → Eval (Option Flow)}
    (honce : ∀ v, MatchesAll (once v) (once' v)) (vs : List Value) :
    MatchesAll (loopItems once vs) (loopItems once' vs) := by
  induction vs with
  | nil => exact .pure _
  | cons v vs ih =>
    refine (honce v).bind fun flow => ?_
    rcases flow with _ | flow
    · exact ih
    · exact .pure _

theorem matches_loopRange {once once' : Value → Eval (Option Flow)}
    (honce : ∀ v, MatchesAll (once v) (once' v)) (r : IntRange) (i n : Nat) :
    MatchesAll (loopRange once r i n) (loopRange once' r i n) := by
  rw [Eval.loopRange_eq, Eval.loopRange_eq]
  exact matches_loopItems honce _

theorem matches_iteration (var : Ident) {body body' : Eval Flow} (hbody : MatchesAll body body')
    (v : Value) : MatchesAll (iteration var body v) (iteration var body' v) :=
  matches_tick.bind fun _ => (matches_define _ _).bind fun _ => hbody.bind fun flow => by
    cases flow <;> exact .pure _

variable (hcall : ∀ line f args, Follows line (call f args) (call' f args))
include hcall

theorem follows_callNamed (line : Nat) (name : String) (args : List Value) :
    Follows line (callNamed call name args) (callNamed call' name args) :=
  Eval.related_callNamed (follows_congruence line).toExprCongruence (hcall line) name args

theorem follows_expr (line : Nat) (e : Expr) : Follows line (expr call e) (expr call' e) :=
  Eval.related_expr (follows_congruence line).toExprCongruence (follows_callNamed hcall line) e

set_option linter.unusedSectionVars false in
mutual

theorem matches_stmt : ∀ s : Stmt, MatchesAll (Eval.stmt call s) (stmt call' s)
  | .assign target op value span =>
    matches_head ((Eval.related_assign (follows_congruence span.line)
      (follows_callNamed hcall span.line) target op value).within fun _ => .pure _)
  | .ifElse branches otherwise span =>
    matches_head (matches_firstTrue branches (matches_blockOpt otherwise)).at
  | .forRange var start stop step body span => by
    have honce := matches_iteration var (matches_block body)
    refine matches_head ((Eval.related_bounds (follows_congruence span.line)
      (follows_callNamed hcall span.line) start stop step).within fun args => ?_)
    refine .look fun m line _ => ?_
    refine .ite ?_ ?_
    · exact (follows_callNamed hcall span.line _ _).within fun v =>
        (Matches.ofResult _).bind fun vs => matches_loopItems honce vs
    · exact (Matches.ofResult _).bind fun r => matches_loopRange honce r 0 r.count
  | .forEach var items body span =>
    matches_head ((follows_expr hcall span.line items).within fun v =>
      (Matches.ofResult _).bind fun vs =>
        matches_loopItems (matches_iteration var (matches_block body)) vs)
  | .define _ _ _ span => matches_head (Matches.bind (fun _ _ _ => .ok () _) fun _ => .pure _)
  | .ret value span => by
    refine matches_head ((Eval.related_exprOpt (follows_congruence span.line).toExprCongruence
      (follows_callNamed hcall span.line) value).within fun v => ?_)
    cases v <;> exact .pure _
  | .brk _ | .cont _ | .pass _ => matches_head (.pure _)
  | .expr e span => matches_head ((follows_expr hcall span.line e).within fun _ => .pure _)

theorem matches_block : ∀ b : Block, MatchesAll (Eval.block call b) (block call' b)
  | .mk body _ => matches_stmts body

theorem matches_stmts : ∀ ss : List Stmt, MatchesAll (Eval.stmts call ss) (stmts call' ss)
  | [] => .pure _
  | s :: rest => by
    refine (matches_stmt s).bind fun flow => ?_
    cases flow with
    | normal => exact matches_stmts rest
    | brk | cont | ret v => exact .pure _

theorem matches_firstTrue : ∀ (branches : List (Expr × Block)) {otherwise otherwise' : Eval Flow},
    MatchesAll otherwise otherwise' →
      MatchesAll (Eval.firstTrue call otherwise branches) (firstTrue call' otherwise' branches)
  | [], _, _, hotherwise => hotherwise
  | (condition, body) :: rest, _, _, hotherwise =>
    matches_setLine ((follows_expr hcall condition.span.line condition).within fun _ =>
      (MatchesAll.at (.ite (matches_block body) (matches_firstTrue rest hotherwise))))

theorem matches_blockOpt : ∀ b : Option Block,
    MatchesAll (Eval.blockOpt call b) (blockOpt call' b)
  | none => .pure _
  | some b => matches_block b

end

end Statements

/-- A body that matches another one leaves the line of the call as the current one, as a call does
that restores it. -/
theorem follows_inScope (line : Nat) (f : Function) (args : List Value) {body body' : Eval Flow}
    (h : MatchesAll body body') :
    Follows line (Eval.inScope f args body) (inScope f args body') where
  keeps hm hr := (Eval.inScope_line hr).trans hm
  same {m} hm := by
    let entered : Machine := { m with env := enter f args m.env }
    have hbody := h entered line trivial
    rw [onLine_eq (m := entered) hm] at hbody
    unfold Eval.inScope inScope
    change SameButLine line (match body entered with | .ok _ _ => _ | .error _ _ => _)
      (match body' entered with | .ok _ _ => _ | .error _ _ => _)
    rcases hr : body entered with ⟨flow, n⟩ | ⟨e, n⟩ <;> rw [hr] at hbody <;>
      generalize body' entered = r at hbody
    · cases hbody
      exact .ok flow.value _
    · cases hbody with
      | error _ _ line' => exact .error e { n with env := n.env.pop } line'

theorem follows_callWithin (limit : Nat) : ∀ (line : Nat) (f : Function) (args : List Value),
    Follows line (Eval.callWithin limit f args) (callWithin limit f args) := by
  have harity (line : Nat) (f : Function) (args : List Value) :=
    Eval.related_ofResult (follows_congruence line).toExprCongruence
      (Value.arityCheck_confined (.exact f.params.length) f.name.name args.length)
  induction limit with
  | zero =>
    exact fun line f args => (harity line f args).bind fun _ =>
      .refl (Eval.attributes_of_session fun _ => rfl)
  | succ limit ih =>
    exact fun line f args => (harity line f args).bind fun _ =>
      follows_inScope line f args (matches_block ih f.body)

/-- The two ways to execute a script end on lines that may differ, and agree in all else. -/
theorem matches_program (limits : Limits) (p : Program) :
    MatchesAll (Eval.program limits p) (program limits p) :=
  (matches_stmts (follows_callWithin limits.callDepth) p.stmts).bind fun _ => .pure ()

theorem framesAfter_program (limits : Limits) (p : Program) (m : Machine) :
    Eval.framesAfter (Eval.program limits p) m = Eval.framesAfter (program limits p) m := by
  have h := matches_program limits p m m.session.line trivial
  rw [onLine_eq rfl] at h
  unfold Eval.framesAfter
  generalize Eval.program limits p m = r, program limits p m = r' at h
  cases h <;> rfl

end Lexical

/-- An expression that has a value leaves the current line as it was. So the frames that it records
itself are on this line, whatever the functions do that it calls; and in a whole run each frame is
on the line of the statement or the condition in which its command is called. -/
theorem frames_attributed :
    (∀ (limit : Nat) (e : Expr) (m m' : Machine) (v : Value),
        Eval.expr (Eval.callWithin limit) e m = .ok v m' → m'.session.line = m.session.line)
      ∧ (∀ (P : Frame → Prop) (call : Caller),
        (∀ f args m, (∀ v m', call f args m = .ok v m' → m'.session.line = m.session.line)
            ∧ ∃ new, Eval.framesAfter (call f args) m = m.session.frames ++ new ∧ ∀ g ∈ new, P g) →
          ∀ e m, ∃ new, Eval.framesAfter (Eval.expr call e) m = m.session.frames ++ new
            ∧ ∀ g ∈ new, P g ∨ g.line = some m.session.line)
      ∧ ∀ (p : Program) (level : Level) (limits : Limits),
        (run p level limits).actions =
          Eval.framesAfter (Lexical.program limits p) (.start level limits Command.standard) := by
  refine ⟨fun limit e m m' v h => ?_, fun P call hcall e m => ?_, fun p level limits => ?_⟩
  · exact (Eval.attributes_expr (Eval.attributes_callWithin m.session.line limit) e).keeps rfl h
  · refine (Eval.attributes_expr (fun f args => ⟨fun {n n' v} hn h => ?_, fun {n} _ => ?_⟩)
      e).frames rfl
    · exact ((hcall f args n).1 v n' h).trans hn
    · obtain ⟨new, hnew, hall⟩ := (hcall f args n).2
      exact ⟨new, hnew, fun g hg => .inl (hall g hg)⟩
  · rw [run_actions, Lexical.framesAfter_program]

/-- A function that speaks on a line of its own is called before its caller speaks. -/
theorem frames_attributed_list :
    let say (text : String) : Expr := .call ⟨"speak", default⟩ [.str text default] default
    let f : Ident := ⟨"f", default⟩
    let body : Block := .mk [.expr (say "a") (.point 2 5)] default
    let both : Expr := .list [.call f [] default, say "b"] default
    let p : Program := ⟨[.define f [] body (.point 1 1), .expr both (.point 3 1)], default⟩
    (run p default .standard).actions = Eval.framesAfter (Lexical.program .standard p)
        (.start default .standard Command.standard)
      ∧ (run p default .standard).actions.map (·.line) = [some 2, some 3] := by
  intro say f body both p
  exact ⟨frames_attributed.2.2 p default .standard, by decide +kernel⟩

end MissionScript
