import MissionScript.Proofs.Script.Beginnings
import MissionScript.Proofs.Value.Confined
import MissionScript.Proofs.Value.Slot
import MissionScript.Run.Execute

/-!
# Relations between runs of one script

The evaluator is put together from few actions. A relation between actions that holds of each of
these and is kept by doing one action after another relates every expression, every statement and
every script with itself, where functions are called in one way on the left and in another on the
right, if the two ways are related. What holds of every action on its own is the case in which the
right side is not looked at.
-/

namespace MissionScript

open Value (Altered Confined Yields)

section StateActions

variable {ε σ α β : Type}

theorem bind_apply (x : EStateM ε σ α) (f : α → EStateM ε σ β) (s : σ) :
    (x >>= f) s =
      match x s with
      | .ok a s' => f a s'
      | .error e s' => .error e s' := rfl

theorem get_apply (s : σ) : (get : EStateM ε σ σ) s = .ok s s := rfl

theorem modify_apply (f : σ → σ) (s : σ) : (modify f : EStateM ε σ PUnit) s = .ok ⟨⟩ (f s) := rfl

end StateActions

/-- Two machines with the same variables, functions and commands; their sessions may differ. -/
def Machine.SameScript (m m' : Machine) : Prop :=
  m.env = m'.env ∧ m.functions = m'.functions ∧ m.commands = m'.commands

namespace Machine.SameScript

variable {m m' : Machine}

theorem function? (h : m.SameScript m') (name : String) : m.function? name = m'.function? name := by
  simp only [Machine.function?, h.2.1]

theorem command? (h : m.SameScript m') (name : String) : m.command? name = m'.command? name := by
  simp only [Machine.command?, h.2.2]

end Machine.SameScript

/-- The machine on another line of the script. -/
def Machine.onLine (line : Nat) (m : Machine) : Machine :=
  { m with session := { m.session with line := line } }

namespace Eval

open Command (ofResult)

theorem setLine_apply (line : Nat) (m : Machine) : setLine line m = .ok ⟨⟩ (m.onLine line) := rfl

section Actions

variable {α β : Type}

theorem onSession_bind (act : Act α) (next : α → Act β) :
    onSession (act >>= next) = onSession act >>= fun a => onSession (next a) := by
  funext m
  simp only [onSession, bind_apply]
  rcases act m.session with ⟨a, s⟩ | ⟨e, s⟩ <;> rfl

theorem onSession_ofResult (r : Value.Result α) : onSession (ofResult r) = ofResult r := by
  cases r <;> rfl

theorem changePlace_eq (place : Place) (change : Value → Value.Result (α × Value)) (m : Machine) :
    changePlace place change m =
      match m.env.get? place.root with
      | none => .error (.undefinedName place.root) m
      | some v =>
        match v.changeAt change place.path with
        | .error e => .error e m
        | .ok (a, v') => .ok a { m with env := m.env.set place.root v' } := by
  simp only [changePlace, bind_apply, get_apply]
  rcases m.env.get? place.root with _ | v
  · rfl
  · dsimp only
    rcases v.changeAt change place.path with e | ⟨a, v'⟩ <;> rfl

end Actions

/-- A relation between actions with the same kind of result. -/
abbrev Relation := ∀ ⦃α : Type⦄, Eval α → Eval α → Prop

/-- The relation holds of all that expressions are put together from. -/
structure ExprCongruence (R : Relation) : Prop where
  pure {α : Type} (a : α) : R (pure a) (pure a)
  bind {α β : Type} {x y : Eval α} {f g : α → Eval β} :
    R x y → (∀ a, R (f a) (g a)) → R (x >>= f) (y >>= g)
  fail {α : Type} {e : RuntimeError} : e.isComputed = true → R (throw e : Eval α) (throw e)
  look {α : Type} {f g : Machine → Eval α} :
    (∀ m m', m.SameScript m' → R (f m) (g m')) → R (get >>= f) (get >>= g)
  charge (n : Nat) : R (onSession (Session.charge n)) (onSession (Session.charge n))
  moveOnce (d : Direction) : R (onSession (Session.moveOnce d)) (onSession (Session.moveOnce d))
  speak (text : String) : R (onSession (Session.speak text)) (onSession (Session.speak text))
  changePlace {α : Type} (place : Place) {change : Value → Value.Result (α × Value)} :
    (∀ v, Confined (change v)) → (∀ v, Yields (fun r => Altered v r.2) (change v)) →
      R (changePlace place change) (changePlace place change)

/-- The relation holds of all that statements on certain lines are put together from. -/
structure LineCongruence (R : Relation) (line : Nat → Prop) : Prop extends ExprCongruence R where
  setLine {n : Nat} : line n → R (setLine n) (setLine n)
  define (name : String) (v : Value) : R (define name v) (define name v)
  learn {f : Function} : (∀ n ∈ f.body.lines, line n) →
    R (modify fun m => { m with functions := f :: m.functions })
      (modify fun m => { m with functions := f :: m.functions })

/-- The relation holds of all that statements are put together from. -/
structure StmtCongruence (R : Relation) : Prop extends ExprCongruence R where
  setLine (line : Nat) : R (setLine line) (setLine line)
  define (name : String) (v : Value) : R (define name v) (define name v)
  learn (f : Function) :
    R (modify fun m => { m with functions := f :: m.functions })
      (modify fun m => { m with functions := f :: m.functions })

/-- The relation holds of all that calls are put together from. -/
structure CallCongruence (R : Relation) : Prop extends StmtCongruence R where
  tooDeep {α : Type} : R (throw .recursionTooDeep : Eval α) (throw .recursionTooDeep)
  inScope (f : Function) (args : List Value) {x y : Eval Flow} :
    R x y → R (inScope f args x) (inScope f args y)

variable {R : Relation}

/-- Where the lines do not matter. -/
theorem StmtCongruence.anywhere (h : StmtCongruence R) : LineCongruence R fun _ => True :=
  { h with
    setLine := fun _ => h.setLine _
    learn := fun _ => h.learn _ }

/-- A choice that does not depend on the machine. -/
theorem related_ite {α : Type} {c : Prop} [Decidable c] {x y x' y' : Eval α} (hx : R x y)
    (hy : R x' y') : R (if c then x else x') (if c then y else y') := by
  split
  · exact hx
  · exact hy

section Commands

variable (h : ExprCongruence R)
include h

theorem related_ofResult {α : Type} {r : Value.Result α} (hr : Confined r) :
    R (ofResult r) (ofResult r) := by
  rcases r with e | a
  · exact h.fail (hr e rfl)
  · exact h.pure a

theorem related_onSession_bind {α β : Type} {act : Act α} {next : α → Act β}
    (hact : R (onSession act) (onSession act))
    (hnext : ∀ a, R (onSession (next a)) (onSession (next a))) :
    R (onSession (act >>= next)) (onSession (act >>= next)) := by
  rw [onSession_bind]
  exact h.bind hact hnext

theorem related_onSession_ofResult {α : Type} {r : Value.Result α} (hr : Confined r) :
    R (onSession (ofResult r)) (onSession (ofResult r)) := by
  rw [onSession_ofResult]
  exact related_ofResult h hr

theorem related_times {act : Act Unit} (hact : R (onSession act) (onSession act)) :
    ∀ n, R (onSession (Session.times act n)) (onSession (Session.times act n))
  | 0 => h.pure ()
  | n + 1 => related_onSession_bind h hact fun _ => related_times hact n

theorem related_effect (c : Command) (args : List Value) :
    R (onSession (c.effect args)) (onSession (c.effect args)) := by
  cases c with
  | move d =>
    refine related_onSession_bind h
      (related_onSession_ofResult h (Command.moveCount_confined _ _)) fun n => ?_
    exact related_onSession_bind h (related_times h (h.moveOnce d) n) fun _ => h.pure _
  | speak => exact related_onSession_bind h (h.speak _) fun _ => h.pure _
  | abs => exact related_onSession_ofResult h (Command.magnitude_confined _)
  | sum =>
    refine related_onSession_bind h
      (related_onSession_ofResult h (Value.items_confined _)) fun items => ?_
    exact related_onSession_bind h (h.charge _) fun _ =>
      related_onSession_ofResult h (Command.total_confined _ _)
  | max | min =>
    exact related_onSession_bind h (h.charge _) fun _ =>
      related_onSession_ofResult h (Command.extreme_confined _ _ _ _)
  | len => exact related_onSession_ofResult h (Command.length_confined _)
  | range =>
    refine related_onSession_bind h
      (related_onSession_ofResult h (IntRange.ofArgs_confined _)) fun r => ?_
    refine related_onSession_bind h (h.charge _) fun _ => ?_
    split
    · exact h.pure _
    · exact h.fail rfl
  | str => exact h.pure _
  | int => exact related_onSession_ofResult h (Command.toInteger_confined _)

theorem related_invoke (c : Command) (args : List Value) :
    R (onSession (c.invoke args)) (onSession (c.invoke args)) :=
  related_onSession_bind h (related_onSession_ofResult h (Value.arityCheck_confined _ _ _))
    fun _ => related_effect h c args

end Commands

section Expressions

variable (h : ExprCongruence R)
include h

theorem related_account (v : Value) : R (account v) (account v) :=
  related_ite (h.bind (h.charge _) fun _ => h.pure _) (h.fail rfl)

theorem related_produce {x y : Eval Value} (hxy : R x y) : R (produce x) (produce y) :=
  h.bind (h.charge 1) fun _ => h.bind hxy fun v => related_account h v

theorem related_variable (name : String) : R (variable_ name) (variable_ name) := by
  refine h.look fun m m' hm => ?_
  rw [← hm.1, ← hm.function?, ← hm.command?]
  split
  · exact h.pure _
  · exact related_ite (h.fail rfl) (h.fail rfl)

theorem related_callNamed {call call' : Caller} (hcall : ∀ f args, R (call f args) (call' f args))
    (name : String) (args : List Value) :
    R (callNamed call name args) (callNamed call' name args) := by
  refine h.look fun m m' hm => ?_
  rw [← hm.1, ← hm.function?, ← hm.command?]
  split
  · exact hcall _ _
  · split
    · exact related_invoke h _ _
    · split
      · exact h.fail rfl
      · exact h.fail rfl

variable {call call' : Caller}
  (hcall : ∀ name args, R (callNamed call name args) (callNamed call' name args))
include hcall

set_option linter.unusedSectionVars false in
mutual

theorem related_expr : ∀ e : Expr, R (expr call e) (expr call' e)
  | .int _ _ => related_produce h (h.pure _)
  | .float _ _ => related_produce h (h.pure _)
  | .str _ _ => related_produce h (h.pure _)
  | .bool _ _ => related_produce h (h.pure _)
  | .none _ => related_produce h (h.pure _)
  | .name s _ => related_produce h (related_variable h s)
  | .list items _ => related_produce h (h.bind (related_exprs items) fun _ => h.pure _)
  | .dict entries _ => related_produce h (related_entriesOnto _ entries)
  | .call callee args _ =>
    related_produce h (h.bind (related_exprs args) fun vs => hcall _ vs)
  | .method object m args _ => by
    refine related_produce h (h.bind (related_place object) fun place => ?_)
    rcases place with _ | place
    · refine h.bind (related_expr object) fun receiver => h.bind (related_exprs args) fun vs => ?_
      exact h.bind (related_ofResult h (Value.callMethod_confined _ _ _)) fun _ => h.pure _
    · exact h.bind (related_exprs args) fun vs =>
        h.changePlace _ (fun v => Value.callMethod_confined _ _ _) fun v =>
          (Value.callMethod_remade v _ _).mono fun _ hr => hr.altered
  | .binary left op right _ => by
    refine related_produce h (h.bind (related_expr left) fun a => ?_)
    cases op
    case and => exact related_ite (related_expr right) (h.pure _)
    case or => exact related_ite (h.pure _) (related_expr right)
    all_goals
      exact h.bind (related_expr right) fun b => related_ofResult h (Value.binary_confined _ _ _)
  | .unary op operand _ =>
    related_produce h (h.bind (related_expr operand) fun _ =>
      related_ofResult h (Value.unary_confined _ _))
  | .index object i _ =>
    related_produce h (h.bind (related_expr object) fun _ => h.bind (related_expr i) fun _ =>
      related_ofResult h (Value.index_confined _ _))
  | .slice object start stop _ =>
    related_produce h (h.bind (related_expr object) fun _ => h.bind (related_exprOpt start) fun _ =>
      h.bind (related_exprOpt stop) fun _ => related_ofResult h (Value.slice_confined _ _ _))

theorem related_exprs : ∀ es : List Expr, R (exprs call es) (exprs call' es)
  | [] => h.pure _
  | e :: es => h.bind (related_expr e) fun _ => h.bind (related_exprs es) fun _ => h.pure _

theorem related_exprOpt : ∀ e : Option Expr, R (exprOpt call e) (exprOpt call' e)
  | none => h.pure _
  | some e => h.bind (related_expr e) fun _ => h.pure _

theorem related_entriesOnto : ∀ (d : Value) (es : List (Expr × Expr)),
    R (entriesOnto call d es) (entriesOnto call' d es)
  | _, [] => h.pure _
  | _, (k, e) :: es =>
    h.bind (related_expr k) fun _ => h.bind (related_expr e) fun _ =>
      h.bind (related_ofResult h (Value.setIndex_confined _ _ _)) fun d => related_entriesOnto d es

theorem related_place : ∀ e : Expr, R (place? call e) (place? call' e)
  | .name _ _ => h.pure _
  | .index object i _ => by
    refine h.bind (related_place object) fun place => ?_
    rcases place with _ | place
    · exact h.pure _
    · exact h.bind (related_expr i) fun _ => h.pure _
  | .int _ _ | .float _ _ | .str _ _ | .bool _ _ | .none _ | .list _ _ | .dict _ _ | .call _ _ _
  | .method _ _ _ _ | .binary _ _ _ _ | .unary _ _ _ | .slice _ _ _ _ => h.pure _

end

end Expressions

theorem stored_confined (op : AssignOp) (key v container : Value) :
    Confined (stored op key v container) := by
  unfold stored
  dsimp only
  split
  · exact Value.confined_bind (Value.confined_ok _) fun _ => Value.setIndex_confined _ _ _
  · exact Value.confined_bind (Value.index_confined _ _) fun _ =>
      Value.confined_bind (Value.binary_confined _ _ _) fun _ => Value.setIndex_confined _ _ _

theorem stored_altered (op : AssignOp) (key v container : Value) :
    Yields (Altered container) (stored op key v container) := by
  unfold stored
  dsimp only
  split
  · exact Value.yields_bind (Value.yields_true _) fun _ _ => Value.setIndex_altered _ _ _
  · exact Value.yields_bind (Value.yields_true _) fun _ _ =>
      Value.yields_bind (Value.yields_true _) fun _ _ => Value.setIndex_altered _ _ _

section Statements

variable {line : Nat → Prop} (h : LineCongruence R line)
include h

theorem related_loopItems {once once' : Value → Eval (Option Flow)}
    (honce : ∀ v, R (once v) (once' v)) (vs : List Value) :
    R (loopItems once vs) (loopItems once' vs) := by
  induction vs with
  | nil => exact h.pure _
  | cons v vs ih =>
    refine h.bind (honce v) fun flow => ?_
    rcases flow with _ | flow
    · exact ih
    · exact h.pure _

theorem related_loopRange {once once' : Value → Eval (Option Flow)}
    (honce : ∀ v, R (once v) (once' v)) (r : IntRange) :
    ∀ n i, R (loopRange once r i n) (loopRange once' r i n)
  | 0, _ => h.pure _
  | n + 1, i => by
    refine h.bind (honce _) fun flow => ?_
    rcases flow with _ | flow
    · exact related_loopRange honce r n (i + 1)
    · exact h.pure _

theorem related_iteration (var : Ident) {body body' : Eval Flow} (hbody : R body body')
    (v : Value) : R (iteration var body v) (iteration var body' v) := by
  refine h.bind (h.charge 1) fun _ => h.bind (h.define _ _) fun _ => h.bind hbody fun flow => ?_
  cases flow <;> exact h.pure _

/-- What every statement starts with. -/
theorem related_head {span : Span} (hspan : line span.line) {α : Type} {x y : Eval α}
    (hxy : R x y) : R (do tick; setLine span.line; x) (do tick; setLine span.line; y) :=
  h.bind (h.charge 1) fun _ => h.bind (h.setLine hspan) fun _ => hxy

variable {call call' : Caller}
  (hcall : ∀ name args, R (callNamed call name args) (callNamed call' name args))
include hcall

theorem related_assign (target : Target) (op : AssignOp) (value : Expr) :
    R (assign call target op value) (assign call' target op value) := by
  have he := h.toExprCongruence
  unfold assign
  split
  · split
    · exact h.bind (related_expr he hcall _) fun _ => h.define _ _
    · refine h.bind (related_variable he _) fun current => ?_
      refine h.bind (related_expr he hcall _) fun v => ?_
      exact h.bind (related_ofResult he (Value.binary_confined _ _ _)) fun _ => h.define _ _
  · refine h.bind (related_expr he hcall _) fun v => ?_
    refine h.bind (related_place he hcall _) fun place => ?_
    rcases place with _ | place
    · refine h.bind (related_expr he hcall _) fun container => ?_
      refine h.bind (related_expr he hcall _) fun key => ?_
      exact h.bind (related_ofResult he (stored_confined _ _ _ _)) fun _ => h.pure _
    · refine h.bind (related_expr he hcall _) fun key => ?_
      refine h.changePlace _ (fun container => ?_) fun container => ?_
      · exact Value.confined_bind (stored_confined _ _ _ _) fun _ => Value.confined_ok _
      · exact Value.yields_bind (stored_altered _ _ _ _) fun _ hx => Value.yields_ok hx

theorem related_bounds (start : Option Expr) (stop : Expr) (step : Option Expr) :
    R (bounds call start stop step) (bounds call' start stop step) := by
  have he := h.toExprCongruence
  exact h.bind (related_exprOpt he hcall _) fun _ => h.bind (related_expr he hcall _) fun _ =>
    h.bind (related_exprOpt he hcall _) fun _ => h.pure _

set_option linter.unusedSectionVars false in
mutual

theorem related_stmt : ∀ s : Stmt, (∀ n ∈ s.lines, line n) → R (stmt call s) (stmt call' s)
  | .assign target op value span, hs =>
    related_head h (hs _ List.mem_cons_self)
      (h.bind (related_assign h hcall target op value) fun _ => h.pure _)
  | .ifElse branches otherwise span, hs => by
    obtain ⟨hspan, hinner⟩ := List.forall_mem_cons.mp hs
    obtain ⟨hbranches, helse⟩ := List.forall_mem_append.mp hinner
    exact related_head h hspan
      (related_firstTrue branches hbranches (related_blockOpt otherwise helse))
  | .forRange var start stop step body span, hs => by
    obtain ⟨hspan, hbody⟩ := List.forall_mem_cons.mp hs
    refine related_head h hspan (h.bind (related_bounds h hcall start stop step) fun args => ?_)
    refine h.look fun m m' hm => ?_
    rw [← hm.function?]
    have honce := related_iteration h var (related_block body hbody)
    refine related_ite ?_ ?_
    · exact h.bind (hcall _ _) fun v =>
        h.bind (related_ofResult h.toExprCongruence (Value.items_confined v)) fun vs =>
          related_loopItems h honce vs
    · exact h.bind (related_ofResult h.toExprCongruence (IntRange.ofArgs_confined _)) fun r =>
        related_loopRange h honce r r.count 0
  | .forEach var items body span, hs => by
    obtain ⟨hspan, hbody⟩ := List.forall_mem_cons.mp hs
    refine related_head h hspan (h.bind (related_expr h.toExprCongruence hcall items) fun v => ?_)
    exact h.bind (related_ofResult h.toExprCongruence (Value.items_confined v)) fun vs =>
      related_loopItems h (related_iteration h var (related_block body hbody)) vs
  | .define _ _ _ span, hs => by
    obtain ⟨hspan, hbody⟩ := List.forall_mem_cons.mp hs
    exact related_head h hspan (h.bind (h.learn hbody) fun _ => h.pure _)
  | .ret value span, hs => by
    refine related_head h (hs _ List.mem_cons_self)
      (h.bind (related_exprOpt h.toExprCongruence hcall value) fun v => ?_)
    cases v <;> exact h.pure _
  | .brk _, hs | .cont _, hs | .pass _, hs => related_head h (hs _ List.mem_cons_self) (h.pure _)
  | .expr e span, hs =>
    related_head h (hs _ List.mem_cons_self)
      (h.bind (related_expr h.toExprCongruence hcall e) fun _ => h.pure _)

theorem related_block : ∀ b : Block, (∀ n ∈ b.lines, line n) → R (block call b) (block call' b)
  | .mk body _, hb => related_stmts body hb

theorem related_stmts : ∀ ss : List Stmt, (∀ n ∈ linesOfStmts ss, line n) →
    R (stmts call ss) (stmts call' ss)
  | [], _ => h.pure _
  | s :: rest, hss => by
    obtain ⟨hs, hrest⟩ := List.forall_mem_append.mp hss
    refine h.bind (related_stmt s hs) fun flow => ?_
    cases flow
    case normal => exact related_stmts rest hrest
    all_goals exact h.pure _

theorem related_firstTrue {otherwise otherwise' : Eval Flow} :
    ∀ branches : List (Expr × Block), (∀ n ∈ linesOfBranches branches, line n) →
      R otherwise otherwise' →
        R (firstTrue call otherwise branches) (firstTrue call' otherwise' branches)
  | [], _, hother => hother
  | (condition, body) :: rest, hbranches, hother => by
    obtain ⟨hcondition, hinner⟩ := List.forall_mem_cons.mp hbranches
    obtain ⟨hbody, hrest⟩ := List.forall_mem_append.mp hinner
    exact h.bind (h.setLine hcondition) fun _ =>
      h.bind (related_expr h.toExprCongruence hcall condition) fun _ =>
        related_ite (related_block body hbody) (related_firstTrue rest hrest hother)

theorem related_blockOpt : ∀ b : Option Block, (∀ n ∈ linesOfElse b, line n) →
    R (blockOpt call b) (blockOpt call' b)
  | none, _ => h.pure _
  | some b, hb => related_block b hb

end

end Statements

section Calls

variable (h : CallCongruence R)
include h

/-- Where calls may be nested up to some depth on both sides, each call is related with itself. -/
theorem related_callWithin : ∀ (limit : Nat) (f : Function) (args : List Value),
    R (callWithin limit f args) (callWithin limit f args)
  | 0, _, _ =>
    h.bind (related_ofResult h.toExprCongruence (Value.arityCheck_confined _ _ _)) fun _ =>
      h.tooDeep
  | limit + 1, f, args =>
    h.bind (related_ofResult h.toExprCongruence (Value.arityCheck_confined _ _ _)) fun _ =>
      h.inScope f args (related_block h.anywhere
        (related_callNamed h.toExprCongruence (related_callWithin limit)) f.body fun _ _ => trivial)

theorem related_program (limits : Limits) (p : Program) :
    R (program limits p) (program limits p) :=
  h.bind (related_stmts h.anywhere
    (related_callNamed h.toExprCongruence (related_callWithin h limits.callDepth)) p.stmts
      fun _ _ => trivial) fun _ => h.pure _

end Calls

end Eval

end MissionScript
