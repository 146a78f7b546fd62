import MissionScript.Proofs.Run.Isolation

/-!
# Every script comes to an end

It is not gas that ends a script: with gas that never runs out it ends as well. The evaluator shows
this by being defined at all, but it is made for that: it goes down on the tree and on the calls
that are left. Here is one that is not. It pays for each of its steps with a unit of fuel and knows
no other bound; it takes the body of a function as it finds it, refuses a call only if too many are
under way, and asks in a loop over a range each time whether there is one more number.

For every script, level and limits there is a number of steps after which it has done what the other
evaluator does. With that much fuel or any more it comes to this end, and with less to none
(`program_settles`). The measure behind this has three parts. As long as a certain number of calls
is under way, the steps of a tree are counted by induction on the tree (`settles_stmt`), those of a
loop by induction on the items that are left of a list made before it began (`settles_items`). The
steps of a call are counted by induction on the calls that may still begin (`settles_call`).
-/

namespace MissionScript

/-- An action that takes steps. With its result it tells how much fuel is left; if there is not
enough, it has no result. -/
structure Fueled (α : Type) where
  run : Nat → Machine → Option (EStateM.Result RuntimeError Machine α × Nat)

namespace Fueled

instance : Monad Fueled where
  pure a := ⟨fun fuel m => some (.ok a m, fuel)⟩
  bind x f := ⟨fun fuel m =>
    match x.run fuel m with
    | some (.ok a m', left) => (f a).run left m'
    | some (.error e m', left) => some (.error e m', left)
    | none => none⟩

/-- An action that takes no step. -/
def now {α : Type} (x : Eval α) : Fueled α := ⟨fun fuel m => some (x m, fuel)⟩

def exhausted {α : Type} : Fueled α := ⟨fun _ _ => none⟩

/-- One step before the action. -/
def step {α : Type} (x : Fueled α) : Fueled α := ⟨fun fuel m =>
  match fuel with
  | 0 => none
  | left + 1 => x.run left m⟩

def produce (act : Fueled Value) : Fueled Value := do
  now Eval.tick
  let v ← act
  now (Eval.account v)

/-- The action that ends in one way, whatever the machine. -/
def ended {α : Type} (r : EStateM.Result RuntimeError Machine α) : Eval α := fun _ => r

/-- Runs the body of a function in a scope of its own. When the body has come to an end, what is
left of the call takes no step. -/
def inScope (f : Function) (args : List Value) (body : Fueled Flow) : Fueled Value := ⟨fun fuel m =>
  (body.run fuel { m with env := Eval.enter f args m.env }).map fun (r, left) =>
    (Eval.inScope f args (ended r) m, left)⟩

theorem bind_run {α β : Type} (x : Fueled α) (f : α → Fueled β) (fuel : Nat) (m : Machine) :
    (x >>= f).run fuel m =
      match x.run fuel m with
      | some (.ok a m', left) => (f a).run left m'
      | some (.error e m', left) => some (.error e m', left)
      | none => none := rfl

theorem inScope_run (f : Function) (args : List Value) (body : Fueled Flow) (fuel : Nat)
    (m : Machine) :
    (inScope f args body).run fuel m =
      (body.run fuel { m with env := Eval.enter f args m.env }).map fun (r, left) =>
        (Eval.inScope f args (ended r) m, left) := rfl

end Fueled

/-- All that evaluating a part of a script can call for. -/
structure Interpreter where
  expr : Expr → Fueled Value
  exprs : List Expr → Fueled (List Value)
  entriesOnto : Value → List (Expr × Expr) → Fueled Value
  place? : Expr → Fueled (Option Eval.Place)
  call : Function → List Value → Fueled Value
  stmt : Stmt → Fueled Flow
  stmts : List Stmt → Fueled Flow
  firstTrue : Option Block → List (Expr × Block) → Fueled Flow
  items : Ident → Block → List Value → Fueled Flow
  numbers : Ident → Block → IntRange → Nat → Fueled Flow

namespace Interpreter

open Command (ofResult)
open Fueled (now produce)

def exhausted : Interpreter where
  expr _ := .exhausted
  exprs _ := .exhausted
  entriesOnto _ _ := .exhausted
  place? _ := .exhausted
  call _ _ := .exhausted
  stmt _ := .exhausted
  stmts _ := .exhausted
  firstTrue _ _ := .exhausted
  items _ _ _ := .exhausted
  numbers _ _ _ _ := .exhausted

section Around

variable (deep : Interpreter)

def exprOpt : Option Expr → Fueled (Option Value)
  | none => return none
  | some e => do return some (← deep.expr e)

def callNamed (name : String) (args : List Value) : Fueled Value := do
  let m ← now get
  match m.function? name with
  | some f => deep.call f args
  | none =>
    match m.command? name with
    | some c => now (Eval.onSession (c.invoke args))
    | none =>
      match m.env.get? name with
      | some v => now (throw (.notCallable v.kind))
      | none => now (throw (.undefinedName name))

def exprStep : Expr → Fueled Value
  | .int n _ => produce (return .int n)
  | .float x _ => produce (return .float x)
  | .str s _ => produce (return .str s)
  | .bool b _ => produce (return .bool b)
  | .none _ => produce (return .none)
  | .name s _ => produce (now (Eval.variable_ s))
  | .list items _ => produce do return .list (← deep.exprs items)
  | .dict entries _ => produce (deep.entriesOnto (.dict []) entries)
  | .call callee args _ => produce do deep.callNamed callee.name (← deep.exprs args)
  | .method object m args _ => produce do
    match ← deep.place? object with
    | some place =>
      let vs ← deep.exprs args
      now (Eval.changePlace place fun v => v.callMethod m.name vs)
    | none =>
      let receiver ← deep.expr object
      let vs ← deep.exprs args
      return (← now (ofResult (receiver.callMethod m.name vs))).1
  | .binary left op right _ => produce do
    let a ← deep.expr left
    match op with
    | .and => if a.isTrue then deep.expr right else return a
    | .or => if a.isTrue then return a else deep.expr right
    | op =>
      let b ← deep.expr right
      now (ofResult (Value.binary op a b))
  | .unary op operand _ => produce do
    let v ← deep.expr operand
    now (ofResult (Value.unary op v))
  | .index object i _ => produce do
    let container ← deep.expr object
    let key ← deep.expr i
    now (ofResult (container.index key))
  | .slice object start stop _ => produce do
    let container ← deep.expr object
    let a ← deep.exprOpt start
    let b ← deep.exprOpt stop
    now (ofResult (container.slice a b))

def exprsStep : List Expr → Fueled (List Value)
  | [] => return []
  | e :: es => do
    let v ← deep.expr e
    return v :: (← deep.exprs es)

def entriesStep (d : Value) : List (Expr × Expr) → Fueled Value
  | [] => return d
  | (k, e) :: es => do
    let key ← deep.expr k
    let v ← deep.expr e
    deep.entriesOnto (← now (ofResult (d.setIndex key v))) es

def placeStep : Expr → Fueled (Option Eval.Place)
  | .name s _ => return some ⟨s, []⟩
  | .index object i _ => do
    match ← deep.place? object with
    | none => return none
    | some place => return some { place with path := place.path ++ [← deep.expr i] }
  | .int _ _ | .float _ _ | .str _ _ | .bool _ _ | .none _ | .list _ _ | .dict _ _ | .call _ _ _
  | .method _ _ _ _ | .binary _ _ _ _ | .unary _ _ _ | .slice _ _ _ _ => return none

def assign (target : Target) (op : AssignOp) (value : Expr) : Fueled Unit := do
  match target with
  | .name ident =>
    match op.binary? with
    | none => do
      let v ← deep.expr value
      now (Eval.define ident.name v)
    | some b => do
      let current ← now (Eval.variable_ ident.name)
      let v ← deep.expr value
      let x ← now (ofResult (Value.binary b current v))
      now (Eval.define ident.name x)
  | .item object index =>
    let v ← deep.expr value
    match ← deep.place? object with
    | some place =>
      let key ← deep.expr index
      now (Eval.changePlace place fun container => do
        return ((), ← Eval.stored op key v container))
    | none =>
      let container ← deep.expr object
      let key ← deep.expr index
      let _ ← now (ofResult (Eval.stored op key v container))

def block (b : Block) : Fueled Flow := deep.stmts b.stmts

def blockOpt : Option Block → Fueled Flow
  | none => return .normal
  | some b => deep.block b

def iteration (var : Ident) (body : Block) (v : Value) : Fueled (Option Flow) := do
  now Eval.tick
  now (Eval.define var.name v)
  match ← deep.block body with
  | .brk => return some .normal
  | .ret v => return some (.ret v)
  | .normal | .cont => return none

def itemsStep (var : Ident) (body : Block) : List Value → Fueled Flow
  | [] => return .normal
  | v :: vs => do
    match ← deep.iteration var body v with
    | some flow => return flow
    | none => deep.items var body vs

/-- A loop over the numbers of a range, from the one numbered `i` on. -/
def numbersStep (var : Ident) (body : Block) (r : IntRange) (i : Nat) : Fueled Flow := do
  if i < r.count then
    match ← deep.iteration var body (.int (r.get i)) with
    | some flow => return flow
    | none => deep.numbers var body r (i + 1)
  else return .normal

def bounds (start : Option Expr) (stop : Expr) (step : Option Expr) : Fueled (List Value) := do
  let a ← deep.exprOpt start
  let b ← deep.expr stop
  let c ← deep.exprOpt step
  return a.toList ++ b :: c.toList

def stmtStep (s : Stmt) : Fueled Flow := do
  now Eval.tick
  now (Eval.setLine s.span.line)
  match s with
  | .assign target op value _ => do
    deep.assign target op value
    return .normal
  | .ifElse branches otherwise _ => deep.firstTrue otherwise branches
  | .forRange var start stop step body _ => do
    let args ← deep.bounds start stop step
    let m ← now get
    if (m.function? "range").isSome then
      let v ← deep.callNamed "range" args
      let vs ← now (ofResult v.items)
      deep.items var body vs
    else
      let r ← now (ofResult (IntRange.ofArgs args))
      deep.numbers var body r 0
  | .forEach var items body _ => do
    let v ← deep.expr items
    let vs ← now (ofResult v.items)
    deep.items var body vs
  | .define name params body _ => do
    now (modify fun m => { m with functions := ⟨name, params, body⟩ :: m.functions })
    return .normal
  | .ret value _ => do
    match ← deep.exprOpt value with
    | some v => return .ret v
    | none => return .ret .none
  | .brk _ => return .brk
  | .cont _ => return .cont
  | .pass _ => return .normal
  | .expr e _ => do
    let _ ← deep.expr e
    return .normal

def stmtsStep : List Stmt → Fueled Flow
  | [] => return .normal
  | s :: rest => do
    match ← deep.stmt s with
    | .normal => deep.stmts rest
    | flow => return flow

def firstTrueStep (otherwise : Option Block) : List (Expr × Block) → Fueled Flow
  | [] => deep.blockOpt otherwise
  | (condition, body) :: rest => do
    now (Eval.setLine condition.span.line)
    let v ← deep.expr condition
    if v.isTrue then deep.block body else deep.firstTrue otherwise rest

/-- A call is refused if as many calls as `most` are under way. -/
def callStep (most : Nat) (f : Function) (args : List Value) : Fueled Value := do
  now (ofResult ((Arity.exact f.params.length).check f.name.name args.length))
  let m ← now get
  if most ≤ m.calls then now (throw .recursionTooDeep)
  else .inScope f args (deep.block f.body)

/-- One step of everything, where `deep` takes the others. -/
def around (most : Nat) : Interpreter where
  expr e := .step (deep.exprStep e)
  exprs es := .step (deep.exprsStep es)
  entriesOnto d es := .step (deep.entriesStep d es)
  place? e := .step (deep.placeStep e)
  call f args := .step (deep.callStep most f args)
  stmt s := .step (deep.stmtStep s)
  stmts ss := .step (deep.stmtsStep ss)
  firstTrue otherwise branches := .step (deep.firstTrueStep otherwise branches)
  items var body vs := .step (deep.itemsStep var body vs)
  numbers var body r i := .step (deep.numbersStep var body r i)

end Around

/-- The interpreter with steps inside of each other at most `depth` deep, and with at most `most`
calls under way. -/
def levels (most : Nat) : Nat → Interpreter
  | 0 => exhausted
  | depth + 1 => (levels most depth).around most

/-- Executes all statements of a script. There are no more steps inside of each other than there is
fuel. -/
def program (limits : Limits) (p : Program) (fuel : Nat) (m : Machine) :
    Option (EStateM.Result RuntimeError Machine Unit × Nat) :=
  let act : Fueled Unit := do
    let _ ← (levels limits.callDepth fuel).stmts p.stmts
  act.run fuel m

end Interpreter

/-- With `n` calls under way, there is a number of steps in which the action does what `y` does;
with less fuel it has no result. Then `n` calls are under way again. -/
def Settles {α : Type} (n : Nat) (x : Nat → Fueled α) (y : Eval α) : Prop :=
  ∀ m, m.calls = n →
    (∃ steps, ∀ depth fuel, fuel ≤ depth →
      (x depth).run fuel m = if steps ≤ fuel then some (y m, fuel - steps) else none)
      ∧ (y.leaves m).calls = n

namespace Settles

open Eval (AgreeAt)

variable {α β : Type} {n : Nat}

/-- The steps of two actions add up. -/
theorem bind {x : Nat → Fueled α} {y : Eval α} {f : Nat → α → Fueled β} {g : α → Eval β}
    (hx : Settles n x y) (hf : ∀ a, Settles n (fun depth => f depth a) (g a)) :
    Settles n (fun depth => x depth >>= f depth) (y >>= g) := by
  intro m hm
  obtain ⟨⟨steps, hsteps⟩, hcalls⟩ := hx m hm
  unfold Eval.leaves at hcalls ⊢
  rw [bind_apply]
  rcases hr : y m with ⟨a, m'⟩ | ⟨e, m'⟩ <;> rw [hr] at hsteps hcalls
  · obtain ⟨⟨steps', hsteps'⟩, hcalls'⟩ := hf a m' hcalls
    refine ⟨⟨steps + steps', fun depth fuel hdepth => ?_⟩, hcalls'⟩
    rw [Fueled.bind_run, hsteps depth fuel hdepth]
    by_cases hfuel : steps ≤ fuel
    · rw [if_pos hfuel]
      dsimp only
      -- what is left of the fuel is no more than the depth either
      rw [hsteps' depth (fuel - steps) (by omega)]
      by_cases hfuel' : steps' ≤ fuel - steps
      · rw [if_pos hfuel', if_pos (by omega), Nat.sub_sub]
      · rw [if_neg hfuel', if_neg (by omega)]
    · rw [if_neg hfuel, if_neg (by omega)]
  · refine ⟨⟨steps, fun depth fuel hdepth => ?_⟩, hcalls⟩
    rw [Fueled.bind_run, hsteps depth fuel hdepth]
    by_cases hfuel : steps ≤ fuel
    · rw [if_pos hfuel, if_pos hfuel]
    · rw [if_neg hfuel, if_neg hfuel]

theorem now {y : Eval α} (h : AgreeAt n y y) : Settles n (fun _ => .now y) y :=
  fun m hm => ⟨⟨0, fun _ fuel _ => (if_pos (Nat.zero_le fuel)).symm⟩, (h m hm).2⟩

theorem pure (a : α) : Settles n (fun _ => Pure.pure a) (Pure.pure a) :=
  now ((Eval.agreeAt_congruence n).pure a)

/-- An action that looks at the machine first. -/
theorem look {f : Nat → Machine → Fueled α} {g : Machine → Eval α}
    (hf : ∀ m, m.calls = n → Settles n (fun depth => f depth m) (g m)) :
    Settles n (fun depth => Fueled.now get >>= f depth) (get >>= g) :=
  fun m hm => hf m hm m hm

/-- A look at the machine that only decides whether to go on. -/
theorem guard {f : Nat → Machine → Fueled α} {y : Eval α}
    (hf : ∀ m, m.calls = n → Settles n (fun depth => f depth m) y) :
    Settles n (fun depth => Fueled.now get >>= f depth) y :=
  fun m hm => hf m hm m hm

theorem ite {c : Prop} [Decidable c] {x x' : Nat → Fueled α} {y y' : Eval α} (hx : Settles n x y)
    (hy : Settles n x' y') :
    Settles n (fun depth => if c then x depth else x' depth) (if c then y else y') := by
  by_cases h : c
  · simp only [if_pos h]
    exact hx
  · simp only [if_neg h]
    exact hy

/-- Deep enough, there is always room for one step more. -/
theorem step {x body : Nat → Fueled α} {y : Eval α} (hzero : x 0 = .exhausted)
    (hsucc : ∀ depth, x (depth + 1) = .step (body depth)) (h : Settles n body y) :
    Settles n x y := by
  intro m hm
  obtain ⟨⟨steps, hsteps⟩, hcalls⟩ := h m hm
  refine ⟨⟨steps + 1, fun depth fuel hdepth => ?_⟩, hcalls⟩
  rcases fuel with _ | left
  · -- without fuel no step is taken, however deep one might go
    rw [if_neg (Nat.not_succ_le_zero steps)]
    cases depth with
    | zero => rw [hzero]; rfl
    | succ depth => rw [hsucc]; rfl
  · rcases depth with _ | depth
    · exact absurd hdepth (Nat.not_succ_le_zero left)
    · rw [hsucc]
      unfold Fueled.step
      dsimp only
      rw [hsteps depth left (Nat.le_of_succ_le_succ hdepth), Nat.add_sub_add_right]
      simp only [Nat.add_le_add_iff_right]

theorem produce {x : Nat → Fueled Value} {y : Eval Value} (h : Settles n x y) :
    Settles n (fun depth => .produce (x depth)) (Eval.produce y) := by
  have hactions := Eval.agreeAt_congruence n
  exact (now (hactions.charge 1)).bind fun _ => h.bind fun v =>
    now (Eval.related_account hactions.toExprCongruence v)

/-- The body runs with one more call under way. -/
theorem inScope {x : Nat → Fueled Flow} {y : Eval Flow} (h : Settles (n + 1) x y) (f : Function)
    (args : List Value) :
    Settles n (fun depth => .inScope f args (x depth)) (Eval.inScope f args y) := by
  have hcalls : AgreeAt n (Eval.inScope f args y) (Eval.inScope f args y) :=
    AgreeAt.inScope (fun m hm => ⟨rfl, (h m hm).2⟩) f args
  intro m hm
  have henter : Machine.calls { m with env := Eval.enter f args m.env } = n + 1 :=
    (Environment.enter_globals f args m.env).2.trans (congrArg (· + 1) hm)
  obtain ⟨⟨steps, hsteps⟩, -⟩ := h _ henter
  refine ⟨⟨steps, fun depth fuel hdepth => ?_⟩, (hcalls m hm).2⟩
  rw [Fueled.inScope_run, hsteps depth fuel hdepth]
  by_cases hfuel : steps ≤ fuel
  · rw [if_pos hfuel, if_pos hfuel]
    rfl
  · rw [if_neg hfuel, if_neg hfuel]
    rfl

end Settles

namespace Interpreter

open Command (ofResult)
open Eval (agreeAt_congruence)

/-- Calls take some number of steps or other. -/
def CallsSettle (most n : Nat) (call : Caller) : Prop :=
  ∀ f args, Settles n (fun depth => (levels most depth).call f args) (call f args)

variable {most n : Nat}

theorem settles_ofResult {α : Type} {r : Value.Result α} (hr : Value.Confined r) :
    Settles n (fun _ => .now (ofResult r)) (ofResult r) :=
  .now (Eval.related_ofResult (agreeAt_congruence n).toExprCongruence hr)

section Expressions

variable {call : Caller} (hcall : CallsSettle most n call)
include hcall

theorem settles_callNamed (name : String) (args : List Value) :
    Settles n (fun depth => (levels most depth).callNamed name args)
      (Eval.callNamed call name args) := by
  have hactions := (agreeAt_congruence n).toExprCongruence
  refine .look fun m _ => ?_
  rcases hf : m.function? name with _ | f
  · rcases hc : m.command? name with _ | c
    · rcases hv : m.env.get? name with _ | v
      · exact .now (hactions.fail rfl)
      · exact .now (hactions.fail rfl)
    · exact .now (Eval.related_invoke hactions c args)
  · exact hcall f args

set_option linter.unusedSectionVars false in
mutual

theorem settles_expr (e : Expr) :
    Settles n (fun depth => (levels most depth).expr e) (Eval.expr call e) := by
  have hactions := (agreeAt_congruence n).toExprCongruence
  refine .step rfl (fun _ => rfl) ?_
  match e with
  | .int _ _ | .float _ _ | .str _ _ | .bool _ _ | .none _ => exact .produce (.pure _)
  | .name s _ => exact .produce (.now (Eval.related_variable hactions s))
  | .list items _ => exact .produce ((settles_exprs items).bind fun _ => .pure _)
  | .dict entries _ => exact .produce (settles_entriesOnto _ entries)
  | .call callee args _ =>
    exact .produce ((settles_exprs args).bind fun vs => settles_callNamed hcall _ vs)
  | .method object m args _ =>
    refine .produce ((settles_place object).bind fun place => ?_)
    rcases place with _ | place
    · refine (settles_expr object).bind fun receiver => (settles_exprs args).bind fun vs => ?_
      exact (settles_ofResult (Value.callMethod_confined _ _ _)).bind fun _ => .pure _
    · exact (settles_exprs args).bind fun vs => .now (Eval.agreeAt_changePlace place _)
  | .binary left op right _ =>
    refine .produce ((settles_expr left).bind fun a => ?_)
    cases op
    case and => exact .ite (settles_expr right) (.pure _)
    case or => exact .ite (.pure _) (settles_expr right)
    all_goals
      exact (settles_expr right).bind fun b => settles_ofResult (Value.binary_confined _ _ _)
  | .unary op operand _ =>
    exact .produce ((settles_expr operand).bind fun v =>
      settles_ofResult (Value.unary_confined _ _))
  | .index object i _ =>
    exact .produce ((settles_expr object).bind fun _ => (settles_expr i).bind fun _ =>
      settles_ofResult (Value.index_confined _ _))
  | .slice object start stop _ =>
    exact .produce ((settles_expr object).bind fun _ => (settles_exprOpt start).bind fun _ =>
      (settles_exprOpt stop).bind fun _ => settles_ofResult (Value.slice_confined _ _ _))

theorem settles_exprs (es : List Expr) :
    Settles n (fun depth => (levels most depth).exprs es) (Eval.exprs call es) := by
  refine .step rfl (fun _ => rfl) ?_
  match es with
  | [] => exact .pure _
  | e :: es => exact (settles_expr e).bind fun _ => (settles_exprs es).bind fun _ => .pure _

theorem settles_exprOpt (e : Option Expr) :
    Settles n (fun depth => (levels most depth).exprOpt e) (Eval.exprOpt call e) := by
  match e with
  | none => exact .pure _
  | some e => exact (settles_expr e).bind fun _ => .pure _

theorem settles_entriesOnto (d : Value) (es : List (Expr × Expr)) :
    Settles n (fun depth => (levels most depth).entriesOnto d es) (Eval.entriesOnto call d es) := by
  refine .step rfl (fun _ => rfl) ?_
  match es with
  | [] => exact .pure _
  | (k, e) :: es =>
    exact (settles_expr k).bind fun _ => (settles_expr e).bind fun _ =>
      (settles_ofResult (Value.setIndex_confined _ _ _)).bind fun d => settles_entriesOnto d es

theorem settles_place (e : Expr) :
    Settles n (fun depth => (levels most depth).place? e) (Eval.place? call e) := by
  refine .step rfl (fun _ => rfl) ?_
  match e with
  | .name _ _ => exact .pure _
  | .index object i _ =>
    refine (settles_place object).bind fun place => ?_
    rcases place with _ | place
    · exact .pure _
    · exact (settles_expr i).bind fun _ => .pure _
  | .int _ _ | .float _ _ | .str _ _ | .bool _ _ | .none _ | .list _ _ | .dict _ _ | .call _ _ _
  | .method _ _ _ _ | .binary _ _ _ _ | .unary _ _ _ | .slice _ _ _ _ => exact .pure _

end

end Expressions

section Loops

variable {var : Ident} {body : Block} {y : Eval Flow}
  (hbody : Settles n (fun depth => (levels most depth).block body) y)
include hbody

theorem settles_iteration (v : Value) :
    Settles n (fun depth => (levels most depth).iteration var body v) (Eval.iteration var y v) := by
  have hactions := agreeAt_congruence n
  refine (Settles.now (hactions.charge 1)).bind fun _ =>
    (Settles.now (hactions.define var.name v)).bind fun _ => hbody.bind fun flow => ?_
  cases flow <;> exact .pure _

/-- The items are those of a list that is there before the loop begins. -/
theorem settles_items (vs : List Value) :
    Settles n (fun depth => (levels most depth).items var body vs)
      (Eval.loopItems (Eval.iteration var y) vs) := by
  induction vs with
  | nil => exact .step rfl (fun _ => rfl) (.pure _)
  | cons v vs ih =>
    refine .step rfl (fun _ => rfl) ((settles_iteration hbody v).bind fun flow => ?_)
    rcases flow with _ | flow
    · exact ih
    · exact .pure _

/-- From the number `i` on there are `k` more. -/
theorem settles_numbers (r : IntRange) : ∀ k i : Nat, i + k = r.count →
    Settles n (fun depth => (levels most depth).numbers var body r i)
      (Eval.loopRange (Eval.iteration var y) r i k)
  | 0, i, hcount => by
    have hstep : Settles n (fun depth => (levels most depth).numbersStep var body r i)
        (pure .normal) := by
      unfold numbersStep
      simp only [if_neg (show ¬ i < r.count by omega)]
      exact .pure _
    exact .step rfl (fun _ => rfl) hstep
  | k + 1, i, hcount => by
    have hstep : Settles n (fun depth => (levels most depth).numbersStep var body r i)
        (Eval.loopRange (Eval.iteration var y) r i (k + 1)) := by
      unfold numbersStep
      simp only [if_pos (show i < r.count by omega)]
      refine (settles_iteration hbody _).bind fun flow => ?_
      rcases flow with _ | flow
      · exact settles_numbers r k (i + 1) (by omega)
      · exact .pure _
    exact .step rfl (fun _ => rfl) hstep

end Loops

section Statements

variable {call : Caller} (hcall : CallsSettle most n call)
include hcall

theorem settles_assign (target : Target) (op : AssignOp) (value : Expr) :
    Settles n (fun depth => (levels most depth).assign target op value)
      (Eval.assign call target op value) := by
  have hactions := agreeAt_congruence n
  have hexpr := settles_expr hcall
  cases target with
  | name ident =>
    unfold assign Eval.assign
    rcases op.binary? with _ | b
    · exact (hexpr value).bind fun v => .now (hactions.define _ _)
    · have hvariable := Eval.related_variable hactions.toExprCongruence ident.name
      exact (Settles.now hvariable).bind fun current => (hexpr value).bind fun v =>
        (settles_ofResult (Value.binary_confined _ _ _)).bind fun _ => .now (hactions.define _ _)
  | item object index =>
    refine (hexpr value).bind fun v => (settles_place hcall object).bind fun place => ?_
    rcases place with _ | place
    · exact (hexpr object).bind fun container => (hexpr index).bind fun key =>
        (settles_ofResult (Eval.stored_confined _ _ _ _)).bind fun _ => .pure _
    · exact (hexpr index).bind fun key => .now (Eval.agreeAt_changePlace place _)

theorem settles_bounds (start : Option Expr) (stop : Expr) (step : Option Expr) :
    Settles n (fun depth => (levels most depth).bounds start stop step)
      (Eval.bounds call start stop step) :=
  (settles_exprOpt hcall start).bind fun _ => (settles_expr hcall stop).bind fun _ =>
    (settles_exprOpt hcall step).bind fun _ => .pure _

omit hcall in
/-- What every statement starts with. -/
theorem settles_head (line : Nat) {x : Nat → Fueled Flow} {y : Eval Flow} (h : Settles n x y) :
    Settles n (fun depth => do Fueled.now Eval.tick; Fueled.now (Eval.setLine line); x depth)
      (do Eval.tick; Eval.setLine line; y) := by
  have hactions := agreeAt_congruence n
  exact (Settles.now (hactions.charge 1)).bind fun _ =>
    (Settles.now (hactions.setLine line)).bind fun _ => h

set_option linter.unusedSectionVars false in
mutual

theorem settles_stmt (s : Stmt) :
    Settles n (fun depth => (levels most depth).stmt s) (Eval.stmt call s) := by
  refine .step rfl (fun _ => rfl) ?_
  match s with
  | .assign target op value span =>
    exact settles_head span.line ((settles_assign hcall target op value).bind fun _ => .pure _)
  | .ifElse branches otherwise span =>
    exact settles_head span.line (settles_firstTrue branches (settles_blockOpt otherwise))
  | .forRange var start stop step body span =>
    refine settles_head span.line ((settles_bounds hcall start stop step).bind fun args => ?_)
    refine .look fun m _ => .ite ?_ ?_
    · exact (settles_callNamed hcall _ _).bind fun v =>
        (settles_ofResult (Value.items_confined v)).bind fun vs =>
          settles_items (settles_block body) vs
    · exact (settles_ofResult (IntRange.ofArgs_confined _)).bind fun r =>
        settles_numbers (settles_block body) r r.count 0 (Nat.zero_add _)
  | .forEach var items body span =>
    exact settles_head span.line ((settles_expr hcall items).bind fun v =>
      (settles_ofResult (Value.items_confined v)).bind fun vs =>
        settles_items (settles_block body) vs)
  | .define name params body span =>
    have hlearn := (agreeAt_congruence n).learn ⟨name, params, body⟩
    exact settles_head span.line ((Settles.now hlearn).bind fun _ => .pure _)
  | .ret value span =>
    refine settles_head span.line ((settles_exprOpt hcall value).bind fun v => ?_)
    cases v <;> exact .pure _
  | .brk span | .cont span | .pass span => exact settles_head span.line (.pure _)
  | .expr e span =>
    exact settles_head span.line ((settles_expr hcall e).bind fun _ => .pure _)

theorem settles_block (b : Block) :
    Settles n (fun depth => (levels most depth).block b) (Eval.block call b) :=
  match b with
  | .mk body _ => settles_stmts body

theorem settles_stmts (ss : List Stmt) :
    Settles n (fun depth => (levels most depth).stmts ss) (Eval.stmts call ss) := by
  refine .step rfl (fun _ => rfl) ?_
  match ss with
  | [] => exact .pure _
  | s :: rest =>
    refine (settles_stmt s).bind fun flow => ?_
    cases flow with
    | normal => exact settles_stmts rest
    | brk | cont | ret v => exact .pure _

theorem settles_firstTrue {otherwise : Option Block} {y : Eval Flow}
    (branches : List (Expr × Block))
    (hotherwise : Settles n (fun depth => (levels most depth).blockOpt otherwise) y) :
    Settles n (fun depth => (levels most depth).firstTrue otherwise branches)
      (Eval.firstTrue call y branches) := by
  refine .step rfl (fun _ => rfl) ?_
  match branches with
  | [] => exact hotherwise
  | (condition, body) :: rest =>
    exact (Settles.now ((agreeAt_congruence n).setLine _)).bind fun _ =>
      (settles_expr hcall condition).bind fun _ =>
        .ite (settles_block body) (settles_firstTrue rest hotherwise)

theorem settles_blockOpt (b : Option Block) :
    Settles n (fun depth => (levels most depth).blockOpt b) (Eval.blockOpt call b) := by
  match b with
  | none => exact .pure _
  | some b => exact settles_block b

end

end Statements

/-- With one call more under way there is one less to come, so their sum stays. -/
theorem settles_call : ∀ left n : Nat, n + left = most → CallsSettle most n (Eval.callWithin left)
  | left, n, hsum, f, args => by
    refine .step rfl (fun _ => rfl) ?_
    unfold Eval.callWithin
    refine (settles_ofResult (Value.arityCheck_confined _ _ _)).bind fun _ => .guard fun m hm => ?_
    cases left with
    | zero =>
      simp only [if_pos (show most ≤ m.calls by omega)]
      exact .now fun _ hm => ⟨rfl, hm⟩
    | succ rest =>
      have hbody := settles_block (settles_call rest (n + 1) (by omega)) f.body
      simp only [if_neg (show ¬ most ≤ m.calls by omega)]
      exact hbody.inScope f args

theorem settles_program (limits : Limits) (p : Program) :
    Settles 0 (fun depth => do let _ ← (levels limits.callDepth depth).stmts p.stmts)
      (Eval.program limits p) :=
  (settles_stmts (settles_call limits.callDepth 0 (Nat.zero_add _)) p.stmts).bind fun _ => .pure _

end Interpreter

/-- Every script, on every level and under all limits, however much gas there is, comes to a result
or to an error after a number of steps: with so much fuel and with any more, always to the same one.
With less fuel it comes to none. -/
theorem program_settles (p : Program) (level : Level) (limits : Limits)
    (commands : List Command) :
    let m := Machine.start level limits commands
    ∃ steps, ∀ fuel, Interpreter.program limits p fuel m =
      if steps ≤ fuel then some (Eval.program limits p m, fuel - steps) else none := by
  intro m
  obtain ⟨⟨steps, hsteps⟩, -⟩ := Interpreter.settles_program limits p m rfl
  exact ⟨steps, fun fuel => hsteps fuel fuel (Nat.le_refl fuel)⟩

/-- A function that calls itself is stopped by the limit on calls after seventeen steps, however
much gas and fuel there is. -/
example :
    let f : Ident := ⟨"f", default⟩
    let again : Stmt := .expr (.call f [] default) default
    let script : Program := ⟨[.define f [] (.mk [again] default) default, again], default⟩
    let limits : Limits := ⟨0, Gas.most, 2⟩
    let ending (fuel : Nat) : Option (Option ErrorKind × Nat) :=
      (Interpreter.program limits script fuel (.start default limits [])).map fun
        | (.ok _ _, left) => (none, left)
        | (.error e _, left) => (some e.kind, left)
    ending 16 = none ∧ ending 17 = some (some .recursion, 0)
      ∧ ending 30 = some (some .recursion, 13) := by
  decide

end MissionScript
