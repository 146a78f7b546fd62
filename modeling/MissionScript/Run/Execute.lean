import MissionScript.Run.Evaluate

/-!
# Executing statements

A statement changes the state and says how to go on. A loop over a range counts without making a
list of the numbers. Functions see their own variables and the global ones; calls may be nested up
to a limit, and the limit that is left is what the recursion of `callWithin` goes down on.
-/

namespace MissionScript

/-- How a statement ended. -/
inductive Flow where
  | normal
  | brk
  | cont
  | ret (v : Value)
deriving Inhabited

/-- What a call gives when its body ended in this way. -/
def Flow.value : Flow → Value
  | ret v => v
  | normal | brk | cont => .none

namespace Eval

open Command (ofResult)

/-- The container with a value stored under a key, or combined with what is there. -/
def stored (op : AssignOp) (key v container : Value) : Value.Result Value := do
  let x ← match op.binary? with
    | none => pure v
    | some b => do Value.binary b (← container.index key) v
  container.setIndex key x

def assign (call : Caller) (target : Target) (op : AssignOp) (value : Expr) : Eval Unit := do
  match target with
  | .name ident =>
    match op.binary? with
    | none => define ident.name (← expr call value)
    | some b =>
      let current ← variable_ ident.name
      let v ← expr call value
      define ident.name (← ofResult (Value.binary b current v))
  | .item object index =>
    let v ← expr call value
    match ← place? call object with
    | some place =>
      let key ← expr call index
      changePlace place fun container => do return ((), ← stored op key v container)
    | none =>
      let container ← expr call object
      let key ← expr call index
      let _ ← ofResult (stored op key v container)

/-- Binds the loop variable and runs the body once; a result ends the loop. -/
def iteration (var : Ident) (body : Eval Flow) (v : Value) : Eval (Option Flow) := do
  tick
  define var.name v
  match ← body with
  | .brk => return some .normal
  | .ret v => return some (.ret v)
  | .normal | .cont => return none

/-- Runs a loop over the items. -/
def loopItems (once : Value → Eval (Option Flow)) : List Value → Eval Flow
  | [] => return .normal
  | v :: vs => do
    match ← once v with
    | some flow => return flow
    | none => loopItems once vs

/-- Runs a loop over `n` ints of a range from the one numbered `i` on. -/
def loopRange (once : Value → Eval (Option Flow)) (r : IntRange) (i : Nat) : Nat → Eval Flow
  | 0 => return .normal
  | n + 1 => do
    match ← once (.int (r.get i)) with
    | some flow => return flow
    | none => loopRange once r (i + 1) n

/-- The bounds of a loop over a range, as the arguments of the range. -/
def bounds (call : Caller) (start : Option Expr) (stop : Expr) (step : Option Expr) :
    Eval (List Value) := do
  let a ← exprOpt call start
  let b ← expr call stop
  let c ← exprOpt call step
  return a.toList ++ b :: c.toList

mutual

def stmt (call : Caller) : Stmt → Eval Flow
  | .assign target op value span => do
    tick
    setLine span.line
    assign call target op value
    return .normal
  | .ifElse branches otherwise span => do
    tick
    setLine span.line
    firstTrue call (blockOpt call otherwise) branches
  | .forRange var start stop step body span => do
    tick
    setLine span.line
    let args ← bounds call start stop step
    if ((← get).function? "range").isSome then
      let v ← callNamed call "range" args
      loopItems (iteration var (block call body)) (← ofResult v.items)
    else
      let r ← ofResult (IntRange.ofArgs args)
      loopRange (iteration var (block call body)) r 0 r.count
  | .forEach var items body span => do
    tick
    setLine span.line
    let v ← expr call items
    loopItems (iteration var (block call body)) (← ofResult v.items)
  | .define name params body span => do
    tick
    setLine span.line
    modify fun m => { m with functions := ⟨name, params, body⟩ :: m.functions }
    return .normal
  | .ret value span => do
    tick
    setLine span.line
    match ← exprOpt call value with
    | some v => return .ret v
    | none => return .ret .none
  | .brk span => do
    tick
    setLine span.line
    return .brk
  | .cont span => do
    tick
    setLine span.line
    return .cont
  | .pass span => do
    tick
    setLine span.line
    return .normal
  | .expr e span => do
    tick
    setLine span.line
    let _ ← expr call e
    return .normal

def block (call : Caller) : Block → Eval Flow
  | .mk body _ => stmts call body

/-- Executes statements up to the first that does not end normally. -/
def stmts (call : Caller) : List Stmt → Eval Flow
  | [] => return .normal
  | s :: rest => do
    match ← stmt call s with
    | .normal => stmts call rest
    | flow => return flow

/-- Executes the block of the first condition that holds, or else does `otherwise`. -/
def firstTrue (call : Caller) (otherwise : Eval Flow) : List (Expr × Block) → Eval Flow
  | [] => otherwise
  | (condition, body) :: rest => do
    setLine condition.span.line
    if (← expr call condition).isTrue then block call body else firstTrue call otherwise rest

def blockOpt (call : Caller) : Option Block → Eval Flow
  | none => return .normal
  | some b => block call b

end

/-- The environment of a call: a scope of its own with the parameters in it. -/
def enter (f : Function) (args : List Value) (env : Environment) : Environment :=
  (f.params.zip args).foldl (fun e (p, v) => e.define p.name v) (env.push 0)

/-- Runs the body of a function in a scope of its own. The line of the call is current again
afterwards, unless the body failed. -/
def inScope (f : Function) (args : List Value) (body : Eval Flow) : Eval Value := fun m =>
  match body { m with env := enter f args m.env } with
  | .ok flow m' =>
    .ok flow.value
      { m' with env := m'.env.pop, session := { m'.session with line := m.session.line } }
  | .error e m' => .error e { m' with env := m'.env.pop }

/-- Calls a function with calls nested up to `limit` deep. -/
def callWithin : Nat → Caller
  | limit, f, args => do
    ofResult ((Arity.exact f.params.length).check f.name.name args.length)
    match limit with
    | 0 => throw .recursionTooDeep
    | rest + 1 => inScope f args (block (callWithin rest) f.body)

/-- Executes one statement of a script. -/
def topLevel (limits : Limits) (s : Stmt) : Eval Flow := stmt (callWithin limits.callDepth) s

/-- Executes all statements of a script. -/
def program (limits : Limits) (p : Program) : Eval Unit := do
  let _ ← stmts (callWithin limits.callDepth) p.stmts

end Eval

end MissionScript
