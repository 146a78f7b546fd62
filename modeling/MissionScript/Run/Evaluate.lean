import MissionScript.Run.Machine

/-!
# Evaluating expressions

Expressions are evaluated from left to right. What is needed of the functions of the script is
given as a parameter: how to call one.

A method is called on the value at a place if its object is a variable with subscripts, so that it
can change the variable; otherwise it is called on the object's value.
-/

namespace MissionScript

/-- How a function of the script is called. -/
abbrev Caller := Function → List Value → Eval Value

namespace Eval

open Command (ofResult)

/-- Calls what a name stands for: a function of the script or else a command. -/
def callNamed (call : Caller) (name : String) (args : List Value) : Eval Value := do
  let m ← get
  match m.function? name with
  | some f => call f args
  | none =>
    match m.command? name with
    | some c => onSession (c.invoke args)
    | none =>
      match m.env.get? name with
      | some v => throw (.notCallable v.kind)
      | none => throw (.undefinedName name)

mutual

def expr (call : Caller) : Expr → Eval Value
  | .int n _ => produce (return .int n)
  | .float x _ => produce (return .float x)
  | .str s _ => produce (return .str s)
  | .bool b _ => produce (return .bool b)
  | .none _ => produce (return .none)
  | .name s _ => produce (variable_ s)
  | .list items _ => produce do return .list (← exprs call items)
  | .dict entries _ => produce (entriesOnto call (.dict []) entries)
  | .call callee args _ => produce do callNamed call callee.name (← exprs call args)
  | .method object m args _ => produce do
    match ← place? call object with
    | some place =>
      let vs ← exprs call args
      changePlace place fun v => v.callMethod m.name vs
    | none =>
      let receiver ← expr call object
      let vs ← exprs call args
      return (← ofResult (receiver.callMethod m.name vs)).1
  | .binary left op right _ => produce do
    let a ← expr call left
    match op with
    | .and => if a.isTrue then expr call right else return a
    | .or => if a.isTrue then return a else expr call right
    | op =>
      let b ← expr call right
      ofResult (Value.binary op a b)
  | .unary op operand _ => produce do ofResult (Value.unary op (← expr call operand))
  | .index object i _ => produce do
    let container ← expr call object
    let key ← expr call i
    ofResult (container.index key)
  | .slice object start stop _ => produce do
    let container ← expr call object
    let a ← exprOpt call start
    let b ← exprOpt call stop
    ofResult (container.slice a b)

def exprs (call : Caller) : List Expr → Eval (List Value)
  | [] => return []
  | e :: es => do
    let v ← expr call e
    return v :: (← exprs call es)

def exprOpt (call : Caller) : Option Expr → Eval (Option Value)
  | none => return none
  | some e => do return some (← expr call e)

/-- Puts entries into a dict, one after the other. -/
def entriesOnto (call : Caller) (d : Value) : List (Expr × Expr) → Eval Value
  | [] => return d
  | (k, e) :: es => do
    let key ← expr call k
    let v ← expr call e
    entriesOnto call (← ofResult (d.setIndex key v)) es

/-- The place that an expression means, if it is a variable with subscripts. Only the subscripts are
evaluated. -/
def place? (call : Caller) : Expr → Eval (Option Place)
  | .name s _ => return some ⟨s, []⟩
  | .index object i _ => do
    match ← place? call object with
    | none => return none
    | some place => return some { place with path := place.path ++ [← expr call i] }
  | .int _ _ | .float _ _ | .str _ _ | .bool _ _ | .none _ | .list _ _ | .dict _ _ | .call _ _ _
  | .method _ _ _ _ | .binary _ _ _ _ | .unary _ _ _ | .slice _ _ _ _ => return none

end

end Eval

end MissionScript
