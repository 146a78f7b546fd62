import MissionScript.Script.Ast

/-!
# Where a script changes values

The assignments and the method calls of a script, however deep they stand in it. What a script can
do to the values it has depends on these alone.
-/

namespace MissionScript

/-- A part of a script that can give a variable another value. -/
inductive Change where
  | assign (target : Target) (op : AssignOp)
  | method (object : Expr) (name : String)

namespace Expr

/-- How many subscripts follow the innermost object. -/
def subscripts : Expr → Nat
  | index object _ _ => object.subscripts + 1
  | _ => 0

mutual

/-- All changes in an expression. -/
def changes : Expr → List Change
  | int _ _ | float _ _ | str _ _ | bool _ _ | none _ | name _ _ => []
  | list items _ => changesOfAll items
  | dict entries _ => changesOfEntries entries
  | call _ args _ => changesOfAll args
  | method object m args _ => .method object m.name :: (object.changes ++ changesOfAll args)
  | binary left _ right _ => left.changes ++ right.changes
  | unary _ operand _ => operand.changes
  | index object i _ => object.changes ++ i.changes
  | slice object start stop _ => object.changes ++ (changesOfOpt start ++ changesOfOpt stop)

def changesOfAll : List Expr → List Change
  | [] => []
  | e :: es => e.changes ++ changesOfAll es

def changesOfEntries : List (Expr × Expr) → List Change
  | [] => []
  | (k, e) :: es => k.changes ++ (e.changes ++ changesOfEntries es)

def changesOfOpt : Option Expr → List Change
  | Option.none => []
  | some e => e.changes

end

end Expr

/-- The changes in the expressions of a target. -/
def Target.changes : Target → List Change
  | name _ => []
  | item object index => object.changes ++ index.changes

mutual

/-- All changes in a statement. -/
def Stmt.changes : Stmt → List Change
  | .assign target op value _ => .assign target op :: (target.changes ++ value.changes)
  | .ifElse branches otherwise _ => changesOfBranches branches ++ changesOfElse otherwise
  | .forRange _ start stop step body _ =>
    Expr.changesOfOpt start ++ (stop.changes ++ (Expr.changesOfOpt step ++ body.changes))
  | .forEach _ items body _ => items.changes ++ body.changes
  | .define _ _ body _ => body.changes
  | .ret value _ => Expr.changesOfOpt value
  | .brk _ | .cont _ | .pass _ => []
  | .expr e _ => e.changes

def Block.changes : Block → List Change
  | .mk body _ => changesOfStmts body

def changesOfStmts : List Stmt → List Change
  | [] => []
  | s :: ss => s.changes ++ changesOfStmts ss

def changesOfBranches : List (Expr × Block) → List Change
  | [] => []
  | (condition, body) :: rest => condition.changes ++ (body.changes ++ changesOfBranches rest)

def changesOfElse : Option Block → List Change
  | none => []
  | some b => b.changes

end

end MissionScript
