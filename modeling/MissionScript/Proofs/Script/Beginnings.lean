import MissionScript.Script.Ast

/-!
# Where statements begin

The lines on which the statements of a script begin, however deep they stand in it, and those on
which a condition of a branch begins. What a script does is attributed to these lines.
-/

namespace MissionScript

mutual

/-- The lines on which the statement and the parts of it that are attributed to lines begin. -/
def Stmt.lines : Stmt → List Nat
  | .ifElse branches otherwise span =>
    span.line :: (linesOfBranches branches ++ linesOfElse otherwise)
  | .forRange _ _ _ _ body span | .forEach _ _ body span | .define _ _ body span =>
    span.line :: body.lines
  | .assign _ _ _ span | .ret _ span | .brk span | .cont span | .pass span | .expr _ span =>
    [span.line]

def Block.lines : Block → List Nat
  | .mk body _ => linesOfStmts body

def linesOfStmts : List Stmt → List Nat
  | [] => []
  | s :: ss => s.lines ++ linesOfStmts ss

/-- The lines of conditions and their blocks. -/
def linesOfBranches : List (Expr × Block) → List Nat
  | [] => []
  | (condition, body) :: rest => condition.span.line :: (body.lines ++ linesOfBranches rest)

def linesOfElse : Option Block → List Nat
  | none => []
  | some b => b.lines

end

/-- The lines of a script on which a statement or the condition of a branch begins. -/
def Program.lines (p : Program) : List Nat := linesOfStmts p.stmts

theorem Stmt.line_mem_lines (s : Stmt) : s.span.line ∈ s.lines := by
  cases s <;> exact List.mem_cons_self

end MissionScript
