import MissionScript.Script.ExprParser

/-!
# Statements from tokens

A simple statement fills the rest of its line. A compound one has a block: a simple statement on the
same line, or indented statements below. Functions are defined at the top level only, loops are left
from inside a loop only, and functions are returned from inside a function only.
-/

namespace MissionScript

open Parse

/-- Where a statement stands. -/
structure Setting where
  inLoop : Bool
  inFunction : Bool
  inBlock : Bool
deriving DecidableEq

def Setting.top : Setting := ⟨false, false, false⟩

def assignOp? : Lexeme → Option AssignOp
  | .symbol .eq => some .set
  | .symbol .plusEq => some .add
  | .symbol .minusEq => some .sub
  | .symbol .starEq => some .mul
  | _ => none

/-- What may stand on the left of an assignment: a name or an item. -/
def target? : Expr → Option Target
  | .name s mark => some (.name ⟨s, mark.span⟩)
  | .index object i _ => some (.item object i)
  | _ => none

/-- An expression, or an assignment to it. -/
def assignmentOrExpr : Parse Stmt := do
  let left ← expression
  match assignOp? (← peek) with
  | none => return .expr left left.span
  | some op =>
    match target? left with
    | none => failAt .invalidTarget left.span
    | some target =>
      let _ ← take
      let value ← expression
      return .assign target op value (left.span.merge value.span)

def returnStmt (s : Setting) : Parse Stmt := do
  if s.inFunction then
    let start ← take
    match ← peek with
    | .newline | .eof | .dedent => return .ret none start
    | _ =>
      let value ← expression
      return .ret (some value) (start.merge value.span)
  else fail .outsideFunction

def simpleStmt (s : Setting) : Parse Stmt := do
  match ← peek with
  | .keyword .breakWord =>
    if s.inLoop then return .brk (← take) else fail (.outsideLoop .breakWord)
  | .keyword .continueWord =>
    if s.inLoop then return .cont (← take) else fail (.outsideLoop .continueWord)
  | .keyword .passWord => return .pass (← take)
  | .keyword .returnWord => returnStmt s
  | .keyword .defWord => fail (.mustStartLine .defWord)
  | .keyword .ifWord => fail (.mustStartLine .ifWord)
  | .keyword .forWord => fail (.mustStartLine .forWord)
  | _ => assignmentOrExpr

/-- A simple statement with the end of its line. -/
def simpleLine (s : Setting) : Parse Stmt := do
  let stmt ← simpleStmt s
  expectLineEnd
  return stmt

/-- Statements up to the end of the block, at most as many as `bound`. -/
def blockFrom (inner : Parse Stmt) : Nat → List Stmt → Parse (List Stmt)
  | 0, sofar => return sofar.reverse
  | bound + 1, sofar => do
    match ← peek with
    | .dedent | .eof => return sofar.reverse
    | _ =>
      let stmt ← inner
      blockFrom inner bound (stmt :: sofar)

/-- The block of `owner`; `inner` reads the statements of an indented one. -/
def block (inner : Setting → Parse Stmt) (s : Setting) (owner : String) : Parse Block := do
  if ← eat .newline then
    if ← eat .indent then
      let stmts ← blockFrom (inner { s with inBlock := true }) (← remaining) []
      let _ ← eat .dedent
      return .mk stmts (coveringSpan (← previous) stmts)
    else fail (.missingBlock owner)
  else
    let stmt ← simpleLine s
    return .mk [stmt] stmt.span

/-- A condition with its block. -/
def guarded (inner : Setting → Parse Stmt) (s : Setting) (clause owner : String) :
    Parse (Expr × Block) := do
  let condition ← expression
  expectColon clause
  return (condition, ← block inner s owner)

/-- Further conditions with their blocks, at most as many as `bound`. -/
def elifsFrom (inner : Setting → Parse Stmt) (s : Setting) :
    Nat → List (Expr × Block) → Parse (List (Expr × Block))
  | 0, sofar => return sofar.reverse
  | bound + 1, sofar => do
    if ← eat (.keyword .elifWord) then
      let b ← guarded inner s "elif condition" "'elif'"
      elifsFrom inner s bound (b :: sofar)
    else return sofar.reverse

def ifStmt (inner : Setting → Parse Stmt) (s : Setting) : Parse Stmt := do
  let start ← take
  let first ← guarded inner s "if condition" "'if'"
  let branches ← elifsFrom inner s (← remaining) [first]
  let last := (branches.getLast?.getD first).2.span
  if ← eat (.keyword .elseWord) then
    expectColon "'else'"
    let otherwise ← block inner s "'else'"
    return .ifElse branches (some otherwise) (start.merge otherwise.span)
  else return .ifElse branches none (start.merge last)

/-- A loop over `range(…)` with one to three arguments counts without making a list; any other loop
goes over the items of a value, whose node is made again. -/
def loopOver (var : Ident) (items : Expr) (body : Block) (span : Span) : Stmt :=
  match items with
  | .call callee args _ =>
    if callee.name = "range" then
      match args with
      | [stop] => .forRange var none stop none body span
      | [start, stop] => .forRange var (some start) stop none body span
      | [start, stop, step] => .forRange var (some start) stop (some step) body span
      | _ => .forEach var (items.new items.span) body span
    else .forEach var (items.new items.span) body span
  | _ => .forEach var (items.new items.span) body span

def forStmt (inner : Setting → Parse Stmt) (s : Setting) : Parse Stmt := do
  let start ← take
  let var ← expectName "a loop variable"
  let _ ← expect (.keyword .inWord)
  let items ← expression
  expectColon "for clause"
  let body ← block inner { s with inLoop := true } "'for'"
  return loopOver var items body (start.merge body.span)

/-- Parameters up to the closing parenthesis, all different, at most as many as `bound`. -/
def paramsFrom : Nat → List Ident → Parse (List Ident)
  | 0, sofar => return sofar.reverse
  | bound + 1, sofar => do
    if (← peek) = .symbol .rparen then return sofar.reverse
    else
      let p ← expectName "a parameter name"
      if sofar.any (·.name = p.name) then failAt (.duplicateParameter p.name) p.span
      else if ← eat (.symbol .comma) then paramsFrom bound (p :: sofar)
      else return (p :: sofar).reverse

def defStmt (inner : Setting → Parse Stmt) (s : Setting) : Parse Stmt := do
  if s.inBlock then fail .nestedFunction
  else
    let start ← take
    let name ← expectName "a function name"
    let _ ← expect (.symbol .lparen)
    let params ← paramsFrom (← remaining) []
    let _ ← expect (.symbol .rparen)
    expectColon "function signature"
    let body ← block inner { s with inFunction := true } "'def'"
    return .define name params body (start.merge body.span)

def stmtWith (inner : Setting → Parse Stmt) (s : Setting) : Parse Stmt := do
  match ← peek with
  | .keyword .ifWord => ifStmt inner s
  | .keyword .forWord => forStmt inner s
  | .keyword .defWord => defStmt inner s
  | .indent => fail .unexpectedIndent
  | .keyword .elifWord => fail (.strayBranch .elifWord)
  | .keyword .elseWord => fail (.strayBranch .elseWord)
  | _ => simpleLine s

/-- A statement with blocks inside blocks at most `depth` deep. -/
def stmtAt : Nat → Setting → Parse Stmt
  | 0, s => simpleLine s
  | depth + 1, s => stmtWith (stmtAt depth) s

/-- Top-level statements to the end of the text, at most as many as `bound`. -/
def stmtsFrom (stmt : Parse Stmt) : Nat → List Stmt → Parse (List Stmt)
  | 0, sofar => return sofar.reverse
  | bound + 1, sofar => do
    match ← peek with
    | .eof => return sofar.reverse
    | .newline =>
      let _ ← take
      stmtsFrom stmt bound sofar
    | _ =>
      let s ← stmt
      stmtsFrom stmt bound (s :: sofar)

/-- A whole script. Every block takes at least one token for its head, so there are no more blocks
inside each other than tokens. -/
def program : Parse Program := do
  let n ← remaining
  let stmts ← stmtsFrom (stmtAt n .top) n []
  return ⟨stmts, coveringSpan (.point 1 1) stmts⟩

/-- The script that a token list stands for. -/
def Program.ofTokens (ts : List Token) : Except ParseError Program :=
  (program.run (.ofTokens ts)).map (·.1)

end MissionScript
