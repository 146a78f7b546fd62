import MissionScript.Source.Span

/-!
# Scripts as trees

Every node keeps its span; the line of a statement is what its frames are attributed to. The nodes
of expressions keep the height of the tree under them as well, so that a tall tree is noticed
without going through it. Calls name their function: functions are not values.
-/

namespace MissionScript

/-- A name where it stands. -/
structure Ident where
  name : String
  span : Span
deriving DecidableEq, Inhabited

/-- Binary operators, the loosest first. -/
inductive BinOp where
  | or
  | and
  | eq
  | notEq
  | less
  | greater
  | lessEq
  | greaterEq
  | isIn
  | notIn
  | add
  | sub
  | mul
  | div
  | floorDiv
  | mod
deriving DecidableEq

def BinOp.text : BinOp → String
  | or => "or"
  | and => "and"
  | eq => "=="
  | notEq => "!="
  | less => "<"
  | greater => ">"
  | lessEq => "<="
  | greaterEq => ">="
  | isIn => "in"
  | notIn => "not in"
  | add => "+"
  | sub => "-"
  | mul => "*"
  | div => "/"
  | floorDiv => "//"
  | mod => "%"

inductive UnaryOp where
  | neg
  | pos
  | not
deriving DecidableEq

def UnaryOp.text : UnaryOp → String
  | neg => "-"
  | pos => "+"
  | not => "not"

/-- What every node of an expression keeps besides its parts: where it stands, and how tall the tree
under it is. -/
structure Mark where
  span : Span
  height : Nat
deriving Inhabited

inductive Expr where
  | int (n : Int64) (mark : Mark)
  | float (x : Float) (mark : Mark)
  | str (s : String) (mark : Mark)
  | bool (b : Bool) (mark : Mark)
  | none (mark : Mark)
  | name (s : String) (mark : Mark)
  | list (items : List Expr) (mark : Mark)
  | dict (entries : List (Expr × Expr)) (mark : Mark)
  | call (callee : Ident) (args : List Expr) (mark : Mark)
  | method (object : Expr) (method : Ident) (args : List Expr) (mark : Mark)
  | binary (left : Expr) (op : BinOp) (right : Expr) (mark : Mark)
  | unary (op : UnaryOp) (operand : Expr) (mark : Mark)
  | index (object index : Expr) (mark : Mark)
  | slice (object : Expr) (start stop : Option Expr) (mark : Mark)
deriving Inhabited

namespace Expr

def mark : Expr → Mark
  | int _ m | float _ m | str _ m | bool _ m | none m | name _ m | list _ m | dict _ m
  | call _ _ m | method _ _ _ m | binary _ _ _ m | unary _ _ m | index _ _ m | slice _ _ _ m => m

def span (e : Expr) : Span := e.mark.span

/-- The height that the node keeps. -/
def height (e : Expr) : Nat := e.mark.height

/-- The same tree with another mark at its root. -/
def withMark (mark : Mark) : Expr → Expr
  | int n _ => int n mark
  | float x _ => float x mark
  | str s _ => str s mark
  | bool b _ => bool b mark
  | none _ => none mark
  | name s _ => name s mark
  | list items _ => list items mark
  | dict entries _ => dict entries mark
  | call callee args _ => call callee args mark
  | method object m args _ => method object m args mark
  | binary left op right _ => binary left op right mark
  | unary op operand _ => unary op operand mark
  | index object i _ => index object i mark
  | slice object start stop _ => slice object start stop mark

/-- The greatest height among the trees, zero if there is none. -/
def tallest (es : List Expr) : Nat := (es.map height).foldl max 0

/-- The greatest height among the direct parts, zero for a node without parts. -/
def partsHeight : Expr → Nat
  | int _ _ | float _ _ | str _ _ | bool _ _ | none _ | name _ _ => 0
  | list items _ | call _ items _ => tallest items
  | dict entries _ => tallest (entries.flatMap fun e => [e.1, e.2])
  | method object _ args _ => tallest (object :: args)
  | binary left _ right _ => max left.height right.height
  | unary _ operand _ => operand.height
  | index object i _ => max object.height i.height
  | slice object start stop _ => tallest (object :: (start.toList ++ stop.toList))

/-- Heights are counted up to this one. -/
def largestHeight : Nat := 0xffffffff

/-- The height that a node is given: one more than its parts have. -/
def newHeight (e : Expr) : Nat := min (e.partsHeight + 1) largestHeight

/-- Makes a node at `span`. It is given as a tree whose own mark does not count: the height is
found anew from the parts. -/
def new (e : Expr) (span : Span) : Expr := e.withMark ⟨span, e.newHeight⟩

@[simp]
theorem mark_withMark (e : Expr) (m : Mark) : (e.withMark m).mark = m := by
  cases e <;> rfl

@[simp]
theorem span_new (e : Expr) (span : Span) : (e.new span).span = span := by
  rw [Expr.span, new, mark_withMark]

@[simp]
theorem height_new (e : Expr) (span : Span) : (e.new span).height = e.newHeight := by
  rw [height, new, mark_withMark]

end Expr

/-- Where an assignment puts its value. -/
inductive Target where
  | name (name : Ident)
  | item (object index : Expr)
deriving Inhabited

inductive AssignOp where
  | set
  | add
  | sub
  | mul
deriving DecidableEq

namespace AssignOp

/-- The operator an augmented assignment applies. -/
def binary? : AssignOp → Option BinOp
  | set => Option.none
  | add => some .add
  | sub => some .sub
  | mul => some .mul

def text : AssignOp → String
  | set => "="
  | add => "+="
  | sub => "-="
  | mul => "*="

end AssignOp

mutual

inductive Stmt where
  | assign (target : Target) (op : AssignOp) (value : Expr) (span : Span)
  | ifElse (branches : List (Expr × Block)) (otherwise : Option Block) (span : Span)
  | forRange (var : Ident) (start : Option Expr) (stop : Expr) (step : Option Expr) (body : Block)
      (span : Span)
  | forEach (var : Ident) (items : Expr) (body : Block) (span : Span)
  | define (name : Ident) (params : List Ident) (body : Block) (span : Span)
  | ret (value : Option Expr) (span : Span)
  | brk (span : Span)
  | cont (span : Span)
  | pass (span : Span)
  | expr (e : Expr) (span : Span)

/-- The statements under one head. -/
inductive Block where
  | mk (stmts : List Stmt) (span : Span)

end

instance : Inhabited Block := ⟨⟨[], default⟩⟩

def Stmt.span : Stmt → Span
  | assign _ _ _ s | ifElse _ _ s | forRange _ _ _ _ _ s | forEach _ _ _ s | define _ _ _ s
  | ret _ s | brk s | cont s | pass s | expr _ s => s

def Block.stmts : Block → List Stmt
  | mk stmts _ => stmts

def Block.span : Block → Span
  | mk _ span => span

/-- The span from the first statement to the last, or `empty` if there is none. -/
def coveringSpan (empty : Span) (stmts : List Stmt) : Span :=
  match stmts.head?, stmts.getLast? with
  | some first, some last => first.span.merge last.span
  | _, _ => empty

/-- A script: its top-level statements in order. -/
structure Program where
  stmts : List Stmt
  span : Span

/-- A function as its definition gave it. -/
structure Function where
  name : Ident
  params : List Ident
  body : Block

end MissionScript
