import MissionScript.Script.Reader

/-!
# Expressions from tokens

From the loosest operators to the tightest: `or`, `and`, `not`, one comparison, sums, products,
signs, and what may follow a value. Brackets, argument lists and prefix operators lead one nesting
level deeper. A level is built from the parsers one level deeper, so the whole grammar is that step
applied as often as nesting is allowed.
-/

namespace MissionScript

open Parse

/-- What a level of nesting offers to the level around it. -/
structure Nested where
  expression : Parse Expr
  negation : Parse Expr
  signed : Parse Expr

/-- Two operands and the operator between them. -/
def joined (left : Expr) (op : BinOp) (right : Expr) : Expr :=
  .new (.binary left op right default) (left.span.merge right.span)

/-- Refuses a tree that has grown too tall. -/
def bounded (e : Expr) : Parse Expr :=
  if e.height ≤ heightLimit then pure e else failAt .tooTall e.span

/-- Applies operators of one rank from the left, each operand read by `operand`. At most as many
operators as `bound`. -/
def chainFrom (operand : Parse Expr) (op? : Lexeme → Option BinOp) : Nat → Expr → Parse Expr
  | 0, left => return left
  | bound + 1, left => do
    match op? (← peek) with
    | none => return left
    | some op =>
      let _ ← take
      let right ← operand
      let e ← bounded (joined left op right)
      chainFrom operand op? bound e

def chain (operand : Parse Expr) (op? : Lexeme → Option BinOp) : Parse Expr := do
  let left ← operand
  chainFrom operand op? (← remaining) left

def productOp? : Lexeme → Option BinOp
  | .symbol .star => some .mul
  | .symbol .slash => some .div
  | .symbol .slashSlash => some .floorDiv
  | .symbol .percent => some .mod
  | _ => none

def sumOp? : Lexeme → Option BinOp
  | .symbol .plus => some .add
  | .symbol .minus => some .sub
  | _ => none

def andOp? : Lexeme → Option BinOp
  | .keyword .andWord => some .and
  | _ => none

def orOp? : Lexeme → Option BinOp
  | .keyword .orWord => some .or
  | _ => none

def sign? : Lexeme → Option UnaryOp
  | .symbol .minus => some .neg
  | .symbol .plus => some .pos
  | _ => none

/-- The comparison that starts with these two lexemes, and how many of them it takes. -/
def comparison? : Lexeme → Lexeme → Option (BinOp × Nat)
  | .symbol .eqEq, _ => some (.eq, 1)
  | .symbol .bangEq, _ => some (.notEq, 1)
  | .symbol .less, _ => some (.less, 1)
  | .symbol .greater, _ => some (.greater, 1)
  | .symbol .lessEq, _ => some (.lessEq, 1)
  | .symbol .greaterEq, _ => some (.greaterEq, 1)
  | .keyword .inWord, _ => some (.isIn, 1)
  | .keyword .notWord, .keyword .inWord => some (.notIn, 2)
  | _, _ => none

def comparisonHere? : Parse (Option (BinOp × Nat)) := do
  let r ← get
  return comparison? r.peek r.peekNext

/-- One entry of a dict: a key, a colon and a value. -/
def entry (deeper : Nested) : Parse (Expr × Expr) := do
  let key ← deeper.expression
  let _ ← expect (.symbol .colon)
  return (key, ← deeper.expression)

/-- An expression in parentheses; it takes the span of the parentheses. -/
def parenthesized (deeper : Nested) : Parse Expr := do
  let start ← take
  let inner ← deeper.expression
  if (← peek) = .symbol .comma then fail .tuple
  else
    let _ ← expect (.symbol .rparen)
    return inner.new (start.merge (← previous))

def listLiteral (deeper : Nested) : Parse Expr := do
  let start ← take
  let items ← enclosed deeper.expression .rbracket
  return .new (.list items default) (start.merge (← previous))

def dictLiteral (deeper : Nested) : Parse Expr := do
  let start ← take
  let entries ← enclosed (entry deeper) .rbrace
  return .new (.dict entries default) (start.merge (← previous))

/-- A literal, a name or something in brackets. -/
def primary (deeper : Nested) : Parse Expr := do
  match ← peek with
  | .int n => return .new (.int n default) (← take)
  | .float x => return .new (.float x default) (← take)
  | .str s => return .new (.str s default) (← take)
  | .name s => return .new (.name s default) (← take)
  | .keyword .trueWord => return .new (.bool true default) (← take)
  | .keyword .falseWord => return .new (.bool false default) (← take)
  | .keyword .noneWord => return .new (.none default) (← take)
  | .symbol .lparen => parenthesized deeper
  | .symbol .lbracket => listLiteral deeper
  | .symbol .lbrace => dictLiteral deeper
  | .newline | .eof => fail .endOfLine
  | got => fail (.expectedExpression got)

/-- An expression, unless `stop` stands here. -/
def unlessAt (stop : Symbol) (deeper : Nested) : Parse (Option Expr) := do
  if (← peek) = .symbol stop then return none else return some (← deeper.expression)

/-- An index or a slice, after its opening bracket. -/
def subscript (deeper : Nested) (object : Expr) : Parse Expr := do
  let start ← unlessAt .colon deeper
  if ← eat (.symbol .colon) then
    let stop ← unlessAt .rbracket deeper
    let _ ← expect (.symbol .rbracket)
    return .new (.slice object start stop default) (object.span.merge (← previous))
  else
    match start with
    | some i =>
      let _ ← expect (.symbol .rbracket)
      return .new (.index object i default) (object.span.merge (← previous))
    | none => fail .missingIndex

/-- A call of the name `e`, from its opening parenthesis on. -/
def callOf (deeper : Nested) (e : Expr) : Parse Expr := do
  match e with
  | .name s _ =>
    let _ ← take
    let args ← enclosed deeper.expression .rparen
    return .new (.call ⟨s, e.span⟩ args default) (e.span.merge (← previous))
  | _ => fail .notCallable

/-- A method call on `e`, from its point on. -/
def methodOf (deeper : Nested) (e : Expr) : Parse Expr := do
  let _ ← take
  let m ← expectName "a method name"
  if (← peek) = .symbol .lparen then
    let _ ← take
    let args ← enclosed deeper.expression .rparen
    return .new (.method e m args default) (e.span.merge (← previous))
  else failAt (.bareAttribute m.name) m.span

/-- Calls, subscripts and method calls after `e`, at most as many as `bound`. -/
def postfixFrom (deeper : Nested) : Nat → Expr → Parse Expr
  | 0, e => return e
  | bound + 1, e => do
    match ← peek with
    | .symbol .lparen => postfixFrom deeper bound (← bounded (← callOf deeper e))
    | .symbol .lbracket =>
      let _ ← take
      postfixFrom deeper bound (← bounded (← subscript deeper e))
    | .symbol .dot => postfixFrom deeper bound (← bounded (← methodOf deeper e))
    | _ => return e

def postfixed (deeper : Nested) : Parse Expr := do
  let e ← primary deeper
  postfixFrom deeper (← remaining) e

/-- A sign applies to what stands one level deeper. -/
def signedWith (deeper : Nested) : Parse Expr := do
  match sign? (← peek) with
  | some op =>
    let start ← take
    let operand ← deeper.signed
    return .new (.unary op operand default) (start.merge operand.span)
  | none => postfixed deeper

/-- At most one comparison; comparisons do not chain. -/
def comparisonWith (deeper : Nested) : Parse Expr := do
  let sum := chain (chain (signedWith deeper) productOp?) sumOp?
  let left ← sum
  match ← comparisonHere? with
  | none => return left
  | some (op, n) =>
    let _ ← take
    if n = 2 then
      let _ ← take
    let right ← sum
    match ← comparisonHere? with
    | some _ => fail .chainedComparison
    | none => return joined left op right

def negationWith (deeper : Nested) : Parse Expr := do
  if (← peek) = .keyword .notWord then
    let start ← take
    let operand ← deeper.negation
    return .new (.unary .not operand default) (start.merge operand.span)
  else comparisonWith deeper

def expressionWith (deeper : Nested) : Parse Expr := do
  let e ← chain (chain (negationWith deeper) andOp?) orOp?
  bounded e

/-- Beyond the last level nothing can be read. -/
def Nested.exhausted : Nested := ⟨fail .tooNested, fail .tooNested, fail .tooNested⟩

/-- One level around the parsers of the level below it. -/
def Nested.around (deeper : Nested) : Nested :=
  ⟨expressionWith deeper, negationWith deeper, signedWith deeper⟩

/-- What can be read with `levels` levels of nesting left. -/
def Nested.levels : Nat → Nested
  | 0 => .exhausted
  | n + 1 => (levels n).around

/-- An expression. -/
def expression : Parse Expr := (Nested.levels nestingLimit).expression

end MissionScript
