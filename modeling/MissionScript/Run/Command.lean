import MissionScript.Decimal.Read
import MissionScript.Run.Session
import MissionScript.Value.Methods
import MissionScript.Value.Range

/-!
# Commands

The functions that scripts find ready made. Moving and speaking are visible: they take steps and
leave frames. The others compute a value.
-/

namespace MissionScript

inductive Command where
  | move (d : Direction)
  | speak
  | abs
  | sum
  | max
  | min
  | len
  | range
  | str
  | int
deriving DecidableEq

namespace Command

def name : Command → String
  | move d => "move_" ++ d.name
  | speak => "speak"
  | abs => "abs"
  | sum => "sum"
  | max => "max"
  | min => "min"
  | len => "len"
  | range => "range"
  | str => "str"
  | int => "int"

def arity : Command → Arity
  | move _ => .range 0 1
  | speak | abs | sum | len => .exact 1
  | max | min => .atLeast 1
  | range => .range 1 3
  | str | int => .range 0 1

/-- Whether the command takes steps and leaves frames. -/
def isVisible : Command → Bool
  | move _ | speak => true
  | _ => false

/-- All commands, ordered by name. -/
def standard : List Command :=
  [abs, int, len, max, min, move .down, move .left, move .right, move .up, range, speak, str, sum]

/-- A computation as an action that changes nothing. -/
def ofResult {σ α : Type} (r : Value.Result α) : EStateM RuntimeError σ α :=
  match r with
  | .ok a => return a
  | .error e => throw e

/-- How many steps a move goes. -/
def moveCount (command : String) (args : List Value) : Value.Result Nat :=
  match args with
  | [] => .ok 1
  | .int n :: _ => if 0 ≤ n.toInt then .ok n.toInt.toNat else .error (.negativeMove command)
  | v :: _ => .error (.moveKind command v.kind)

/-- The plain text of the argument, if there is one. -/
def textOfArg (args : List Value) : String :=
  match args with
  | [] => ""
  | v :: _ => v.text

def magnitude (v : Value) : Value.Result Value :=
  match v with
  | .int n => Value.ofInt n.toInt.natAbs
  | .float x => .ok (.float x.abs)
  | v => .error (.absOperand v.kind)

/-- The items added up from the left, starting with `total`. -/
def total (sofar : Value) : List Value → Value.Result Value
  | [] => .ok sofar
  | v :: vs => do total (← Value.binary .add sofar v) vs

/-- The first of the items to which no other one compares as `want`, if all compare. -/
def extremeFrom (want : Ordering) (op : BinOp) (best : Value) : List Value → Value.Result Value
  | [] => .ok best
  | v :: vs =>
    match v.order best with
    | none => .error (.unordered op v.kind best.kind)
    | some o => extremeFrom want op (if o = want then v else best) vs

/-- The extreme of the arguments, or of the items of a single argument. -/
def extreme (name : String) (want : Ordering) (op : BinOp) (args : List Value) :
    Value.Result Value := do
  let items ← match args with
    | [v] => v.items
    | vs => pure vs
  match items with
  | [] => .error (.emptySequence name)
  | v :: vs => extremeFrom want op v vs

def length (v : Value) : Value.Result Value :=
  match v with
  | .str s => .ok (.ofSize s.length)
  | .list items => .ok (.ofSize items.length)
  | .dict entries => .ok (.ofSize entries.length)
  | v => .error (.noLength v.kind)

/-- The whole number that a text spells: perhaps a sign, then digits only. -/
def integerOf? (cs : List Char) : Option Int :=
  let magnitude? (ds : List Char) : Option Int :=
    if !ds.isEmpty && ds.all Char.isDigit then some (Decimal.natOfDigits ds) else none
  match cs with
  | '-' :: ds => (magnitude? ds).map (-·)
  | '+' :: ds => magnitude? ds
  | ds => magnitude? ds

def ofText (s : String) : Value.Result Value :=
  let refused : Value.Result Value := .error (.badIntegerText (Value.str s).written)
  match integerOf? (Text.trimmed s.toList) with
  | none => refused
  | some n => if Value.smallestInt ≤ n ∧ n ≤ Value.largestInt then .ok (.int (Int64.ofInt n)) else refused

/-- A float cut off at its point. -/
def ofFloat (x : Float) : Value.Result Value :=
  match Decimal.binary? x with
  | some b => Value.ofInt b.whole
  | none => if x == x then .error .infinityToInteger else .error .notANumberToInteger

def toInteger (args : List Value) : Value.Result Value :=
  match args with
  | [] => .ok (.int 0)
  | .int n :: _ => .ok (.int n)
  | .bool b :: _ => .ok (.int (if b then 1 else 0))
  | .float x :: _ => ofFloat x
  | .str s :: _ => ofText s
  | v :: _ => .error (.notConvertible v.kind)

/-- The ints of a range as a list. They are paid for before their number is looked at. -/
def materialize (args : List Value) : Act Value := do
  let r ← ofResult (IntRange.ofArgs args)
  Session.charge r.count
  if r.count ≤ longestSequence then return .list (r.take r.count)
  else throw (.rangeTooLong r.count)

/-- What the command does with arguments whose number is right. -/
def effect (c : Command) (args : List Value) : Act Value :=
  match c with
  | move d => do
    let n ← ofResult (moveCount c.name args)
    Session.times (Session.moveOnce d) n
    return .none
  | speak => do
    Session.speak (textOfArg args)
    return .none
  | abs => ofResult (magnitude (Value.first args))
  | sum => do
    let items ← ofResult (Value.first args).items
    Session.charge items.length
    ofResult (total (.int 0) items)
  | max => do
    Session.charge args.length
    ofResult (extreme "max" .gt .greater args)
  | min => do
    Session.charge args.length
    ofResult (extreme "min" .lt .less args)
  | len => ofResult (length (Value.first args))
  | range => materialize args
  | str => return .str (textOfArg args)
  | int => ofResult (toInteger args)

def invoke (c : Command) (args : List Value) : Act Value := do
  ofResult (c.arity.check c.name args.length)
  c.effect args

end Command

end MissionScript
