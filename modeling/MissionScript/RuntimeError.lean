import MissionScript.Mission.World
import MissionScript.Script.Ast
import MissionScript.Value.Arity
import MissionScript.Value.Kind

/-!
# Runtime errors

What can end a run, by its cause. An error belongs to a class; its message starts with the name of
the class, except where the rover is blocked or a budget is spent.
-/

namespace MissionScript

/-- The longest text or list that an operator or a range may build. -/
def longestSequence : Nat := 1000000

/-- The deepest nesting of lists and dicts. -/
def deepestValue : Nat := 64

inductive RuntimeError where
  | undefinedName (name : String)
  | uncalledFunction (name : String)
  | notCallable (kind : Kind)
  | argumentCount (callee : String) (arity : Arity) (given : Nat)
  | lazyOperator (op : BinOp)
  | binaryOperands (op : BinOp) (left right : Kind)
  | unordered (op : BinOp) (left right : Kind)
  | unaryOperand (op : UnaryOp) (operand : Kind)
  | absOperand (operand : Kind)
  | notContainer (kind : Kind)
  | notIterable (kind : Kind)
  | searchInText (kind : Kind)
  | unhashable (kind : Kind)
  | indexKind (container index : Kind)
  | sliceKind (bound : Kind)
  | notSubscriptable (kind : Kind)
  | notAssignable (kind : Kind)
  | noMethod (kind : Kind) (method : String)
  | notText (kind : Kind)
  | notInteger (kind : Kind)
  | moveKind (command : String) (kind : Kind)
  | noLength (kind : Kind)
  | notConvertible (kind : Kind)
  | rangeCount (given : Nat)
  | negativeMove (command : String)
  | notInList (item : String)
  | badIntegerText (text : String)
  | notANumberToInteger
  | sequenceTooLong (length : Nat)
  | rangeTooLong (count : Nat)
  | zeroStep
  | emptySequence (command : String)
  | nestedTooDeeply
  | listIndex
  | textIndex
  | listAssignmentIndex
  | popFromEmpty
  | popIndex
  | missingKey (key : String)
  | divisionByZero
  | floorDivisionByZero
  | floatFloorDivisionByZero
  | moduloByZero
  | floatModuloByZero
  | overflow
  | infinityToInteger
  | recursionTooDeep
  | blocked (o : Obstruction)
  | budgetSpent
deriving DecidableEq

namespace RuntimeError

def kind : RuntimeError → ErrorKind
  | undefinedName _ => .name
  | uncalledFunction _ | notCallable _ | argumentCount _ _ _ | lazyOperator _
  | binaryOperands _ _ _ | unordered _ _ _ | unaryOperand _ _ | absOperand _ | notContainer _
  | notIterable _ | searchInText _ | unhashable _ | indexKind _ _ | sliceKind _
  | notSubscriptable _ | notAssignable _ | noMethod _ _ | notText _ | notInteger _ | moveKind _ _
  | noLength _ | notConvertible _ | rangeCount _ => .type
  | negativeMove _ | notInList _ | badIntegerText _ | notANumberToInteger | sequenceTooLong _
  | rangeTooLong _ | zeroStep | emptySequence _ | nestedTooDeeply => .value
  | listIndex | textIndex | listAssignmentIndex | popFromEmpty | popIndex => .index
  | missingKey _ => .key
  | divisionByZero | floorDivisionByZero | floatFloorDivisionByZero | moduloByZero
  | floatModuloByZero => .zeroDivision
  | overflow | infinityToInteger => .arithmetic
  | recursionTooDeep => .recursion
  | blocked _ => .movement
  | budgetSpent => .stepLimit

/-- A kind's name between quotes. -/
def shown (k : Kind) : String := "'" ++ k.name ++ "'"

/-- The message without the class. -/
def detail : RuntimeError → String
  | undefinedName s => "name '" ++ s ++ "' is not defined"
  | uncalledFunction s => "function '" ++ s ++ "' must be called with ()"
  | notCallable k => shown k ++ " object is not callable"
  | argumentCount callee arity n =>
    callee ++ "() takes " ++ arity.wanted ++ " but " ++ Arity.given n
  | lazyOperator op => "'" ++ op.text ++ "' must be evaluated lazily"
  | binaryOperands op l r =>
    "unsupported operand type(s) for " ++ op.text ++ ": " ++ shown l ++ " and " ++ shown r
  | unordered op l r =>
    "'" ++ op.text ++ "' not supported between instances of " ++ shown l ++ " and " ++ shown r
  | unaryOperand op k => "bad operand type for unary " ++ op.text ++ ": " ++ shown k
  | absOperand k => "bad operand type for abs(): " ++ shown k
  | notContainer k => "argument of type " ++ shown k ++ " is not iterable"
  | notIterable k => shown k ++ " object is not iterable"
  | searchInText k => "'in <string>' requires string as left operand, not " ++ k.name
  | unhashable k => "unhashable type: " ++ shown k
  | indexKind c i => c.name ++ " indices must be integers, not " ++ i.name
  | sliceKind k => "slice indices must be integers or None, not " ++ k.name
  | notSubscriptable k => shown k ++ " object is not subscriptable"
  | notAssignable k => shown k ++ " object does not support item assignment"
  | noMethod k m => shown k ++ " object has no attribute '" ++ m ++ "'"
  | notText k => "must be str, not " ++ k.name
  | notInteger k => shown k ++ " object cannot be interpreted as an integer"
  | moveKind c k => c ++ "() argument must be an int, not " ++ k.name
  | noLength k => "object of type " ++ shown k ++ " has no len()"
  | notConvertible k => "int() argument must be a string or a number, not " ++ shown k
  | rangeCount n => "range expected at most 3 arguments, got " ++ toString n
  | negativeMove c => c ++ "() argument must be non-negative"
  | notInList s => s ++ " is not in list"
  | badIntegerText s => "invalid literal for int() with base 10: " ++ s
  | notANumberToInteger => "cannot convert float NaN to integer"
  | sequenceTooLong n =>
    "sequence too long (" ++ toString n ++ " > " ++ toString longestSequence ++ ")"
  | rangeTooLong n => "range() of " ++ toString n ++ " items is too large"
  | zeroStep => "range() arg 3 must not be zero"
  | emptySequence c => c ++ "() arg is an empty sequence"
  | nestedTooDeeply => "value nested too deeply (limit " ++ toString deepestValue ++ ")"
  | listIndex => "list index out of range"
  | textIndex => "string index out of range"
  | listAssignmentIndex => "list assignment index out of range"
  | popFromEmpty => "pop from empty list"
  | popIndex => "pop index out of range"
  | missingKey k => k
  | divisionByZero => "division by zero"
  | floorDivisionByZero => "integer division or modulo by zero"
  | floatFloorDivisionByZero => "float floor division by zero"
  | moduloByZero => "integer modulo by zero"
  | floatModuloByZero => "float modulo"
  | overflow => "integer overflow"
  | infinityToInteger => "cannot convert float infinity to integer"
  | recursionTooDeep => "maximum recursion depth exceeded"
  | blocked o => o.text
  | budgetSpent => "step limit exceeded"

def message (e : RuntimeError) : String :=
  match e with
  | blocked _ | budgetSpent => e.detail
  | _ => e.kind.title ++ ": " ++ e.detail

end RuntimeError

end MissionScript
