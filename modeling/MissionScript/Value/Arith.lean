import MissionScript.Decimal.Binary
import MissionScript.RuntimeError
import MissionScript.Value.Compare

/-!
# Operators on values

Two ints give an int, computed exactly and refused if it does not fit; an int and a float give a
float. Division always gives a float, floor division rounds down, and a remainder has the sign of
the divisor. Texts and lists can be joined and repeated up to a limit on their size.
-/

namespace MissionScript.Value

/-- What computing on values gives. -/
abbrev Result (α : Type) := Except RuntimeError α

def smallestInt : Int := -0x8000000000000000

def largestInt : Int := 0x7fffffffffffffff

/-- An exact result as a value, if it fits. -/
def ofInt (n : Int) : Result Value :=
  if smallestInt ≤ n ∧ n ≤ largestInt then .ok (int (Int64.ofInt n)) else .error .overflow

/-- Refuses a text or list of this size if it is too long. -/
def checkLength (n : Nat) : Result Unit :=
  if n ≤ longestSequence then .ok () else .error (.sequenceTooLong n)

/-- An operation on two ints or, where one is a float, on two floats. -/
def arith (op : BinOp) (onInts : Int → Int → Int) (onFloats : Float → Float → Float)
    (a b : Value) : Result Value :=
  match a, b with
  | int m, int n => ofInt (onInts m.toInt n.toInt)
  | a, b =>
    match a.number?, b.number? with
    | some x, some y => .ok (float (onFloats x y))
    | _, _ => .error (.binaryOperands op a.kind b.kind)

def add (a b : Value) : Result Value :=
  match a, b with
  | str s, str t => do
    checkLength (s.utf8ByteSize + t.utf8ByteSize)
    return str (s ++ t)
  | list as, list bs => do
    checkLength (weightOfItems 0 as + weightOfItems 0 bs)
    return list (as ++ bs)
  | a, b => arith .add (· + ·) (· + ·) a b

def sub (a b : Value) : Result Value := arith .sub (· - ·) (· - ·) a b

/-- Sizes are counted up to this one. -/
def largestSize : Nat := 0xffffffffffffffff

/-- How often something of the given size is repeated; a negative count repeats it zero times. -/
def repeatCount (size : Nat) (n : Int64) : Result Nat := do
  let count := n.toInt.toNat
  checkLength (min (size * count) largestSize)
  return count

/-- `n` copies of the items, one after the other. -/
def copies {α : Type} (n : Nat) (items : List α) : List α :=
  if items.isEmpty then [] else (List.replicate n items).flatten

def repeatText (s : String) (n : Int64) : Result Value := do
  let count ← repeatCount s.utf8ByteSize n
  return str (String.ofList (copies count s.toList))

def repeatList (items : List Value) (n : Int64) : Result Value := do
  let count ← repeatCount (weightOfItems 0 items) n
  return list (copies count items)

def mul (a b : Value) : Result Value :=
  match a, b with
  | str s, int n => repeatText s n
  | int n, str s => repeatText s n
  | list items, int n => repeatList items n
  | int n, list items => repeatList items n
  | a, b => arith .mul (· * ·) (· * ·) a b

/-- An operation on two floats that refuses a zero divisor. -/
def floatQuotient (op : BinOp) (byZero : RuntimeError) (f : Float → Float → Float) (a b : Value) :
    Result Value :=
  match a.number?, b.number? with
  | some x, some y => if y == 0.0 then .error byZero else .ok (float (f x y))
  | _, _ => .error (.binaryOperands op a.kind b.kind)

def div (a b : Value) : Result Value := floatQuotient .div .divisionByZero (· / ·) a b

/-- The quotient of two ints rounded toward zero, if it is an int. -/
def quotient? (a b : Int64) : Option Int64 :=
  if b = 0 ∨ a = Int64.minValue ∧ b = -1 then Option.none else some (a / b)

/-- What the quotient rounded toward zero leaves; it has the sign of `a`. It is missing where the
quotient is. -/
def rest? (a b : Int64) : Option Int64 :=
  if b = 0 ∨ a = Int64.minValue ∧ b = -1 then Option.none else some (a % b)

/-- Whether what is left lies on the other side of zero than the divisor. Then the quotient rounded
down is one less than the one rounded toward zero, and leaves one divisor more. -/
def isOpposite (rest divisor : Int64) : Bool :=
  rest != 0 && (decide (rest < 0) != decide (divisor < 0))

/-- An int that was computed with a check. -/
def checked : Option Int64 → Result Int64
  | some n => .ok n
  | Option.none => .error .overflow

def floorDiv (a b : Value) : Result Value :=
  match a, b with
  | int m, int n =>
    if n = 0 then .error .floorDivisionByZero
    else do
      let q ← checked (quotient? m n)
      let r ← checked (rest? m n)
      return int (if isOpposite r n then q - 1 else q)
  | a, b => floatQuotient .floorDiv .floatFloorDivisionByZero (fun x y => (x / y).floor) a b

def notANumber : Float := 0.0 / 0.0

/-- What is left of `x` after taking out `y` as often as it fits; it has the sign of `x`. -/
def floatRest (x y : Float) : Float :=
  match Decimal.binary? x, Decimal.binary? y with
  | some a, some b => if b.mantissa = 0 then notANumber else (a.remainder b).toFloat
  | some _, Option.none => if y == y then x else notANumber
  | Option.none, _ => notANumber

/-- The remainder of floats, with the sign of the divisor. -/
def floatMod (x y : Float) : Float :=
  let r := floatRest x y
  if r != 0.0 && (decide (r < 0.0) != decide (y < 0.0)) then r + y else r

/-- The remainder, with the sign of the divisor. It is refused where the quotient of the two does
not fit. -/
def mod (a b : Value) : Result Value :=
  match a, b with
  | int m, int n =>
    if n = 0 then .error .moduloByZero
    else do
      let r ← checked (rest? m n)
      return int (if isOpposite r n then r + n else r)
  | a, b => floatQuotient .mod .floatModuloByZero floatMod a b

/-- Whether `holds` is true of the order of the two. -/
def ordered (op : BinOp) (holds : Ordering → Bool) (a b : Value) : Result Value :=
  match order a b with
  | some o => .ok (bool (holds o))
  | Option.none => .error (.unordered op a.kind b.kind)

/-- Whether a text has another one in it. -/
def hasText (needle : List Char) : List Char → Bool
  | [] => needle.isEmpty
  | c :: cs => needle.isPrefixOf (c :: cs) || hasText needle cs

def requireHashable (key : Value) : Result Unit :=
  if key.isHashable then .ok () else .error (.unhashable key.kind)

/-- Whether `item` is in `container`. -/
def contains (container item : Value) : Result Bool :=
  match container with
  | list items => .ok (items.any fun v => v.equal item)
  | str s =>
    match item with
    | str t => .ok (hasText t.toList s.toList)
    | v => .error (.searchInText v.kind)
  | dict entries => do
    requireHashable item
    return (lookup? entries item).isSome
  | v => .error (.notContainer v.kind)

/-- Applies an operator to two values. `and` and `or` are no such operators, since they may leave
their right side alone. -/
def binary (op : BinOp) (a b : Value) : Result Value :=
  match op with
  | .add => add a b
  | .sub => sub a b
  | .mul => mul a b
  | .div => div a b
  | .floorDiv => floorDiv a b
  | .mod => mod a b
  | .eq => .ok (bool (a.equal b))
  | .notEq => .ok (bool (!a.equal b))
  | .less => ordered op (· == .lt) a b
  | .greater => ordered op (· == .gt) a b
  | .lessEq => ordered op (· != .gt) a b
  | .greaterEq => ordered op (· != .lt) a b
  | .isIn => do return bool (← contains b a)
  | .notIn => do return bool !(← contains b a)
  | .and | .or => .error (.lazyOperator op)

def unary (op : UnaryOp) (v : Value) : Result Value :=
  match op, v with
  | .not, v => .ok (bool (!v.isTrue))
  | .neg, int n => ofInt (-n.toInt)
  | .neg, float x => .ok (float (-x))
  | .pos, int n => .ok (int n)
  | .pos, float x => .ok (float x)
  | op, v => .error (.unaryOperand op v.kind)

end MissionScript.Value
