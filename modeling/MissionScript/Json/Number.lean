import MissionScript.Decimal.Read
import MissionScript.Json.Input

/-!
# Numbers in JSON text

A whole number that fits into 64 bits is read as it is; one that does not, and one with a point or
an exponent, is read as a float. The float is the significant digits times a power of ten, rounded
after each of the two steps, so it may be a neighbour of the nearest one.
-/

namespace MissionScript.Json

inductive Number where
  | whole (n : Int)
  | float (x : Float)

/-- Significant digits are taken in up to this number. -/
def mostSignificand : Nat := 0xffffffffffffffff

/-- Appends digits to a number as long as it does not get too great: the number, and how many digits
were taken in. -/
def absorb (significand taken : Nat) : List Char → Nat × Nat
  | [] => (significand, taken)
  | d :: ds =>
    let next := 10 * significand + Decimal.natOfDigits [d]
    if next ≤ mostSignificand then absorb next (taken + 1) ds else (significand, taken)

/-- The greatest power of ten that is a float. -/
def mostPower : Nat := 308

/-- A float times a power of ten, which is divided by in parts if it is too small for one. Where the
product is too great there is none. -/
def scaled (x : Float) (exponent : Int) : Nat → Option Float
  | 0 => some x
  | parts + 1 =>
    if exponent.natAbs ≤ mostPower then
      let power := Decimal.nearestFloat 1 exponent.natAbs
      if 0 ≤ exponent then
        let y := x * power
        if y.isInf then none else some y
      else some (x / power)
    else if x == 0.0 then some x
    else if 0 ≤ exponent then none
    else scaled (x / Decimal.nearestFloat 1 mostPower) (exponent + mostPower) parts

/-- Numbers below the least float are zero after this many divisions. -/
def mostParts : Nat := 4

namespace Reading

def signed (negative : Bool) (x : Float) : Float := if negative then -x else x

/-- The float with these parts, the number ending at the place reached. -/
def floatOfParts (negative : Bool) (significand : Nat) (exponent : Int) : Reading Float := do
  match scaled (Decimal.nearestFloat significand 0) exponent mostParts with
  | some x => return signed negative x
  | none => failHere .numberOutOfRange

/-- Exponents are counted up to this number. -/
def mostExponent : Nat := 0x7fffffff

/-- The longest run of digits whose number is no more than `most`, and that number. -/
def boundedDigits (most : Nat) (n count : Nat) : List Char → Nat × Nat
  | [] => (n, count)
  | d :: ds =>
    let next := 10 * n + Decimal.natOfDigits [d]
    if next ≤ most then boundedDigits most next (count + 1) ds else (n, count)

/-- The exponent at hand, from its letter on. One that is too great makes the number zero, or takes
it out of range. -/
def exponentPart (negative : Bool) (significand : Nat) (start : Int) : Reading Float := do
  eat
  let sign ← peek
  if sign = some '+' || sign = some '-' then eat
  match ← peek with
  | none => failHere .endInValue
  | some d =>
    if d.isDigit then
      let before ← get
      let digits ← run Char.isDigit
      let (e, count) := boundedDigits mostExponent 0 0 digits
      if count = digits.length then
        floatOfParts negative significand (if sign = some '-' then start - e else start + e)
      else if significand ≠ 0 && sign ≠ some '-' then do
        set (before.skip (count + 1))
        failHere .numberOutOfRange
      else return signed negative 0.0
    else failNext .invalidNumber

def isExponentMark (c : Option Char) : Bool := c = some 'e' || c = some 'E'

/-- The exponent if there is one, and the float. -/
def exponentOrEnd (negative : Bool) (significand : Nat) (exponent : Int) : Reading Float := do
  if isExponentMark (← peek) then exponentPart negative significand exponent
  else floatOfParts negative significand exponent

/-- The digits after the point, from the point on. -/
def fractionPart (negative : Bool) (significand : Nat) (exponent : Int) : Reading Float := do
  eat
  let digits ← run Char.isDigit
  if digits.isEmpty then
    match ← peek with
    | some _ => failNext .invalidNumber
    | none => failNext .endInValue
  else
    let (n, taken) := absorb significand 0 digits
    exponentOrEnd negative n (exponent - taken)

/-- What follows the digits before the point, of which `dropped` were not taken in. -/
def numberAfter (negative : Bool) (significand dropped : Nat) : Reading Number := do
  let c ← peek
  if c = some '.' then return .float (← fractionPart negative significand dropped)
  else if isExponentMark c then return .float (← exponentPart negative significand dropped)
  else if 0 < dropped then return .float (← floatOfParts negative significand dropped)
  else if !negative then return .whole significand
  else if 0 < significand && significand ≤ 0x8000000000000000 then return .whole (-significand)
  else return .float (-(Decimal.nearestFloat significand 0))

/-- A number without its sign. No other digit follows a zero in front. -/
def unsignedNumber (negative : Bool) : Reading Number := do
  match ← peek with
  | none => failHere .endInValue
  | some '0' =>
    eat
    if ((← peek).map Char.isDigit).getD false then failNext .invalidNumber
    else numberAfter negative 0 0
  | some c =>
    if c.isDigit then
      let digits ← run Char.isDigit
      let (n, taken) := absorb 0 0 digits
      numberAfter negative n (digits.length - taken)
    else failNext .invalidNumber

/-- A number, whose first character is at hand. -/
def number (c : Char) : Reading Number := do
  if c = '-' then
    eat
    unsignedNumber true
  else unsignedNumber false

def startsNumber (c : Char) : Bool := c = '-' || c.isDigit

end Reading

/-- A number that was found. -/
def Number.found : Number → Found
  | whole n => .whole n
  | float x => .float x

end MissionScript.Json
