import MissionScript.Json.Quote

/-!
# Passing over values

A value that nobody asks for is passed over. Its form is checked, but its numbers have no range and
its brackets no limit on nesting.
-/

namespace MissionScript.Json.Reading

/-- A list or an object that is open. -/
inductive Bracket where
  | list
  | object
deriving DecidableEq

namespace Bracket

def close : Bracket → Char
  | list => ']'
  | object => '\x7d'

def expectedEnd : Bracket → Fault
  | list => .expectedListEnd
  | object => .expectedObjectEnd

def endInside : Bracket → Fault
  | list => .endInList
  | object => .endInObject

end Bracket

/-- A digit, and those after it. -/
def skipDigits : Reading Unit := do
  match ← peek with
  | none => failHere .invalidNumber
  | some c =>
    if c.isDigit then
      let _ ← run Char.isDigit
    else failNext .invalidNumber

/-- An exponent, from its letter on. -/
def skipExponent : Reading Unit := do
  eat
  let sign ← peek
  if sign = some '+' || sign = some '-' then eat
  skipDigits

/-- The digits after a point, from the point on, with the exponent. -/
def skipFraction : Reading Unit := do
  eat
  let digits ← run Char.isDigit
  if digits.isEmpty then failNext .invalidNumber
  else if ((← peek).map fun c => c = 'e' || c = 'E').getD false then skipExponent

/-- A number without its sign. -/
def skipUnsigned : Reading Unit := do
  match ← peek with
  | some '0' =>
    eat
    if ((← peek).map Char.isDigit).getD false then failNext .invalidNumber
  | _ => skipDigits
  match ← peek with
  | some '.' => skipFraction
  | some 'e' => skipExponent
  | some 'E' => skipExponent
  | _ => return ()

/-- A value without brackets, its first character `c` being at hand. -/
def skipScalar (c : Char) : Reading Unit := do
  if c = 'n' then word "null"
  else if c = 't' then word "true"
  else if c = 'f' then word "false"
  else if c = '\x22' then skipQuote
  else if c = '-' then
    eat
    skipUnsigned
  else if c.isDigit then skipUnsigned
  else failNext .expectedValue

/-- The key that precedes a value in an object. -/
def skipKey (b : Bracket) : Reading Unit := do
  match b with
  | .list => return ()
  | .object =>
    match ← token with
    | some '\x22' =>
      skipQuote
      colon
    | some _ => failNext .keyNotText
    | none => failNext .endInObject

/-- Goes to the next value inside the open brackets, and gives the brackets that are open there. A
comma comes first if a value came before. -/
def toNextValue (comma : Bool) : List Bracket → Reading (List Bracket)
  | [] => return []
  | b :: outer => do
    match ← token with
    | none => failNext b.endInside
    | some c =>
      if comma && c = ',' then
        eat
        skipKey b
        return b :: outer
      else if c = b.close then
        eat
        toNextValue true outer
      else if comma then failNext b.expectedEnd
      else
        skipKey b
        return b :: outer

/-- Passes over a value and then over what is left inside the open brackets. At most as many values
as `bound`. -/
def skipWithin : Nat → List Bracket → Reading Unit
  | 0, _ => return ()
  | bound + 1, stack => do
    match ← token with
    | none => failNext .endInValue
    | some c =>
      let next ←
        if c = '[' then do
          eat
          toNextValue false (.list :: stack)
        else if c = '\x7b' then do
          eat
          toNextValue false (.object :: stack)
        else do
          skipScalar c
          toNextValue true stack
      if next.isEmpty then return () else skipWithin bound next

/-- Passes over a value. -/
def skipValue : Reading Unit := do skipWithin ((← remaining) + 1) []

end MissionScript.Json.Reading
