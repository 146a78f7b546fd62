import MissionScript.Decimal.Binary

/-!
# The shortest decimal that reads back

A float stands for all real numbers that round to it. Among the decimals in that interval the one
with the fewest digits is taken, and of several the one nearest to the float. For each number of
digits only the two neighbours of the float on that decimal grid can be the nearest, so these two
are tested, in whole number arithmetic.
-/

namespace MissionScript.Decimal

/-- The number `digits * 10 ^ exponent`. -/
structure Digits where
  digits : Nat
  exponent : Int
deriving DecidableEq

/-- The interval of numbers that round to a float: everything is over the denominator `den`. -/
structure Interval where
  value : Nat
  below : Nat
  above : Nat
  den : Nat
  closed : Bool

/-- Half a step above and half a step below, or a quarter below where the steps get narrower. The
ends belong to the interval when the mantissa is even. -/
def Binary.interval (b : Binary) : Interval :=
  let up := 1 <<< b.exponent.toNat
  { value := 4 * b.mantissa * up
    below := if b.narrowBelow then up else 2 * up
    above := 2 * up
    den := 4 <<< (-b.exponent).toNat
    closed := b.mantissa % 2 = 0 }

/-- How many decimal digits a number has; zero has one. -/
def digitCount (n : Nat) : Nat := (Nat.toDigits 10 n).length

/-- The exponent of the leading decimal digit of `value / den`, for `value` positive. -/
def Interval.magnitude (i : Interval) : Int :=
  if i.den ≤ i.value then (digitCount (i.value / i.den) : Int) - 1
  else
    let q := i.den / i.value
    let k := digitCount q
    if i.den = q * i.value && q = Nat.pow 10 (k - 1) then 1 - (k : Int) else -(k : Int)

/-- The better of the two neighbours on the grid of multiples of `10 ^ e` that lies in the
interval. -/
def Interval.onGrid? (i : Interval) (e : Int) : Option Nat :=
  let scale := Nat.pow 10 (-e).toNat
  let v := i.value * scale
  let unit := i.den * Nat.pow 10 e.toNat
  let d := v / unit
  let lowOk := if i.closed then v ≤ d * unit + i.below * scale else v < d * unit + i.below * scale
  let highOk :=
    if i.closed then (d + 1) * unit ≤ v + i.above * scale else (d + 1) * unit < v + i.above * scale
  if lowOk && highOk then
    if 2 * v < (2 * d + 1) * unit then some d
    else if (2 * d + 1) * unit < 2 * v then some (d + 1)
    else some (if d % 2 = 0 then d else d + 1)
  else if lowOk then some d
  else if highOk then some (d + 1)
  else none

/-- The first hit among grids of `count`, `count + 1`, … digits, at most `more` of them. -/
def Interval.search (i : Interval) (top : Int) : Nat → Nat → Digits
  | 0, count => ⟨i.value / i.den, top - count⟩
  | more + 1, count =>
    let e := top - count + 1
    match i.onGrid? e with
    | some d => ⟨d, e⟩
    | none => i.search top more (count + 1)

/-- Takes trailing zeros into the exponent. -/
def Digits.reduce : Nat → Digits → Digits
  | 0, d => d
  | fuel + 1, d =>
    if d.digits ≠ 0 && d.digits % 10 = 0 then
      reduce fuel ⟨d.digits / 10, d.exponent + 1⟩
    else d

/-- The shortest decimal that rounds to `b`; seventeen digits always suffice. -/
def Binary.shortest (b : Binary) : Digits :=
  if b.mantissa = 0 then ⟨0, 0⟩
  else
    let i := b.interval
    (i.search i.magnitude 17 1).reduce 20

end MissionScript.Decimal
