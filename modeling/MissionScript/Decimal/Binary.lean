/-!
# Floats as whole numbers times powers of two

Every finite float is a whole number below 2^53 times a power of two, up to its sign. All exact work
on floats (the shortest decimal, the remainder, the whole part) is done on these three parts.
-/

namespace MissionScript.Decimal

/-- The number `mantissa * 2 ^ exponent`, or its negative. -/
structure Binary where
  negative : Bool
  mantissa : Nat
  exponent : Int
deriving DecidableEq

/-- The bit in front of the fraction, which is not among the bits of a float. -/
def hiddenBit : Nat := 0x10000000000000

/-- The parts of a finite float; infinities and not-a-numbers have none. -/
def binary? (x : Float) : Option Binary :=
  let bits : Nat := x.toBits.toNat
  let fraction : Nat := bits % hiddenBit
  let biased : Nat := bits / hiddenBit % 0x800
  let negative : Bool := bits >>> 63 = 1
  if biased = 2047 then none
  else if biased = 0 then some ⟨negative, fraction, -1074⟩
  else some ⟨negative, fraction + hiddenBit, (biased : Int) - 1075⟩

/-- Whether the next smaller magnitude is only half as far away as the next larger one. -/
def Binary.narrowBelow (b : Binary) : Bool :=
  b.mantissa = hiddenBit && -1074 < b.exponent

/-- The float with these parts, if the mantissa is below 2^53. -/
def Binary.toFloat (b : Binary) : Float :=
  let x := (Float.ofNat b.mantissa).scaleB b.exponent
  if b.negative then -x else x

/-- The magnitude as a quotient of whole numbers. -/
def Binary.ratio (b : Binary) : Nat × Nat :=
  (b.mantissa <<< b.exponent.toNat, 1 <<< (-b.exponent).toNat)

/-- The whole part, toward zero. -/
def Binary.whole (b : Binary) : Int :=
  let magnitude := b.ratio.1 / b.ratio.2
  if b.negative then -(magnitude : Int) else magnitude

/-- What is left of `a` after taking out `b` as often as it fits; it keeps the sign of `a`. -/
def Binary.remainder (a b : Binary) : Binary :=
  let low := min a.exponent b.exponent
  let scaled (c : Binary) : Nat := c.mantissa <<< (c.exponent - low).toNat
  ⟨a.negative, scaled a % scaled b, low⟩

end MissionScript.Decimal
