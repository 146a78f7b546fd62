/-!
# Reading decimals

A decimal is a whole number times a power of ten; it is read as the nearest float.
-/

namespace MissionScript.Decimal

/-- The value of a run of decimal digits. -/
def natOfDigits (cs : List Char) : Nat :=
  cs.foldl (fun n c => 10 * n + (c.toNat - '0'.toNat)) 0

/-- The nearest float to `digits * 10 ^ exponent`. Past these exponents the answer is known without
forming the power. -/
def nearestFloat (digits : Nat) (exponent : Int) : Float :=
  if digits = 0 then 0.0
  else
    let leading := exponent + (Nat.toDigits 10 digits).length
    if leading < -400 then 0.0
    else if 400 < leading then 1.0 / 0.0
    else Float.ofScientific digits (exponent < 0) exponent.natAbs

/-- The nearest float to a decimal given by the digits before and after its point. -/
def floatOfDigits (whole fraction : List Char) : Float :=
  nearestFloat (natOfDigits (whole ++ fraction)) (-(fraction.length : Int))

end MissionScript.Decimal
