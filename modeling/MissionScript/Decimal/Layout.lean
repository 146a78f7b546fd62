import MissionScript.Decimal.Shortest

/-!
# How floats are written

The digits come from `Binary.shortest`; a `FloatStyle` says where the point goes. Between the two
limits a float is written with a point and at least one digit after it, outside them with an
exponent.
-/

namespace MissionScript.Decimal

/-- Leading digits with an exponent from `lowest` to below `highest` are written positionally. -/
structure FloatStyle where
  lowest : Int
  highest : Int
  exponent : Int → String
  notANumber : String

/-- An exponent as it is: `e16`, `e-5`. -/
def plainExponent (e : Int) : String := "e" ++ toString e

/-- An exponent with a sign and at least two digits: `e+16`, `e-05`. -/
def signedExponent (e : Int) : String :=
  let digits := toString e.natAbs
  "e" ++ (if e < 0 then "-" else "+") ++ (if digits.length < 2 then "0" else "") ++ digits

def zeros (n : Nat) : String := String.ofList (List.replicate n '0')

/-- Digits with the point after the first `place` of them, padded with zeros on either side. -/
def positional (digits : List Char) (place : Int) : String :=
  if place ≤ 0 then "0." ++ zeros (-place).toNat ++ String.ofList digits
  else
    let n := place.toNat
    if digits.length ≤ n then String.ofList digits ++ zeros (n - digits.length) ++ ".0"
    else String.ofList (digits.take n) ++ "." ++ String.ofList (digits.drop n)

/-- One digit before the point, no point if there are no others, and the exponent. -/
def scientific (style : FloatStyle) (digits : List Char) (e : Int) : String :=
  match digits with
  | [] => style.exponent e
  | d :: [] => d.toString ++ style.exponent e
  | d :: rest => d.toString ++ "." ++ String.ofList rest ++ style.exponent e

def FloatStyle.magnitude (style : FloatStyle) (b : Binary) : String :=
  if b.mantissa = 0 then "0.0"
  else
    let d := b.shortest
    let digits := Nat.toDigits 10 d.digits
    let leading := d.exponent + digits.length - 1
    if style.lowest ≤ leading && leading < style.highest then positional digits (leading + 1)
    else scientific style digits leading

def FloatStyle.write (style : FloatStyle) (x : Float) : String :=
  match binary? x with
  | some b => (if b.negative then "-" else "") ++ style.magnitude b
  | none => if x == x then (if x < 0 then "-inf" else "inf") else style.notANumber

/-- Floats as the language prints them. -/
def printed : FloatStyle := ⟨-4, 16, signedExponent, "nan"⟩

/-- Floats as they appear in messages about tokens. -/
def inTokens : FloatStyle := ⟨-4, 16, plainExponent, "NaN"⟩

/-- Floats as they appear in messages about JSON text. -/
def inJson : FloatStyle := ⟨-5, 16, plainExponent, "NaN"⟩

end MissionScript.Decimal
