import MissionScript.Value.Arith

/-!
# Ranges of ints
-/

namespace MissionScript

/-- The ints from `start` on, `step` apart, that come before `stop`. -/
structure IntRange where
  start : Int64
  stop : Int64
  step : Int64
deriving DecidableEq

namespace IntRange

/-- How many ints there are, for a step other than zero. -/
def count (r : IntRange) : Nat :=
  let distance :=
    if 0 < r.step.toInt then r.stop.toInt - r.start.toInt else r.start.toInt - r.stop.toInt
  let stride := r.step.toInt.natAbs
  (distance.toNat + stride - 1) / stride

/-- The int numbered `i`, counting from zero. -/
def get (r : IntRange) (i : Nat) : Int64 := Int64.ofInt (r.start.toInt + i * r.step.toInt)

/-- The first `n` ints of the range. -/
def take (r : IntRange) (n : Nat) : List Value := (List.range n).map fun i => .int (r.get i)

/-- An argument of a range. -/
def bound : Value → Value.Result Int64
  | .int n => .ok n
  | v => .error (.notInteger v.kind)

/-- The range given by one to three arguments. -/
def ofArgs (args : List Value) : Value.Result IntRange := do
  let ns ← args.mapM bound
  let r ← match ns with
    | [stop] => pure ⟨0, stop, 1⟩
    | [start, stop] => pure ⟨start, stop, 1⟩
    | [start, stop, step] => pure ⟨start, stop, step⟩
    | _ => .error (.rangeCount ns.length)
  if r.step = 0 then .error .zeroStep else return r

end IntRange

end MissionScript
