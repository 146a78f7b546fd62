/-!
# Numbers of arguments
-/

namespace MissionScript

inductive Arity where
  | exact (n : Nat)
  | range (low high : Nat)
  | atLeast (n : Nat)
deriving DecidableEq

namespace Arity

def accepts : Arity → Nat → Bool
  | exact k, n => n = k
  | range low high, n => low ≤ n && n ≤ high
  | atLeast low, n => low ≤ n

/-- The accepted numbers in words. -/
def wanted : Arity → String
  | exact 0 => "no arguments"
  | exact 1 => "exactly 1 argument"
  | exact k => "exactly " ++ toString k ++ " arguments"
  | range low high => "from " ++ toString low ++ " to " ++ toString high ++ " arguments"
  | atLeast 1 => "at least 1 argument"
  | atLeast low => "at least " ++ toString low ++ " arguments"

/-- A number of arguments in words. -/
def given (n : Nat) : String := if n = 1 then "1 was given" else toString n ++ " were given"

end Arity

end MissionScript
