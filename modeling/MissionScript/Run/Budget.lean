/-!
# Budgets

Steps count the visible actions of a run, and gas counts all of its work. The number of steps never
passes its limit; gas is spent first and looked at afterwards.
-/

namespace MissionScript

structure StepBudget where
  taken : Nat
  limit : Nat
deriving DecidableEq

namespace StepBudget

/-- The limit is the lower one of the level's moves, if it sets any, and the ceiling. -/
def start (maxMoves : Option Nat) (ceiling : Nat) : StepBudget :=
  match maxMoves with
  | some m => ⟨0, min m ceiling⟩
  | none => ⟨0, ceiling⟩

/-- One step more, if there is one left. -/
def consume? (b : StepBudget) : Option StepBudget :=
  if b.taken < b.limit then some { b with taken := b.taken + 1 } else none

end StepBudget

structure Gas where
  used : Nat
  limit : Nat
deriving DecidableEq

namespace Gas

/-- Gas is counted up to this number. -/
def most : Nat := 0xffffffffffffffff

def start (limit : Nat) : Gas := ⟨0, limit⟩

def charge (g : Gas) (n : Nat) : Gas := { g with used := min (g.used + n) most }

def isSpent (g : Gas) : Bool := g.limit < g.used

end Gas

end MissionScript
