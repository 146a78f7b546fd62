import MissionScript.Mission.Recorder
import MissionScript.Run.Budget
import MissionScript.RuntimeError

/-!
# What commands act on

The world with its recorder, the budgets, the lines spoken so far, and the line of the script that
is being executed. An action changes the session as far as it gets; an error does not undo that.
-/

namespace MissionScript

structure Session where
  world : World
  recorder : Recorder
  steps : StepBudget
  gas : Gas
  output : Array String
  line : Nat

/-- An action in a session. -/
abbrev Act := EStateM RuntimeError Session

namespace Session

def start (level : Level) (ceiling gasLimit : Nat) : Session :=
  let world := World.ofLevel level
  { world := world
    recorder := .start world.snapshot
    steps := .start level.maxMoves ceiling
    gas := .start gasLimit
    output := #[]
    line := 0 }

/-- The lines spoken, as one text. -/
def spoken (s : Session) : String := "\n".intercalate s.output.toList

/-- Spends gas, and fails when more is spent than there is. -/
def charge (n : Nat) : Act Unit := fun s =>
  let gas := s.gas.charge n
  if gas.isSpent then .error .budgetSpent { s with gas := gas } else .ok () { s with gas := gas }

/-- Takes one of the steps that are left. -/
def takeStep : Act Unit := fun s =>
  match s.steps.consume? with
  | some steps => .ok () { s with steps := steps }
  | none => .error .budgetSpent s

/-- The world as it is becomes the next frame. -/
def recordFrame (log : Option String) : Act Unit :=
  modify fun s => { s with recorder := s.recorder.record s.world s.line log none }

/-- The cell ahead, if the rover can go there. -/
def ahead (w : World) (d : Direction) : Except Obstruction Position :=
  match w.pos.step? d with
  | none => .error .outOfBounds
  | some p =>
    match w.obstruction? p with
    | some o => .error o
    | none => .ok p

/-- One step of the rover: it turns, goes to the next cell and collects what is there. It turns even
if it cannot go on. -/
def moveOnce (d : Direction) : Act Unit := do
  takeStep
  modify fun s => { s with world := s.world.face d }
  match ahead (← get).world d with
  | .error o => throw (.blocked o)
  | .ok p => do
    modify fun s => { s with world := (s.world.place p d).collect p }
    recordFrame none

/-- Does an action `n` times. -/
def times (act : Act Unit) : Nat → Act Unit
  | 0 => return ()
  | n + 1 => do
    act
    times act n

def speak (text : String) : Act Unit := do
  takeStep
  modify fun s => { s with output := s.output.push text }
  recordFrame (some text)

end Session

end MissionScript
