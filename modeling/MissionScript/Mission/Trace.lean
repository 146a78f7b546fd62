import MissionScript.Mission.Level

/-!
# Traces

What a run leaves behind: the world at the start, a frame for each visible action, the text spoken,
and the verdict. A frame shows the whole world, so a trace can be looked at in any order.
-/

namespace MissionScript

inductive ObjectKind where
  | crystal
  | rock
deriving DecidableEq, Inhabited

inductive ObjectState where
  | idle
  | collected
deriving DecidableEq, Inhabited

/-- A thing in the world, with a name of its own. -/
structure WorldObject where
  id : String
  kind : ObjectKind
  pos : Position
  state : ObjectState
deriving DecidableEq, Inhabited

def WorldObject.isCrystal (o : WorldObject) : Bool := o.kind = .crystal

def WorldObject.isCollected (o : WorldObject) : Bool := o.state = .collected

/-- The world at one instant. -/
structure Snapshot where
  pos : Position
  dir : Direction
  objects : List WorldObject
deriving DecidableEq, Inhabited

/-- How many crystals are collected. -/
def Snapshot.collectedCount (s : Snapshot) : Nat :=
  s.objects.countP fun o => o.isCrystal && o.isCollected

/-- One visible action: where it left the world, what it said, the line it came from; or the error
that ended the run. -/
structure Frame where
  step : Nat
  snapshot : Snapshot
  log : Option String
  line : Option Nat
  error : Option String
deriving DecidableEq, Inhabited

def Frame.isError (f : Frame) : Bool := f.error.isSome

/-- The classes of runtime errors. -/
inductive ErrorKind where
  | name
  | type
  | value
  | index
  | key
  | zeroDivision
  | arithmetic
  | recursion
  | movement
  | stepLimit
deriving DecidableEq, Inhabited

def ErrorKind.title : ErrorKind → String
  | name => "NameError"
  | type => "TypeError"
  | value => "ValueError"
  | index => "IndexError"
  | key => "KeyError"
  | zeroDivision => "ZeroDivisionError"
  | arithmetic => "ArithmeticError"
  | recursion => "RecursionError"
  | movement => "RuntimeMovementError"
  | stepLimit => "StepLimitExceeded"

structure RunError where
  kind : ErrorKind
  message : String
  line : Option Nat
deriving DecidableEq, Inhabited

inductive EndReason where
  | success
  | incomplete
  | error
deriving DecidableEq, Inhabited

structure Verdict where
  success : Bool
  reason : EndReason
  message : Option String
  error : Option RunError
deriving DecidableEq, Inhabited

namespace Verdict

/-- The script finished and every goal is met. -/
def met : Verdict := ⟨true, .success, none, none⟩

/-- The script finished with a goal unmet. -/
def unmet (message : String) : Verdict := ⟨false, .incomplete, some message, none⟩

/-- An error ended the script. -/
def failed (e : RunError) : Verdict := ⟨false, .error, some e.message, some e⟩

end Verdict

structure Trace where
  initial : Snapshot
  frames : List Frame
  output : String
  verdict : Verdict
deriving DecidableEq, Inhabited

/-- Where the rover ended up. -/
def Trace.finalPosition (t : Trace) : Position :=
  match t.frames.getLast? with
  | some f => f.snapshot.pos
  | none => t.initial.pos

end MissionScript
