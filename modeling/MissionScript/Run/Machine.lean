import MissionScript.Run.Command
import MissionScript.Run.Environment

/-!
# The state of a running script

Variables, the functions defined so far, the commands at hand and the session. A name in a call is
looked for among the functions first, so a script can put its own function in a command's place.
-/

namespace MissionScript

/-- Limits on one run. -/
structure Limits where
  stepCeiling : Nat
  gasLimit : Nat
  callDepth : Nat
deriving DecidableEq

/-- The limits where none are given. -/
def Limits.standard : Limits := ⟨1000, 1000000, 100⟩

structure Machine where
  env : Environment
  functions : List Function
  commands : List Command
  session : Session

abbrev Eval := EStateM RuntimeError Machine

namespace Machine

def start (level : Level) (limits : Limits) (commands : List Command) : Machine :=
  { env := .empty
    functions := []
    commands := commands
    session := .start level limits.stepCeiling limits.gasLimit }

/-- The function last defined under a name. -/
def function? (m : Machine) (name : String) : Option Function :=
  m.functions.find? (·.name.name = name)

def command? (m : Machine) (name : String) : Option Command :=
  m.commands.find? (·.name = name)

end Machine

namespace Eval

/-- An action in the session of the machine. -/
def onSession {α : Type} (act : Act α) : Eval α := fun m =>
  match act m.session with
  | .ok a s => .ok a { m with session := s }
  | .error e s => .error e { m with session := s }

def tick : Eval Unit := onSession (Session.charge 1)

def setLine (line : Nat) : Eval Unit :=
  modify fun m => { m with session := { m.session with line := line } }

def define (name : String) (v : Value) : Eval Unit :=
  modify fun m => { m with env := m.env.define name v }

/-- Pays for a value by its weight, and refuses one that is nested too deeply. -/
def account (v : Value) : Eval Value := do
  if v.depth ≤ deepestValue then
    onSession (Session.charge v.weight)
    return v
  else throw .nestedTooDeeply

/-- One unit of gas before a value is made, and its weight after. -/
def produce (act : Eval Value) : Eval Value := do
  tick
  account (← act)

/-- The value of the variable that a name means. -/
def variable_ (name : String) : Eval Value := do
  let m ← get
  match m.env.get? name with
  | some v => return v
  | none =>
    if (m.function? name).isSome || (m.command? name).isSome then throw (.uncalledFunction name)
    else throw (.undefinedName name)

/-- A variable, and the keys that lead from its value to one inside. -/
structure Place where
  root : String
  path : List Value

/-- Changes the value at a place; if the change fails, nothing is changed. -/
def changePlace {α : Type} (place : Place) (change : Value → Value.Result (α × Value)) :
    Eval α := do
  let m ← get
  match m.env.get? place.root with
  | none => throw (.undefinedName place.root)
  | some v =>
    let (a, v') ← Command.ofResult (v.changeAt change place.path)
    set { m with env := m.env.set place.root v' }
    return a

end Eval

end MissionScript
