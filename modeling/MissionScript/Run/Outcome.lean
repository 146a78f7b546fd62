import MissionScript.Run.Execute
import MissionScript.Text.Quoted

/-!
# Runs

A run executes a script on a level and always gives a trace: a runtime error becomes its last frame.
When the script finishes, the goals of the level decide on the verdict.
-/

namespace MissionScript

namespace Session

/-- What tells that crystals are left. -/
def crystalsUnmet (s : Session) : List String :=
  if s.world.collectedCount < s.world.crystalCount then
    ["collected " ++ toString s.world.collectedCount ++ " of " ++ toString s.world.crystalCount
      ++ " crystals"]
  else []

/-- What tells that the text spoken is not the one wanted. -/
def outputUnmet (s : Session) (wanted : Option String) : List String :=
  match wanted with
  | some w =>
    if s.spoken = w then []
    else ["expected output " ++ Text.quoted w ++ ", got " ++ Text.quoted s.spoken]
  | none => []

/-- The verdict on a script that finished. -/
def completion (s : Session) (level : Level) : Verdict :=
  match s.crystalsUnmet ++ s.outputUnmet level.requiredOutput with
  | [] => .met
  | unmet => .unmet ("; ".intercalate unmet)

/-- The trace of a script that finished. -/
def finish (s : Session) (level : Level) : Trace :=
  s.recorder.finish (s.completion level) s.spoken

/-- The trace of a script that an error ended. -/
def fail (s : Session) (e : RuntimeError) : Trace :=
  let line := if 0 < s.line then some s.line else none
  (s.recorder.record s.world s.line none (some e.message)).finish
    (.failed ⟨e.kind, e.message, line⟩) s.spoken

end Session

/-- Runs a script on a level with the given commands. -/
def runWith (commands : List Command) (p : Program) (level : Level) (limits : Limits) : Trace :=
  match Eval.program limits p (.start level limits commands) with
  | .ok _ m => m.session.finish level
  | .error e m => m.session.fail e

/-- Runs a script on a level. -/
def run (p : Program) (level : Level) (limits : Limits) : Trace :=
  runWith Command.standard p level limits

end MissionScript
