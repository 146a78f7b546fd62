import MissionScript.Json.Decode
import MissionScript.Run.Machine

/-!
# Limits as JSON
-/

namespace MissionScript.Limits

open Json (Datum Shape)

def toDatum (l : Limits) : Datum :=
  .record [.whole l.stepCeiling, .whole l.gasLimit, .whole l.callDepth]

def ofDatum (d : Datum) : Limits :=
  { stepCeiling := (d.get 0).nat
    gasLimit := (d.get 1).nat
    callDepth := (d.get 2).nat }

/-- What is not given is as in the standard limits. -/
def shape : Shape :=
  .record "RunConfig"
    [(.default "step_ceiling" (.whole standard.stepCeiling), .u32),
     (.default "gas_limit" (.whole standard.gasLimit), .u64),
     (.default "max_call_depth" (.whole standard.callDepth), .usize)]

def toJson (l : Limits) : Json := shape.write l.toDatum

/-- The limits that a JSON text holds. -/
def read (text : String) : Except Json.Error Limits := (shape.read text).map ofDatum

/-- The message about a text that holds no limits. -/
def refusal (e : Json.Error) : String := "invalid config: " ++ e.message

end MissionScript.Limits
