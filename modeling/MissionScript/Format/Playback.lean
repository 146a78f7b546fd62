import MissionScript.Format.Result
import MissionScript.Playback.Cursor

/-!
# Playback settings and states as JSON, and playing a result back
-/

namespace MissionScript

open Json (Datum Shape)

namespace Playback

/-- The settings of a playback: the interval between frames, in milliseconds. -/
def settingsShape : Shape :=
  .record "PlaybackConfig" [(.default "speed_ms" (.whole defaultSpeed), .u64)]

/-- The interval that a JSON text sets. -/
def readSettings (text : String) : Except Json.Error Nat :=
  (settingsShape.read text).map fun d => (d.get 0).nat

/-- The place of a cursor as JSON. -/
def stateJson (index : Nat) (isPlaying : Bool) (speedMs : Nat) : Json :=
  .obj [("currentIndex", .num index), ("isPlaying", .bool isPlaying), ("speedMs", .num speedMs)]

def toJson (p : Playback) : Json := stateJson p.index p.isPlaying p.speedMs

end Playback

/-- A result with a playback of its trace, if it has one. Without a trace nothing moves. -/
structure Player where
  result : RunResult
  playback : Option Playback

namespace Player

def start (levelText scriptText : String) : Player :=
  let result := runTexts levelText scriptText .standard
  ⟨result, result.trace.map fun t => .start t Playback.defaultSpeed⟩

def length (p : Player) : Nat := (p.playback.map (·.length)).getD 0

def currentFrame? (p : Player) : Option Frame := p.playback.bind (·.currentFrame?)

/-- Changes the playback. -/
def change (p : Player) (f : Playback → Playback) : Player :=
  { p with playback := p.playback.map f }

def tick (p : Player) : Bool × Player :=
  match p.playback with
  | some b => (b.tick.1, { p with playback := some b.tick.2 })
  | none => (false, p)

/-- Lets milliseconds pass: how many frames the cursor moved. -/
def advance? (p : Player) (ms : Float) : Option (Nat × Player) :=
  match p.playback with
  | some b => do
    let (n, b') ← b.advance? (Playback.timeOfMilliseconds ms)
    return (n, { p with playback := some b' })
  | none => some (0, p)

/-- The greatest interval that is shown. -/
def mostSpeed : Nat := 0xffffffff

/-- The interval between frames, in milliseconds. -/
def speedMs (p : Player) : Nat :=
  min ((p.playback.map (·.speedMs)).getD Playback.defaultSpeed) mostSpeed

/-- The place of the cursor as JSON. -/
def toJson (p : Player) : Json :=
  match p.playback with
  | some b => b.toJson
  | none => Playback.stateJson 0 false 0

end Player

end MissionScript
