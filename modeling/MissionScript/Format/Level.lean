import MissionScript.Json.Decode
import MissionScript.Mission.Level
import MissionScript.Source.Diagnostic

/-!
# Levels as JSON

A level needs its grid and its start; what else it lacks is empty, and the rover then faces right.
-/

namespace MissionScript

open Json (Datum Member Shape)

def Position.shape : Shape :=
  .record "Position" [(.required "x", .i32), (.required "y", .i32)]

def Position.toDatum (p : Position) : Datum := .record [.whole p.x, .whole p.y]

def Position.ofDatum (d : Datum) : Position := ⟨(d.get 0).int, (d.get 1).int⟩

def Direction.shape : Shape := .choice (Direction.all.map Direction.name)

def Direction.toDatum (d : Direction) : Datum := .text d.name

def Direction.ofDatum (d : Datum) : Direction :=
  (Direction.all.find? (·.name = d.string)).getD .right

def GridSize.shape : Shape :=
  .record "GridSize" [(.required "rows", .u32), (.required "cols", .u32)]

def GridSize.toDatum (g : GridSize) : Datum := .record [.whole g.rows, .whole g.cols]

def GridSize.ofDatum (d : Datum) : GridSize := ⟨(d.get 0).nat, (d.get 1).nat⟩

namespace Level

def shape : Shape :=
  .record "Level"
    [(.required "gridSize", GridSize.shape),
     (.required "startPosition", Position.shape),
     (.default "startDirection" Direction.right.toDatum, Direction.shape),
     (.default "targets" (.list []), .list Position.shape),
     (.default "obstacles" (.list []), .list Position.shape),
     ((Member.default "requiredOutput" .absent).leftOut, .optional .text),
     ((Member.default "maxMoves" .absent).leftOut, .optional .u32),
     (.default "initialCode" (.text ""), .text),
     ((Member.default "hints" (.list [])).leftOut, .list .text)]

def toDatum (l : Level) : Datum :=
  .record
    [l.grid.toDatum, l.start.toDatum, l.startDirection.toDatum,
     .list (l.targets.map Position.toDatum), .list (l.obstacles.map Position.toDatum),
     .ofOption .text l.requiredOutput, .ofOption (fun n : Nat => .whole n) l.maxMoves,
     .text l.initialCode, .list (l.hints.map .text)]

def ofDatum (d : Datum) : Level :=
  { grid := .ofDatum (d.get 0)
    start := .ofDatum (d.get 1)
    startDirection := .ofDatum (d.get 2)
    targets := (d.get 3).items.map Position.ofDatum
    obstacles := (d.get 4).items.map Position.ofDatum
    requiredOutput := (d.get 5).option Datum.string
    maxMoves := (d.get 6).option Datum.nat
    initialCode := (d.get 7).string
    hints := (d.get 8).items.map Datum.string }

def toJson (l : Level) : Json := shape.write l.toDatum

/-- The level that a JSON text holds. -/
def read (text : String) : Except Json.Error Level := (shape.read text).map ofDatum

/-- The name that a level text goes by in diagnostics. -/
def defaultName : String := "level.json"

/-- A text that holds no level. -/
def invalidCode : Code := ⟨300⟩

/-- The diagnostic about a text that holds no level. -/
def diagnostic (text : String) (e : Json.Error) : Diagnostic :=
  .within ⟨defaultName, text⟩ invalidCode ("invalid level: " ++ e.message)
    (.point e.line e.column) none

/-- The level that a JSON text holds, or a diagnostic that points into the text. -/
def ofText (text : String) : Except Diagnostic Level :=
  (read text).mapError (diagnostic text)

end Level

end MissionScript
