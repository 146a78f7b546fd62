import MissionScript.Mission.Trace

/-!
# The world of a run

The rover's place and direction, the rocks and the crystals. A crystal is collected when the rover
comes to its cell, or starts there.
-/

namespace MissionScript

/-- Why the rover cannot go to a cell. -/
inductive Obstruction where
  | outOfBounds
  | rock
deriving DecidableEq

def Obstruction.text : Obstruction → String
  | outOfBounds => "out of bounds"
  | rock => "blocked by rock"

structure World where
  grid : GridSize
  pos : Position
  dir : Direction
  obstacles : List Position
  objects : List WorldObject
deriving DecidableEq

/-- An idle crystal at `p` collected; any other object as it is. -/
def WorldObject.collectedAt (p : Position) (o : WorldObject) : WorldObject :=
  if o.isCrystal && o.pos = p then { o with state := .collected } else o

/-- Objects of one kind at the given cells, numbered from zero. -/
def objectsAt (kind : ObjectKind) (label : String) (cells : List Position) : List WorldObject :=
  cells.mapIdx fun i p => ⟨label ++ "-" ++ toString i, kind, p, .idle⟩

namespace World

/-- What stands in the way of going to `p`. -/
def obstruction? (w : World) (p : Position) : Option Obstruction :=
  if !w.grid.contains p then some .outOfBounds
  else if w.obstacles.contains p then some .rock
  else none

def face (w : World) (d : Direction) : World := { w with dir := d }

/-- Puts the rover on a cell, whatever is there. -/
def place (w : World) (p : Position) (d : Direction) : World := { w with pos := p, dir := d }

/-- Collects the crystals at `p`. -/
def collect (w : World) (p : Position) : World :=
  { w with objects := w.objects.map (·.collectedAt p) }

/-- Whether there is a crystal at `p` that is not collected yet. -/
def hasIdleCrystal (w : World) (p : Position) : Bool :=
  w.objects.any fun o => o.isCrystal && o.pos = p && !o.isCollected

/-- The start of a level: crystals first, then rocks. -/
def ofLevel (l : Level) : World :=
  collect
    { grid := l.grid
      pos := l.start
      dir := l.startDirection
      obstacles := l.obstacles
      objects := objectsAt .crystal "crystal" l.targets ++ objectsAt .rock "rock" l.obstacles }
    l.start

def crystalCount (w : World) : Nat := w.objects.countP (·.isCrystal)

def collectedCount (w : World) : Nat :=
  w.objects.countP fun o => o.isCrystal && o.isCollected

def allCollected (w : World) : Bool :=
  w.objects.all fun o => !o.isCrystal || o.isCollected

def snapshot (w : World) : Snapshot := ⟨w.pos, w.dir, w.objects⟩

end World

end MissionScript
