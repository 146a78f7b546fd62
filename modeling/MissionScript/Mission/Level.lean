/-!
# Levels

A level is a grid with a start, crystals to collect and rocks in the way, and perhaps a text to
speak. `x` counts columns and `y` rows, and `y` grows downward. A level with problems can still be
played; its `issues` tell what is wrong with it.
-/

namespace MissionScript

structure Position where
  x : Int
  y : Int
deriving DecidableEq, Inhabited

inductive Direction where
  | up
  | down
  | left
  | right
deriving DecidableEq, Inhabited

namespace Direction

/-- The change of column and row in one step. -/
def delta : Direction → Int × Int
  | up => (0, -1)
  | down => (0, 1)
  | left => (-1, 0)
  | right => (1, 0)

def name : Direction → String
  | up => "up"
  | down => "down"
  | left => "left"
  | right => "right"

def all : List Direction := [up, down, left, right]

end Direction

/-- Coordinates are numbers of 32 bits. -/
def isCoordinate (n : Int) : Bool := -0x80000000 ≤ n && n ≤ 0x7fffffff

namespace Position

/-- The neighbouring cell, if its coordinates exist. -/
def step? (p : Position) (d : Direction) : Option Position :=
  let x := p.x + d.delta.1
  let y := p.y + d.delta.2
  if isCoordinate x && isCoordinate y then some ⟨x, y⟩ else none

def text (p : Position) : String := "(" ++ toString p.x ++ ", " ++ toString p.y ++ ")"

end Position

structure GridSize where
  rows : Nat
  cols : Nat
deriving DecidableEq, Inhabited

def GridSize.contains (g : GridSize) (p : Position) : Bool :=
  0 ≤ p.x && 0 ≤ p.y && p.x < g.cols && p.y < g.rows

structure Level where
  grid : GridSize
  start : Position
  startDirection : Direction
  targets : List Position
  obstacles : List Position
  requiredOutput : Option String
  maxMoves : Option Nat
  initialCode : String
  hints : List String
deriving DecidableEq, Inhabited

/-- Something wrong with a level. -/
inductive LevelIssue where
  | startOutOfBounds (p : Position)
  | startOnObstacle (p : Position)
  | targetOutOfBounds (p : Position)
  | targetOnObstacle (p : Position)
  | obstacleOutOfBounds (p : Position)
  | noGoal
deriving DecidableEq

def LevelIssue.text : LevelIssue → String
  | startOutOfBounds p => "start position " ++ p.text ++ " is outside the grid"
  | startOnObstacle p => "start position " ++ p.text ++ " is on a rock"
  | targetOutOfBounds p => "target " ++ p.text ++ " is outside the grid"
  | targetOnObstacle p => "target " ++ p.text ++ " is on a rock"
  | obstacleOutOfBounds p => "rock " ++ p.text ++ " is outside the grid"
  | noGoal => "level has neither targets nor required output"

namespace Level

def startIssues (l : Level) : List LevelIssue :=
  (if l.grid.contains l.start then [] else [.startOutOfBounds l.start])
    ++ (if l.obstacles.contains l.start then [.startOnObstacle l.start] else [])

/-- What is wrong with one target; of two things the place outside the grid is told. -/
def targetIssue? (l : Level) (p : Position) : Option LevelIssue :=
  if !l.grid.contains p then some (.targetOutOfBounds p)
  else if l.obstacles.contains p then some (.targetOnObstacle p)
  else none

def obstacleIssue? (l : Level) (p : Position) : Option LevelIssue :=
  if l.grid.contains p then none else some (.obstacleOutOfBounds p)

def goalIssues (l : Level) : List LevelIssue :=
  if l.targets.isEmpty && l.requiredOutput.isNone then [.noGoal] else []

/-- All that is wrong with a level: start, targets, rocks and goal, in this order. -/
def issues (l : Level) : List LevelIssue :=
  l.startIssues ++ l.targets.filterMap l.targetIssue? ++ l.obstacles.filterMap l.obstacleIssue?
    ++ l.goalIssues

end Level

end MissionScript
