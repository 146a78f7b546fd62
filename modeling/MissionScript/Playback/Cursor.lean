import MissionScript.Decimal.Binary
import MissionScript.Mission.Trace

/-!
# Playing a trace back

A playback is a cursor over the frames of a trace. It moves by hand, by one frame at a tick, or by
as many frames as there are whole intervals in the time that has passed; time that is left over is
kept for the next move. Time is counted in nanoseconds. Playback stops at the last frame.
-/

namespace MissionScript

structure Playback where
  trace : Trace
  index : Nat
  isPlaying : Bool
  speedMs : Nat
  pending : Nat
deriving DecidableEq

namespace Playback

/-- The interval between frames where none is given, in milliseconds. -/
def defaultSpeed : Nat := 500

/-- The shortest interval, in milliseconds. -/
def leastSpeed : Nat := 1

/-- The longest time that can be kept: 64 bits of seconds, and the nanoseconds of one more. -/
def longestTime : Nat := 0x10000000000000000 * 1000000000 - 1

/-- So many intervals are taken out of the time kept, at most. -/
def mostIntervals : Nat := 0xffffffff

/-- At the first frame, not playing. -/
def start (t : Trace) (speedMs : Nat) : Playback := ⟨t, 0, false, max speedMs leastSpeed, 0⟩

def length (p : Playback) : Nat := p.trace.frames.length

/-- The index of the last frame; zero if there are no frames. -/
def lastIndex (p : Playback) : Nat := p.length - 1

def isAtEnd (p : Playback) : Bool := p.lastIndex ≤ p.index

def currentFrame? (p : Playback) : Option Frame := p.trace.frames[p.index]?

def pause (p : Playback) : Playback := { p with isPlaying := false, pending := 0 }

/-- Starts playing; at the last frame, from the first one. -/
def play (p : Playback) : Playback :=
  if p.length = 0 then p
  else { p with index := if p.isAtEnd then 0 else p.index, isPlaying := true, pending := 0 }

def toggle (p : Playback) : Playback := if p.isPlaying then p.pause else p.play

/-- Stops at a frame, or at the last one if there are fewer. -/
def seek (p : Playback) (index : Nat) : Playback :=
  { p.pause with index := min index p.lastIndex }

def stepForward (p : Playback) : Playback := p.seek (p.index + 1)

def stepBackward (p : Playback) : Playback := { p.pause with index := p.index - 1 }

def reset (p : Playback) : Playback := { p.pause with index := 0 }

def setSpeed (p : Playback) (speedMs : Nat) : Playback :=
  { p with speedMs := max speedMs leastSpeed }

/-- How many frames the cursor can move on. -/
def room (p : Playback) : Nat := p.lastIndex - min p.index p.lastIndex

/-- Moves on by `n` frames, or as many as there are, while playing: how many, and the playback
afterwards. -/
def moveOn (p : Playback) (n : Nat) : Nat × Playback :=
  if p.isPlaying then
    let moved := min n p.room
    let p' := { p with index := p.index + moved }
    (moved, if p'.isAtEnd then p'.pause else p')
  else (0, p)

/-- Moves on by one frame while playing: whether the cursor moved. -/
def tick (p : Playback) : Bool × Playback := ((p.moveOn 1).1 = 1, (p.moveOn 1).2)

/-- The interval between frames. -/
def interval (p : Playback) : Nat := p.speedMs * 1000000

/-- Lets time pass: how many frames the cursor moved, and the playback afterwards. There is none if
the time to be kept is too long. -/
def advance? (p : Playback) (elapsed : Nat) : Option (Nat × Playback) :=
  if p.isPlaying then
    let time := p.pending + elapsed
    if time ≤ longestTime then
      let whole := time / p.interval
      let kept := time - p.interval * min whole mostIntervals
      some ({ p with pending := kept }.moveOn whole)
    else none
  else some (0, p)

/-- The quotient rounded to the nearest whole number, and to the even one of two. -/
def roundedQuotient (num den : Nat) : Nat :=
  let q := num / den
  let twice := 2 * (num % den)
  if twice < den then q else if den < twice then q + 1 else if q % 2 = 0 then q else q + 1

/-- A time in milliseconds. A negative one, or one that is no number, counts as none; one that is
too long counts as the longest. -/
def timeOfMilliseconds (ms : Float) : Nat :=
  match Decimal.binary? (ms / 1000.0) with
  | some b =>
    if b.negative then 0
    else
      let num := b.ratio.1
      let den := b.ratio.2
      if num < 0x10000000000000000 * den then roundedQuotient (num * 1000000000) den else longestTime
  | none => if ms > 0.0 then longestTime else 0

end Playback

end MissionScript
