import MissionScript.Mission.World

/-!
# Recording a run

Frames are numbered from zero in the order in which they come. After an error frame no further frame
is taken.
-/

namespace MissionScript

structure Recorder where
  initial : Snapshot
  frames : Array Frame
  isSealed : Bool
deriving DecidableEq

namespace Recorder

def start (initial : Snapshot) : Recorder := ⟨initial, #[], false⟩

/-- The next frame, as `record` takes it. -/
def next (r : Recorder) (w : World) (line : Nat) (log error : Option String) : Frame :=
  ⟨r.frames.size, w.snapshot, log, some line, error⟩

def record (r : Recorder) (w : World) (line : Nat) (log error : Option String) : Recorder :=
  if r.isSealed then r
  else { r with frames := r.frames.push (r.next w line log error), isSealed := error.isSome }

def finish (r : Recorder) (verdict : Verdict) (output : String) : Trace :=
  ⟨r.initial, r.frames.toList, output, verdict⟩

end Recorder

end MissionScript
