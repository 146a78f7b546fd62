import MissionScript.Digest.Sha256
import MissionScript.Format.Level
import MissionScript.Mission.Trace

/-!
# Traces as JSON

The compact form of a trace is its canonical text; the fingerprint of the trace is the SHA-256 of
that text.
-/

namespace MissionScript

open Json (Datum Member Shape)

def ObjectKind.name : ObjectKind → String
  | crystal => "crystal"
  | rock => "rock"

def ObjectKind.all : List ObjectKind := [crystal, rock]

def ObjectKind.ofName (s : String) : ObjectKind := (all.find? (·.name = s)).getD .crystal

def ObjectState.name : ObjectState → String
  | idle => "idle"
  | collected => "collected"

def ObjectState.all : List ObjectState := [idle, collected]

def ObjectState.ofName (s : String) : ObjectState := (all.find? (·.name = s)).getD .idle

def ErrorKind.all : List ErrorKind :=
  [name, type, value, index, key, zeroDivision, arithmetic, recursion, movement, stepLimit]

def ErrorKind.ofTitle (s : String) : ErrorKind := (all.find? (·.title = s)).getD .name

def EndReason.name : EndReason → String
  | success => "success"
  | incomplete => "incomplete"
  | error => "error"

def EndReason.all : List EndReason := [success, incomplete, error]

def EndReason.ofName (s : String) : EndReason := (all.find? (·.name = s)).getD .error

namespace WorldObject

def shape : Shape :=
  .record "WorldObject"
    [(.required "id", .text),
     (.required "type", .choice (ObjectKind.all.map ObjectKind.name)),
     (.required "pos", Position.shape),
     (.required "state", .choice (ObjectState.all.map ObjectState.name))]

def toDatum (o : WorldObject) : Datum :=
  .record [.text o.id, .text o.kind.name, o.pos.toDatum, .text o.state.name]

def ofDatum (d : Datum) : WorldObject :=
  { id := (d.get 0).string
    kind := .ofName (d.get 1).string
    pos := .ofDatum (d.get 2)
    state := .ofName (d.get 3).string }

end WorldObject

namespace Snapshot

def shape : Shape :=
  .record "Snapshot"
    [(.required "playerPos", Position.shape),
     (.required "playerDir", Direction.shape),
     (.required "objects", .list WorldObject.shape)]

def toDatum (s : Snapshot) : Datum :=
  .record [s.pos.toDatum, s.dir.toDatum, .list (s.objects.map WorldObject.toDatum)]

def ofDatum (d : Datum) : Snapshot :=
  { pos := .ofDatum (d.get 0)
    dir := .ofDatum (d.get 1)
    objects := (d.get 2).items.map WorldObject.ofDatum }

def toJson (s : Snapshot) : Json := shape.write s.toDatum

end Snapshot

/-- An optional number that counts something. -/
def Json.Datum.ofNat? (n : Option Nat) : Datum := .ofOption (fun n : Nat => .whole n) n

namespace Frame

/-- The members of the snapshot stand among those of the frame. -/
def shape : Shape :=
  .record "Frame"
    [(.required "step", .u32),
     (.spreading, Snapshot.shape),
     (.nullable "log", .optional .text),
     (.nullable "lineNo", .optional .u32),
     (.nullable "error", .optional .text)]

def toDatum (f : Frame) : Datum :=
  .record
    [.whole f.step, f.snapshot.toDatum, .ofOption .text f.log, .ofNat? f.line,
     .ofOption .text f.error]

def ofDatum (d : Datum) : Frame :=
  { step := (d.get 0).nat
    snapshot := .ofDatum (d.get 1)
    log := (d.get 2).option Datum.string
    line := (d.get 3).option Datum.nat
    error := (d.get 4).option Datum.string }

def toJson (f : Frame) : Json := shape.write f.toDatum

end Frame

namespace RunError

def shape : Shape :=
  .record "RunError"
    [(.required "kind", .choice (ErrorKind.all.map ErrorKind.title)),
     (.required "message", .text),
     (.nullable "line", .optional .u32)]

def toDatum (e : RunError) : Datum :=
  .record [.text e.kind.title, .text e.message, .ofNat? e.line]

def ofDatum (d : Datum) : RunError :=
  { kind := .ofTitle (d.get 0).string
    message := (d.get 1).string
    line := (d.get 2).option Datum.nat }

end RunError

namespace Verdict

def shape : Shape :=
  .record "Verdict"
    [(.required "success", .flag),
     (.required "reason", .choice (EndReason.all.map EndReason.name)),
     ((Member.default "message" .absent).leftOut, .optional .text),
     ((Member.default "error" .absent).leftOut, .optional RunError.shape)]

def toDatum (v : Verdict) : Datum :=
  .record
    [.flag v.success, .text v.reason.name, .ofOption .text v.message,
     .ofOption RunError.toDatum v.error]

def ofDatum (d : Datum) : Verdict :=
  { success := (d.get 0).bool
    reason := .ofName (d.get 1).string
    message := (d.get 2).option Datum.string
    error := (d.get 3).option RunError.ofDatum }

end Verdict

namespace Trace

def shape : Shape :=
  .record "Trace"
    [(.required "initial", Snapshot.shape),
     (.required "frames", .list Frame.shape),
     (.required "output", .text),
     (.required "verdict", Verdict.shape)]

def toDatum (t : Trace) : Datum :=
  .record
    [t.initial.toDatum, .list (t.frames.map Frame.toDatum), .text t.output, t.verdict.toDatum]

def ofDatum (d : Datum) : Trace :=
  { initial := .ofDatum (d.get 0)
    frames := (d.get 1).items.map Frame.ofDatum
    output := (d.get 2).string
    verdict := .ofDatum (d.get 3) }

def toJson (t : Trace) : Json := shape.write t.toDatum

/-- The trace that a JSON text holds. -/
def read (text : String) : Except Json.Error Trace := (shape.read text).map ofDatum

/-- The canonical text. -/
def text (t : Trace) : String := t.toJson.compact

/-- The SHA-256 of the canonical text, in base sixteen. Equal traces have equal fingerprints. -/
def fingerprint (t : Trace) : String := Digest.sha256 t.text.toUTF8

end Trace

end MissionScript
