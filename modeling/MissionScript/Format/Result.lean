import MissionScript.Format.Limits
import MissionScript.Format.Trace
import MissionScript.Run.Outcome
import MissionScript.Script.Check

/-!
# The result of running a script on a level

A script that runs leaves a trace, whatever becomes of it. One that does not, because it or its
level cannot be read, leaves a diagnostic.
-/

namespace MissionScript

open Json (Datum Member Shape)

namespace Diagnostic

def spanShape : Shape :=
  .record "Span"
    [(.required "line", .u32), (.required "column", .u32), (.required "end_line", .u32),
     (.required "end_column", .u32)]

def spanDatum (s : Span) : Datum :=
  .record [.whole s.start.line, .whole s.start.col, .whole s.stop.line, .whole s.stop.col]

def spanOf (d : Datum) : Span :=
  ⟨⟨(d.get 0).nat, (d.get 1).nat⟩, ⟨(d.get 2).nat, (d.get 3).nat⟩⟩

/-- The stage is written for the reader's sake; it follows from the code. -/
def shape : Shape :=
  .record "RoverError"
    [(.required "file", .text),
     (.required "code", .u16),
     (.required "category", .choice [Stage.lex.tag, Stage.parse.tag, Stage.level.tag]),
     (.required "message", .text),
     (.spreading, spanShape),
     (.required "source_line", .text),
     ((Member.nullable "suggestion").leftOut, .optional .text)]

def toDatum (d : Diagnostic) : Datum :=
  .record
    [.text d.file, .whole d.code.number, .text d.stage.tag, .text d.message, spanDatum d.span,
     .text d.sourceLine, .ofOption .text d.suggestion]

def ofDatum (d : Datum) : Diagnostic :=
  { file := (d.get 0).string
    code := ⟨(d.get 1).nat⟩
    message := (d.get 3).string
    span := spanOf (d.get 4)
    sourceLine := (d.get 5).string
    suggestion := (d.get 6).option Datum.string }

def toJson (d : Diagnostic) : Json := shape.write d.toDatum

end Diagnostic

structure RunResult where
  success : Bool
  trace : Option Trace
  error : Option Diagnostic
deriving DecidableEq

namespace RunResult

def ofTrace (t : Trace) : RunResult := ⟨t.verdict.success, some t, none⟩

def ofDiagnostic (d : Diagnostic) : RunResult := ⟨false, none, some d⟩

def ofExcept (r : Except Diagnostic Trace) : RunResult :=
  match r with
  | .ok t => ofTrace t
  | .error d => ofDiagnostic d

def shape : Shape :=
  .record "RunResult"
    [(.required "success", .flag),
     ((Member.default "trace" .absent).leftOut, .optional Trace.shape),
     ((Member.default "error" .absent).leftOut, .optional Diagnostic.shape)]

def toDatum (r : RunResult) : Datum :=
  .record
    [.flag r.success, .ofOption Trace.toDatum r.trace, .ofOption Diagnostic.toDatum r.error]

def ofDatum (d : Datum) : RunResult :=
  { success := (d.get 0).bool
    trace := (d.get 1).option Trace.ofDatum
    error := (d.get 2).option Diagnostic.ofDatum }

def toJson (r : RunResult) : Json := shape.write r.toDatum

/-- The result that a JSON text holds. -/
def read (text : String) : Except Json.Error RunResult := (shape.read text).map ofDatum

end RunResult

/-- The version of the language and of its formats. -/
def version : String := "0.1.0"

/-- Reads a script and runs it on a level. -/
def SourceText.runOn (source : SourceText) (level : Level) (limits : Limits) :
    Except Diagnostic Trace := do
  let p ← source.program
  return run p level limits

/-- Reads a level and a script and runs the script. The level is read first. -/
def runTexts (levelText scriptText : String) (limits : Limits) : RunResult :=
  .ofExcept do
    let level ← Level.ofText levelText
    SourceText.runOn ⟨defaultScriptName, scriptText⟩ level limits

end MissionScript
