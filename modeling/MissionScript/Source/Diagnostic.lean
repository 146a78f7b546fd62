import MissionScript.Source.Span
import MissionScript.Source.Text

/-!
# Diagnostics

What a reader is told when a script or a level cannot be used: where, what, and sometimes a hint.
The code decides which stage the diagnostic belongs to.
-/

namespace MissionScript

/-- The stage that refused its input. -/
inductive Stage where
  | lex
  | parse
  | level
deriving DecidableEq

/-- The name in messages. -/
def Stage.title : Stage → String
  | .lex => "LexError"
  | .parse => "ParseError"
  | .level => "LevelError"

/-- The name in data. -/
def Stage.tag : Stage → String
  | .lex => "lex"
  | .parse => "parse"
  | .level => "level"

structure Code where
  number : Nat
deriving DecidableEq

namespace Code

def stage (c : Code) : Stage :=
  if 100 ≤ c.number && c.number ≤ 199 then .lex
  else if 300 ≤ c.number && c.number ≤ 399 then .level
  else .parse

def text (c : Code) : String := "E" ++ toString c.number

end Code

structure Diagnostic where
  file : String
  code : Code
  message : String
  span : Span
  sourceLine : String
  suggestion : Option String
deriving DecidableEq

namespace Diagnostic

/-- A diagnostic about a span of `source`, which shows the line where the span starts. -/
def within (source : SourceText) (code : Code) (message : String) (span : Span)
    (suggestion : Option String) : Diagnostic :=
  ⟨source.name, code, message, span, source.lineText span.line, suggestion⟩

def stage (d : Diagnostic) : Stage := d.code.stage

/-- The one-line form. -/
def summary (d : Diagnostic) : String :=
  d.stage.title ++ " [" ++ d.code.text ++ "] line " ++ toString d.span.line ++ ": " ++ d.message

end Diagnostic

end MissionScript
