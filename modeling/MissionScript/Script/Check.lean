import MissionScript.Script.Lexer
import MissionScript.Script.StmtParser

/-!
# Checking a text

A text is a script if it has tokens and the tokens form statements. Otherwise the first fault is
told as a diagnostic.
-/

namespace MissionScript

/-- The name a script goes by when it has no file of its own. -/
def defaultScriptName : String := "main.py"

/-- The tokens of a source. -/
def SourceText.tokens (source : SourceText) : Except Diagnostic (List Token) :=
  match Token.scan source.text with
  | .ok ts => .ok ts
  | .error e => .error (e.diagnostic source)

/-- The script made of the given tokens of a source. -/
def SourceText.programOf (source : SourceText) (ts : List Token) : Except Diagnostic Program :=
  match Program.ofTokens ts with
  | .ok p => .ok p
  | .error e => .error (e.diagnostic source)

/-- The script that a source holds. -/
def SourceText.program (source : SourceText) : Except Diagnostic Program :=
  match source.tokens with
  | .ok ts => source.programOf ts
  | .error d => .error d

end MissionScript
