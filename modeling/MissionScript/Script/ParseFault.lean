import MissionScript.Script.Lexeme
import MissionScript.Source.Diagnostic

/-!
# Why a script is refused

One constructor for each reason for which tokens do not form a script, with the wording, the code
and the hint that go with it.
-/

namespace MissionScript

/-- Nesting of parentheses, brackets, argument lists and prefix operators. -/
def nestingLimit : Nat := 64

/-- Height of one expression tree. -/
def heightLimit : Nat := 256

inductive ParseFault where
  | expected (wanted got : Lexeme)
  | missingColon (after : String)
  | expectedLineEnd (got : Lexeme)
  | reservedWord (word : Keyword) (role : String)
  | expectedName (role : String) (got : Lexeme)
  | endOfLine
  | expectedExpression (got : Lexeme)
  | missingIndex
  | tuple
  | notCallable
  | bareAttribute (name : String)
  | strayBranch (word : Keyword)
  | mustStartLine (word : Keyword)
  | missingBlock (owner : String)
  | unexpectedIndent
  | nestedFunction
  | outsideLoop (word : Keyword)
  | outsideFunction
  | invalidTarget
  | duplicateParameter (name : String)
  | chainedComparison
  | tooNested
  | tooTall
deriving DecidableEq

namespace ParseFault

def code : ParseFault → Code
  | missingBlock _ => ⟨201⟩
  | unexpectedIndent => ⟨202⟩
  | nestedFunction => ⟨203⟩
  | outsideLoop _ => ⟨204⟩
  | outsideFunction => ⟨205⟩
  | invalidTarget => ⟨206⟩
  | duplicateParameter _ => ⟨207⟩
  | chainedComparison => ⟨208⟩
  | tooNested | tooTall => ⟨209⟩
  | _ => ⟨200⟩

def message : ParseFault → String
  | expected wanted got => "expected '" ++ wanted.text ++ "', got '" ++ got.text ++ "'"
  | missingColon after => "expected ':' after " ++ after
  | expectedLineEnd got => "expected end of line, got '" ++ got.text ++ "'"
  | reservedWord word role =>
    "'" ++ word.text ++ "' is a reserved word and cannot be used as " ++ role
  | expectedName role got => "expected " ++ role ++ ", got '" ++ got.text ++ "'"
  | endOfLine => "unexpected end of line, expected an expression"
  | expectedExpression got => "expected an expression, got '" ++ got.text ++ "'"
  | missingIndex => "expected an index inside '[]'"
  | tuple => "tuples are not supported; use a list like [a, b]"
  | notCallable => "only named functions can be called"
  | bareAttribute name =>
    "attribute access is not supported; call it as a method: ." ++ name ++ "()"
  | strayBranch word => "'" ++ word.text ++ "' without a matching 'if'"
  | mustStartLine word => "'" ++ word.text ++ "' must start its own line"
  | missingBlock owner => "expected an indented block after " ++ owner
  | unexpectedIndent => "unexpected indent"
  | nestedFunction => "functions can only be defined at the top level"
  | outsideLoop word => "'" ++ word.text ++ "' outside loop"
  | outsideFunction => "'return' outside function"
  | invalidTarget => "cannot assign to this expression"
  | duplicateParameter name => "duplicate parameter '" ++ name ++ "' in function definition"
  | chainedComparison => "comparison operators cannot be chained"
  | tooNested => "expression is nested too deeply (limit " ++ toString nestingLimit ++ ")"
  | tooTall => "expression is too long (limit " ++ toString heightLimit ++ " operations deep)"

def suggestion : ParseFault → Option String
  | missingColon _ => some "add ':' at the end of the line"
  | missingBlock _ => some "indent the body by 4 spaces"
  | unexpectedIndent => some "remove the extra spaces at the start of the line"
  | nestedFunction => some "move this 'def' out to column 1"
  | invalidTarget => some "assign to a variable name or an item like xs[0]"
  | chainedComparison => some "use 'and' to combine them: a < b and b < c"
  | tooTall => some "split it into several assignments"
  | notCallable => some "call a function by its name, like move_right()"
  | _ => none

end ParseFault

/-- A fault and where it is. -/
structure ParseError where
  fault : ParseFault
  span : Span
deriving DecidableEq

def ParseError.diagnostic (source : SourceText) (e : ParseError) : Diagnostic :=
  .within source e.fault.code e.fault.message e.span e.fault.suggestion

end MissionScript
