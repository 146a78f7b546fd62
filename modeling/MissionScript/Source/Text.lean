/-!
# Named texts and their lines

A text has one line more than it has newlines. A line is shown without its ending, which is a
newline with any carriage returns before it.
-/

namespace MissionScript

/-- The lines of a text, the characters of the first one so far given in reverse. -/
def linesFrom (sofar : List Char) : List Char → List (List Char)
  | [] => [sofar.reverse]
  | c :: cs => if c = '\n' then sofar.reverse :: linesFrom [] cs else linesFrom (c :: sofar) cs

structure SourceText where
  name : String
  text : String

namespace SourceText

def lines (s : SourceText) : List (List Char) := linesFrom [] s.text.toList

def lineCount (s : SourceText) : Nat := s.lines.length

/-- The text without the carriage returns at its end. -/
def withoutReturns (cs : List Char) : List Char :=
  (cs.reverse.dropWhile (· = '\r')).reverse

/-- Line `n`, counting from one. -/
def line? (s : SourceText) (n : Nat) : Option String :=
  match n with
  | 0 => none
  | k + 1 => s.lines[k]?.map fun cs => String.ofList (withoutReturns cs)

/-- Line `n`, or nothing at all where there is no such line. -/
def lineText (s : SourceText) (n : Nat) : String := (s.line? n).getD ""

end SourceText

end MissionScript
