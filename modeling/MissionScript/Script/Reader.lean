import MissionScript.Script.Ast
import MissionScript.Script.ParseFault

/-!
# Reading a token list

A reader holds the tokens that are left and the span of the last one taken. Parsers read from it one
after another; the first fault ends the reading.
-/

namespace MissionScript

structure Reader where
  rest : List Token
  previous : Span
deriving DecidableEq

namespace Reader

/-- The tokens, ended by an end of text where that is missing. -/
def ofTokens (ts : List Token) : Reader :=
  match ts.getLast? with
  | none => ⟨[⟨.eof, .point 1 1⟩], .point 1 1⟩
  | some t => ⟨if t.lexeme = .eof then ts else ts ++ [⟨.eof, t.span⟩], .point 1 1⟩

/-- The lexeme at hand. -/
def peek (r : Reader) : Lexeme :=
  match r.rest with
  | [] => .eof
  | t :: _ => t.lexeme

/-- The lexeme after the one at hand. -/
def peekNext (r : Reader) : Lexeme :=
  match r.rest with
  | _ :: t :: _ => t.lexeme
  | _ => .eof

def here (r : Reader) : Span :=
  match r.rest with
  | [] => r.previous
  | t :: _ => t.span

def advance (r : Reader) : Reader :=
  match r.rest with
  | [] => r
  | t :: ts => ⟨ts, t.span⟩

end Reader

abbrev Parse (α : Type) := StateT Reader (Except ParseError) α

namespace Parse

def failAt {α : Type} (fault : ParseFault) (span : Span) : Parse α :=
  throw ⟨fault, span⟩

/-- Fails at the token at hand. -/
def fail {α : Type} (fault : ParseFault) : Parse α := do
  failAt fault (← get).here

def peek : Parse Lexeme := return (← get).peek

/-- How many tokens are left. -/
def remaining : Parse Nat := return (← get).rest.length

/-- The span of the token last taken. -/
def previous : Parse Span := return (← get).previous

/-- Takes the token at hand and gives its span. -/
def take : Parse Span := do
  let r ← get
  set r.advance
  return r.here

/-- Takes the token at hand if it is `l`. -/
def eat (l : Lexeme) : Parse Bool := do
  if (← peek) = l then
    let _ ← take
    return true
  else return false

def expect (l : Lexeme) : Parse Span := do
  let got ← peek
  if got = l then take else fail (.expected l got)

/-- The colon that opens a block. -/
def expectColon (after : String) : Parse Unit := do
  if (← peek) = .symbol .colon then
    let _ ← take
  else fail (.missingColon after)

/-- The end of a simple statement; the end of the text or of the block will do. -/
def expectLineEnd : Parse Unit := do
  match ← peek with
  | .newline => let _ ← take
  | .eof | .dedent => return ()
  | got => fail (.expectedLineEnd got)

def expectName (role : String) : Parse Ident := do
  match ← peek with
  | .name s => return ⟨s, ← take⟩
  | .keyword k => fail (.reservedWord k role)
  | got => fail (.expectedName role got)

/-- Items separated by commas up to the closing symbol, which is not taken; a comma may stand after
the last item. At most as many items as `bound`. -/
def separated {α : Type} (item : Parse α) (close : Symbol) : Nat → List α → Parse (List α)
  | 0, sofar => return sofar.reverse
  | bound + 1, sofar => do
    if (← peek) = .symbol close then return sofar.reverse
    else
      let x ← item
      if ← eat (.symbol .comma) then separated item close bound (x :: sofar)
      else return (x :: sofar).reverse

/-- Items separated by commas, through the closing symbol. -/
def enclosed {α : Type} (item : Parse α) (close : Symbol) : Parse (List α) := do
  let items ← separated item close (← remaining) []
  let _ ← expect (.symbol close)
  return items

end Parse

end MissionScript
