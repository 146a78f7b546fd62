import MissionScript.Decimal.Read
import MissionScript.Script.Lexeme
import MissionScript.Source.Diagnostic

/-!
# From text to tokens

A logical line starts with its indentation, which opens or closes blocks; a blank line or a line
that holds only a comment is passed over. Inside brackets a newline is a space. The first fault ends
the reading.
-/

namespace MissionScript

/-- What cannot be read as a token. -/
inductive LexFault where
  | unterminatedString (quote : Char)
  | invalidCharacter (c : Char)
  | inconsistentIndent
  | badNumber (text : String)
  | bareFraction (text : String)
  | integerTooLarge (text : String)
deriving DecidableEq

namespace LexFault

def code : LexFault → Code
  | unterminatedString _ => ⟨100⟩
  | invalidCharacter _ => ⟨101⟩
  | inconsistentIndent => ⟨102⟩
  | badNumber _ | bareFraction _ | integerTooLarge _ => ⟨103⟩

def message : LexFault → String
  | unterminatedString _ => "unterminated string literal"
  | invalidCharacter c => "invalid character '" ++ c.toString ++ "'"
  | inconsistentIndent => "unindent does not match any outer indentation level"
  | badNumber t | bareFraction t => "invalid number literal '" ++ t ++ "'"
  | integerTooLarge t => "integer literal '" ++ t ++ "' is too large"

def suggestion : LexFault → Option String
  | unterminatedString q => some ("close the string with " ++ q.toString)
  | invalidCharacter '!' => some "use 'not' for negation, or '!=' for inequality"
  | inconsistentIndent => some "line this statement up with an enclosing block"
  | bareFraction t => some ("write '" ++ t ++ "0'")
  | _ => none

end LexFault

/-- A fault and where it is. -/
structure LexError where
  fault : LexFault
  span : Span
deriving DecidableEq

def LexError.diagnostic (source : SourceText) (e : LexError) : Diagnostic :=
  .within source e.fault.code e.fault.message e.span e.fault.suggestion

/-- What is left of a text, and the place of its first character. -/
structure Cursor where
  rest : List Char
  line : Nat
  col : Nat
deriving DecidableEq

namespace Cursor

def ofText (s : String) : Cursor := ⟨s.toList, 1, 1⟩

def pos (c : Cursor) : Pos := ⟨c.line, c.col⟩

/-- Passes over one character. -/
def advance (c : Cursor) : Cursor :=
  match c.rest with
  | [] => c
  | x :: xs => if x = '\n' then ⟨xs, c.line + 1, 1⟩ else ⟨xs, c.line, c.col + 1⟩

/-- Passes over `n` characters, none of them a newline. -/
def skip (n : Nat) (c : Cursor) : Cursor :=
  { c with rest := c.rest.drop n, col := c.col + n }

/-- The characters at the cursor for which `p` holds, up to the first for which it does not. -/
def run (p : Char → Bool) (c : Cursor) : List Char := c.rest.takeWhile p

/-- Passes over the characters for which `p` holds, none of them a newline. -/
def skipWhile (p : Char → Bool) (c : Cursor) : Cursor := c.skip (c.run p).length

/-- The span from `start` to the character before the cursor. -/
def spanFrom (start : Pos) (c : Cursor) : Span := ⟨start, ⟨c.line, max (c.col - 1) 1⟩⟩

end Cursor

def isNameStart (c : Char) : Bool := c.isAlpha || c = '_'

def isNameChar (c : Char) : Bool := c.isAlphanum || c = '_'

/-- Space within a line. -/
def isSpace (c : Char) : Bool := c = ' ' || c = '\t' || c = '\r'

def isNotNewline (c : Char) : Bool := c ≠ '\n'

/-- Tab stops are this many columns apart. -/
def tabWidth : Nat := 4

/-- The largest integer literal. -/
def largestInt : Nat := 0x7fffffffffffffff

/-- A lexeme together with the cursor after it, or a fault. -/
abbrev Scanned := Except LexError (Lexeme × Cursor)

/-- A number, from its first digit on. A point belongs to it if a digit follows; if a letter
follows, the point is left alone. -/
def scanNumber (c : Cursor) : Scanned :=
  let start := c.pos
  let whole := c.run Char.isDigit
  let afterWhole := c.skipWhile Char.isDigit
  let finish (text : List Char) (value : Except LexFault Lexeme) (c' : Cursor) : Scanned :=
    let tail := c'.run isNameChar
    if (c'.rest.head?.map isNameStart).getD false then
      let stop := c'.skip tail.length
      .error ⟨.badNumber (String.ofList (text ++ tail)), stop.spanFrom start⟩
    else
      match value with
      | .ok l => .ok (l, c')
      | .error f => .error ⟨f, c'.spanFrom start⟩
  let integer : Except LexFault Lexeme :=
    let n := Decimal.natOfDigits whole
    if n ≤ largestInt then .ok (.int (Int64.ofNat n))
    else .error (.integerTooLarge (String.ofList whole))
  match afterWhole.rest with
  | '.' :: next =>
    match next.head? with
    | none =>
      let text := String.ofList (whole ++ ['.'])
      .error ⟨.bareFraction text, (afterWhole.skip 1).spanFrom start⟩
    | some d =>
      if d.isDigit then
        let point := afterWhole.skip 1
        let fraction := point.run Char.isDigit
        finish (whole ++ '.' :: fraction) (.ok (.float (Decimal.floatOfDigits whole fraction)))
          (point.skip fraction.length)
      else if isNameStart d then finish whole integer afterWhole
      else
        let text := String.ofList (whole ++ ['.'])
        .error ⟨.bareFraction text, (afterWhole.skip 1).spanFrom start⟩
  | _ => finish whole integer afterWhole

/-- A name or a reserved word, from its first character on. -/
def scanName (c : Cursor) : Lexeme × Cursor :=
  let text := String.ofList (c.run isNameChar)
  let lexeme := match Keyword.ofText? text with
    | some k => .keyword k
    | none => .name text
  (lexeme, c.skipWhile isNameChar)

/-- The character an escape stands for, if it is a known one. -/
def escaped? : Char → Option Char
  | 'n' => some '\n'
  | 't' => some '\t'
  | 'r' => some '\r'
  | '0' => some '\x00'
  | '\\' => some '\\'
  | '\x27' => some '\x27'
  | '\x22' => some '\x22'
  | _ => none

/-- The body of a string after its opening quote: the characters it stands for, in reverse onto
`out`, and what follows the closing quote with the number of characters passed over. Without a
closing quote on the line, only that number. An unknown escape stands for itself. -/
def stringBody (quote : Char) (out : List Char) (count : Nat) :
    List Char → Except Nat (List Char × List Char × Nat)
  | [] => .error count
  | c :: cs =>
    if c = '\n' then .error count
    else if c = quote then .ok (out, cs, count + 1)
    else if c = '\\' then
      match cs with
      | [] => .error (count + 1)
      | e :: cs' =>
        if e = '\n' then .error (count + 1)
        else
          match escaped? e with
          | some x => stringBody quote (x :: out) (count + 2) cs'
          | none => stringBody quote (e :: '\\' :: out) (count + 2) cs'
    else stringBody quote (c :: out) (count + 1) cs

/-- A string, from its opening quote on. -/
def scanString (quote : Char) (c : Cursor) : Scanned :=
  let inside := c.skip 1
  match stringBody quote [] 0 inside.rest with
  | .ok (out, _, n) => .ok (.str (String.ofList out.reverse), inside.skip n)
  | .error n => .error ⟨.unterminatedString quote, (inside.skip n).spanFrom c.pos⟩

/-- A symbol: the longer one where two would do. -/
def scanSymbol (x : Char) (c : Cursor) : Scanned :=
  let pair := match c.rest with
    | a :: b :: _ => Symbol.ofPair? a b
    | _ => none
  match pair with
  | some s => .ok (.symbol s, c.skip 2)
  | none =>
    match Symbol.ofChar? x with
    | some s => .ok (.symbol s, c.skip 1)
    | none => .error ⟨.invalidCharacter x, (c.skip 1).spanFrom c.pos⟩

/-- The lexeme that starts with `x`, the character at the cursor. -/
def scanLexeme (x : Char) (c : Cursor) : Scanned :=
  if x = '\x22' || x = '\x27' then scanString x c
  else if x.isDigit then scanNumber c
  else if isNameStart x then .ok (scanName c)
  else scanSymbol x c

/-- The first line from here on that is neither blank nor a mere comment: the width of its
indentation and the place after it. With `width` absent, the rest of the line is a comment. -/
def nextLogicalLine (width : Option Nat) (line col : Nat) : List Char → Nat × Cursor
  | [] => (width.getD 0, ⟨[], line, col⟩)
  | c :: cs =>
    if c = '\n' then nextLogicalLine (some 0) (line + 1) 1 cs
    else
      match width with
      | none => nextLogicalLine none line (col + 1) cs
      | some w =>
        if c = ' ' then nextLogicalLine (some (w + 1)) line (col + 1) cs
        else if c = '\t' then
          nextLogicalLine (some ((w / tabWidth + 1) * tabWidth)) line (col + 1) cs
        else if c = '\r' then nextLogicalLine (some w) line (col + 1) cs
        else if c = '#' then nextLogicalLine none line (col + 1) cs
        else (w, ⟨c :: cs, line, col⟩)

/-- The widths of the open blocks, the innermost first; the outermost, zero, is not listed. -/
abbrev Indents := List Nat

/-- Closes the blocks wider than `width`: how many there are, and those still open. -/
def closeBlocks (width : Nat) : Indents → Nat × Indents
  | [] => (0, [])
  | w :: ws => if width < w then ((closeBlocks width ws).1 + 1, (closeBlocks width ws).2)
    else (0, w :: ws)

/-- The layout lexemes at the start of a logical line of the given width. -/
def indentTo (width : Nat) (open_ : Indents) : Except LexFault (List Lexeme × Indents) :=
  if open_.headD 0 < width then .ok ([.indent], width :: open_)
  else
    let closed := closeBlocks width open_
    if closed.2.headD 0 = width then .ok (List.replicate closed.1 .dedent, closed.2)
    else .error .inconsistentIndent

/-- Where the lexer stands between two tokens. -/
structure Layout where
  indents : Indents
  brackets : Nat
  fresh : Bool
deriving DecidableEq

/-- Before the first token. -/
def Layout.start : Layout := ⟨[], 0, true⟩

/-- Brackets after a lexeme. A closing bracket without an opening one is let through. -/
def Layout.after (layout : Layout) (l : Lexeme) : Layout :=
  match l with
  | .symbol s =>
    if s.opens then { layout with brackets := layout.brackets + 1 }
    else if s.closes then { layout with brackets := layout.brackets - 1 }
    else layout
  | _ => layout

/-- Puts tokens of no extent at the cursor onto the reversed tokens so far. -/
def pushLayout (c : Cursor) (ls : List Lexeme) (sofar : List Token) : List Token :=
  ls.foldl (fun ts l => ⟨l, c.spanFrom c.pos⟩ :: ts) sofar

/-- Ends the last line, closes what is open and ends the text. -/
def closeText (layout : Layout) (c : Cursor) (sofar : List Token) : List Token :=
  let ended := match sofar.head? with
    | none => []
    | some t => if t.lexeme = .newline || t.lexeme = .dedent then [] else [Lexeme.newline]
  let all := ended ++ List.replicate layout.indents.length Lexeme.dedent ++ [.eof]
  (pushLayout c all sofar).reverse

/-- At the start of a logical line: passes over blank lines and takes account of the indentation. -/
def startLine (layout : Layout) (c : Cursor) (sofar : List Token) :
    Except LexError (Layout × Cursor × List Token) :=
  if layout.fresh && layout.brackets = 0 then
    let line := nextLogicalLine (some 0) c.line c.col c.rest
    let here := line.2
    if here.rest.isEmpty then .ok ({ layout with fresh := false }, here, sofar)
    else
      match indentTo line.1 layout.indents with
      | .ok (ls, indents) =>
        .ok ({ layout with indents := indents, fresh := false }, here, pushLayout here ls sofar)
      | .error f => .error ⟨f, .point here.line here.col⟩
  else .ok (layout, c, sofar)

/-- One token, newline or comment after the start of the line. Without one, the text is over. -/
def scanStep (layout : Layout) (c : Cursor) (sofar : List Token) :
    Except LexError (Option (Layout × Cursor × List Token)) :=
  match c.rest with
  | [] => .ok none
  | x :: _ =>
    if x = '#' then .ok (some (layout, c.skipWhile isNotNewline, sofar))
    else if x = '\n' then
      let after := c.advance
      if layout.brackets = 0 then
        .ok (some ({ layout with fresh := true }, after,
          ⟨.newline, after.spanFrom c.pos⟩ :: sofar))
      else .ok (some (layout, after, sofar))
    else
      match scanLexeme x c with
      | .ok (l, after) => .ok (some (layout.after l, after, ⟨l, after.spanFrom c.pos⟩ :: sofar))
      | .error e => .error e

/-- Reads tokens until the text is over; every step passes over at least one character, so as many
steps as characters, and one more, are enough. -/
def scanFrom : Nat → Layout → Cursor → List Token → Except LexError (List Token)
  | 0, layout, c, sofar => .ok (closeText layout c sofar)
  | steps + 1, layout, c, sofar =>
    match startLine layout c sofar with
    | .error e => .error e
    | .ok (layout, c, sofar) =>
      let here := c.skipWhile isSpace
      match scanStep layout here sofar with
      | .error e => .error e
      | .ok none => .ok (closeText layout here sofar)
      | .ok (some (layout, c, sofar)) => scanFrom steps layout c sofar

/-- The tokens of a text. -/
def Token.scan (text : String) : Except LexError (List Token) :=
  let c := Cursor.ofText text
  scanFrom (c.rest.length + 1) .start c []

end MissionScript
