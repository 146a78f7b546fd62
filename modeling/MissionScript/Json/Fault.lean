import MissionScript.Decimal.Layout
import MissionScript.Source.Span
import MissionScript.Text.Quoted

/-!
# What can be wrong with JSON text

A fault is told with the place where it was noticed. Columns of JSON text count bytes, and a place
at the start of a text or line has column zero.
-/

namespace MissionScript.Json

/-- What was found where something else was wanted. -/
inductive Found where
  | null
  | bool (b : Bool)
  | whole (n : Int)
  | float (x : Float)
  | text (s : String)
  | sequence
  | map
deriving DecidableEq

def Found.words : Found → String
  | null => "null"
  | bool b => "boolean `" ++ (if b then "true" else "false") ++ "`"
  | whole n => "integer `" ++ toString n ++ "`"
  | float x => "floating point `" ++ Decimal.inJson.write x ++ "`"
  | text s => "string " ++ Text.quoted s
  | sequence => "sequence"
  | map => "map"

inductive Fault where
  | endInList
  | endInObject
  | endInText
  | endInValue
  | expectedColon
  | expectedListEnd
  | expectedObjectEnd
  | expectedWord
  | expectedValue
  | invalidEscape
  | invalidNumber
  | numberOutOfRange
  | controlCharacter
  | keyNotText
  | loneSurrogate
  | trailingComma
  | trailingCharacters
  | unfinishedSurrogate
  | nestedTooDeeply
  | wrongType (found : Found) (wanted : String)
  | wrongValue (found : Found) (wanted : String)
  | wrongLength (length : Nat) (wanted : String)
  | missingField (name : String)
  | duplicateField (name : String)
  | unknownChoice (name : String) (known : List String)
deriving DecidableEq

/-- A name as messages show it. -/
def shown (name : String) : String := "`" ++ name ++ "`"

/-- The names that are known, in words. -/
def knownNames : List String → String
  | [] => "there are no variants"
  | [a] => "expected " ++ shown a
  | [a, b] => "expected " ++ shown a ++ " or " ++ shown b
  | names => "expected one of " ++ ", ".intercalate (names.map shown)

def Fault.text : Fault → String
  | endInList => "EOF while parsing a list"
  | endInObject => "EOF while parsing an object"
  | endInText => "EOF while parsing a string"
  | endInValue => "EOF while parsing a value"
  | expectedColon => "expected `:`"
  | expectedListEnd => "expected `,` or `]`"
  | expectedObjectEnd => "expected `,` or `\x7d`"
  | expectedWord => "expected ident"
  | expectedValue => "expected value"
  | invalidEscape => "invalid escape"
  | invalidNumber => "invalid number"
  | numberOutOfRange => "number out of range"
  | controlCharacter => "control character (\\u0000-\\u001F) found while parsing a string"
  | keyNotText => "key must be a string"
  | loneSurrogate => "lone leading surrogate in hex escape"
  | trailingComma => "trailing comma"
  | trailingCharacters => "trailing characters"
  | unfinishedSurrogate => "unexpected end of hex escape"
  | nestedTooDeeply => "recursion limit exceeded"
  | wrongType found wanted => "invalid type: " ++ found.words ++ ", expected " ++ wanted
  | wrongValue found wanted => "invalid value: " ++ found.words ++ ", expected " ++ wanted
  | wrongLength n wanted => "invalid length " ++ toString n ++ ", expected " ++ wanted
  | missingField name => "missing field " ++ shown name
  | duplicateField name => "duplicate field " ++ shown name
  | unknownChoice name known => "unknown variant " ++ shown name ++ ", " ++ knownNames known

/-- A fault with its place, once that is known. -/
structure Error where
  fault : Fault
  place : Option Pos
deriving DecidableEq

namespace Error

/-- The error at a place, if it has none yet. -/
def atPlace (e : Error) (p : Pos) : Error :=
  match e.place with
  | some _ => e
  | none => { e with place := some p }

def line (e : Error) : Nat := (e.place.map (·.line)).getD 0

def column (e : Error) : Nat := (e.place.map (·.col)).getD 0

def message (e : Error) : String :=
  match e.place with
  | some p =>
    e.fault.text ++ " at line " ++ toString p.line ++ " column " ++ toString p.col
  | none => e.fault.text

end Error

end MissionScript.Json
