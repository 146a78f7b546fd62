import MissionScript.Decimal.Layout
import MissionScript.Value.Basic

/-!
# Values as text

A value has a plain text and a written form, which differ for texts only: the written form has
quotes. Inside a list or a dict everything is written. Quotes are single, unless the text has single
quotes and no double ones.
-/

namespace MissionScript.Value

def singleQuote : Char := '\x27'

def doubleQuote : Char := '\x22'

/-- The quote that a text is put into. -/
def quoteFor (cs : List Char) : Char :=
  if cs.contains singleQuote && !cs.contains doubleQuote then doubleQuote else singleQuote

/-- One character between quotes. -/
def inQuotes (quote c : Char) : String :=
  if c = '\\' then "\\\\"
  else if c = '\n' then "\\n"
  else if c = '\t' then "\\t"
  else if c = '\r' then "\\r"
  else if c = quote then "\\" ++ c.toString
  else c.toString

/-- A text between quotes, put after `out`. -/
def quoteOnto (out : String) (s : String) : String :=
  let cs := s.toList
  let quote := quoteFor cs
  (cs.foldl (fun o c => o ++ inQuotes quote c) (out.push quote)).push quote

/-- What stands before an item or an entry. -/
def separator (isFirst : Bool) : String := if isFirst then "" else ", "

mutual

/-- The written form, put after `out`. -/
def writtenOnto (out : String) : Value → String
  | none => out ++ "None"
  | bool b => out ++ (if b then "True" else "False")
  | int n => out ++ toString n.toInt
  | float x => out ++ Decimal.printed.write x
  | str s => quoteOnto out s
  | list items => writtenItems (out ++ "[") true items ++ "]"
  | dict entries => writtenEntries (out ++ "\x7b") true entries ++ "\x7d"

def writtenItems (out : String) (isFirst : Bool) : List Value → String
  | [] => out
  | v :: vs => writtenItems (writtenOnto (out ++ separator isFirst) v) false vs

def writtenEntries (out : String) (isFirst : Bool) : List (Value × Value) → String
  | [] => out
  | (k, v) :: es =>
    writtenEntries (writtenOnto (writtenOnto (out ++ separator isFirst) k ++ ": ") v) false es

end

def written (v : Value) : String := writtenOnto "" v

/-- The plain text. -/
def text : Value → String
  | str s => s
  | v => v.written

end MissionScript.Value
