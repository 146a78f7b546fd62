/-!
# JSON values and how they are written

Objects keep their members in order. The compact form has no space between tokens; the pretty form
gives every member and item a line of its own, two spaces deeper than what it is in.
-/

namespace MissionScript

inductive Json where
  | null
  | bool (b : Bool)
  | num (n : Int)
  | str (s : String)
  | arr (items : List Json)
  | obj (members : List (String × Json))
deriving Inhabited

namespace Json

/-- Two lower case digits in base sixteen. -/
def twoHexDigits (n : Nat) : String :=
  String.ofList [Nat.digitChar (n / 16 % 16), Nat.digitChar (n % 16)]

/-- A character inside quotes. -/
def escapedChar (c : Char) : String :=
  if c = '\x22' then "\\\""
  else if c = '\\' then "\\\\"
  else if c = '\x08' then "\\b"
  else if c = '\x0c' then "\\f"
  else if c = '\n' then "\\n"
  else if c = '\r' then "\\r"
  else if c = '\t' then "\\t"
  else if c.toNat < 32 then "\\u00" ++ twoHexDigits c.toNat
  else c.toString

/-- A text in quotes, put after `out`. -/
def quoteOnto (out : String) (s : String) : String :=
  s.toList.foldl (fun o c => o ++ escapedChar c) (out ++ "\"") ++ "\""

mutual

/-- The compact form, put after `out`. -/
def compactOnto (out : String) : Json → String
  | null => out ++ "null"
  | bool b => out ++ (if b then "true" else "false")
  | num n => out ++ toString n
  | str s => quoteOnto out s
  | arr items => compactItems (out ++ "[") true items ++ "]"
  | obj members => compactMembers (out ++ "\x7b") true members ++ "\x7d"

def compactItems (out : String) (isFirst : Bool) : List Json → String
  | [] => out
  | j :: js => compactItems (compactOnto (if isFirst then out else out ++ ",") j) false js

def compactMembers (out : String) (isFirst : Bool) : List (String × Json) → String
  | [] => out
  | (k, j) :: ms =>
    compactMembers (compactOnto (quoteOnto (if isFirst then out else out ++ ",") k ++ ":") j)
      false ms

end

def compact (j : Json) : String := compactOnto "" j

/-- The start of a line `depth` levels deep. -/
def newLine (depth : Nat) : String := "\n" ++ String.ofList (List.replicate (2 * depth) ' ')

mutual

/-- The pretty form at a depth, put after `out`. -/
def prettyOnto (depth : Nat) (out : String) : Json → String
  | null => out ++ "null"
  | bool b => out ++ (if b then "true" else "false")
  | num n => out ++ toString n
  | str s => quoteOnto out s
  | arr [] => out ++ "[]"
  | arr (j :: js) =>
    prettyItems (depth + 1) (prettyOnto (depth + 1) (out ++ "[" ++ newLine (depth + 1)) j) js
      ++ newLine depth ++ "]"
  | obj [] => out ++ "\x7b\x7d"
  | obj ((k, j) :: ms) =>
    prettyMembers (depth + 1)
        (prettyOnto (depth + 1) (quoteOnto (out ++ "\x7b" ++ newLine (depth + 1)) k ++ ": ") j) ms
      ++ newLine depth ++ "\x7d"

/-- Further items, each after a comma and on a line of its own. -/
def prettyItems (depth : Nat) (out : String) : List Json → String
  | [] => out
  | j :: js => prettyItems depth (prettyOnto depth (out ++ "," ++ newLine depth) j) js

/-- Further members, each after a comma and on a line of its own. -/
def prettyMembers (depth : Nat) (out : String) : List (String × Json) → String
  | [] => out
  | (k, j) :: ms =>
    prettyMembers depth (prettyOnto depth (quoteOnto (out ++ "," ++ newLine depth) k ++ ": ") j) ms

end

def pretty (j : Json) : String := prettyOnto 0 "" j

end Json

end MissionScript
