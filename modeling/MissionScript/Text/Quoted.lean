import MissionScript.Text.CharTable

/-!
# Text in double quotes

How a text is shown inside a message: in double quotes, with quotes, backslashes and the common
control characters escaped, and every character that cannot be printed on its own given by its code
point.
-/

namespace MissionScript.Text

/-- The digits of `n` in base sixteen, lower case. -/
def hex (n : Nat) : String := String.ofList (Nat.toDigits 16 n)

/-- A character that shows nothing of its own, or attaches itself to the one before it. -/
def needsCodePoint (c : Char) : Bool :=
  c ≠ ' ' && (inRanges extendingRanges c.toNat || inRanges unprintableRanges c.toNat)

def quotedChar (c : Char) : String :=
  if c = '\x00' then "\\0"
  else if c = '\t' then "\\t"
  else if c = '\r' then "\\r"
  else if c = '\n' then "\\n"
  else if c = '\x22' then "\\\""
  else if c = '\\' then "\\\\"
  else if needsCodePoint c then "\\u\x7b" ++ hex c.toNat ++ "\x7d"
  else c.toString

def quoted (s : String) : String :=
  s.toList.foldl (fun out c => out ++ quotedChar c) "\"" ++ "\""

end MissionScript.Text
