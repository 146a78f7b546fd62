import MissionScript.Text.CaseTable
import MissionScript.Text.CharTable

/-!
# Upper and lower case of a text

Case mapping character by character, with the one rule that looks around: a capital sigma becomes
the final form at the end of a word, that is, when a cased character stands before it and none
after it, passing over characters such as apostrophes and accents.
-/

namespace MissionScript.Text

/-- The shifted character of the run that holds `n`, if one does. -/
def shifted? : List CaseRun → Nat → Option Nat
  | [], _ => none
  | r :: rest, n =>
    if n < r.first then none
    else if n ≤ r.last then
      if (n - r.first) % r.stride = 0 then some (n + r.shift).toNat else none
    else shifted? rest n

/-- The characters `c` maps to under a table of runs and a table of longer mappings. -/
def mapped (runs : List CaseRun) (words : List (Nat × List Nat)) (c : Char) : List Char :=
  match shifted? runs c.toNat with
  | some n => [Char.ofNat n]
  | none =>
    match words.lookup c.toNat with
    | some ns => ns.map Char.ofNat
    | none => [c]

def upperOf (c : Char) : List Char :=
  if c.toNat < 128 then [c.toUpper] else mapped upperRuns upperWords c

def lowerOf (c : Char) : List Char :=
  if c.toNat < 128 then [c.toLower] else mapped lowerRuns lowerWords c

def isCased (c : Char) : Bool := inRanges casedRanges c.toNat

def isCaseIgnorable (c : Char) : Bool := inRanges caseIgnorableRanges c.toNat

/-- Whether the first character that is not passed over has a case. -/
def casedAhead (cs : List Char) : Bool :=
  match cs.dropWhile isCaseIgnorable with
  | [] => false
  | c :: _ => isCased c

/-- The lower case of one character between the reversed text before it and the text after it. -/
def lowerAt (before : List Char) (c : Char) (after : List Char) : List Char :=
  if c = 'Σ' then
    if casedAhead before && !casedAhead after then ['ς'] else ['σ']
  else lowerOf c

/-- The lower case of the characters, put in reverse onto `out`. -/
def lowerOnto (out before : List Char) : List Char → List Char
  | [] => out
  | c :: cs => lowerOnto ((lowerAt before c cs).reverse ++ out) (c :: before) cs

def upper (s : String) : String := String.ofList (s.toList.flatMap upperOf)

def lower (s : String) : String := String.ofList (lowerOnto [] [] s.toList).reverse

def isBlank (c : Char) : Bool := inRanges blankRanges c.toNat

/-- The text without the white space at both ends. -/
def trimmed (cs : List Char) : List Char :=
  ((cs.dropWhile isBlank).reverse.dropWhile isBlank).reverse

end MissionScript.Text
