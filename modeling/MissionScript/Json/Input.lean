import MissionScript.Json.Fault

/-!
# Reading JSON text character by character

The input is what is left of the text with the place reached. A reader that fails leaves the input
where it stopped, because a fault without a place is given the place that is reached later, when the
value around it ends.
-/

namespace MissionScript.Json

structure Input where
  rest : List Char
  place : Pos
deriving DecidableEq

abbrev Reading := EStateM Error Input

namespace Input

def ofText (s : String) : Input := ⟨s.toList, ⟨1, 0⟩⟩

/-- The place after a character. -/
def after (p : Pos) (c : Char) : Pos :=
  if c = '\n' then ⟨p.line + 1, 0⟩ else ⟨p.line, p.col + c.utf8Size⟩

def advance (i : Input) : Input :=
  match i.rest with
  | [] => i
  | c :: cs => ⟨cs, after i.place c⟩

/-- The place of the byte at hand, which is one further than the place reached. -/
def nextPlace (i : Input) : Pos :=
  match i.rest with
  | [] => i.place
  | c :: _ => if c = '\n' then ⟨i.place.line + 1, 0⟩ else ⟨i.place.line, i.place.col + 1⟩

/-- Passes over `n` characters, none of them a newline or longer than a byte. -/
def skip (i : Input) (n : Nat) : Input := ⟨i.rest.drop n, ⟨i.place.line, i.place.col + n⟩⟩

def isSpace (c : Char) : Bool := c = ' ' || c = '\n' || c = '\t' || c = '\r'

/-- Passes over space, `cs` being what is left of the text. -/
def skipSpaceFrom (p : Pos) : List Char → Input
  | [] => ⟨[], p⟩
  | c :: cs => if isSpace c then skipSpaceFrom (after p c) cs else ⟨c :: cs, p⟩

end Input

namespace Reading

/-- Fails at the place reached. -/
def failHere {α : Type} (f : Fault) : Reading α := do
  throw ⟨f, some (← get).place⟩

/-- Fails at the byte at hand. -/
def failNext {α : Type} (f : Fault) : Reading α := do
  throw ⟨f, some (← get).nextPlace⟩

/-- Fails with the place still to be given. -/
def failLater {α : Type} (f : Fault) : Reading α := throw ⟨f, none⟩

/-- The character at hand. -/
def peek : Reading (Option Char) := return (← get).rest.head?

/-- Passes over the character at hand. -/
def eat : Reading Unit := modify Input.advance

/-- Passes over space and gives the character after it. -/
def token : Reading (Option Char) := do
  modify fun i => .skipSpaceFrom i.place i.rest
  peek

/-- Passes over the characters for which `p` holds, all of them of one byte, and gives them. -/
def run (p : Char → Bool) : Reading (List Char) := do
  let i ← get
  let cs := i.rest.takeWhile p
  set (i.skip cs.length)
  return cs

/-- How many characters are left. -/
def remaining : Reading Nat := return (← get).rest.length

/-- Gives an error of `act` that has no place the place reached. -/
def placed {α : Type} (act : Reading α) : Reading α := fun i =>
  match act i with
  | .ok a i' => .ok a i'
  | .error e i' => .error (e.atPlace i'.place) i'

/-- What is inside brackets and then the closing one. The closing one is also looked for after an
error inside that has no place, which so gets the place after it. -/
def closedBy {α : Type} (inside : Reading α) (close : Reading Unit) : Reading α := fun i =>
  match inside i with
  | .ok a i' =>
    match close i' with
    | .ok _ i'' => .ok a i''
    | .error e i'' => .error e i''
  | .error e i' =>
    match close i' with
    | .ok _ i'' => .error (e.atPlace i''.place) i''
    | .error _ i'' => .error (e.atPlace i''.place) i''

/-- The rest of a word whose first character is at hand. -/
def restOfWord : List Char → Reading Unit
  | [] => return ()
  | c :: cs => do
    match ← peek with
    | none => failHere .endInValue
    | some d =>
      if c = d then
        eat
        restOfWord cs
      else failNext .expectedWord

/-- A word, its first character being at hand. -/
def word (s : String) : Reading Unit := do
  eat
  restOfWord s.toList.tail

/-- The end of a list. -/
def closeList : Reading Unit := do
  match ← token with
  | none => failNext .endInList
  | some ']' => eat
  | some ',' =>
    eat
    match ← token with
    | some ']' => failNext .trailingComma
    | _ => failNext .trailingCharacters
  | some _ => failNext .trailingCharacters

/-- The end of an object. -/
def closeObject : Reading Unit := do
  match ← token with
  | none => failNext .endInObject
  | some '\x7d' => eat
  | some ',' => failNext .trailingComma
  | some _ => failNext .trailingCharacters

/-- Whether another element of a list follows. -/
def nextElement (isFirst : Bool) : Reading Bool := do
  match ← token with
  | none => failNext .endInList
  | some ']' => return false
  | some c =>
    if isFirst then return true
    else if c = ',' then
      eat
      match ← token with
      | some ']' => failNext .trailingComma
      | some _ => return true
      | none => failNext .endInValue
    else failNext .expectedListEnd

/-- Whether another key of an object follows; its opening quote is then at hand. -/
def nextKey (isFirst : Bool) : Reading Bool := do
  match ← token with
  | none => failNext .endInObject
  | some '\x7d' => return false
  | some c =>
    if isFirst then
      if c = '\x22' then return true else failNext .keyNotText
    else if c = ',' then
      eat
      match ← token with
      | some '\x22' => return true
      | some '\x7d' => failNext .trailingComma
      | some _ => failNext .keyNotText
      | none => failNext .endInValue
    else failNext .expectedObjectEnd

/-- The colon after a key. -/
def colon : Reading Unit := do
  match ← token with
  | some ':' => eat
  | some _ => failNext .expectedColon
  | none => failNext .endInObject

/-- The elements of a list, read by `item`, onto those read so far. At most as many as `bound`. -/
def elements {α : Type} (item : Reading α) : Nat → Bool → List α → Reading (List α)
  | 0, _, sofar => return sofar.reverse
  | bound + 1, isFirst, sofar => do
    if ← nextElement isFirst then
      let a ← item
      elements item bound false (a :: sofar)
    else return sofar.reverse

/-- As many levels of nesting are read. -/
def levelLimit : Nat := 128

/-- Reads something with brackets, if one more level of nesting is left than none. -/
def nested {α : Type} (levels : Nat) (act : Reading α) : Reading α :=
  if levels ≤ 1 then failNext .nestedTooDeeply else act

end Reading

end MissionScript.Json
