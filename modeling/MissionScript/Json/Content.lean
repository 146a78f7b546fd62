import MissionScript.Json.Number
import MissionScript.Json.Quote

/-!
# Values read before their use is known
-/

namespace MissionScript.Json

inductive Content where
  | null
  | bool (b : Bool)
  | whole (n : Int)
  | float (x : Float)
  | text (s : String)
  | list (items : List Content)
  | map (members : List (String × Content))
deriving Inhabited

def Content.found : Content → Found
  | null => .null
  | bool b => .bool b
  | whole n => .whole n
  | float x => .float x
  | text s => .text s
  | list _ => .sequence
  | map _ => .map

namespace Reading

/-- The members of an object, with values read by `value`. At most as many as `bound`. -/
def contentMembers (value : Reading Content) :
    Nat → Bool → List (String × Content) → Reading (List (String × Content))
  | 0, _, sofar => return sofar.reverse
  | bound + 1, isFirst, sofar => do
    if ← nextKey isFirst then
      let key ← quote
      colon
      let v ← value
      contentMembers value bound false ((key, v) :: sofar)
    else return sofar.reverse

/-- Any value, with this many levels of nesting left. -/
def content : Nat → Reading Content
  | 0 => failNext .nestedTooDeeply
  | levels + 1 => do
    match ← token with
    | none => failNext .endInValue
    | some c =>
      if c = 'n' then
        word "null"
        return .null
      else if c = 't' then
        word "true"
        return .bool true
      else if c = 'f' then
        word "false"
        return .bool false
      else if c = '\x22' then return .text (← quote)
      else if startsNumber c then
        match ← number c with
        | .whole n => return .whole n
        | .float x => return .float x
      else if c = '[' then
        nested (levels + 1) do
          eat
          let bound ← remaining
          return .list (← closedBy (elements (content levels) bound true []) closeList)
      else if c = '\x7b' then
        nested (levels + 1) do
          eat
          let bound ← remaining
          return .map (← closedBy (contentMembers (content levels) bound true []) closeObject)
      else failNext .expectedValue

end Reading

end MissionScript.Json
