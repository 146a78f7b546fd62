import MissionScript.Value.Kind

/-!
# Values

Lists and dicts are values like any other: to assign one is to copy it. A dict is a list of entries
in the order in which their keys came.

The extent of a value is its weight and its depth. Each item of a list and each entry of a dict
weighs one unit, and so do 64 bytes of text; a value inside another adds its own weight.
-/

namespace MissionScript

inductive Value where
  | none
  | bool (b : Bool)
  | int (n : Int64)
  | float (x : Float)
  | str (s : String)
  | list (items : List Value)
  | dict (entries : List (Value × Value))
deriving Inhabited

namespace Value

def kind : Value → Kind
  | none => .none
  | bool _ => .bool
  | int _ => .int
  | float _ => .float
  | str _ => .str
  | list _ => .list
  | dict _ => .dict

/-- Whether a condition with this value holds. -/
def isTrue : Value → Bool
  | none => false
  | bool b => b
  | int n => n ≠ 0
  | float x => x != 0.0
  | str s => !s.isEmpty
  | list items => !items.isEmpty
  | dict entries => !entries.isEmpty

/-- An int or a float as a float. A bool is no number. -/
def number? : Value → Option Float
  | int n => some n.toFloat
  | float x => some x
  | _ => Option.none

/-- Whether the value may be the key of a dict. -/
def isHashable : Value → Bool
  | list _ | dict _ => false
  | _ => true

/-- So many bytes of text weigh one unit. -/
def bytesPerUnit : Nat := 64

mutual

/-- `w` and the weight of a value. -/
def weightOnto (w : Nat) : Value → Nat
  | str s => w + s.utf8ByteSize / bytesPerUnit
  | list items => weightOfItems w items
  | dict entries => weightOfEntries w entries
  | none | bool _ | int _ | float _ => w

def weightOfItems (w : Nat) : List Value → Nat
  | [] => w
  | v :: vs => weightOfItems (weightOnto (w + 1) v) vs

def weightOfEntries (w : Nat) : List (Value × Value) → Nat
  | [] => w
  | (k, v) :: es => weightOfEntries (weightOnto (weightOnto (w + 1) k) v) es

end

def weight (v : Value) : Nat := weightOnto 0 v

mutual

/-- How deep lists and dicts are nested. -/
def depth : Value → Nat
  | list items => depthOfItems 1 items
  | dict entries => depthOfEntries 1 entries
  | none | bool _ | int _ | float _ | str _ => 0

/-- The greater of `d` and one more than the depth of any item. -/
def depthOfItems (d : Nat) : List Value → Nat
  | [] => d
  | v :: vs => depthOfItems (max d (v.depth + 1)) vs

/-- The greater of `d` and one more than the depth of any entry's value. -/
def depthOfEntries (d : Nat) : List (Value × Value) → Nat
  | [] => d
  | (_, v) :: es => depthOfEntries (max d (v.depth + 1)) es

end

/-- The characters of a text, each as a text. -/
def chars (s : String) : List Value := s.toList.map fun c => str c.toString

end Value

end MissionScript
