import MissionScript.Value.Arith
import MissionScript.Value.Show

/-!
# Items and slices

A negative index counts from the end. Items of lists and entries of dicts have slots, numbered from
zero, in which values can be put; characters of texts can only be read. The bounds of a slice are
moved into the range that there is.
-/

namespace MissionScript.Value

/-- The position that an index means in a sequence of the given length. -/
def position? (i : Int64) (length : Nat) : Option Nat :=
  let n := if i.toInt < 0 then i.toInt + length else i.toInt
  if 0 ≤ n ∧ n < length then some n.toNat else Option.none

/-- The position of the item of a list or text. -/
def itemPosition (kind : Kind) (length : Nat) (outside : RuntimeError) (index : Value) :
    Result Nat :=
  match index with
  | int i =>
    match position? i length with
    | some n => .ok n
    | Option.none => .error outside
  | v => .error (.indexKind kind v.kind)

/-- The position of the entry with the given key. -/
def entryPosition (entries : List (Value × Value)) (key : Value) : Result Nat := do
  requireHashable key
  match entries.findIdx? fun e => e.1.equal key with
  | some n => return n
  | Option.none => .error (.missingKey key.written)

/-- Reads an item, a character or an entry. -/
def index (container key : Value) : Result Value :=
  match container with
  | list items => do
    let i ← itemPosition .list items.length .listIndex key
    return items[i]?.getD none
  | str s => do
    let cs := s.toList
    let i ← itemPosition .str cs.length .textIndex key
    return str ((cs[i]?.map Char.toString).getD "")
  | dict entries => do
    requireHashable key
    match lookup? entries key with
    | some v => return v
    | Option.none => .error (.missingKey key.written)
  | v => .error (.notSubscriptable v.kind)

/-- The slot that holds an item or an entry. -/
def slot (container key : Value) : Result Nat :=
  match container with
  | list items => itemPosition .list items.length .listIndex key
  | dict entries => entryPosition entries key
  | v => .error (.notSubscriptable v.kind)

/-- What a slot holds. -/
def content (container : Value) (i : Nat) : Value :=
  match container with
  | list items => items[i]?.getD none
  | dict entries => (entries[i]?.map (·.2)).getD none
  | _ => none

/-- The container with `x` in a slot. -/
def withContent (container : Value) (i : Nat) (x : Value) : Value :=
  match container with
  | list items => list (items.set i x)
  | dict entries => dict (entries.modify i fun e => (e.1, x))
  | v => v

/-- The entries with `x` under a key, in its place if the key is there and at the end if not. -/
def putEntry (entries : List (Value × Value)) (key x : Value) : List (Value × Value) :=
  match entries.findIdx? fun e => e.1.equal key with
  | some i => entries.modify i fun e => (e.1, x)
  | Option.none => entries ++ [(key, x)]

/-- The container with `x` as an item or under a key. -/
def setIndex (container key x : Value) : Result Value :=
  match container with
  | list items => do
    let i ← itemPosition .list items.length .listAssignmentIndex key
    return list (items.set i x)
  | dict entries => do
    requireHashable key
    return dict (putEntry entries key x)
  | v => .error (.notAssignable v.kind)

/-- A bound of a slice, moved into the range from zero to `length`. -/
def clamp (i : Int64) (length : Nat) : Nat :=
  if i.toInt < 0 then (i.toInt + length).toNat else min i.toInt.toNat length

/-- A bound that is left out, or is `None`, is at the end of the sequence. -/
def sliceBound (length default : Nat) : Option Value → Result Nat
  | Option.none | some none => .ok default
  | some (int i) => .ok (clamp i length)
  | some v => .error (.sliceKind v.kind)

/-- The part from `start` to before `stop`. -/
def cut {α : Type} (start stop : Nat) (items : List α) : List α :=
  (items.take stop).drop start

def slice (container : Value) (start stop : Option Value) : Result Value :=
  match container with
  | list items => do
    let a ← sliceBound items.length 0 start
    let b ← sliceBound items.length items.length stop
    return list (cut a b items)
  | str s => do
    let cs := s.toList
    let a ← sliceBound cs.length 0 start
    let b ← sliceBound cs.length cs.length stop
    return str (String.ofList (cut a b cs))
  | v => .error (.notSubscriptable v.kind)

/-- The items of a list, the characters of a text or the keys of a dict. -/
def items : Value → Result (List Value)
  | list vs => .ok vs
  | str s => .ok (chars s)
  | dict entries => .ok (entries.map (·.1))
  | v => .error (.notIterable v.kind)

/-- Changes what is found by going from key to key, starting in the value. -/
def changeAt {α : Type} (change : Value → Result (α × Value)) :
    List Value → Value → Result (α × Value)
  | [], v => change v
  | key :: path, v => do
    let i ← v.slot key
    let (a, x) ← changeAt change path (v.content i)
    return (a, v.withContent i x)

end MissionScript.Value
