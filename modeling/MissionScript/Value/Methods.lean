import MissionScript.Text.Case
import MissionScript.Value.Subscript

/-!
# Methods of lists, texts and dicts

A method gives a result and the receiver as it is afterwards. Only `append` and `pop` change the
receiver, and they do not if they fail.
-/

namespace MissionScript

/-- Refuses a number of arguments that `callee` does not take. -/
def Arity.check (arity : Arity) (callee : String) (given : Nat) : Value.Result Unit :=
  if arity.accepts given then .ok () else .error (.argumentCount callee arity given)

namespace Value

/-- How often a text that is not empty occurs in another one, without overlap: `skip` characters
belong to the last occurrence. -/
def occurrences (needle : List Char) (skip count : Nat) : List Char → Nat
  | [] => count
  | c :: cs =>
    match skip with
    | k + 1 => occurrences needle k count cs
    | 0 =>
      if needle.isPrefixOf (c :: cs) then occurrences needle (needle.length - 1) (count + 1) cs
      else occurrences needle 0 count cs

/-- How often a text occurs in another one. The empty text occurs around every character. -/
def countText (needle s : List Char) : Nat :=
  if needle.isEmpty then s.length + 1 else occurrences needle 0 0 s

/-- An int for a size. -/
def ofSize (n : Nat) : Value := int (Int64.ofNat n)

def first (args : List Value) : Value := args.head?.getD none

def popAt (items : List Value) (i : Int64) : Result (Value × List Value) :=
  match position? i items.length with
  | some n => .ok (items[n]?.getD none, items.eraseIdx n)
  | Option.none => .error .popIndex

def pop (items args : List Value) : Result (Value × List Value) :=
  if items.isEmpty then .error .popFromEmpty
  else
    match args with
    | [] => popAt items (-1)
    | int i :: _ => popAt items i
    | v :: _ => .error (.notInteger v.kind)

def listMethod (items : List Value) (method : String) (args : List Value) :
    Result (Value × List Value) :=
  match method with
  | "append" => do
    (Arity.exact 1).check "list.append" args.length
    return (none, items ++ [first args])
  | "pop" => do
    (Arity.range 0 1).check "list.pop" args.length
    pop items args
  | "index" => do
    (Arity.exact 1).check "list.index" args.length
    let item := first args
    match items.findIdx? fun v => v.equal item with
    | some i => return (ofSize i, items)
    | Option.none => .error (.notInList item.written)
  | "count" => do
    (Arity.exact 1).check "list.count" args.length
    let item := first args
    return (ofSize (items.countP fun v => v.equal item), items)
  | m => .error (.noMethod .list m)

def strMethod (s : String) (method : String) (args : List Value) : Result Value :=
  match method with
  | "upper" => do
    (Arity.exact 0).check "str.upper" args.length
    return str (Text.upper s)
  | "lower" => do
    (Arity.exact 0).check "str.lower" args.length
    return str (Text.lower s)
  | "count" => do
    (Arity.exact 1).check "str.count" args.length
    match first args with
    | str t => return ofSize (countText t.toList s.toList)
    | v => .error (.notText v.kind)
  | m => .error (.noMethod .str m)

def dictMethod (entries : List (Value × Value)) (method : String) (args : List Value) :
    Result Value :=
  match method with
  | "keys" => do
    (Arity.exact 0).check "dict.keys" args.length
    return list (entries.map (·.1))
  | "values" => do
    (Arity.exact 0).check "dict.values" args.length
    return list (entries.map (·.2))
  | "get" => do
    (Arity.range 1 2).check "dict.get" args.length
    let key := first args
    requireHashable key
    return (lookup? entries key).getD (first args.tail)
  | m => .error (.noMethod .dict m)

/-- Calls a method: its result, and the receiver afterwards. -/
def callMethod (receiver : Value) (method : String) (args : List Value) : Result (Value × Value) :=
  match receiver with
  | list items => do
    let (v, items') ← listMethod items method args
    return (v, list items')
  | str s => do return (← strMethod s method args, receiver)
  | dict entries => do return (← dictMethod entries method args, receiver)
  | v => .error (.noMethod v.kind method)

end Value

end MissionScript
