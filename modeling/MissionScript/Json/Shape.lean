import MissionScript.Json.Basic

/-!
# Shapes of data

A shape says which JSON values stand for a piece of data. Records are objects whose members have
fixed names; they are written in the order of their members, and they may take in the members of
another record as their own.
-/

namespace MissionScript.Json

/-- Data that has a shape. The items of a record stand in the order of its members. -/
inductive Datum where
  | whole (n : Int)
  | flag (b : Bool)
  | text (s : String)
  | list (items : List Datum)
  | absent
  | record (items : List Datum)
deriving Inhabited

/-- What it means that a record lacks a member. -/
inductive Lack where
  | refused
  | absent
  | means (d : Datum)

/-- A member of a record. One that is `omitted` is not written when it is absent or an empty list.
One that is `spread` has no name of its own: it is a record whose members stand among the others. -/
structure Member where
  name : String
  lack : Lack
  omitted : Bool
  spread : Bool

namespace Member

def required (name : String) : Member := ⟨name, .refused, false, false⟩

/-- A member for optional data, which is `null` when absent. -/
def nullable (name : String) : Member := ⟨name, .absent, false, false⟩

/-- A member with a value that is meant when it is not there. -/
def default (name : String) (d : Datum) : Member := ⟨name, .means d, false, false⟩

def spreading : Member := ⟨"", .refused, false, true⟩

/-- The same member, left out where there is nothing to write. -/
def leftOut (m : Member) : Member := { m with omitted := true }

end Member

inductive Shape where
  | whole (name : String) (low high : Int)
  | flag
  | text
  | list (item : Shape)
  | optional (s : Shape)
  | choice (names : List String)
  | record (name : String) (members : List (Member × Shape))

namespace Shape

def u16 : Shape := whole "u16" 0 0xffff

def u32 : Shape := whole "u32" 0 0xffffffff

def i32 : Shape := whole "i32" (-0x80000000) 0x7fffffff

def u64 : Shape := whole "u64" 0 0xffffffffffffffff

def usize : Shape := whole "usize" 0 0xffffffffffffffff

end Shape

namespace Datum

/-- Optional data as a datum. -/
def ofOption {α : Type} (f : α → Datum) : Option α → Datum
  | some a => f a
  | none => absent

def int : Datum → Int
  | whole n => n
  | _ => 0

def nat (d : Datum) : Nat := d.int.toNat

def bool : Datum → Bool
  | flag b => b
  | _ => false

def string : Datum → String
  | text s => s
  | _ => ""

def items : Datum → List Datum
  | list ds => ds
  | _ => []

/-- The item of a record at a position. -/
def get (d : Datum) (i : Nat) : Datum :=
  match d with
  | record ds => ds[i]?.getD absent
  | _ => absent

def option {α : Type} (f : Datum → α) : Datum → Option α
  | absent => none
  | d => some (f d)

/-- Whether there is nothing to write. -/
def isNothing : Datum → Bool
  | absent => true
  | list [] => true
  | _ => false

end Datum

mutual

/-- The JSON value that stands for a datum of the shape. -/
def Shape.write : Shape → Datum → Json
  | .whole _ _ _, d => .num d.int
  | .flag, d => .bool d.bool
  | .text, d => .str d.string
  | .choice _, d => .str d.string
  | .list item, d => .arr (d.items.map (Shape.write item))
  | .optional s, d =>
    match d with
    | .absent => .null
    | d => Shape.write s d
  | .record _ members, d =>
    match d with
    | .record ds => .obj (Shape.writeMembers members ds)
    | _ => .obj []

/-- The members of a record that are written. -/
def Shape.writeMembers : List (Member × Shape) → List Datum → List (String × Json)
  | (m, s) :: rest, d :: ds =>
    let here : List (String × Json) :=
      if m.spread then
        match Shape.write s d with
        | .obj inner => inner
        | _ => []
      else if m.omitted && d.isNothing then []
      else [(m.name, Shape.write s d)]
    here ++ Shape.writeMembers rest ds
  | _, _ => []

end

end MissionScript.Json
