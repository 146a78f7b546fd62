/-!
# Kinds of values
-/

namespace MissionScript

inductive Kind where
  | none
  | bool
  | int
  | float
  | str
  | list
  | dict
deriving DecidableEq, Inhabited

/-- The name of a kind, as messages give it. -/
def Kind.name : Kind → String
  | none => "NoneType"
  | bool => "bool"
  | int => "int"
  | float => "float"
  | str => "str"
  | list => "list"
  | dict => "dict"

end MissionScript
