import MissionScript.Value.Basic

/-!
# Variables and scopes

There is one global scope and, for each call under way, a local one that names the scope around it.
Scopes are numbered from the global one, which is zero. A name means its variable in the nearest
scope, going from the innermost one to the one around it and so on; a new variable is made in the
innermost scope.
-/

namespace MissionScript

/-- Variables with their values, in the order in which they were made. -/
abbrev Bindings := List (String × Value)

namespace Bindings

def get? (bs : Bindings) (name : String) : Option Value := bs.lookup name

def has (bs : Bindings) (name : String) : Bool := (bs.get? name).isSome

/-- Gives a variable a value, and makes it if need be. -/
def insert (name : String) (v : Value) : Bindings → Bindings
  | [] => [(name, v)]
  | b :: bs => if b.1 = name then (name, v) :: bs else b :: insert name v bs

/-- The variables ordered by name. -/
def sorted (bs : Bindings) : Bindings := bs.mergeSort fun a b => a.1 ≤ b.1

end Bindings

structure Scope where
  bindings : Bindings
  parent : Nat
deriving Inhabited

/-- The global scope, and the local ones with the innermost first. -/
structure Environment where
  globals : Bindings
  locals : List Scope
deriving Inhabited

namespace Environment

def empty : Environment := ⟨[], []⟩

/-- How many scopes there are. -/
def depth (env : Environment) : Nat := env.locals.length + 1

def push (env : Environment) (parent : Nat) : Environment :=
  { env with locals := ⟨[], parent⟩ :: env.locals }

/-- Drops the innermost scope. The global one stays. -/
def pop (env : Environment) : Environment := { env with locals := env.locals.tail }

/-- Gives a variable of the innermost scope a value. -/
def define (env : Environment) (name : String) (v : Value) : Environment :=
  match env.locals with
  | [] => { env with globals := env.globals.insert name v }
  | s :: rest => { env with locals := { s with bindings := s.bindings.insert name v } :: rest }

/-- Looks in the scope numbered `i` and then in the scopes around it. -/
def getFrom (globals : Bindings) (name : String) : List Scope → Nat → Option Value
  | _, 0 => globals.get? name
  | [], _ + 1 => none
  | s :: rest, i + 1 =>
    if i = rest.length then
      match s.bindings.get? name with
      | some v => some v
      | none => getFrom globals name rest s.parent
    else getFrom globals name rest (i + 1)

def get? (env : Environment) (name : String) : Option Value :=
  getFrom env.globals name env.locals env.locals.length

/-- Gives the variable that the name means from the scope numbered `i` a new value. -/
def setFrom (name : String) (v : Value) (globals : Bindings) :
    List Scope → Nat → Bindings × List Scope
  | locals, 0 => (if globals.has name then globals.insert name v else globals, locals)
  | [], _ + 1 => (globals, [])
  | s :: rest, i + 1 =>
    if i = rest.length then
      if s.bindings.has name then (globals, { s with bindings := s.bindings.insert name v } :: rest)
      else
        let changed := setFrom name v globals rest s.parent
        (changed.1, s :: changed.2)
    else
      let changed := setFrom name v globals rest (i + 1)
      (changed.1, s :: changed.2)

/-- Gives the variable that the name means a new value; without one nothing changes. -/
def set (env : Environment) (name : String) (v : Value) : Environment :=
  let changed := setFrom name v env.globals env.locals env.locals.length
  ⟨changed.1, changed.2⟩

end Environment

end MissionScript
