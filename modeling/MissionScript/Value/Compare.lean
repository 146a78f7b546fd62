import MissionScript.Value.Basic

/-!
# Equality and order of values

Numbers are equal by value, texts and lists item by item. Two dicts are equal if they have as many
entries as each other and every entry of the one is found in the other, whatever the order. Ints,
floats, texts and lists have an order among themselves; lists are ordered by the first items that
differ.
-/

namespace MissionScript.Value

/-- Equality of two values of different kinds, or of two floats: they must be numbers. -/
def sameNumber (a b : Value) : Bool :=
  match a.number?, b.number? with
  | some x, some y => x == y
  | _, _ => false

mutual

/-- Whether `a` equals `b`, or with `flip` whether `b` equals `a`. The two differ only on dicts that
hold a key twice. -/
def equalFrom (flip : Bool) : Value → Value → Bool
  | none, none => true
  | bool a, bool b => a = b
  | int a, int b => a = b
  | str a, str b => a = b
  | list as, list bs => equalItems flip as bs
  | dict as, dict bs =>
    as.length = bs.length
      && if flip then bs.all fun e => foundIn as e.1 e.2 else allFound as bs
  | none, b => sameNumber none b
  | bool a, b => sameNumber (bool a) b
  | int a, b => sameNumber (int a) b
  | float a, b => sameNumber (float a) b
  | str a, b => sameNumber (str a) b
  | list as, b => sameNumber (list as) b
  | dict as, b => sameNumber (dict as) b

def equalItems (flip : Bool) : List Value → List Value → Bool
  | [], [] => true
  | a :: as, b :: bs => equalFrom flip a b && equalItems flip as bs
  | _, _ => false

/-- Whether each of the entries is found among `bs`. -/
def allFound : List (Value × Value) → List (Value × Value) → Bool
  | [], _ => true
  | (k, v) :: es, bs =>
    (match bs.find? fun e => equalFrom true k e.1 with
      | some e => equalFrom false v e.2
      | Option.none => false)
      && allFound es bs

/-- Whether the value `v` equals what the entries have under the key `k`. -/
def foundIn : List (Value × Value) → Value → Value → Bool
  | [], _, _ => false
  | (k', w) :: es, k, v => if equalFrom false k' k then equalFrom true w v else foundIn es k v

end

/-- Whether two values are equal. -/
def equal (a b : Value) : Bool := equalFrom false a b

instance : BEq Value := ⟨equal⟩

/-- What the entries of a dict have under a key. -/
def lookup? (entries : List (Value × Value)) (key : Value) : Option Value :=
  (entries.find? fun e => e.1.equal key).map (·.2)

/-- The order of two floats; a float that is not a number has none. -/
def orderFloats (x y : Float) : Option Ordering :=
  if x < y then some .lt else if y < x then some .gt else if x == y then some .eq else Option.none

def orderNumbers (a b : Value) : Option Ordering :=
  match a.number?, b.number? with
  | some x, some y => orderFloats x y
  | _, _ => Option.none

mutual

/-- The order of two values, if they have one. -/
def order : Value → Value → Option Ordering
  | int a, int b => some (compare a.toInt b.toInt)
  | str a, str b => some (compare a b)
  | list as, list bs => orderItems as bs
  | none, b => orderNumbers none b
  | bool a, b => orderNumbers (bool a) b
  | int a, b => orderNumbers (int a) b
  | float a, b => orderNumbers (float a) b
  | str a, b => orderNumbers (str a) b
  | list as, b => orderNumbers (list as) b
  | dict es, b => orderNumbers (dict es) b

def orderItems : List Value → List Value → Option Ordering
  | [], [] => some .eq
  | [], _ :: _ => some .lt
  | _ :: _, [] => some .gt
  | a :: as, b :: bs => if a.equal b then orderItems as bs else order a b

end

end MissionScript.Value
