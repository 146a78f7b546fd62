import MissionScript.Run.Command

/-!
# Errors of computing

A computation with values can fail for many reasons, but never because the rover is blocked, a
budget is spent or calls are nested too deeply: those errors come from the session and from calls
alone. `Confined` says so of one computation, and every operation on values is confined.
-/

namespace MissionScript

/-- Whether the error can come from computing with values. -/
def RuntimeError.isComputed : RuntimeError → Bool
  | blocked _ | budgetSpent | recursionTooDeep => false
  | _ => true

namespace Value

/-- The computation fails only for reasons of its own. -/
def Confined {α : Type} (r : Result α) : Prop :=
  ∀ e, r = .error e → e.isComputed = true

section Closure

variable {α β : Type}

theorem confined_ok (a : α) : Confined (.ok a) := by
  intro e h
  cases h

theorem confined_error {e : RuntimeError} (h : e.isComputed = true) :
    Confined (.error e : Result α) := by
  intro e' h'
  cases h'
  exact h

theorem confined_bind {r : Result α} {f : α → Result β} (hr : Confined r)
    (hf : ∀ a, Confined (f a)) : Confined (r >>= f) := by
  intro e h
  rcases r with e' | a
  · cases h
    exact hr _ rfl
  · exact hf a e h

theorem confined_ite {c : Prop} [Decidable c] {r s : Result α} (hr : Confined r)
    (hs : Confined s) : Confined (if c then r else s) := by
  split
  · exact hr
  · exact hs

end Closure

section Operators

theorem ofInt_confined (n : Int) : Confined (ofInt n) := by
  unfold ofInt
  split
  · exact confined_ok _
  · exact confined_error rfl

theorem checkLength_confined (n : Nat) : Confined (checkLength n) := by
  unfold checkLength
  split
  · exact confined_ok _
  · exact confined_error rfl

theorem arith_confined (op : BinOp) (onInts : Int → Int → Int) (onFloats : Float → Float → Float)
    (a b : Value) : Confined (arith op onInts onFloats a b) := by
  unfold arith
  split
  · exact ofInt_confined _
  · split
    · exact confined_ok _
    · exact confined_error rfl

theorem add_confined (a b : Value) : Confined (add a b) := by
  unfold add
  split
  · exact confined_bind (checkLength_confined _) fun _ => confined_ok _
  · exact confined_bind (checkLength_confined _) fun _ => confined_ok _
  · exact arith_confined _ _ _ _ _

theorem repeatCount_confined (size : Nat) (n : Int64) : Confined (repeatCount size n) :=
  confined_bind (checkLength_confined _) fun _ => confined_ok _

theorem repeatText_confined (s : String) (n : Int64) : Confined (repeatText s n) :=
  confined_bind (repeatCount_confined _ _) fun _ => confined_ok _

theorem repeatList_confined (items : List Value) (n : Int64) : Confined (repeatList items n) :=
  confined_bind (repeatCount_confined _ _) fun _ => confined_ok _

theorem mul_confined (a b : Value) : Confined (mul a b) := by
  unfold mul
  split
  · exact repeatText_confined _ _
  · exact repeatText_confined _ _
  · exact repeatList_confined _ _
  · exact repeatList_confined _ _
  · exact arith_confined _ _ _ _ _

theorem floatQuotient_confined {op : BinOp} {byZero : RuntimeError} (h : byZero.isComputed = true)
    (f : Float → Float → Float) (a b : Value) : Confined (floatQuotient op byZero f a b) := by
  unfold floatQuotient
  split
  · exact confined_ite (confined_error h) (confined_ok _)
  · exact confined_error rfl

theorem checked_confined (n : Option Int64) : Confined (checked n) := by
  cases n with
  | none => exact confined_error rfl
  | some n => exact confined_ok n

theorem floorDiv_confined (a b : Value) : Confined (floorDiv a b) := by
  unfold floorDiv
  split
  · exact confined_ite (confined_error rfl) (confined_bind (checked_confined _) fun _ =>
      confined_bind (checked_confined _) fun _ => confined_ok _)
  · exact floatQuotient_confined rfl _ _ _

theorem mod_confined (a b : Value) : Confined (mod a b) := by
  unfold mod
  split
  · exact confined_ite (confined_error rfl)
      (confined_bind (checked_confined _) fun _ => confined_ok _)
  · exact floatQuotient_confined rfl _ _ _

theorem ordered_confined (op : BinOp) (holds : Ordering → Bool) (a b : Value) :
    Confined (ordered op holds a b) := by
  unfold ordered
  split
  · exact confined_ok _
  · exact confined_error rfl

theorem requireHashable_confined (key : Value) : Confined (requireHashable key) :=
  confined_ite (confined_ok _) (confined_error rfl)

theorem contains_confined (container item : Value) : Confined (contains container item) := by
  unfold contains
  split
  · exact confined_ok _
  · split
    · exact confined_ok _
    · exact confined_error rfl
  · exact confined_bind (requireHashable_confined _) fun _ => confined_ok _
  · exact confined_error rfl

theorem binary_confined (op : BinOp) (a b : Value) : Confined (binary op a b) := by
  unfold binary
  cases op
  case add => exact add_confined a b
  case sub => exact arith_confined _ _ _ _ _
  case mul => exact mul_confined a b
  case div => exact floatQuotient_confined rfl _ _ _
  case floorDiv => exact floorDiv_confined a b
  case mod => exact mod_confined a b
  case eq | notEq => exact confined_ok _
  case less | greater | lessEq | greaterEq => exact ordered_confined _ _ _ _
  case isIn | notIn => exact confined_bind (contains_confined _ _) fun _ => confined_ok _
  case and | or => exact confined_error rfl

theorem unary_confined (op : UnaryOp) (v : Value) : Confined (unary op v) := by
  unfold unary
  split
  · exact confined_ok _
  · exact ofInt_confined _
  · exact confined_ok _
  · exact confined_ok _
  · exact confined_ok _
  · exact confined_error rfl

end Operators

section Subscripts

theorem itemPosition_confined (kind : Kind) (length : Nat) {outside : RuntimeError}
    (h : outside.isComputed = true) (index : Value) :
    Confined (itemPosition kind length outside index) := by
  unfold itemPosition
  split
  · split
    · exact confined_ok _
    · exact confined_error h
  · exact confined_error rfl

theorem entryPosition_confined (entries : List (Value × Value)) (key : Value) :
    Confined (entryPosition entries key) := by
  refine confined_bind (requireHashable_confined _) fun _ => ?_
  split
  · exact confined_ok _
  · exact confined_error rfl

theorem index_confined (container key : Value) : Confined (index container key) := by
  unfold index
  split
  · exact confined_bind (itemPosition_confined _ _ rfl _) fun _ => confined_ok _
  · exact confined_bind (itemPosition_confined _ _ rfl _) fun _ => confined_ok _
  · refine confined_bind (requireHashable_confined _) fun _ => ?_
    split
    · exact confined_ok _
    · exact confined_error rfl
  · exact confined_error rfl

theorem slot_confined (container key : Value) : Confined (slot container key) := by
  unfold slot
  split
  · exact itemPosition_confined _ _ rfl _
  · exact entryPosition_confined _ _
  · exact confined_error rfl

theorem setIndex_confined (container key x : Value) : Confined (setIndex container key x) := by
  unfold setIndex
  split
  · exact confined_bind (itemPosition_confined _ _ rfl _) fun _ => confined_ok _
  · exact confined_bind (requireHashable_confined _) fun _ => confined_ok _
  · exact confined_error rfl

theorem sliceBound_confined (length default : Nat) (bound : Option Value) :
    Confined (sliceBound length default bound) := by
  unfold sliceBound
  split
  · exact confined_ok _
  · exact confined_ok _
  · exact confined_ok _
  · exact confined_error rfl

theorem slice_confined (container : Value) (start stop : Option Value) :
    Confined (slice container start stop) := by
  have bounds (length : Nat) {f : Nat → Nat → Result Value} (hf : ∀ a b, Confined (f a b)) :
      Confined (sliceBound length 0 start >>= fun a => sliceBound length length stop >>= f a) :=
    confined_bind (sliceBound_confined _ _ _) fun a =>
      confined_bind (sliceBound_confined _ _ _) (hf a)
  unfold slice
  split
  · exact bounds _ fun _ _ => confined_ok _
  · exact bounds _ fun _ _ => confined_ok _
  · exact confined_error rfl

theorem items_confined (v : Value) : Confined v.items := by
  unfold items
  split
  · exact confined_ok _
  · exact confined_ok _
  · exact confined_ok _
  · exact confined_error rfl

theorem changeAt_confined {α : Type} {change : Value → Result (α × Value)}
    (h : ∀ v, Confined (change v)) : ∀ (path : List Value) (v : Value),
      Confined (changeAt change path v)
  | [], v => h v
  | key :: path, v =>
    confined_bind (slot_confined v key) fun _ =>
      confined_bind (changeAt_confined h path _) fun _ => confined_ok _

end Subscripts

section Methods

theorem arityCheck_confined (arity : Arity) (callee : String) (given : Nat) :
    Confined (arity.check callee given) :=
  confined_ite (confined_ok _) (confined_error rfl)

theorem pop_confined (items args : List Value) : Confined (pop items args) := by
  have popAt_confined (i : Int64) : Confined (popAt items i) := by
    unfold popAt
    split
    · exact confined_ok _
    · exact confined_error rfl
  refine confined_ite (confined_error rfl) ?_
  split
  · exact popAt_confined _
  · exact popAt_confined _
  · exact confined_error rfl

theorem listMethod_confined (items : List Value) (method : String) (args : List Value) :
    Confined (listMethod items method args) := by
  unfold listMethod
  split
  · exact confined_bind (arityCheck_confined _ _ _) fun _ => confined_ok _
  · exact confined_bind (arityCheck_confined _ _ _) fun _ => pop_confined _ _
  · refine confined_bind (arityCheck_confined _ _ _) fun _ => ?_
    dsimp only
    split
    · exact confined_ok _
    · exact confined_error rfl
  · exact confined_bind (arityCheck_confined _ _ _) fun _ => confined_ok _
  · exact confined_error rfl

theorem strMethod_confined (s method : String) (args : List Value) :
    Confined (strMethod s method args) := by
  unfold strMethod
  split
  · exact confined_bind (arityCheck_confined _ _ _) fun _ => confined_ok _
  · exact confined_bind (arityCheck_confined _ _ _) fun _ => confined_ok _
  · refine confined_bind (arityCheck_confined _ _ _) fun _ => ?_
    split
    · exact confined_ok _
    · exact confined_error rfl
  · exact confined_error rfl

theorem dictMethod_confined (entries : List (Value × Value)) (method : String)
    (args : List Value) : Confined (dictMethod entries method args) := by
  unfold dictMethod
  split
  · exact confined_bind (arityCheck_confined _ _ _) fun _ => confined_ok _
  · exact confined_bind (arityCheck_confined _ _ _) fun _ => confined_ok _
  · exact confined_bind (arityCheck_confined _ _ _) fun _ =>
      confined_bind (requireHashable_confined _) fun _ => confined_ok _
  · exact confined_error rfl

theorem callMethod_confined (receiver : Value) (method : String) (args : List Value) :
    Confined (callMethod receiver method args) := by
  unfold callMethod
  split
  · exact confined_bind (listMethod_confined _ _ _) fun _ => confined_ok _
  · exact confined_bind (strMethod_confined _ _ _) fun _ => confined_ok _
  · exact confined_bind (dictMethod_confined _ _ _) fun _ => confined_ok _
  · exact confined_error rfl

end Methods

end Value

open Value

theorem IntRange.ofArgs_confined (args : List Value) : Confined (ofArgs args) := by
  have bound_confined (v : Value) : Confined (bound v) := by
    unfold bound
    split
    · exact confined_ok _
    · exact confined_error rfl
  have bounds_confined : ∀ vs : List Value, Confined (vs.mapM bound) := by
    intro vs
    induction vs with
    | nil => exact confined_ok _
    | cons v vs ih =>
      rw [List.mapM_cons]
      exact confined_bind (bound_confined v) fun _ => confined_bind ih fun _ => confined_ok _
  have nonzero_confined (r : IntRange) :
      Confined (if r.step = 0 then .error .zeroStep else .ok r) :=
    confined_ite (confined_error rfl) (confined_ok _)
  refine confined_bind (bounds_confined args) fun ns => ?_
  dsimp only
  split
  · exact confined_bind (confined_ok _) nonzero_confined
  · exact confined_bind (confined_ok _) nonzero_confined
  · exact confined_bind (confined_ok _) nonzero_confined
  · exact confined_error rfl

namespace Command

theorem moveCount_confined (command : String) (args : List Value) :
    Confined (moveCount command args) := by
  unfold moveCount
  split
  · exact confined_ok _
  · exact confined_ite (confined_ok _) (confined_error rfl)
  · exact confined_error rfl

theorem magnitude_confined (v : Value) : Confined (magnitude v) := by
  unfold magnitude
  split
  · exact ofInt_confined _
  · exact confined_ok _
  · exact confined_error rfl

theorem total_confined : ∀ (vs : List Value) (sofar : Value), Confined (total sofar vs)
  | [], _ => confined_ok _
  | _ :: vs, _ => confined_bind (binary_confined _ _ _) fun _ => total_confined vs _

theorem extremeFrom_confined (want : Ordering) (op : BinOp) : ∀ (vs : List Value) (best : Value),
    Confined (extremeFrom want op best vs)
  | [], _ => confined_ok _
  | v :: vs, best => by
    unfold extremeFrom
    split
    · exact confined_error rfl
    · exact extremeFrom_confined want op vs _

theorem extreme_confined (name : String) (want : Ordering) (op : BinOp) (args : List Value) :
    Confined (extreme name want op args) := by
  unfold extreme
  dsimp only
  split
  · refine confined_bind (items_confined _) fun items => ?_
    rcases items with _ | ⟨v, vs⟩
    · exact confined_error rfl
    · exact extremeFrom_confined _ _ _ _
  · rcases args with _ | ⟨v, vs⟩
    · exact confined_error rfl
    · exact extremeFrom_confined _ _ _ _

theorem length_confined (v : Value) : Confined (length v) := by
  unfold length
  split
  · exact confined_ok _
  · exact confined_ok _
  · exact confined_ok _
  · exact confined_error rfl

theorem ofText_confined (s : String) : Confined (ofText s) := by
  unfold ofText
  split
  · exact confined_error rfl
  · exact confined_ite (confined_ok _) (confined_error rfl)

theorem ofFloat_confined (x : Float) : Confined (ofFloat x) := by
  unfold ofFloat
  split
  · exact ofInt_confined _
  · exact confined_ite (confined_error rfl) (confined_error rfl)

theorem toInteger_confined (args : List Value) : Confined (toInteger args) := by
  unfold toInteger
  split
  · exact confined_ok _
  · exact confined_ok _
  · exact confined_ok _
  · exact ofFloat_confined _
  · exact ofText_confined _
  · exact confined_error rfl

end Command

end MissionScript
