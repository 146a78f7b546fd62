import MissionScript.Proofs.Value.Slot

/-!
# What operators make

An operator gives a scalar, or a list whose items all come from its operands. So what holds of
scalars, and of every list whose items are taken from lists of which it holds, is kept by every
operator (`binary_mixes`).
-/

namespace MissionScript.Value

/-- The property is kept when lists are taken apart and put together. -/
structure Mixes (P : Value → Prop) : Prop where
  scalar {v : Value} : v.isHashable = true → P v
  list {as bs items : List Value} : P (list as) → P (list bs) →
    (∀ v ∈ items, v ∈ as ∨ v ∈ bs) → P (list items)

section Scalars

theorem ofInt_isNumber (n : Int) : Yields (fun v => v.number?.isSome = true) (ofInt n) :=
  yields_ite (yields_ok rfl) (yields_error _)

theorem arith_isNumber (op : BinOp) (onInts : Int → Int → Int)
    (onFloats : Float → Float → Float) (a b : Value) :
    Yields (fun v => v.number?.isSome = true) (arith op onInts onFloats a b) := by
  unfold arith
  split
  · exact ofInt_isNumber _
  · split
    · exact yields_ok rfl
    · exact yields_error _

theorem isHashable_of_isNumber {v : Value} (h : v.number?.isSome = true) : v.isHashable = true := by
  cases v <;> first | rfl | cases h

theorem ofInt_scalar (n : Int) : Yields (fun v => v.isHashable = true) (ofInt n) :=
  (ofInt_isNumber n).mono fun _ => isHashable_of_isNumber

theorem arith_scalar (op : BinOp) (onInts : Int → Int → Int) (onFloats : Float → Float → Float)
    (a b : Value) : Yields (fun v => v.isHashable = true) (arith op onInts onFloats a b) :=
  (arith_isNumber op onInts onFloats a b).mono fun _ => isHashable_of_isNumber

theorem floatQuotient_scalar (op : BinOp) (byZero : RuntimeError) (f : Float → Float → Float)
    (a b : Value) : Yields (fun v => v.isHashable = true) (floatQuotient op byZero f a b) := by
  unfold floatQuotient
  split
  · exact yields_ite (yields_error _) (yields_ok rfl)
  · exact yields_error _

theorem floorDiv_scalar (a b : Value) :
    Yields (fun v => v.isHashable = true) (floorDiv a b) := by
  unfold floorDiv
  split
  · exact yields_ite (yields_error _) (yields_bind (yields_true _) fun _ _ =>
      yields_bind (yields_true _) fun _ _ => yields_ok rfl)
  · exact floatQuotient_scalar _ _ _ _ _

theorem mod_scalar (a b : Value) : Yields (fun v => v.isHashable = true) (mod a b) := by
  unfold mod
  split
  · exact yields_ite (yields_error _) (yields_bind (yields_true _) fun _ _ => yields_ok rfl)
  · exact floatQuotient_scalar _ _ _ _ _

theorem ordered_scalar (op : BinOp) (holds : Ordering → Bool) (a b : Value) :
    Yields (fun v => v.isHashable = true) (ordered op holds a b) := by
  unfold ordered
  split
  · exact yields_ok rfl
  · exact yields_error _

theorem unary_scalar (op : UnaryOp) (v : Value) :
    Yields (fun v => v.isHashable = true) (unary op v) := by
  unfold unary
  split
  · exact yields_ok rfl
  · exact ofInt_scalar _
  · exact yields_ok rfl
  · exact yields_ok rfl
  · exact yields_ok rfl
  · exact yields_error _

end Scalars

section Mixing

theorem copies_eq {α : Type} (n : Nat) (items : List α) :
    copies n items = (List.replicate n items).flatten := by
  cases items with
  | nil => simp [copies]
  | cons x xs => rfl

theorem mem_of_mem_copies {α : Type} {n : Nat} {items : List α} {x : α}
    (hx : x ∈ copies n items) : x ∈ items := by
  rw [copies_eq] at hx
  obtain ⟨part, hpart, hx⟩ := List.mem_flatten.mp hx
  exact (List.mem_replicate.mp hpart).2 ▸ hx

variable {P : Value → Prop} (h : Mixes P)
include h

theorem Mixes.part {as items : List Value} (has : P (.list as)) (hitems : ∀ v ∈ items, v ∈ as) :
    P (.list items) :=
  h.list has has fun v hv => .inl (hitems v hv)

theorem add_mixes {a b : Value} (ha : P a) (hb : P b) : Yields P (add a b) := by
  unfold add
  split
  · exact yields_bind (yields_true _) fun _ _ => yields_ok (h.scalar rfl)
  · exact yields_bind (yields_true _) fun _ _ =>
      yields_ok (h.list ha hb fun v hv => List.mem_append.mp hv)
  · exact (arith_scalar _ _ _ _ _).mono fun _ => h.scalar

theorem repeatList_mixes {items : List Value} (hitems : P (list items)) (n : Int64) :
    Yields P (repeatList items n) :=
  yields_bind (yields_true _) fun _ _ =>
    yields_ok (h.part hitems fun _ => mem_of_mem_copies)

theorem repeatText_mixes (s : String) (n : Int64) : Yields P (repeatText s n) :=
  yields_bind (yields_true _) fun _ _ => yields_ok (h.scalar rfl)

theorem mul_mixes {a b : Value} (ha : P a) (hb : P b) : Yields P (mul a b) := by
  unfold mul
  split
  · exact repeatText_mixes h _ _
  · exact repeatText_mixes h _ _
  · exact repeatList_mixes h ha _
  · exact repeatList_mixes h hb _
  · exact (arith_scalar _ _ _ _ _).mono fun _ => h.scalar

/-- Every operator keeps the property. -/
theorem binary_mixes (op : BinOp) {a b : Value} (ha : P a) (hb : P b) :
    Yields P (binary op a b) := by
  unfold binary
  cases op
  case add => exact add_mixes h ha hb
  case mul => exact mul_mixes h ha hb
  case sub => exact (arith_scalar _ _ _ _ _).mono fun _ => h.scalar
  case div => exact (floatQuotient_scalar _ _ _ _ _).mono fun _ => h.scalar
  case floorDiv => exact (floorDiv_scalar _ _).mono fun _ => h.scalar
  case mod => exact (mod_scalar _ _).mono fun _ => h.scalar
  case eq | notEq => exact yields_ok (h.scalar rfl)
  case less | greater | lessEq | greaterEq =>
    exact (ordered_scalar _ _ _ _).mono fun _ => h.scalar
  case isIn | notIn => exact yields_bind (yields_true _) fun _ _ => yields_ok (h.scalar rfl)
  case and | or => exact yields_error _

theorem slice_mixes {v : Value} (hv : P v) (start stop : Option Value) :
    Yields P (slice v start stop) := by
  unfold slice
  split
  · refine yields_bind (yields_true _) fun a _ => yields_bind (yields_true _) fun b _ => ?_
    refine yields_ok ?_
    exact h.part hv fun v hv => List.mem_of_mem_take (List.mem_of_mem_drop hv)
  · exact yields_bind (yields_true _) fun _ _ => yields_bind (yields_true _) fun _ _ =>
      yields_ok (h.scalar rfl)
  · exact yields_error _

end Mixing

end MissionScript.Value
