import MissionScript.Proofs.Script.Written
import MissionScript.Proofs.Value.Extent

/-!
# Values as literals

The written form of a value without floats and without the smallest int is that of an expression: a
literal, a literal with a sign, or a list or dict of such expressions. The tree is hardly deeper
than the value.
-/

namespace MissionScript.Value

/-- Values whose written form is an expression that stands for them. Floats are left out, since they
may be written with an exponent, and so is the smallest int, whose digits are too large an int. -/
inductive Printable : Value → Prop
  | none : Printable none
  | bool (b : Bool) : Printable (bool b)
  | int {n : Int64} (h : n ≠ Int64.minValue) : Printable (int n)
  | str (s : String) : Printable (str s)
  | list {items : List Value} (h : ∀ v ∈ items, Printable v) : Printable (list items)
  | dict {entries : List (Value × Value)} (hkeys : Distinct (entries.map (·.1)))
      (hscalars : ∀ e ∈ entries, Printable e.1) (hvalues : ∀ e ∈ entries, Printable e.2) :
      Printable (dict entries)

mutual

/-- The expression that the written form of a value is. -/
def literal : Value → Expr
  | none => .none default
  | bool b => .bool b default
  | int n => if n.toInt < 0 then .unary .neg (.int (-n) default) default else .int n default
  | float x => .float x default
  | str s => .str s default
  | list items => .list (literals items) default
  | dict entries => .dict (literalEntries entries) default

def literals : List Value → List Expr
  | [] => []
  | v :: vs => v.literal :: literals vs

def literalEntries : List (Value × Value) → List (Expr × Expr)
  | [] => []
  | (k, v) :: es => (k.literal, v.literal) :: literalEntries es

end

theorem literals_eq (vs : List Value) : literals vs = vs.map literal := by
  induction vs with
  | nil => rfl
  | cons v vs ih => rw [literals, ih, List.map_cons]

theorem literalEntries_eq (es : List (Value × Value)) :
    literalEntries es = es.map fun e => (e.1.literal, e.2.literal) := by
  induction es with
  | nil => rfl
  | cons e es ih => rw [literalEntries, ih, List.map_cons]

section Ints

variable {n : Int64}

theorem ofNat_natAbs_of_nonneg (h : 0 ≤ n.toInt) : Int64.ofNat n.toInt.natAbs = n := by
  rw [← Int64.ofInt_eq_ofNat, Int.natAbs_of_nonneg h, Int64.ofInt_toInt]

theorem ofNat_natAbs_of_neg (h : n.toInt < 0) : Int64.ofNat n.toInt.natAbs = -n := by
  rw [← Int64.ofInt_eq_ofNat, Int.ofNat_natAbs_of_nonpos (Int.le_of_lt h), Int64.ofInt_neg,
    Int64.ofInt_toInt]

theorem natAbs_le (h : n ≠ Int64.minValue) : n.toInt.natAbs ≤ MissionScript.largestInt := by
  have hlow := n.le_toInt
  have hhigh := n.toInt_lt
  have hmin : n.toInt ≠ -2 ^ 63 := fun heq => h (Int64.toInt_inj.mp heq)
  unfold MissionScript.largestInt
  omega

/-- The sign in front of a negative int makes it from its opposite. -/
theorem unary_neg (hneg : n.toInt < 0) (h : n ≠ Int64.minValue) :
    unary .neg (int (-n)) = .ok (int n) := by
  have hsize := natAbs_le h
  unfold MissionScript.largestInt at hsize
  have hopposite : (-n).toInt = -n.toInt := by
    rw [← ofNat_natAbs_of_neg hneg, Int64.toInt_ofNat_of_lt (by omega)]
    omega
  have hfits : smallestInt ≤ n.toInt ∧ n.toInt ≤ largestInt := by
    unfold smallestInt largestInt
    omega
  rw [unary, hopposite, Int.neg_neg, ofInt, if_pos hfits, Int64.ofInt_toInt]

end Ints

theorem writtenAll_literals (vs : List Value) :
    Expr.writtenAll (literals vs) = vs.map fun v => v.literal.written := by
  induction vs with
  | nil => rfl
  | cons v vs ih => rw [literals, Expr.writtenAll, ih, List.map_cons]

theorem writtenEntries_literal (es : List (Value × Value)) :
    Expr.writtenEntries (literalEntries es)
      = es.map fun e => e.1.literal.written ++ .symbol .colon :: e.2.literal.written := by
  induction es with
  | nil => rfl
  | cons e es ih => rw [literalEntries, Expr.writtenEntries, ih, List.map_cons]

section Measures

/-- A sign takes one more level of nesting and of height; otherwise a tree is as deep as its value
and a literal taller. -/
theorem Printable.literal_le {v : Value} (h : Printable v) :
    v.literal.nesting ≤ v.depth + 1 ∧ v.literal.rebuilt.height ≤ v.depth + 2 := by
  induction h with
  | none | bool | str => exact ⟨Nat.zero_le _, Expr.height_rebuilt_le nofun⟩
  | @int n =>
    rw [literal]
    split
    · have hoperand : (Expr.int (-n) default).rebuilt.height ≤ 1 := Expr.height_rebuilt_le nofun
      exact ⟨Nat.le_refl 1, Expr.height_rebuilt_le (List.forall_mem_singleton.mpr hoperand)⟩
    · exact ⟨Nat.zero_le _, Expr.height_rebuilt_le nofun⟩
  | @list items _ ih =>
    have hdepth := (depth_list_le.mp (Nat.le_refl (Value.list items).depth)).2
    have hitem : ∀ v ∈ items, v.literal.nesting + 1 ≤ (Value.list items).depth + 1 ∧
        v.literal.rebuilt.height ≤ (Value.list items).depth + 1 := by
      intro v hv
      have := ih v hv
      have := hdepth v hv
      omega
    rw [literal, literals_eq, Expr.nesting, Expr.nestingAll_le]
    exact ⟨List.forall_mem_map.mpr fun v hv => (hitem v hv).1,
      Expr.height_rebuilt_le (List.forall_mem_map.mpr fun v hv => (hitem v hv).2)⟩
  | @dict entries hkeys _ _ ihkeys ihvalues =>
    have hdepth := depth_dict_le.mp (Nat.le_refl (Value.dict entries).depth)
    have hentry : ∀ e ∈ entries,
        (e.1.literal.nesting + 1 ≤ (Value.dict entries).depth + 1 ∧
          e.2.literal.nesting + 1 ≤ (Value.dict entries).depth + 1) ∧
        e.1.literal.rebuilt.height ≤ (Value.dict entries).depth + 1 ∧
          e.2.literal.rebuilt.height ≤ (Value.dict entries).depth + 1 := by
      intro e he
      have := ihkeys e he
      have := ihvalues e he
      have := hdepth.2 e he
      have := depth_eq_zero (hkeys.scalar _ (List.mem_map_of_mem he))
      omega
    rw [literal, literalEntries_eq, Expr.nesting, Expr.nestingEntries_le]
    exact ⟨List.forall_mem_map.mpr fun e he => (hentry e he).1, Expr.height_rebuilt_le
      (Expr.forall_parts_dict.mpr (List.forall_mem_map.mpr fun e he => (hentry e he).2))⟩

end Measures

end MissionScript.Value
