import Mathlib
import MissionScript.Proofs.Value.WellKeyed

/-!
# Extent of values

Weight and depth are computed with an accumulator. Here they are told for each kind of container,
and how much they grow when a value is put into a slot or two values are combined.
-/

namespace MissionScript.Value

section Weight

mutual

theorem weightOnto_eq (w : Nat) : ∀ v : Value, weightOnto w v = w + v.weight
  | str s => by simp [weight, weightOnto]
  | list items => by
    simp only [weight, weightOnto]
    rw [weightOfItems_eq w, weightOfItems_eq 0, Nat.zero_add]
  | dict entries => by
    simp only [weight, weightOnto]
    rw [weightOfEntries_eq w, weightOfEntries_eq 0, Nat.zero_add]
  | none | bool _ | int _ | float _ => rfl

theorem weightOfItems_eq (w : Nat) : ∀ vs : List Value,
    weightOfItems w vs = w + (vs.map fun v => v.weight + 1).sum
  | [] => rfl
  | v :: vs => by
    rw [weightOfItems, weightOnto_eq (w + 1) v, weightOfItems_eq _ vs, List.map_cons,
      List.sum_cons]
    omega

theorem weightOfEntries_eq (w : Nat) : ∀ es : List (Value × Value),
    weightOfEntries w es = w + (es.map fun e => e.1.weight + e.2.weight + 1).sum
  | [] => rfl
  | (k, v) :: es => by
    rw [weightOfEntries, weightOnto_eq (w + 1) k, weightOnto_eq _ v, weightOfEntries_eq _ es,
      List.map_cons, List.sum_cons]
    dsimp only
    omega

end

theorem weight_list (items : List Value) :
    (list items).weight = (items.map fun v => v.weight + 1).sum := by
  rw [weight, weightOnto, weightOfItems_eq, Nat.zero_add]

theorem weight_list_nil : (list []).weight = 0 := rfl

theorem weight_list_cons (v : Value) (vs : List Value) :
    (list (v :: vs)).weight = v.weight + 1 + (list vs).weight := by
  rw [weight_list, weight_list, List.map_cons, List.sum_cons]

theorem weight_list_append (as bs : List Value) :
    (list (as ++ bs)).weight = (list as).weight + (list bs).weight := by
  rw [weight_list, weight_list, weight_list, List.map_append, List.sum_append]

theorem weight_dict (entries : List (Value × Value)) :
    (dict entries).weight = (entries.map fun e => e.1.weight + e.2.weight + 1).sum := by
  rw [weight, weightOnto, weightOfEntries_eq, Nat.zero_add]

theorem weight_str (s : String) : (str s).weight = s.utf8ByteSize / bytesPerUnit :=
  Nat.zero_add _

end Weight

section Depth

variable {n : Nat}

theorem depthOfItems_le {vs : List Value} {d : Nat} :
    depthOfItems d vs ≤ n ↔ d ≤ n ∧ ∀ v ∈ vs, v.depth + 1 ≤ n := by
  induction vs generalizing d with
  | nil => simp [depthOfItems]
  | cons v vs ih => simp only [depthOfItems, ih, Nat.max_le, List.forall_mem_cons, and_assoc]

theorem depthOfEntries_le {es : List (Value × Value)} {d : Nat} :
    depthOfEntries d es ≤ n ↔ d ≤ n ∧ ∀ e ∈ es, e.2.depth + 1 ≤ n := by
  induction es generalizing d with
  | nil => simp [depthOfEntries]
  | cons e es ih => simp only [depthOfEntries, ih, Nat.max_le, List.forall_mem_cons, and_assoc]

theorem depth_list_le {items : List Value} :
    (list items).depth ≤ n ↔ 1 ≤ n ∧ ∀ v ∈ items, v.depth + 1 ≤ n := by
  rw [depth, depthOfItems_le]

theorem depth_dict_le {entries : List (Value × Value)} :
    (dict entries).depth ≤ n ↔ 1 ≤ n ∧ ∀ e ∈ entries, e.2.depth + 1 ≤ n := by
  rw [depth, depthOfEntries_le]

theorem depth_eq_zero {v : Value} (h : v.isHashable = true) : v.depth = 0 := by
  cases v <;> first | rfl | cases h

end Depth

section Slots

variable {u x v v' : Value}

/-- What is put into a slot weighs on the container in the place of what was there. -/
theorem Refilled.weight_eq (h : Refilled u x v v') :
    v'.weight + u.weight = v.weight + x.weight := by
  cases h with
  | item before after =>
    simp only [weight_list, List.map_append, List.map_cons, List.sum_append, List.sum_cons]
    omega
  | entry before key after =>
    simp only [weight_dict, List.map_append, List.map_cons, List.sum_append, List.sum_cons]
    omega

/-- What is in a slot is less deep than the container. -/
theorem Refilled.depth_lt (h : Refilled u x v v') : u.depth + 1 ≤ v.depth := by
  cases h with
  | item before after =>
    have hv := (depth_list_le.mp (Nat.le_refl (list (before ++ u :: after)).depth)).2
    exact hv u (List.mem_append_right _ List.mem_cons_self)
  | entry before key after =>
    have hv := (depth_dict_le.mp (Nat.le_refl (dict (before ++ (key, u) :: after)).depth)).2
    exact hv (key, u) (List.mem_append_right _ List.mem_cons_self)

theorem Refilled.depth_le (h : Refilled u x v v') {n : Nat} (hv : v.depth ≤ n)
    (hx : x.depth + 1 ≤ n) : v'.depth ≤ n := by
  cases h with
  | item before after =>
    rw [depth_list_le, List.forall_mem_append, List.forall_mem_cons] at hv ⊢
    exact ⟨hv.1, hv.2.1, hx, hv.2.2.2⟩
  | entry before key after =>
    rw [depth_dict_le, List.forall_mem_append, List.forall_mem_cons] at hv ⊢
    exact ⟨hv.1, hv.2.1, hx, hv.2.2.2⟩

/-- A change at the end of a path adds to the whole value what it adds there. -/
theorem changeAt_weight_le {α : Type} {change : Value → Result (α × Value)} {n : Nat}
    (h : ∀ u, Yields (fun r => r.2.weight ≤ u.weight + n) (change u)) (path : List Value)
    (v : Value) : Yields (fun r => r.2.weight ≤ v.weight + n) (changeAt change path v) := by
  refine changeAt_yields (R := fun _ v r => r.2.weight ≤ v.weight + n) h ?_ path v
  intro _ _ _ _ _ _ hfilled hr
  have := hfilled.weight_eq
  dsimp only at hr ⊢
  omega

/-- A change that keeps a bound on the depth does so at the end of a path too, where the bound is
lower by the length of the path. -/
theorem changeAt_depth_le {α : Type} {change : Value → Result (α × Value)} {path : List Value}
    {n : Nat} (h : ∀ u, u.depth + path.length ≤ n →
      Yields (fun r => r.2.depth + path.length ≤ n) (change u)) {v : Value} (hv : v.depth ≤ n) :
    Yields (fun r => r.2.depth ≤ n) (changeAt change path v) := by
  let Bounded (k n : Nat) : Prop :=
    ∀ u, u.depth + k ≤ n → Yields (fun r => r.2.depth + k ≤ n) (change u)
  refine (changeAt_yields (R := fun k v r => ∀ n, Bounded k n → v.depth ≤ n → r.2.depth ≤ n)
    (fun u r hr n hn hu => hn u hu r hr) ?_ path v).mono fun r hr => hr n h hv
  intro k u a u' v v' hfilled hr n hn hv
  obtain ⟨n, rfl⟩ : ∃ n', n = n' + 1 := ⟨n - 1, by have := hfilled.depth_lt; omega⟩
  have hbounded : Bounded k n := fun u hu r hr => by
    have := hn u (by omega) r hr
    omega
  have hu' := hr n hbounded (by have := hfilled.depth_lt; omega)
  exact hfilled.depth_le hv (Nat.succ_le_succ hu')

end Slots

section Operators

theorem weight_eq_zero_of_isNumber {v : Value} (h : v.number?.isSome = true) : v.weight = 0 := by
  cases v <;> first | rfl | cases h

theorem arith_weight (op : BinOp) (onInts : Int → Int → Int) (onFloats : Float → Float → Float)
    (a b : Value) : Yields (fun v => v.weight = 0) (arith op onInts onFloats a b) :=
  (arith_isNumber op onInts onFloats a b).mono fun _ => weight_eq_zero_of_isNumber

theorem add_weight_le (a b : Value) :
    Yields (fun v => v.weight ≤ a.weight + b.weight + 1) (add a b) := by
  unfold add
  split
  · refine yields_bind (yields_true _) fun _ _ => yields_ok ?_
    simp only [weight_str, String.utf8ByteSize_append, bytesPerUnit]
    omega
  · refine yields_bind (yields_true _) fun _ _ => yields_ok ?_
    rw [weight_list_append]
    exact Nat.le_succ _
  · exact (arith_weight _ _ _ _ _).mono fun v hv => by omega

theorem repeatCount_eq (size : Nat) (n : Int64) :
    repeatCount size n =
      if size * n.toInt.toNat ≤ longestSequence then .ok n.toInt.toNat
      else .error (.sequenceTooLong (min (size * n.toInt.toNat) largestSize)) := by
  have hlimit : min (size * n.toInt.toNat) largestSize ≤ longestSequence
      ↔ size * n.toInt.toNat ≤ longestSequence := by
    have : longestSequence < largestSize := by decide
    omega
  unfold repeatCount checkLength
  simp only [hlimit]
  split <;> rfl

theorem repeatCount_yields (size : Nat) (n : Int64) :
    Yields (fun count => size * count ≤ longestSequence) (repeatCount size n) := by
  rw [repeatCount_eq]
  split
  · exact yields_ok ‹_›
  · exact yields_error _

theorem utf8ByteSize_copies (n : Nat) (cs : List Char) :
    (String.ofList (copies n cs)).utf8ByteSize = (String.ofList cs).utf8ByteSize * n := by
  rw [copies_eq]
  induction n with
  | zero => rfl
  | succ n ih =>
    rw [List.replicate_succ, List.flatten_cons, String.ofList_append,
      String.utf8ByteSize_append, ih, Nat.mul_succ, Nat.add_comm]

theorem weight_copies (n : Nat) (items : List Value) :
    (list (copies n items)).weight = (list items).weight * n := by
  rw [copies_eq, weight_list, weight_list, List.map_flatten, List.sum_flatten, List.map_map,
    List.map_replicate, List.sum_replicate_nat, Nat.mul_comm]
  rfl

theorem repeatText_weight_le (s : String) (n : Int64) :
    Yields (fun v => v.weight ≤ longestSequence) (repeatText s n) := by
  refine yields_bind (repeatCount_yields _ n) fun count hcount => yields_ok ?_
  rw [weight_str, utf8ByteSize_copies, String.ofList_toList]
  exact (Nat.div_le_self _ _).trans hcount

theorem repeatList_weight_le (items : List Value) (n : Int64) :
    Yields (fun v => v.weight ≤ longestSequence) (repeatList items n) := by
  refine yields_bind (repeatCount_yields _ n) fun count hcount => yields_ok ?_
  rw [weight_copies]
  exact hcount

theorem mul_weight_le (a b : Value) :
    Yields (fun v => v.weight ≤ longestSequence) (mul a b) := by
  unfold mul
  split
  · exact repeatText_weight_le _ _
  · exact repeatText_weight_le _ _
  · exact repeatList_weight_le _ _
  · exact repeatList_weight_le _ _
  · exact (arith_weight _ _ _ _ _).mono fun v hv => hv ▸ Nat.zero_le _

/-- No operator goes deeper than its operands. -/
theorem depth_mixes (n : Nat) : Mixes fun v => v.depth ≤ n where
  scalar h := by rw [depth_eq_zero h]; exact Nat.zero_le n
  list has hbs h := by
    rw [depth_list_le] at has hbs ⊢
    exact ⟨has.1, fun v hv => (h v hv).elim (has.2 v) (hbs.2 v)⟩

end Operators

section Containers

theorem setIndex_depth_le (v key x : Value) :
    Yields (fun v' => v'.depth ≤ max v.depth (x.depth + 1)) (v.setIndex key x) := by
  refine (setIndex_cases v key x).mono fun v' h => ?_
  rcases h with ⟨u, -, h⟩ | ⟨entries, rfl, -, -, rfl⟩
  · exact h.depth_le (Nat.le_max_left _ _) (Nat.le_max_right _ _)
  · have hv := depth_dict_le.mp (Nat.le_max_left (dict entries).depth (x.depth + 1))
    rw [depth_dict_le, List.forall_mem_append, List.forall_mem_singleton]
    exact ⟨hv.1, hv.2, Nat.le_max_right _ _⟩

/-- The items of a value weigh no more than it does. -/
theorem items_weight_le (v : Value) :
    Yields (fun vs => (vs.map weight).sum ≤ v.weight) v.items := by
  unfold items
  split
  · refine yields_ok ?_
    rw [weight_list]
    exact List.sum_le_sum fun u _ => Nat.le_succ _
  · refine yields_ok ((List.sum_eq_zero ?_).trans_le (Nat.zero_le _))
    simp only [chars, List.map_map, List.forall_mem_map, Function.comp_apply, weight_str]
    intro c _
    have hsize : c.toString.utf8ByteSize = c.utf8Size := String.utf8ByteSize_singleton
    have := c.utf8Size_le_four
    unfold bytesPerUnit
    omega
  · refine yields_ok ?_
    rw [weight_dict, List.map_map]
    refine List.sum_le_sum fun e _ => ?_
    dsimp only [Function.comp_apply]
    omega
  · exact yields_error _

theorem items_depth_le {v : Value} (hv : WellKeyed v) :
    Yields (fun vs => ∀ u ∈ vs, u.depth ≤ v.depth) v.items := by
  unfold items
  split
  · refine yields_ok fun u hu => ?_
    have := (depth_list_le.mp (Nat.le_refl _)).2 u hu
    omega
  · exact yields_ok (List.forall_mem_map.mpr fun c _ => Nat.le_refl _)
  · refine yields_ok fun k hk => ?_
    rw [depth_eq_zero ((wellKeyed_dict.mp hv).1.scalar k hk)]
    exact Nat.zero_le _
  · exact yields_error _

variable {method : String} {args : List Value} {v v' : Value}

/-- A method adds no more to its receiver than its arguments weigh in a list. -/
theorem Remade.weight_le (h : Remade method args v v') :
    v'.weight ≤ v.weight + (list args).weight := by
  cases h with
  | same => exact Nat.le_add_right _ _
  | fewer h =>
    rw [weight_list, weight_list]
    exact Nat.le_add_right_of_le ((h.map _).sum_le_sum fun _ _ => Nat.zero_le _)
  | more _ hargs => rw [hargs, weight_list_append]

theorem Remade.depth_le (h : Remade method args v v') {n : Nat} (hv : v.depth ≤ n)
    (hargs : method = "append" → ∀ a ∈ args, a.depth + 1 ≤ n) : v'.depth ≤ n := by
  cases h with
  | same => exact hv
  | fewer h =>
    rw [depth_list_le] at hv ⊢
    exact ⟨hv.1, fun u hu => hv.2 u (h.subset hu)⟩
  | more hmethod ha =>
    rw [depth_list_le] at hv ⊢
    rw [List.forall_mem_append, List.forall_mem_singleton]
    exact ⟨hv.1, hv.2, hargs hmethod _ (ha ▸ List.mem_singleton_self _)⟩

end Containers

end MissionScript.Value
