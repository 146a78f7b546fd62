import MissionScript.Proofs.Value.Extent

/-!
# Paths into values

A path of keys leads from slot to slot into a value (`Reaches`). What a change gives at the end of a
path is what it gives on the value there, and reading with the same keys, one after the other, comes
to the same value (`Reaches.read_eq`).
-/

namespace MissionScript.Value

/-- Going along the path from the first value leads to the second, from slot to slot. -/
inductive Reaches (v : Value) : List Value → Value → Prop
  | refl : Reaches v [] v
  | step {path : List Value} {u key : Value} {i : Nat} (h : Reaches v path u)
      (hi : u.slot key = .ok i) : Reaches v (path ++ [key]) (u.content i)

/-- What is read with the keys of a path, one after the other. -/
def read (v : Value) : List Value → Result Value
  | [] => .ok v
  | key :: path => do (← v.index key).read path

section Reading

theorem read_singleton (v key : Value) : v.read [key] = v.index key := by
  rw [read]
  rcases v.index key with e | u <;> rfl

theorem read_append (v : Value) (path path' : List Value) :
    v.read (path ++ path') = v.read path >>= fun u => u.read path' := by
  induction path generalizing v with
  | nil => rfl
  | cons key path ih =>
    rw [List.cons_append, read, read]
    rcases v.index key with e | u
    · rfl
    · exact ih u

end Reading

namespace Reaches

variable {v u : Value} {path : List Value}

theorem cons {key : Value} {i : Nat} (hi : v.slot key = .ok i)
    (h : (v.content i).Reaches path u) : v.Reaches (key :: path) u := by
  induction h with
  | refl => exact .step (.refl : v.Reaches [] v) hi
  | step _ hj ih => exact .step ih hj

/-- The last step of a path. -/
theorem exists_of_concat {key : Value} (h : v.Reaches (path ++ [key]) u) :
    ∃ w i, v.Reaches path w ∧ w.slot key = .ok i ∧ u = w.content i := by
  generalize hpath : path ++ [key] = whole at h
  cases h with
  | refl => exact absurd hpath (List.concat_ne_nil _ _)
  | step h hi =>
    obtain ⟨rfl, hkey⟩ := List.append_inj' hpath rfl
    cases hkey
    exact ⟨_, _, h, hi, rfl⟩

theorem depth_le (h : v.Reaches path u) : u.depth ≤ v.depth := by
  induction h with
  | refl => exact Nat.le_refl _
  | @step path w key i _ hi ih =>
    have := (slot_refilled w key none i hi).depth_lt
    omega

theorem read_eq (h : v.Reaches path u) : v.read path = .ok u := by
  induction h with
  | refl => rfl
  | @step path w key i _ hi ih =>
    rw [read_append, ih]
    exact (read_singleton w key).trans (index_of_slot hi)

end Reaches

theorem bind_eq_ok {α β : Type} {r : Result α} {f : α → Result β} {b : β} :
    (r >>= f) = .ok b ↔ ∃ a, r = .ok a ∧ f a = .ok b := by
  constructor
  · intro h
    rcases r with e | a
    · cases h
    · exact ⟨a, rfl, h⟩
  · rintro ⟨a, rfl, h⟩
    exact h

section Changing

variable {α : Type}

theorem changeAt_append (change : Value → Result (α × Value)) (path path' : List Value) :
    changeAt change (path ++ path') = changeAt (changeAt change path') path := by
  induction path with
  | nil => rfl
  | cons key path ih =>
    funext v
    rw [List.cons_append]
    unfold changeAt
    rw [ih]

/-- What a change gives at a place is what it gives on the value there. -/
theorem Reaches.changeAt_fst {v u : Value} {path : List Value} (h : Reaches v path u) :
    ∀ change : Value → Result (α × Value),
      (changeAt change path v).map (·.1) = (change u).map (·.1) := by
  induction h with
  | refl => exact fun _ => rfl
  | @step path u key i _ hi ih =>
    intro change
    rw [changeAt_append, ih]
    unfold changeAt
    rw [hi]
    change (change (u.content i) >>= _).map _ = _
    rcases change (u.content i) with e | r <;> rfl

/-- Two changes that do the same to the value at a place do the same to the whole. -/
theorem Reaches.changeAt_congr {v u : Value} {path : List Value} (h : Reaches v path u) :
    ∀ {change change' : Value → Result (α × Value)}, change u = change' u →
      changeAt change path v = changeAt change' path v := by
  induction h with
  | refl => exact id
  | @step path u key i _ hi ih =>
    intro change change' hsame
    rw [changeAt_append, changeAt_append]
    refine ih ?_
    simp only [changeAt, hi]
    change (change (u.content i) >>= _) = (change' (u.content i) >>= _)
    rw [hsame]

/-- A change at the end of a path is one step that leads into the value, and then a change there. -/
theorem changeAt_cons_eq_ok {change : Value → Result (α × Value)} {key : Value}
    {path : List Value} {v v' : Value} {a : α} :
    changeAt change (key :: path) v = .ok (a, v') ↔
      ∃ i x, v.slot key = .ok i ∧ changeAt change path (v.content i) = .ok (a, x)
        ∧ v' = v.withContent i x := by
  simp only [changeAt, bind_eq_ok]
  constructor
  · rintro ⟨i, hi, ⟨b, x⟩, hx, hv⟩
    cases hv
    exact ⟨i, x, hi, hx, rfl⟩
  · rintro ⟨i, x, hi, hx, rfl⟩
    exact ⟨i, hi, (a, x), hx, rfl⟩

/-- Where a change at the end of a path succeeds, the path leads somewhere. -/
theorem exists_reaches_of_changeAt {change : Value → Result (α × Value)} :
    ∀ {path : List Value} {v v' : Value} {a : α}, changeAt change path v = .ok (a, v') →
      ∃ u x, v.Reaches path u ∧ change u = .ok (a, x)
  | [], v, v', _, h => ⟨v, v', .refl, h⟩
  | key :: path, v, v', a, h => by
    obtain ⟨i, x, hi, hx, -⟩ := changeAt_cons_eq_ok.mp h
    obtain ⟨u, y, hu, hy⟩ := exists_reaches_of_changeAt hx
    exact ⟨u, y, .cons hi hu, hy⟩

end Changing

end MissionScript.Value
