import MissionScript.Proofs.Value.Path

/-!
# Storing under a key

An index of a list means the same item wherever it is used: where the item is read, where it is
changed, where a value is stored and where an item is taken out (`list_slots_agree`).

To store a value under a key at the end of a path changes one slot of each container on the way, and
makes at most one new entry, in the last container (`Stored`). What is stored is what is read
afterwards with the same keys (`Stored.read_eq`).
-/

namespace MissionScript.Value

section Positions

/-- The index means the item with number `n` among so many; a negative one counts from the end. -/
def Denotes (i : Int64) (length n : Nat) : Prop :=
  n < length ∧ (n : Int) = if i.toInt < 0 then i.toInt + length else i.toInt

variable {i : Int64} {length n : Nat} {items : List Value} {key x : Value}

theorem position?_eq_some : position? i length = some n ↔ Denotes i length n := by
  unfold position? Denotes
  dsimp only
  rw [Option.ite_none_right_eq_some, Option.some.injEq]
  generalize (if i.toInt < 0 then i.toInt + length else i.toInt) = k
  omega

theorem exists_denotes :
    (∃ n, Denotes i length n) ↔ -(length : Int) ≤ i.toInt ∧ i.toInt < length := by
  unfold Denotes
  constructor
  · rintro ⟨n, hn, heq⟩
    split at heq <;> omega
  · intro h
    refine ⟨(if i.toInt < 0 then i.toInt + length else i.toInt).toNat, ?_⟩
    split <;> omega

theorem itemPosition_eq_ok_iff {kind : Kind} {outside : RuntimeError} :
    itemPosition kind length outside key = .ok n ↔ ∃ i, key = int i ∧ Denotes i length n := by
  simp only [itemPosition_eq_ok, position?_eq_some]

theorem itemPosition_isOk_iff {kind : Kind} {outside : RuntimeError} :
    (∃ n, itemPosition kind length outside key = .ok n)
      ↔ ∃ i, key = int i ∧ -(length : Int) ≤ i.toInt ∧ i.toInt < length := by
  simp only [itemPosition_eq_ok_iff, ← exists_denotes]
  exact ⟨fun ⟨n, i, hi, hn⟩ => ⟨i, hi, n, hn⟩, fun ⟨i, hi, n, hn⟩ => ⟨n, i, hi, hn⟩⟩

theorem bind_ok_isOk_iff {α β : Type} {r : Result α} {f : α → β} :
    (∃ b, (r >>= fun a => .ok (f a) : Result β) = .ok b) ↔ ∃ a, r = .ok a := by
  simp only [bind_eq_ok]
  exact ⟨fun ⟨b, a, ha, _⟩ => ⟨a, ha⟩, fun ⟨a, ha⟩ => ⟨f a, a, ha, rfl⟩⟩

/-- A list can be read with the ints in the range of its length, and with nothing else. -/
theorem list_index_isOk_iff : (∃ u, (list items).index key = .ok u)
    ↔ ∃ i, key = int i ∧ -(items.length : Int) ≤ i.toInt ∧ i.toInt < items.length :=
  bind_ok_isOk_iff.trans itemPosition_isOk_iff

theorem list_setIndex_isOk_iff : (∃ v', (list items).setIndex key x = .ok v')
    ↔ ∃ i, key = int i ∧ -(items.length : Int) ≤ i.toInt ∧ i.toInt < items.length :=
  bind_ok_isOk_iff.trans itemPosition_isOk_iff

/-- The same item is read, changed, stored and taken out. -/
theorem list_slots_agree (h : Denotes i items.length n) : ∃ u, items[n]? = some u
    ∧ (list items).index (int i) = .ok u
    ∧ (list items).setIndex (int i) x = .ok (list (items.set n x))
    ∧ (∀ {α : Type} (change : Value → Result (α × Value)),
        (list items).changeAt change [int i] =
          (change u).map fun r => (r.1, list (items.set n r.2)))
    ∧ (list items).callMethod "pop" [int i] = .ok (u, list (items.eraseIdx n)) := by
  have hposition (kind : Kind) (outside : RuntimeError) :
      itemPosition kind items.length outside (int i) = .ok n :=
    itemPosition_eq_ok_iff.mpr ⟨i, rfl, h⟩
  obtain ⟨hlt, -⟩ := id h
  have hu : items[n]? = some items[n] := List.getElem?_eq_getElem hlt
  have hread : items[n]?.getD none = items[n] := by rw [hu, Option.getD_some]
  refine ⟨_, hu, ?_, ?_, fun change => ?_, ?_⟩
  · rw [index, hposition, ← hread]
    rfl
  · rw [setIndex, hposition]
    rfl
  · have hslot : (list items).slot (int i) = .ok n := hposition .list .listIndex
    have hcontent : (list items).content n = items[n] := hread
    simp only [changeAt, hslot]
    change (change ((list items).content n) >>= _) = _
    rw [hcontent]
    rcases change items[n] with e | r <;> rfl
  · have hne : items.isEmpty = false := by
      cases items with
      | nil => exact absurd hlt (Nat.not_lt_zero n)
      | cons v vs => rfl
    have hpop : popAt items i = .ok (items[n], items.eraseIdx n) := by
      rw [popAt, position?_eq_some.mpr h, ← hread]
    change ((Arity.range 0 1).check "list.pop" 1 >>= fun _ => pop items [int i]) >>= _ = _
    rw [pop, hne, if_neg Bool.false_ne_true]
    change popAt items i >>= _ = _
    rw [hpop]
    rfl

end Positions

section Storing

variable {v v' key x : Value} {i : Nat} {path : List Value}

theorem findIdx?_modify {entries : List (Value × Value)} (h : i < entries.length)
    (key x : Value) : (entries.modify i fun e => (e.1, x)).findIdx? (fun e => e.1.equal key)
      = entries.findIdx? fun e => e.1.equal key := by
  obtain ⟨before, e, after, hentries, -, hmodify⟩ :=
    List.exists_of_modify (fun e : Value × Value => (e.1, x)) h
  rw [hmodify, hentries, List.findIdx?_append, List.findIdx?_append, List.findIdx?_cons,
    List.findIdx?_cons]

/-- What is put in the slot of a key is what is read with the key. -/
theorem index_withContent (h : v.slot key = .ok i) (x : Value) :
    (v.withContent i x).index key = .ok x := by
  cases v with
  | none | bool b | int n | float y | str s => cases h
  | list items =>
    have hlt : i < items.length := itemPosition_lt _ _ _ _ i h
    have hslot : (list (items.set i x)).slot key = .ok i := by
      rw [slot, List.length_set]
      exact h
    refine (index_of_slot hslot).trans ?_
    simp [content, hlt]
  | dict entries =>
    have hlt : i < entries.length := entryPosition_lt _ _ i h
    have hslot : (dict (entries.modify i fun e => (e.1, x))).slot key = .ok i := by
      rw [slot, entryPosition, findIdx?_modify hlt]
      exact h
    refine (index_of_slot hslot).trans ?_
    simp [content, hlt]

/-- The second value is the first with `x` stored under a key at the end of a path: of each
container on the way the slot that the path goes through is refilled, and if the last one is a dict
without the key, an entry comes to its end. -/
inductive Stored (key x : Value) : List Value → Value → Value → Prop
  | put {u v v' : Value} (hread : v.index key = .ok u) (hread' : v'.index key = .ok x)
      (h : Refilled u x v v') : Stored key x [] v v'
  | added {entries : List (Value × Value)} (hkey : key.isHashable = true)
      (hnew : ∀ e ∈ entries, e.1.equal key = false) :
      Stored key x [] (dict entries) (dict (entries ++ [(key, x)]))
  | inside {k : Value} {path : List Value} {u u' v v' : Value} (hread : v.index k = .ok u)
      (hread' : v'.index k = .ok u') (h : Refilled u u' v v') (hinside : Stored key x path u u') :
      Stored key x (k :: path) v v'

theorem stored_of_setIndex (h : v.setIndex key x = .ok v') : Stored key x [] v v' := by
  rcases setIndex_slot_cases v key x v' h with ⟨i, hi, rfl⟩ | ⟨entries, rfl, hkey, hnew, rfl⟩
  · exact .put (index_of_slot hi) (index_withContent hi x) (slot_refilled v key x i hi)
  · exact .added hkey hnew

/-- What the change of an assignment makes of a value in which the path starts. -/
theorem stored_of_changeAt : ∀ {path : List Value} {v v' : Value},
    changeAt (fun c => do return ((), ← c.setIndex key x)) path v = .ok ((), v') →
      Stored key x path v v'
  | [], v, v', h => by
    obtain ⟨w, hw, heq⟩ := bind_eq_ok.mp h
    cases heq
    exact stored_of_setIndex hw
  | k :: path, v, v', h => by
    obtain ⟨i, u, hi, hu, rfl⟩ := changeAt_cons_eq_ok.mp h
    exact .inside (index_of_slot hi) (index_withContent hi u) (slot_refilled v k u i hi)
      (stored_of_changeAt hu)

theorem equal_self (hhash : key.isHashable = true) (hkey : key.kind ≠ .float) :
    key.equal key = true := by
  cases key with
  | none | bool b | int n | str s => simp [equal, equalFrom]
  | float y => exact absurd rfl hkey
  | list items => cases hhash
  | dict entries => cases hhash

theorem index_added {entries : List (Value × Value)} (hkey : key.isHashable = true)
    (hself : key.equal key = true) (hnew : ∀ e ∈ entries, e.1.equal key = false) (x : Value) :
    (dict (entries ++ [(key, x)])).index key = .ok x := by
  have hnone : entries.find? (fun e => e.1.equal key) = Option.none :=
    List.find?_eq_none.mpr fun e he => Bool.not_eq_true _ ▸ hnew e he
  have hfind : lookup? (entries ++ [(key, x)]) key = some x := by
    rw [lookup?, List.find?_append, hnone, Option.none_or]
    simp only [List.find?_cons, hself]
    rfl
  unfold index requireHashable
  dsimp only
  rw [if_pos hkey, hfind]
  rfl

/-- What is stored is read with the same keys. A float is left out as the last key, since it may be
unequal to itself. -/
theorem Stored.read_eq (h : Stored key x path v v') (hkey : key.kind ≠ .float) :
    v'.read (path ++ [key]) = .ok x := by
  induction h with
  | put hread hread' h => exact (read_singleton _ key).trans hread'
  | added hhash hnew =>
    exact (read_singleton _ key).trans (index_added hhash (equal_self hhash hkey) hnew x)
  | inside hread hread' h _ ih =>
    rw [List.cons_append, read, hread']
    exact ih

end Storing

end MissionScript.Value
