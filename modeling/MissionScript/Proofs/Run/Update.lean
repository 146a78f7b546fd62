import MissionScript.Proofs.Run.Congruence
import MissionScript.Proofs.Run.Variables
import MissionScript.Proofs.Value.Update

/-!
# Items of variables

An assignment to an item changes the value of one variable in one scope (`Rebound`), and in this
value it stores under one key at the end of a path; so what has been assigned is what the same
subscripts read afterwards, and all else is as it was (`item_update_lawful`).
-/

namespace MissionScript

open Value (Denotes Refilled Stored)

theorem Bindings.exists_of_get? {bs : Bindings} {name : String} {v : Value}
    (h : bs.get? name = some v) : ∃ before after, bs = before ++ (name, v) :: after
      ∧ ∀ w, bs.insert name w = before ++ (name, w) :: after := by
  induction bs with
  | nil => cases h
  | cons b bs ih =>
    rw [get?_cons] at h
    split at h
    · rename_i hb
      obtain rfl := Option.some.inj h
      obtain rfl := hb
      exact ⟨[], bs, rfl, fun w => if_pos rfl⟩
    · rename_i hb
      obtain ⟨before, after, hbs, hinsert⟩ := ih h
      refine ⟨b :: before, after, congrArg (b :: ·) hbs, fun w => ?_⟩
      rw [insert, if_neg hb, hinsert]
      rfl

namespace Environment

/-- The second environment is the first with `w` in the place of `v`, as the value of one variable
in one scope. -/
inductive Rebound (name : String) (v w : Value) : Environment → Environment → Prop
  | globally (before after : Bindings) (locals : List Scope) :
      Rebound name v w ⟨before ++ (name, v) :: after, locals⟩
        ⟨before ++ (name, w) :: after, locals⟩
  | locally (globals before after : Bindings) (parent : Nat) (inner outer : List Scope) :
      Rebound name v w ⟨globals, inner ++ ⟨before ++ (name, v) :: after, parent⟩ :: outer⟩
        ⟨globals, inner ++ ⟨before ++ (name, w) :: after, parent⟩ :: outer⟩

variable {name : String} {v : Value}

theorem Rebound.inside {globals globals' : Bindings} {locals locals' : List Scope} {w : Value}
    (h : Rebound name v w ⟨globals, locals⟩ ⟨globals', locals'⟩) (s : Scope) :
    Rebound name v w ⟨globals, s :: locals⟩ ⟨globals', s :: locals'⟩ := by
  cases h with
  | globally before after => exact .globally before after _
  | locally _ before after parent inner outer =>
    exact .locally _ before after parent (s :: inner) outer

theorem setFrom_rebound {globals : Bindings} (w : Value) :
    ∀ {locals : List Scope} {i : Nat}, getFrom globals name locals i = some v →
      Rebound name v w ⟨globals, locals⟩
          ⟨(setFrom name w globals locals i).1, (setFrom name w globals locals i).2⟩
        ∧ getFrom (setFrom name w globals locals i).1 name (setFrom name w globals locals i).2 i
          = some w
  | locals, 0, h => by
    unfold getFrom at h
    obtain ⟨before, after, hglobals, hinsert⟩ := Bindings.exists_of_get? h
    have hget := Bindings.get?_insert globals name w name
    rw [if_pos rfl] at hget
    unfold setFrom getFrom
    rw [if_pos (Bindings.has_eq_true h)]
    refine ⟨?_, hget⟩
    rw [hinsert, hglobals]
    exact .globally before after locals
  | [], _ + 1, h => by cases h
  | s :: rest, i + 1, h => by
    unfold getFrom at h
    unfold setFrom
    split at h
    · rename_i hi
      rw [if_pos hi]
      rcases hs : s.bindings.get? name with _ | u <;> rw [hs] at h
      · have hlength := (setFrom_cases (w := w) h).2
        obtain ⟨hrebound, hget⟩ := setFrom_rebound w h
        rw [Bindings.has_eq_false hs, if_neg Bool.false_ne_true]
        refine ⟨hrebound.inside s, ?_⟩
        unfold getFrom
        rw [if_pos (hi.trans hlength.symm), hs]
        exact hget
      · obtain rfl := Option.some.inj h
        obtain ⟨before, after, hbindings, hinsert⟩ := Bindings.exists_of_get? hs
        have hget := Bindings.get?_insert s.bindings name w name
        rw [if_pos rfl] at hget
        rw [if_pos (Bindings.has_eq_true hs)]
        refine ⟨?_, ?_⟩
        · obtain ⟨bindings, parent⟩ := s
          dsimp only at hbindings hinsert ⊢
          rw [hinsert, hbindings]
          exact .locally globals before after parent [] rest
        · unfold getFrom
          rw [if_pos hi, hget]
    · rename_i hi
      rw [if_neg hi]
      have hlength := (setFrom_cases (w := w) h).2
      obtain ⟨hrebound, hget⟩ := setFrom_rebound w h
      refine ⟨hrebound.inside s, ?_⟩
      unfold getFrom
      rw [if_neg fun h => hi (h.trans hlength)]
      exact hget

/-- To give a variable a new value changes the one variable that the name means. -/
theorem set_rebound {env : Environment} (h : env.get? name = some v) (w : Value) :
    Rebound name v w env (env.set name w) ∧ (env.set name w).get? name = some w := by
  obtain ⟨hrebound, hget⟩ := setFrom_rebound w h
  refine ⟨hrebound, ?_⟩
  unfold get?
  rw [(set_cases h w).2]
  exact hget

end Environment

namespace Eval

/-- What is stored at a place is read there afterwards. -/
theorem changePlace_stored {m m' : Machine} {place : Place} {key x : Value}
    (h : changePlace place (fun c => do return ((), ← stored .set key x c)) m = .ok () m') :
    ∃ v v', m.env.get? place.root = some v ∧ m'.env.get? place.root = some v'
      ∧ Stored key x place.path v v' ∧ Environment.Rebound place.root v v' m.env m'.env := by
  rw [changePlace_eq] at h
  rcases hget : m.env.get? place.root with _ | v <;> rw [hget] at h
  · cases h
  · dsimp only at h
    rcases hr : v.changeAt (fun c => do return ((), ← stored .set key x c)) place.path
      with e | ⟨u, v'⟩ <;> rw [hr] at h <;> cases h
    obtain ⟨hrebound, hget'⟩ := Environment.set_rebound hget v'
    exact ⟨v, v', rfl, hget', Value.stored_of_changeAt hr, hrebound⟩

/-- To store a value at a place and under a key is a lawful update: the same subscripts read the
value, each container on the way keeps all other items and entries in their order, and no other
variable changes. In a list a value can be stored under the indices with which one can be read, and
each of them means the same item when it is read, changed, stored and popped. -/
theorem item_update_lawful :
    (∀ (m m' : Machine) (root : String) (path : List Value) (key x : Value), key.kind ≠ .float →
      changePlace ⟨root, path⟩ (fun c => do return ((), ← stored .set key x c)) m = .ok () m' →
        ∃ v v', m.env.get? root = some v ∧ m'.env.get? root = some v'
          ∧ v'.read (path ++ [key]) = .ok x
          ∧ Stored key x path v v'
          ∧ Environment.Rebound root v v' m.env m'.env)
      ∧ (∀ (items : List Value) (key x : Value),
        ((∃ v', (Value.list items).setIndex key x = .ok v')
            ↔ ∃ u, (Value.list items).index key = .ok u)
          ∧ ((∃ u, (Value.list items).index key = .ok u)
            ↔ ∃ i : Int64, key = .int i ∧ -(items.length : Int) ≤ i.toInt
                ∧ i.toInt < items.length))
      ∧ ∀ (items : List Value) (i : Int64) (n : Nat) (x : Value), Denotes i items.length n →
        ∃ u, items[n]? = some u
          ∧ (Value.list items).index (.int i) = .ok u
          ∧ (Value.list items).setIndex (.int i) x = .ok (.list (items.set n x))
          ∧ (∀ {α : Type} (change : Value → Value.Result (α × Value)),
              (Value.list items).changeAt change [.int i] =
                (change u).map fun r => (r.1, .list (items.set n r.2)))
          ∧ (Value.list items).callMethod "pop" [.int i] = .ok (u, .list (items.eraseIdx n)) := by
  refine ⟨fun m m' root path key x hkey h => ?_, fun items key x => ⟨?_, ?_⟩,
    fun items i n x h => Value.list_slots_agree h⟩
  · obtain ⟨v, v', hget, hget', hstored, hrebound⟩ := changePlace_stored h
    exact ⟨v, v', hget, hget', hstored.read_eq hkey, hstored, hrebound⟩
  · rw [Value.list_setIndex_isOk_iff, Value.list_index_isOk_iff]
  · exact Value.list_index_isOk_iff

/-- A new entry of the last dict in a list. -/
theorem item_update_lawful_new :
    let v : Value := .list [.none, .dict [(.int 1, .none)]]
    let m : Machine :=
      { Machine.start default Limits.standard Command.standard with env := ⟨[("x", v)], []⟩ }
    (Value.int 2).kind ≠ .float ∧ ∃ m',
      changePlace ⟨"x", [.int (-1)]⟩
          (fun c => do return ((), ← stored .set (.int 2) (.str "b") c)) m = .ok () m'
        ∧ ∃ v v', m.env.get? "x" = some v ∧ m'.env.get? "x" = some v'
          ∧ v'.read [.int (-1), .int 2] = .ok (.str "b")
          ∧ Stored (.int 2) (.str "b") [.int (-1)] v v'
          ∧ Environment.Rebound "x" v v' m.env m'.env := by
  intro v m
  have hkey : (Value.int 2).kind ≠ .float := Kind.noConfusion
  refine ⟨hkey, _, rfl, item_update_lawful.1 m _ "x" [.int (-1)] (.int 2) (.str "b") hkey rfl⟩

end Eval

end MissionScript
