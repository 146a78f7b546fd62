import MissionScript.Proofs.Run.Bookkeeping

/-!
# The keys of dicts

A dict is a list of entries, and nothing in its type keeps a list or a dict from being a key, or a
key from coming twice. That this does not happen is what looking up, comparing and counting entries
rely on. All operations keep it (`Value.WellKeyed`), and a ledger that says nothing more carries it
through a run: after any statements, each of which may have failed, it is so for all dicts inside of
the values of variables, however deep (`dicts_after`).
-/

namespace MissionScript

namespace Value

/-- The first value is the second one or somewhere inside of it. -/
inductive Within : Value → Value → Prop
  | self (v : Value) : Within v v
  | item {u v : Value} {items : List Value} (hv : v ∈ items) (h : Within u v) :
    Within u (list items)
  | key {u : Value} {e : Value × Value} {entries : List (Value × Value)} (he : e ∈ entries)
    (h : Within u e.1) : Within u (dict entries)
  | entry {u : Value} {e : Value × Value} {entries : List (Value × Value)} (he : e ∈ entries)
    (h : Within u e.2) : Within u (dict entries)

theorem WellKeyed.within {u v : Value} (hv : WellKeyed v) (h : Within u v) : WellKeyed u := by
  induction h with
  | self => exact hv
  | item hmem _ ih => exact ih (wellKeyed_list.mp hv _ hmem)
  | key hmem _ ih =>
    obtain ⟨hkeys, -⟩ := wellKeyed_dict.mp hv
    exact ih (.scalar (hkeys.scalar _ (List.mem_map_of_mem hmem)))
  | entry hmem _ ih =>
    obtain ⟨-, hvalues⟩ := wellKeyed_dict.mp hv
    exact ih (hvalues _ hmem)

/-- Keys that are distinct one after the other are distinct at any two positions. -/
theorem Distinct.equal_getElem {keys : List Value} (h : Distinct keys) {i j : Nat} (hij : i < j)
    (hj : j < keys.length) : keys[i].equal keys[j] = false :=
  List.pairwise_iff_getElem.mp h.unequal i j (hij.trans hj) hj hij

end Value

open Value (Within)

/-- After any statements, each of which may have failed, every dict in a variable has keys that may
be keys, and no two of them are equal. -/
theorem dicts_after (level : Level) (limits : Limits) (commands : List Command) (ss : List Stmt) :
    ((Machine.start level limits commands).after limits ss).env.All fun v =>
      ∀ entries : List (Value × Value), Within (.dict entries) v →
        (∀ e ∈ entries, e.1.isHashable = true)
          ∧ ∀ (i j : Nat) (hij : i < j) (hj : j < entries.length),
            (entries[i].1).equal entries[j].1 = false := by
  have hheld : Ledger.plain.Held () 0 ((Machine.start level limits commands).after limits ss) :=
    Ledger.held_after_start Ledger.plain_lawful trivial fun _ _ => trivial
  refine hheld.keyed.mono fun v hv entries hwithin => ?_
  obtain ⟨hkeys, -⟩ := Value.wellKeyed_dict.mp (hv.within hwithin)
  refine ⟨fun e he => hkeys.scalar _ (List.mem_map_of_mem he), fun i j hij hj => ?_⟩
  have hunequal := hkeys.equal_getElem hij (by rwa [List.length_map])
  rwa [List.getElem_map, List.getElem_map] at hunequal

end MissionScript
