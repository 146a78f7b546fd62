import MissionScript.Proofs.Run.Bookkeeping

/-!
# How deep the values of variables are nested

Every value that an expression gives is refused if it is nested too deeply, and most of what a
variable can get is such a value. But an assignment to an item, and `append`, put a checked value
into one that is in a variable already, and what comes of it is not checked. So a variable can be
nested more deeply than is allowed, by one level for each subscript of the object and one for the
item (`depth_after`), and it gets there (`depth_after_exceeds`).
-/

namespace MissionScript

open Value (Yields)

/-- How many levels below a variable the change puts a value in. -/
def Change.level : Change → Nat
  | .assign (.name _) _ => 0
  | .assign (.item object _) _ => object.subscripts + 1
  | .method object name => if name = "append" then object.subscripts + 1 else 0

/-- The lowest level at which a script puts a value into another one. -/
def lowestLevel (ss : List Stmt) : Nat := ((changesOfStmts ss).map Change.level).max?.getD 0

theorem level_le_lowestLevel {ss : List Stmt} {change : Change}
    (h : change ∈ changesOfStmts ss) : change.level ≤ lowestLevel ss :=
  List.le_max?_getD_of_mem (List.mem_map_of_mem h)

namespace Ledger

/-- Values are put in no lower than `r` levels down, and no variable is nested deeper than that lets
it be. -/
def nesting (r : Nat) : Ledger where
  Note := Unit
  Allows change := change.level ≤ r
  Holds _ _ m := m.env.All fun v => v.depth ≤ deepestValue + r

theorem stored_depth_le {op : AssignOp} {key v container : Value} {n : Nat}
    (hcontainer : container.depth ≤ n) (hv : v.depth + 1 ≤ n) :
    Yields (fun x => x.depth ≤ n) (Eval.stored op key v container) := by
  unfold Eval.stored
  dsimp only
  split
  · refine Value.yields_bind (Value.yields_self (.ok v)) fun x hx => ?_
    cases hx
    exact (Value.setIndex_depth_le container key v).mono fun c hc => hc.trans (by omega)
  · refine Value.yields_bind (Value.yields_self _) fun u hu => ?_
    refine Value.yields_bind (Value.yields_self _) fun x hx => ?_
    refine (Value.setIndex_cases container key x).mono fun c hc => ?_
    rcases hc with ⟨u', hu', hfilled⟩ | ⟨entries, rfl, -, hmissing, -⟩
    · rw [hu] at hu'
      cases hu'
      have hu := hfilled.depth_lt
      have hx := Value.binary_mixes (Value.depth_mixes (n - 1)) _ (by omega) (by omega) x hx
      exact hfilled.depth_le hcontainer (by omega)
    · exact absurd hu (Value.index_ne_ok hmissing u)

theorem nesting_lawful (r : Nat) : (nesting r).Lawful where
  less h _ := h
  same {g c m m'} h henv _ := by
    change m'.env.All _
    rw [henv]
    exact h
  charge _ h := h
  define name hv h := h.define (hv.depth.trans (Nat.le_add_right _ _)) name
  method {g c m object name args place v a} hallows hargs hpath hv hr h := by
    have hlevel : name = "append" → place.path.length + 1 ≤ r := by
      intro hname
      have hlevel : (if name = "append" then object.subscripts + 1 else 0) ≤ r := hallows
      rw [if_pos hname] at hlevel
      omega
    refine h.set (Value.changeAt_depth_le (fun u hu b hb => ?_) (h.get? hv) a hr) _
    have hbound := (Value.callMethod_remade u name args b hb).depth_le
      (n := deepestValue + r - place.path.length) (by omega) fun hname x hx => by
        have := (hargs x hx).depth
        have := hlevel hname
        omega
    omega
  store {g c m object index op key v place w a} hallows hkey hv hpath hw hr h := by
    have hlevel : place.path.length + 1 ≤ r := hpath ▸ hallows
    refine h.set (Value.changeAt_depth_le (fun u hu => ?_) (h.get? hw) a hr) _
    refine Value.yields_bind (stored_depth_le (n := deepestValue + r - place.path.length)
      (by omega) ?_) fun x hx => Value.yields_ok ?_
    · have := hv.depth
      omega
    · dsimp only
      omega
  hold {g c m ident op b current} _ _ hcurrent h :=
    ⟨g, h, id, fun hv hx h' => h'.define (Value.binary_mixes (Value.depth_mixes _) b
      (h.get? hcurrent) (hv.depth.trans (Nat.le_add_right _ _)) _ hx) _⟩
  call f hargs h :=
    ⟨(), h.enter f fun v hv => (hargs v hv).depth.trans (Nat.le_add_right _ _), fun h => h.pop⟩

end Ledger

/-- After any statements, each of which may have failed, no variable is nested deeper than the limit
and the lowest level at which the script puts values into others. -/
theorem depth_after (level : Level) (limits : Limits) (commands : List Command) (ss : List Stmt) :
    ((Machine.start level limits commands).after limits ss).env.All fun v =>
      v.depth ≤ deepestValue + lowestLevel ss :=
  (Ledger.held_after_start (Ledger.nesting_lawful (lowestLevel ss)) (g := ())
    (Environment.all_empty) fun _ h => level_le_lowestLevel h).holds

/-- A list that is nested as deeply as is allowed is put into another list. -/
theorem depth_after_exceeds :
    let num (n : Int64) : Expr := .int n default
    let var (s : String) : Expr := .name s default
    let bind (s : String) (e : Expr) : Stmt := .assign (.name ⟨s, default⟩) .set e default
    let script : List Stmt :=
      [bind "x" (.list [num 0] default),
        .forRange ⟨"i", default⟩ none (num 63) none
          ⟨[bind "x" (.list [var "x"] default)], default⟩ default,
        bind "y" (.list [num 0] default),
        .assign (.item (var "y") (num 0)) .set (var "x") default]
    let env := ((Machine.start default .standard Command.standard).after .standard script).env
    (env.get? "x").map Value.depth = some deepestValue
      ∧ (env.get? "y").map Value.depth = some (deepestValue + 1) := by
  decide +kernel

end MissionScript
