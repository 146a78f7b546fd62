import MissionScript.Proofs.Value.Mixture
import MissionScript.Run.Command

/-!
# Well-keyed values

A value is well keyed if in every dict within it the keys are scalars and no key equals a later one.
All that can be done with well-keyed values gives well-keyed values again: operators, subscripts,
methods and the commands that compute.
-/

namespace MissionScript

namespace Value

/-- Keys that a dict may have at once. -/
structure Distinct (keys : List Value) : Prop where
  scalar : ∀ k ∈ keys, k.isHashable = true
  unequal : keys.Pairwise fun k k' => k.equal k' = false

/-- All dicts in the value have distinct keys. -/
inductive WellKeyed : Value → Prop
  | scalar {v : Value} (h : v.isHashable = true) : WellKeyed v
  | list {items : List Value} (h : ∀ v ∈ items, WellKeyed v) : WellKeyed (list items)
  | dict {entries : List (Value × Value)} (hkeys : Distinct (entries.map (·.1)))
      (h : ∀ e ∈ entries, WellKeyed e.2) : WellKeyed (dict entries)

theorem wellKeyed_list {items : List Value} :
    WellKeyed (list items) ↔ ∀ v ∈ items, WellKeyed v := by
  refine ⟨fun h => ?_, .list⟩
  cases h with
  | scalar h => cases h
  | list h => exact h

theorem wellKeyed_dict {entries : List (Value × Value)} :
    WellKeyed (dict entries) ↔
      Distinct (entries.map (·.1)) ∧ ∀ e ∈ entries, WellKeyed e.2 := by
  refine ⟨fun h => ?_, fun h => .dict h.1 h.2⟩
  cases h with
  | scalar h => cases h
  | dict hkeys h => exact ⟨hkeys, h⟩

theorem wellKeyed_mixes : Mixes WellKeyed where
  scalar := .scalar
  list has hbs h := .list fun v hv =>
    (h v hv).elim (wellKeyed_list.mp has v) (wellKeyed_list.mp hbs v)

section Containers

/-- To refill a slot leaves the keys as they are. -/
theorem Refilled.wellKeyed {u x v v' : Value} (h : Refilled u x v v') (hv : WellKeyed v) :
    WellKeyed u ∧ (WellKeyed x → WellKeyed v') := by
  cases h with
  | item before after =>
    have hitems := wellKeyed_list.mp hv
    simp only [List.forall_mem_append, List.forall_mem_cons] at hitems
    refine ⟨hitems.2.1, fun hx => wellKeyed_list.mpr ?_⟩
    simp only [List.forall_mem_append, List.forall_mem_cons]
    exact ⟨hitems.1, hx, hitems.2.2⟩
  | entry before key after =>
    obtain ⟨hkeys, hvalues⟩ := wellKeyed_dict.mp hv
    simp only [List.forall_mem_append, List.forall_mem_cons] at hvalues
    refine ⟨hvalues.2.1, fun hx => wellKeyed_dict.mpr ⟨?_, ?_⟩⟩
    · rw [List.map_append, List.map_cons] at hkeys ⊢
      exact hkeys
    · simp only [List.forall_mem_append, List.forall_mem_cons]
      exact ⟨hvalues.1, hx, hvalues.2.2⟩

theorem Distinct.concat {keys : List Value} (h : Distinct keys) {key : Value}
    (hkey : key.isHashable = true) (hnew : ∀ k ∈ keys, k.equal key = false) :
    Distinct (keys ++ [key]) := by
  refine ⟨?_, List.pairwise_append.mpr ⟨h.unequal, List.pairwise_singleton _ _, ?_⟩⟩
  · rw [List.forall_mem_append, List.forall_mem_singleton]
    exact ⟨h.scalar, hkey⟩
  · intro k hk k' hk'
    rw [List.mem_singleton.mp hk']
    exact hnew k hk

theorem setIndex_wellKeyed {v x : Value} (hv : WellKeyed v) (hx : WellKeyed x) (key : Value) :
    Yields WellKeyed (v.setIndex key x) := by
  refine (setIndex_cases v key x).mono fun v' h => ?_
  rcases h with ⟨u, -, h⟩ | ⟨entries, rfl, hkey, hnew, rfl⟩
  · exact (h.wellKeyed hv).2 hx
  · obtain ⟨hkeys, hvalues⟩ := wellKeyed_dict.mp hv
    refine wellKeyed_dict.mpr ⟨?_, ?_⟩
    · rw [List.map_append]
      exact hkeys.concat hkey (List.forall_mem_map.mpr hnew)
    · rw [List.forall_mem_append, List.forall_mem_singleton]
      exact ⟨hvalues, hx⟩

theorem getD_wellKeyed {o : Option Value} (h : ∀ v, o = some v → WellKeyed v) :
    WellKeyed (o.getD none) := by
  cases o with
  | none => exact .scalar rfl
  | some v => exact h v rfl

theorem lookup?_wellKeyed {entries : List (Value × Value)}
    (h : ∀ e ∈ entries, WellKeyed e.2) {key v : Value} (hv : lookup? entries key = some v) :
    WellKeyed v := by
  obtain ⟨e, he, rfl⟩ := Option.map_eq_some_iff.mp hv
  exact h e (List.mem_of_find?_eq_some he)

theorem index_wellKeyed {v : Value} (hv : WellKeyed v) (key : Value) :
    Yields WellKeyed (v.index key) := by
  unfold index
  split
  · refine yields_bind (yields_true _) fun i _ => yields_ok (getD_wellKeyed fun u hu => ?_)
    exact wellKeyed_list.mp hv u (List.mem_of_getElem? hu)
  · exact yields_bind (yields_true _) fun _ _ => yields_ok (.scalar rfl)
  · refine yields_bind (yields_true _) fun _ _ => ?_
    split
    · exact yields_ok (lookup?_wellKeyed (wellKeyed_dict.mp hv).2 ‹_›)
    · exact yields_error _
  · exact yields_error _

theorem items_wellKeyed {v : Value} (hv : WellKeyed v) :
    Yields (fun vs => ∀ u ∈ vs, WellKeyed u) v.items := by
  unfold items
  split
  · exact yields_ok (wellKeyed_list.mp hv)
  · exact yields_ok (List.forall_mem_map.mpr fun _ _ => .scalar rfl)
  · exact yields_ok fun k hk => .scalar ((wellKeyed_dict.mp hv).1.scalar k hk)
  · exact yields_error _

end Containers

section Methods

theorem first_wellKeyed {args : List Value} (h : ∀ v ∈ args, WellKeyed v) :
    WellKeyed (first args) :=
  getD_wellKeyed fun v hv => h v (List.mem_of_mem_head? hv)

theorem pop_wellKeyed {items : List Value} (h : ∀ v ∈ items, WellKeyed v) (args : List Value) :
    Yields (fun r => WellKeyed r.1 ∧ ∀ v ∈ r.2, WellKeyed v) (pop items args) := by
  have hpop (i : Int64) :
      Yields (fun r => WellKeyed r.1 ∧ ∀ v ∈ r.2, WellKeyed v) (popAt items i) := by
    unfold popAt
    split
    · refine yields_ok ⟨getD_wellKeyed fun v hv => h v (List.mem_of_getElem? hv), fun v hv => ?_⟩
      exact h v (List.mem_of_mem_eraseIdx hv)
    · exact yields_error _
  refine yields_ite (yields_error _) ?_
  split
  · exact hpop _
  · exact hpop _
  · exact yields_error _

theorem listMethod_wellKeyed {items : List Value} (h : ∀ v ∈ items, WellKeyed v) (method : String)
    {args : List Value} (hargs : ∀ v ∈ args, WellKeyed v) :
    Yields (fun r => WellKeyed r.1 ∧ ∀ v ∈ r.2, WellKeyed v) (listMethod items method args) := by
  unfold listMethod
  split
  · refine yields_bind (yields_true _) fun _ _ => yields_ok ⟨.scalar rfl, ?_⟩
    rw [List.forall_mem_append, List.forall_mem_singleton]
    exact ⟨h, first_wellKeyed hargs⟩
  · exact yields_bind (yields_true _) fun _ _ => pop_wellKeyed h args
  · refine yields_bind (yields_true _) fun _ _ => ?_
    dsimp only
    split
    · exact yields_ok ⟨.scalar rfl, h⟩
    · exact yields_error _
  · exact yields_bind (yields_true _) fun _ _ => yields_ok ⟨.scalar rfl, h⟩
  · exact yields_error _

theorem strMethod_wellKeyed (s method : String) (args : List Value) :
    Yields WellKeyed (strMethod s method args) := by
  unfold strMethod
  split
  · exact yields_bind (yields_true _) fun _ _ => yields_ok (.scalar rfl)
  · exact yields_bind (yields_true _) fun _ _ => yields_ok (.scalar rfl)
  · refine yields_bind (yields_true _) fun _ _ => ?_
    split
    · exact yields_ok (.scalar rfl)
    · exact yields_error _
  · exact yields_error _

theorem dictMethod_wellKeyed {entries : List (Value × Value)} (h : WellKeyed (dict entries))
    (method : String) {args : List Value} (hargs : ∀ v ∈ args, WellKeyed v) :
    Yields WellKeyed (dictMethod entries method args) := by
  obtain ⟨hkeys, hvalues⟩ := wellKeyed_dict.mp h
  unfold dictMethod
  split
  · exact yields_bind (yields_true _) fun _ _ =>
      yields_ok (.list fun k hk => .scalar (hkeys.scalar k hk))
  · exact yields_bind (yields_true _) fun _ _ =>
      yields_ok (.list (List.forall_mem_map.mpr hvalues))
  · refine yields_bind (yields_true _) fun _ _ => yields_bind (yields_true _) fun _ _ => ?_
    refine yields_ok ?_
    rcases hv : lookup? entries (first args) with _ | v
    · exact first_wellKeyed fun v hv => hargs v (List.mem_of_mem_tail hv)
    · exact lookup?_wellKeyed hvalues hv
  · exact yields_error _

theorem callMethod_wellKeyed {v : Value} (hv : WellKeyed v) (method : String) {args : List Value}
    (hargs : ∀ v ∈ args, WellKeyed v) :
    Yields (fun r => WellKeyed r.1 ∧ WellKeyed r.2) (v.callMethod method args) := by
  unfold callMethod
  split
  · exact yields_bind (listMethod_wellKeyed (wellKeyed_list.mp hv) method hargs) fun r hr =>
      yields_ok ⟨hr.1, .list hr.2⟩
  · exact yields_bind (strMethod_wellKeyed _ _ _) fun _ hr => yields_ok ⟨hr, hv⟩
  · exact yields_bind (dictMethod_wellKeyed hv method hargs) fun _ hr => yields_ok ⟨hr, hv⟩
  · exact yields_error _

/-- A change that keeps values well keyed does so inside of a value too. -/
theorem changeAt_wellKeyed {α : Type} {F : α → Prop} {change : Value → Result (α × Value)}
    (h : ∀ v, WellKeyed v → Yields (fun r => F r.1 ∧ WellKeyed r.2) (change v))
    (path : List Value) {v : Value} (hv : WellKeyed v) :
    Yields (fun r => F r.1 ∧ WellKeyed r.2) (changeAt change path v) := by
  refine (changeAt_yields (R := fun _ v r => WellKeyed v → F r.1 ∧ WellKeyed r.2)
    (fun u r hr hu => h u hu r hr) ?_ path v).mono fun r hr => hr hv
  intro _ _ _ _ _ _ hfilled hr hv
  obtain ⟨hu, hx⟩ := hfilled.wellKeyed hv
  exact ⟨(hr hu).1, hx (hr hu).2⟩

end Methods

end Value

namespace Command

open Value

theorem magnitude_scalar (v : Value) : Yields (fun v => v.isHashable = true) (magnitude v) := by
  unfold magnitude
  split
  · exact ofInt_scalar _
  · exact yields_ok rfl
  · exact yields_error _

theorem total_wellKeyed : ∀ {vs : List Value} {sofar : Value}, (∀ v ∈ vs, WellKeyed v) →
    WellKeyed sofar → Yields WellKeyed (total sofar vs)
  | [], _, _, h => yields_ok h
  | v :: vs, _, hvs, h => by
    rw [List.forall_mem_cons] at hvs
    exact yields_bind (binary_mixes wellKeyed_mixes .add h hvs.1) fun _ h => total_wellKeyed hvs.2 h

theorem extremeFrom_mem (want : Ordering) (op : BinOp) : ∀ (vs : List Value) (best : Value),
    Yields (fun v => v ∈ best :: vs) (extremeFrom want op best vs)
  | [], best => yields_ok List.mem_cons_self
  | v :: vs, best => by
    unfold extremeFrom
    split
    · exact yields_error _
    · refine (extremeFrom_mem want op vs _).mono fun x hx => ?_
      rcases List.mem_cons.mp hx with rfl | hx
      · split
        · exact List.mem_cons_of_mem _ List.mem_cons_self
        · exact List.mem_cons_self
      · exact List.mem_cons_of_mem _ (List.mem_cons_of_mem _ hx)

theorem extreme_wellKeyed (name : String) (want : Ordering) (op : BinOp) {args : List Value}
    (h : ∀ v ∈ args, WellKeyed v) : Yields WellKeyed (extreme name want op args) := by
  have hfrom {v : Value} {vs : List Value} (hvs : ∀ u ∈ v :: vs, WellKeyed u) :
      Yields WellKeyed (extremeFrom want op v vs) :=
    (extremeFrom_mem want op vs v).mono hvs
  unfold extreme
  dsimp only
  split
  · refine yields_bind (items_wellKeyed (h _ List.mem_cons_self)) fun vs hvs => ?_
    rcases vs with _ | ⟨v, vs⟩
    · exact yields_error _
    · exact hfrom hvs
  · rcases args with _ | ⟨v, vs⟩
    · exact yields_error _
    · exact hfrom h

theorem length_scalar (v : Value) : Yields (fun v => v.isHashable = true) (length v) := by
  unfold length
  split
  · exact yields_ok rfl
  · exact yields_ok rfl
  · exact yields_ok rfl
  · exact yields_error _

theorem toInteger_scalar (args : List Value) :
    Yields (fun v => v.isHashable = true) (toInteger args) := by
  unfold toInteger
  split
  · exact yields_ok rfl
  · exact yields_ok rfl
  · exact yields_ok rfl
  · unfold ofFloat
    split
    · exact ofInt_scalar _
    · exact yields_ite (yields_error _) (yields_error _)
  · unfold ofText
    dsimp only
    split
    · exact yields_error _
    · exact yields_ite (yields_ok rfl) (yields_error _)
  · exact yields_error _

theorem take_wellKeyed (r : IntRange) (n : Nat) : WellKeyed (.list (r.take n)) :=
  .list (List.forall_mem_map.mpr fun _ _ => .scalar rfl)

end Command

end MissionScript
