import MissionScript.Proofs.Run.Quiet
import MissionScript.Proofs.Value.Path

/-!
# Methods called at a place

If the object of a method is a variable with subscripts, the method is called on what is found at
that place in the variable, and not on the object's value. The two ways to get to the receiver agree
where every subscript is one of a list or a dict. A text can be subscripted when it is read, but it
has no places; so the call of a method fails where the object subscripts a text, whatever the method
does with the object's value (`method_at_place_iff`, `method_in_text_fails`).
-/

namespace MissionScript

open Value (WellKeyed)

namespace Value

theorem getD_depth_le {o : Option Value} {n : Nat} (h : ∀ v, o = some v → v.depth ≤ n) :
    (o.getD none).depth ≤ n := by
  cases o with
  | none => exact Nat.zero_le n
  | some v => exact h v rfl

theorem first_depth_le {args : List Value} {n : Nat} (h : ∀ a ∈ args, a.depth ≤ n) :
    (first args).depth ≤ n :=
  getD_depth_le fun a ha => h a (List.mem_of_mem_head? ha)

theorem listMethod_depth_le {items : List Value} {n : Nat} (h : ∀ v ∈ items, v.depth ≤ n)
    (method : String) (args : List Value) :
    Yields (fun r => r.1.depth ≤ n) (listMethod items method args) := by
  have hpop (i : Int64) : Yields (fun r => r.1.depth ≤ n) (popAt items i) := by
    unfold popAt
    split
    · exact yields_ok (getD_depth_le fun v hv => h v (List.mem_of_getElem? hv))
    · exact yields_error _
  unfold listMethod
  split
  · exact yields_bind (yields_true _) fun _ _ => yields_ok (Nat.zero_le n)
  · refine yields_bind (yields_true _) fun _ _ => yields_ite (yields_error _) ?_
    split
    · exact hpop _
    · exact hpop _
    · exact yields_error _
  · refine yields_bind (yields_true _) fun _ _ => ?_
    dsimp only
    split
    · exact yields_ok (Nat.zero_le n)
    · exact yields_error _
  · exact yields_bind (yields_true _) fun _ _ => yields_ok (Nat.zero_le n)
  · exact yields_error _

theorem strMethod_depth_eq (s method : String) (args : List Value) :
    Yields (fun v => v.depth = 0) (strMethod s method args) := by
  unfold strMethod
  split
  · exact yields_bind (yields_true _) fun _ _ => yields_ok rfl
  · exact yields_bind (yields_true _) fun _ _ => yields_ok rfl
  · refine yields_bind (yields_true _) fun _ _ => ?_
    split
    · exact yields_ok rfl
    · exact yields_error _
  · exact yields_error _

theorem dictMethod_depth_le {entries : List (Value × Value)} {n : Nat}
    (hkeyed : WellKeyed (dict entries)) (h : (dict entries).depth ≤ n) (method : String)
    {args : List Value} (hargs : ∀ a ∈ args, a.depth ≤ n) :
    Yields (fun v => v.depth ≤ n) (dictMethod entries method args) := by
  obtain ⟨hn, hvalues⟩ := depth_dict_le.mp h
  unfold dictMethod
  split
  · refine yields_bind (yields_true _) fun _ _ => yields_ok (depth_list_le.mpr ⟨hn, fun k hk => ?_⟩)
    rw [depth_eq_zero ((wellKeyed_dict.mp hkeyed).1.scalar k hk)]
    exact hn
  · exact yields_bind (yields_true _) fun _ _ =>
      yields_ok (depth_list_le.mpr ⟨hn, List.forall_mem_map.mpr hvalues⟩)
  · refine yields_bind (yields_true _) fun _ _ => yields_bind (yields_true _) fun _ _ => ?_
    refine yields_ok ?_
    rcases hv : lookup? entries (first args) with _ | v
    · exact first_depth_le fun a ha => hargs a (List.mem_of_mem_tail ha)
    · obtain ⟨e, he, rfl⟩ := Option.map_eq_some_iff.mp hv
      have := hvalues e (List.mem_of_find?_eq_some he)
      exact Nat.le_of_succ_le this
  · exact yields_error _

/-- No method gives a value that is nested more deeply than its receiver and its arguments. -/
theorem callMethod_depth_le {v : Value} {n : Nat} (hkeyed : WellKeyed v) (hv : v.depth ≤ n)
    (method : String) {args : List Value} (hargs : ∀ a ∈ args, a.depth ≤ n) :
    Yields (fun r => r.1.depth ≤ n) (v.callMethod method args) := by
  unfold callMethod
  split
  · rename_i items
    have hitems : ∀ u ∈ items, u.depth ≤ n := fun u hu =>
      Nat.le_of_succ_le ((depth_list_le.mp hv).2 u hu)
    exact yields_bind (listMethod_depth_le hitems method args) fun r hr => yields_ok hr
  · exact yields_bind (strMethod_depth_eq _ _ _) fun r hr => yields_ok (hr ▸ Nat.zero_le n)
  · exact yields_bind (dictMethod_depth_le hkeyed hv method hargs) fun r hr => yields_ok hr
  · exact yields_error _

/-- A method of a text never complains about a subscript. -/
theorem strMethod_ne_error (s method : String) (args : List Value) (kind : Kind) :
    strMethod s method args ≠ .error (.notSubscriptable kind) := by
  have hcheck (arity : Arity) (callee : String) (f : Unit → Result Value)
      (hf : ∀ u, f u ≠ .error (.notSubscriptable kind)) :
      (arity.check callee args.length >>= f) ≠ .error (.notSubscriptable kind) := by
    unfold Arity.check
    split
    · exact hf ()
    · exact fun h => by cases h
  unfold strMethod
  split
  · exact hcheck _ _ _ fun _ h => by cases h
  · exact hcheck _ _ _ fun _ h => by cases h
  · refine hcheck _ _ _ fun _ => ?_
    split <;> exact fun h => by cases h
  · exact fun h => by cases h

theorem kind_eq_str {v : Value} (h : v.kind = .str) : ∃ s, v = str s := by
  cases v with
  | str s => exact ⟨s, rfl⟩
  | none | bool _ | int _ | float _ | list _ | dict _ => cases h

theorem index_str (s : String) (key : Value) :
    Yields (fun v => v.kind = .str) ((str s).index key) :=
  yields_bind (yields_true _) fun _ _ => yields_ok rfl

theorem index_depth_le (v key : Value) :
    Yields (fun u => u.depth ≤ v.depth) (v.index key) := by
  by_cases hkind : v.kind = .str
  · obtain ⟨s, rfl⟩ := kind_eq_str hkind
    refine (index_str s key).mono fun u hu => ?_
    obtain ⟨t, rfl⟩ := kind_eq_str hu
    exact Nat.le_refl 0
  · intro u hu
    rw [index_eq_slot hkind] at hu
    rcases hi : v.slot key with e | i <;> rw [hi] at hu <;> cases hu
    have := (slot_refilled v key .none i hi).depth_lt
    omega

end Value

namespace Expr

/-- Whether the expression is a variable with any number of subscripts. -/
def isPlace : Expr → Bool
  | name _ _ => true
  | index object _ _ => object.isPlace
  | _ => false

/-- One of the subscripts in the expression is that of a text. -/
def SubscriptsText (call : Caller) (m : Machine) : Expr → Prop
  | index object _ _ =>
    (∃ s, (Eval.expr call object).outcome m = .ok (.str s)) ∨ object.SubscriptsText call m
  | _ => False

end Expr

namespace Eval

variable {call : Caller} {m : Machine}

theorem outcome_index (hm : m.Unlimited) {object i : Expr} (hobject : object.isCallFree = true)
    (hi : i.isCallFree = true) (mark : Mark) :
    (expr call (.index object i mark)).outcome m =
      (expr call object).outcome m >>= fun container =>
        (expr call i).outcome m >>= fun key => container.index key >>= refuseDeep := by
  have hkey (container : Value) :
      Quiet (expr call i >>= fun key => Command.ofResult (container.index key)) :=
    (quiet_expr i hi).bind fun _ => .ofResult _
  have hcontainer : Quiet (expr call object) := quiet_expr object hobject
  have hall := hcontainer.bind hkey
  rw [expr, outcome_produce hm hall.steady (hall.agrees hm),
    hcontainer.outcome_bind fun container => (hkey container).agrees hm, bind_assoc]
  refine congrArg _ (funext fun container => ?_)
  rw [(quiet_expr i hi).outcome_bind fun key => (Quiet.ofResult _).agrees hm, bind_assoc]
  refine congrArg _ (funext fun key => ?_)
  rw [outcome_ofResult]

theorem refuseDeep_eq_ok {u v : Value} (h : refuseDeep u = .ok v) : u = v := by
  unfold refuseDeep at h
  split at h <;> cases h
  rfl

theorem outcome_variable {s : String} {v : Value} (h : m.env.get? s = some v) :
    (variable_ s).outcome m = .ok v := by
  unfold variable_ outcome
  rw [bind_apply, get_apply]
  dsimp only
  rw [h]
  rfl

theorem get?_of_outcome_variable {s : String} {v : Value}
    (h : (variable_ s).outcome m = .ok v) : m.env.get? s = some v := by
  unfold outcome at h
  rcases hr : variable_ s m with ⟨w, n⟩ | ⟨e, n⟩ <;> rw [hr] at h <;> cases h
  exact (variable_eq_ok hr).1

theorem outcome_name (hm : m.Unlimited) (s : String) (mark : Mark) :
    (expr call (.name s mark)).outcome m = (variable_ s).outcome m >>= refuseDeep := by
  rw [expr, outcome_produce hm (quiet_variable s).steady ((quiet_variable s).agrees hm)]

theorem get?_of_outcome_name (hm : m.Unlimited) {s : String} {mark : Mark} {v : Value}
    (h : (expr call (.name s mark)).outcome m = .ok v) : m.env.get? s = some v := by
  rw [outcome_name hm] at h
  rcases hr : (variable_ s).outcome m with e | w <;> rw [hr] at h
  · cases h
  · rw [get?_of_outcome_variable hr, refuseDeep_eq_ok h]

theorem outcome_place_index (hm : m.Unlimited) {object i : Expr}
    (hobject : object.isCallFree = true) (hi : i.isCallFree = true) (mark : Mark) :
    (place? call (.index object i mark)).outcome m =
      (place? call object).outcome m >>= fun o =>
        match o with
        | none => .ok none
        | some place => (expr call i).outcome m >>= fun key =>
            .ok (some { place with path := place.path ++ [key] }) := by
  have hnext (place : Place) : Quiet (expr call i >>= fun key =>
      pure (some { place with path := place.path ++ [key] }) : Eval (Option Place)) :=
    (quiet_expr i hi).bind fun _ => .pure _
  rw [place?]
  refine ((quiet_place object hobject).outcome_bind fun o used => ?_).trans ?_
  · rcases o with _ | place
    · rfl
    · exact (hnext place).agrees hm used
  refine congrArg _ (funext fun o => ?_)
  rcases o with _ | place
  · rfl
  · exact (quiet_expr i hi).outcome_bind fun _ _ => rfl

/-- The place of an expression, and how it is related to its value. -/
theorem place_of_isPlace (hm : m.Unlimited) : ∀ {o : Expr} {v : Value}, o.isPlace = true →
    o.isCallFree = true → (expr call o).outcome m = .ok v →
    ∃ place w, (place? call o).outcome m = .ok (some place) ∧ m.env.get? place.root = some w
      ∧ (¬ o.SubscriptsText call m → w.Reaches place.path v)
      ∧ (o.SubscriptsText call m → v.kind = .str ∧
          ∀ change : Value → Value.Result (Value × Value),
            (w.changeAt change place.path).map (·.1) = .error (.notSubscriptable .str))
  | .name s _, v, _, _, h =>
    ⟨⟨s, []⟩, v, rfl, get?_of_outcome_name hm h, fun _ => .refl, fun h => h.elim⟩
  | .index object i mark, v, ho, hfree, h => by
    obtain ⟨hobject, hi⟩ := (Bool.and_eq_true _ _).mp hfree
    rw [outcome_index hm hobject hi] at h
    rcases hc : (expr call object).outcome m with e | container <;> rw [hc] at h
    · cases h
    rcases hk : (expr call i).outcome m with e | key
    · change ((expr call i).outcome m >>= _) = _ at h
      rw [hk] at h
      cases h
    change ((expr call i).outcome m >>= fun key => container.index key >>= refuseDeep) = _ at h
    rw [hk] at h
    change (container.index key >>= refuseDeep) = _ at h
    rcases hread : container.index key with e | u <;> rw [hread] at h
    · cases h
    cases refuseDeep_eq_ok h
    obtain ⟨place, w, hplace, hget, hreach, htext⟩ :=
      place_of_isPlace hm (o := object) ho hobject hc
    have hnext : (place? call (.index object i mark)).outcome m
        = .ok (some { place with path := place.path ++ [key] }) := by
      rw [outcome_place_index hm hobject hi, hplace]
      change (expr call i).outcome m >>= _ = _
      rw [hk]
      rfl
    refine ⟨_, w, hnext, hget, fun hno => ?_, fun hyes => ?_⟩
    · obtain ⟨hkind, hobject⟩ := not_or.mp hno
      have hstr : container.kind ≠ .str := fun hstr => by
        obtain ⟨s, rfl⟩ := Value.kind_eq_str hstr
        exact hkind ⟨s, hc⟩
      rw [Value.index_eq_slot hstr] at hread
      rcases hslot : container.slot key with e | k <;> rw [hslot] at hread
      · cases hread
      · cases hread
        exact (hreach hobject).step hslot
    · by_cases hobject : object.SubscriptsText call m
      · -- the way to the place ends before it comes to this subscript
        obtain ⟨hkind, hfail⟩ := htext hobject
        obtain ⟨s, rfl⟩ := Value.kind_eq_str hkind
        refine ⟨Value.index_str s key _ hread, fun change => ?_⟩
        rw [Value.changeAt_append]
        exact hfail _
      · -- the way leads to the object, which is a text and has no slots
        obtain ⟨s, hs⟩ := hyes.resolve_right hobject
        rw [hc] at hs
        cases hs
        refine ⟨Value.index_str s key _ hread, fun change => ?_⟩
        rw [Value.changeAt_append, (hreach hobject).changeAt_fst]
        rfl

section Receiver

variable {o : Expr} {name : Ident} {args : List Expr} {mark : Mark} {v : Value} {vs : List Value}

theorem outcome_changePlace (place : Place) (change : Value → Value.Result (Value × Value))
    {w : Value} (hget : m.env.get? place.root = some w) :
    (changePlace place change).outcome m = (w.changeAt change place.path).map (·.1) := by
  unfold outcome
  rw [changePlace_eq, hget]
  dsimp only
  rcases w.changeAt change place.path with e | ⟨a, w'⟩ <;> rfl

theorem steady_changePlace (place : Place) (change : Value → Value.Result (Value × Value)) :
    Steady (changePlace place change) := by
  intro m
  unfold leaves
  rw [changePlace_eq]
  rcases m.env.get? place.root with _ | w
  · rfl
  · dsimp only
    rcases w.changeAt change place.path with e | ⟨a, w'⟩ <;> rfl

theorem agrees_changePlace (place : Place) (change : Value → Value.Result (Value × Value))
    (used : Nat) :
    (changePlace place change).outcome (m.spent used) = (changePlace place change).outcome m := by
  have hspent : (m.spent used).env.get? place.root = m.env.get? place.root := rfl
  rcases hget : m.env.get? place.root with _ | w <;> rw [hget] at hspent
  · unfold outcome
    rw [changePlace_eq, changePlace_eq, hget, hspent]
  · rw [outcome_changePlace place change hget, outcome_changePlace place change hspent]

/-- A method of an object that has a place is called on what is found at the place. -/
theorem outcome_method (hm : m.Unlimited) (ho : o.isCallFree = true)
    (hargs : areCallFree args = true) {place : Place} {w : Value}
    (hplace : (place? call o).outcome m = .ok (some place))
    (hget : m.env.get? place.root = some w) (hvs : (exprs call args).outcome m = .ok vs) :
    (expr call (.method o name args mark)).outcome m =
      (w.changeAt (fun u => u.callMethod name.name vs) place.path).map (·.1) >>= refuseDeep := by
  have hvalue : Quiet (do
      let receiver ← expr call o
      let vs ← exprs call args
      return (← Command.ofResult (receiver.callMethod name.name vs)).1) :=
    (quiet_expr o ho).bind fun _ => (quiet_exprs args hargs).bind fun _ =>
      (Quiet.ofResult _).bind fun _ => .pure _
  have hsteady (place : Place) : Steady (do
      let vs ← exprs call args
      changePlace place fun v => v.callMethod name.name vs) :=
    (quiet_exprs args hargs).steady.bind fun _ => steady_changePlace _ _
  have hvalues : Quiet (exprs call args) := quiet_exprs args hargs
  have hagrees (place : Place) (used : Nat) :=
    hvalues.agrees_bind hm
      (fun vs => agrees_changePlace place fun v => v.callMethod name.name vs) used
  rw [expr]
  refine (outcome_produce hm ((quiet_place o ho).steady.bind fun p => ?_)
    ((quiet_place o ho).agrees_bind hm fun p used => ?_)).trans (congrArg (· >>= refuseDeep) ?_)
  · rcases p with _ | p
    · exact hvalue.steady
    · exact hsteady p
  · rcases p with _ | p
    · exact hvalue.agrees hm used
    · exact hagrees p used
  refine ((quiet_place o ho).outcome_bind fun p used => ?_).trans ?_
  · rcases p with _ | p
    · exact hvalue.agrees hm used
    · exact hagrees p used
  rw [hplace]
  refine ((quiet_exprs args hargs).outcome_bind fun vs => agrees_changePlace place
    fun v => v.callMethod name.name vs).trans ?_
  rw [hvs]
  exact outcome_changePlace place _ hget

end Receiver

section Agreement

variable {limit : Nat} {o : Expr} {name : Ident} {args : List Expr} {mark : Mark} {v : Value}
  {vs : List Value}

theorem expr_checked (hkeyed : m.env.All WellKeyed) {e : Expr}
    (h : (expr (callWithin limit) e).outcome m = .ok v) : v.Checked := by
  have hkeeps := Ledger.keeps_expr Ledger.plain_lawful
    (Ledger.callsKeep_callWithin Ledger.plain_lawful limit) e (fun _ _ => trivial) 0 () m
    ⟨fun _ _ _ _ => trivial, hkeyed, trivial⟩
  unfold outcome at h
  rcases hr : expr (callWithin limit) e m with ⟨u, n⟩ | ⟨e, n⟩ <;> rw [hr] at h hkeeps <;>
    cases h
  exact hkeeps.1

theorem exprs_checked (hkeyed : m.env.All WellKeyed) {es : List Expr}
    (h : (exprs (callWithin limit) es).outcome m = .ok vs) : ∀ v ∈ vs, v.Checked := by
  have hkeeps := Ledger.keeps_exprs Ledger.plain_lawful
    (Ledger.callsKeep_callWithin Ledger.plain_lawful limit) es (fun _ _ => trivial) 0 () m
    ⟨fun _ _ _ _ => trivial, hkeyed, trivial⟩
  unfold outcome at h
  rcases hr : exprs (callWithin limit) es m with ⟨us, n⟩ | ⟨e, n⟩ <;> rw [hr] at h hkeeps <;>
    cases h
  exact hkeeps.1

/-- Where the gas never runs out, the object is a variable with subscripts and no calls are made on
the way, a method gives what it gives on the value of the object, except where a text is
subscripted. -/
theorem method_at_place_iff (hm : m.Unlimited) (hkeyed : m.env.All WellKeyed)
    (hplace : o.isPlace = true) (ho : o.isCallFree = true) (hargs : areCallFree args = true)
    (hv : (expr (callWithin limit) o).outcome m = .ok v)
    (hvs : (exprs (callWithin limit) args).outcome m = .ok vs) :
    (expr (callWithin limit) (.method o name args mark)).outcome m
        = (v.callMethod name.name vs).map (·.1)
      ↔ ¬ o.SubscriptsText (callWithin limit) m := by
  obtain ⟨place, w, hlook, hget, hreach, htext⟩ := place_of_isPlace hm hplace ho hv
  rw [outcome_method hm ho hargs hlook hget hvs]
  refine ⟨fun h hyes => ?_, fun hno => ?_⟩
  · obtain ⟨hkind, hfail⟩ := htext hyes
    obtain ⟨s, rfl⟩ := Value.kind_eq_str hkind
    rw [hfail] at h
    change Except.error _ = ((Value.strMethod s name.name vs >>= fun r => _) : Value.Result _).map _
      at h
    rcases hr : Value.strMethod s name.name vs with e | r <;> rw [hr] at h
    · cases h
      exact Value.strMethod_ne_error _ _ _ _ hr
    · cases h
  · rw [(hreach hno).changeAt_fst]
    have hchecked := expr_checked hkeyed hv
    have hdepth := Value.callMethod_depth_le hchecked.keyed hchecked.depth name.name
      fun a ha => (exprs_checked hkeyed hvs a ha).depth
    rcases hr : v.callMethod name.name vs with e | r
    · rfl
    · exact if_pos (hdepth r hr)

end Agreement

/-- A machine with all the gas that can be counted, and with one variable. -/
def holding (name : String) (v : Value) : Machine :=
  { Machine.start default ⟨0, Gas.most, 0⟩ Command.standard with env := ⟨[(name, v)], []⟩ }

/-- The receiver is a text in a list in a list, and only the lists are subscripted. -/
theorem method_at_place_upper :
    let inner : Expr := .index (.name "x" default) (.int 0 default) default
    let o : Expr := .index inner (.int 1 default) default
    let m := holding "x" (.list [.list [.none, .str "abc"]])
    (m.Unlimited ∧ m.env.All WellKeyed ∧ o.isPlace = true ∧ o.isCallFree = true
        ∧ areCallFree [] = true ∧ (expr (callWithin 0) o).outcome m = .ok (.str "abc")
        ∧ (exprs (callWithin 0) []).outcome m = .ok [] ∧ ¬ o.SubscriptsText (callWithin 0) m)
      ∧ (expr (callWithin 0) (.method o ⟨"upper", default⟩ [] default)).outcome m
        = .ok (.str "ABC") := by
  intro inner o m
  have hm : m.Unlimited := rfl
  have hkeyed : m.env.All WellKeyed := by
    refine ⟨List.forall_mem_singleton.mpr ?_, fun _ h => (List.not_mem_nil h).elim⟩
    refine .list (List.forall_mem_singleton.mpr (.list fun v hv => .scalar ?_))
    rcases List.mem_pair.mp hv with rfl | rfl <;> rfl
  have hx : (expr (callWithin 0) (.name "x" default)).outcome m
      = .ok (.list [.list [.none, .str "abc"]]) := rfl
  have hinner : (expr (callWithin 0) inner).outcome m = .ok (.list [.none, .str "abc"]) := by
    rw [outcome_index hm rfl rfl, hx]
    rfl
  have hv : (expr (callWithin 0) o).outcome m = .ok (.str "abc") := by
    rw [outcome_index hm rfl rfl, hinner]
    rfl
  have hno : ¬ o.SubscriptsText (callWithin 0) m := by
    rintro (⟨s, hs⟩ | ⟨s, hs⟩ | h)
    · cases hinner.symm.trans hs
    · cases hx.symm.trans hs
    · exact h
  have hmethod : (expr (callWithin 0) (.method o ⟨"upper", default⟩ [] default)).outcome m
      = ((Value.str "abc").callMethod "upper" []).map (·.1) :=
    (method_at_place_iff hm hkeyed rfl rfl rfl hv rfl).mpr hno
  exact ⟨⟨hm, hkeyed, rfl, rfl, rfl, hv, rfl, hno⟩, hmethod.trans rfl⟩

/-- A character of a text has a value, but it is at no place. -/
theorem method_in_text_fails :
    let o : Expr := .index (.name "s" default) (.int 0 default) default
    let m := holding "s" (.str "abc")
    (expr (callWithin 0) o).outcome m = .ok (.str "a")
      ∧ ((Value.str "a").callMethod "upper" []).map (·.1) = .ok (.str "A")
      ∧ (expr (callWithin 0) (.method o ⟨"upper", default⟩ [] default)).outcome m
        = .error (.notSubscriptable .str) :=
  ⟨rfl, rfl, rfl⟩

end Eval

end MissionScript
