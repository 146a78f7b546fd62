import MissionScript.Proofs.Run.Ledger

/-!
# Runs keep their ledger

Every expression and every statement of a script keeps a lawful ledger that allows its changes, and
so does every call of a function, since only functions are known whose changes are allowed
(`keeps_stmt`, `callsKeep_callWithin`). So what a ledger says at the start of a run it says after
any number of statements, whether they succeed or fail (`held_after_start`).
-/

namespace MissionScript

open Value (WellKeyed Yields)

namespace Eval

theorem variable_eq_ok {name : String} {v : Value} {m m' : Machine}
    (h : variable_ name m = .ok v m') : m.env.get? name = some v ∧ m' = m := by
  unfold variable_ at h
  rw [bind_apply, get_apply] at h
  dsimp only at h
  rcases hv : m.env.get? name with _ | w <;> rw [hv] at h
  · dsimp only at h
    split at h <;> cases h
  · cases h
    exact ⟨rfl, rfl⟩

theorem callNamed_of_function? (call : Caller) {name : String} (args : List Value) {f : Function}
    {m : Machine} (h : m.function? name = some f) : callNamed call name args m = call f args m := by
  unfold callNamed
  rw [bind_apply, get_apply]
  dsimp only
  rw [h]

theorem stored_wellKeyed {v container : Value} (hcontainer : WellKeyed container)
    (hv : WellKeyed v) (op : AssignOp) (key : Value) :
    Yields WellKeyed (stored op key v container) := by
  unfold stored
  dsimp only
  split
  · exact Value.yields_bind (Value.yields_ok hv) fun x hx =>
      Value.setIndex_wellKeyed hcontainer hx key
  · exact Value.yields_bind (Value.index_wellKeyed hcontainer key) fun u hu =>
      Value.yields_bind (Value.binary_mixes Value.wellKeyed_mixes _ hu hv) fun x hx =>
        Value.setIndex_wellKeyed hcontainer hx key

end Eval

namespace Ledger

variable {L : Ledger} (hL : L.Lawful)

/-- Calls keep the ledger: what a call gives is checked and its weight is paid for. -/
def CallsKeep (L : Ledger) (call : Caller) : Prop :=
  ∀ (c : Nat) (f : Function) (args : List Value), L.AllowsAll f.body.changes →
    (∀ v ∈ args, v.Checked) →
    L.Keeps (c + (Value.list args).weight) (call f args) Value.Checked (fun v => c + v.weight)

section Expressions

variable {c : Nat}

include hL

theorem keeps_account {v : Value} (hv : WellKeyed v) :
    L.Keeps c (Eval.account v) Value.Checked (fun u => c + u.weight) := by
  unfold Eval.account
  split
  · rename_i hdepth
    exact (keeps_charge hL _).bind fun _ _ => keeps_pure hL ⟨hv, hdepth⟩ (Nat.le_refl _)
  · exact keeps_throw hL _

/-- A value that is made is checked and paid for, together with the unit paid before. -/
theorem keeps_produce {x : Eval Value} (hx : L.Keeps (c + 1) x WellKeyed (fun _ => c + 1)) :
    L.Keeps c (Eval.produce x) Value.Checked (fun v => c + (v.weight + 1)) := by
  refine (keeps_tick hL).bind fun _ _ => hx.bind fun v hv => ?_
  exact (keeps_account hL hv).mono hL fun u hu => ⟨hu, by omega⟩

variable {call : Caller} (hcall : L.CallsKeep call)
include hcall

theorem keeps_callNamed (name : String) {args : List Value} (hargs : ∀ v ∈ args, v.Checked) :
    L.Keeps (c + (Value.list args).weight) (Eval.callNamed call name args) WellKeyed
      (fun _ => c) := by
  refine .look fun m hfunctions _ => ?_
  split
  · rename_i f hf
    exact (hcall c f args (hfunctions f (List.mem_of_find?_eq_some hf)) hargs).mono hL
      fun v hv => ⟨hv.keyed, Nat.le_add_right _ _⟩
  · split
    · exact (keeps_invoke hL _ fun v hv => (hargs v hv).keyed).mono hL
        fun _ h => ⟨h, Nat.le_add_right _ _⟩
    · split <;> exact keeps_throw hL _

set_option linter.unusedSectionVars false in
mutual

/-- What an expression gives is checked, and its weight and one unit more are paid for. -/
theorem keeps_expr : ∀ e : Expr, L.AllowsAll e.changes → ∀ c : Nat,
    L.Keeps c (Eval.expr call e) Value.Checked (fun v => c + (v.weight + 1))
  | .int _ _, _, _ => keeps_produce hL (keeps_pure hL (.scalar rfl) (Nat.le_refl _))
  | .float _ _, _, _ => keeps_produce hL (keeps_pure hL (.scalar rfl) (Nat.le_refl _))
  | .str _ _, _, _ => keeps_produce hL (keeps_pure hL (.scalar rfl) (Nat.le_refl _))
  | .bool _ _, _, _ => keeps_produce hL (keeps_pure hL (.scalar rfl) (Nat.le_refl _))
  | .none _, _, _ => keeps_produce hL (keeps_pure hL (.scalar rfl) (Nat.le_refl _))
  | .name s _, _, _ => keeps_produce hL (keeps_variable hL s)
  | .list items _, h, c => by
    refine keeps_produce hL ((keeps_exprs items h _).bind fun vs hvs => ?_)
    exact keeps_pure hL (.list fun v hv => (hvs v hv).keyed) (Nat.le_add_right _ _)
  | .dict entries _, h, c =>
    keeps_produce hL (keeps_entriesOnto entries h (.dict ⟨by simp, .nil⟩ (by simp)))
  | .call callee args _, h, c =>
    keeps_produce hL ((keeps_exprs args h _).bind fun vs hvs => keeps_callNamed hL hcall _ hvs)
  | .method object m args _, h, c => by
    obtain ⟨hm, h⟩ := allowsAll_cons.mp h
    obtain ⟨hobject, hargs⟩ := allowsAll_append.mp h
    refine keeps_produce hL ((keeps_place object hobject).bind fun place hplace => ?_)
    rcases place with _ | place
    · -- what the method makes of a receiver that is at no place is lost
      refine (keeps_expr object hobject _).bind fun receiver hreceiver => ?_
      refine (keeps_exprs args hargs _).bind fun vs hvs => ?_
      refine (keeps_ofResult hL (Value.callMethod_wellKeyed hreceiver.keyed _
        fun v hv => (hvs v hv).keyed)).bind fun r hr => ?_
      exact keeps_pure hL hr.1 (by omega)
    · refine (keeps_exprs args hargs _).bind fun vs hvs => ?_
      refine keeps_changePlace hL
        (fun v hv => Value.callMethod_wellKeyed hv _ fun v hv => (hvs v hv).keyed) ?_
      exact fun hg hv hr => hL.method hm hvs (hplace place rfl) hv hr hg
  | .binary left op right _, h, c => by
    obtain ⟨hleft, hright⟩ := allowsAll_append.mp h
    refine keeps_produce hL ((keeps_expr left hleft _).bind fun a ha => ?_)
    have hlast : L.Keeps (c + 1 + (a.weight + 1)) (Eval.expr call right) WellKeyed
        (fun _ => c + 1) :=
      (keeps_expr right hright _).mono hL fun v hv => ⟨hv.keyed, by omega⟩
    have hfirst : L.Keeps (c + 1 + (a.weight + 1)) (pure a : Eval Value) WellKeyed
        (fun _ => c + 1) := keeps_pure hL ha.keyed (Nat.le_add_right _ _)
    cases op
    case and => exact .ite hlast hfirst
    case or => exact .ite hfirst hlast
    all_goals
      refine (keeps_expr right hright _).bind fun b hb => ?_
      exact (keeps_ofResult hL (Value.binary_mixes Value.wellKeyed_mixes _ ha.keyed hb.keyed)).mono
        hL fun v hv => ⟨hv, by omega⟩
  | .unary op operand _, h, c => by
    refine keeps_produce hL ((keeps_expr operand h _).bind fun v _ => ?_)
    exact (keeps_ofResult hL (Value.unary_scalar op v)).mono hL fun v hv =>
      ⟨.scalar hv, by omega⟩
  | .index object i _, h, c => by
    obtain ⟨hobject, hi⟩ := allowsAll_append.mp h
    refine keeps_produce hL ((keeps_expr object hobject _).bind fun container hcontainer => ?_)
    refine (keeps_expr i hi _).bind fun key _ => ?_
    exact (keeps_ofResult hL (Value.index_wellKeyed hcontainer.keyed key)).mono hL fun v hv =>
      ⟨hv, by omega⟩
  | .slice object start stop _, h, c => by
    obtain ⟨hobject, h⟩ := allowsAll_append.mp h
    obtain ⟨hstart, hstop⟩ := allowsAll_append.mp h
    refine keeps_produce hL ((keeps_expr object hobject _).bind fun container hcontainer => ?_)
    refine (keeps_exprOpt start hstart _).bind fun a _ => ?_
    refine (keeps_exprOpt stop hstop _).bind fun b _ => ?_
    exact (keeps_ofResult hL (Value.slice_mixes Value.wellKeyed_mixes hcontainer.keyed a b)).mono
      hL fun v hv => ⟨hv, by omega⟩

theorem keeps_exprs : ∀ es : List Expr, L.AllowsAll (Expr.changesOfAll es) → ∀ c : Nat,
    L.Keeps c (Eval.exprs call es) (fun vs => ∀ v ∈ vs, v.Checked)
      (fun vs => c + (Value.list vs).weight)
  | [], _, _ => keeps_pure hL (fun _ h => (List.not_mem_nil h).elim) (Nat.le_refl _)
  | e :: es, h, c => by
    obtain ⟨he, hes⟩ := allowsAll_append.mp h
    refine (keeps_expr e he c).bind fun v hv => (keeps_exprs es hes _).bind fun vs hvs => ?_
    refine keeps_pure hL (List.forall_mem_cons.mpr ⟨hv, hvs⟩) ?_
    rw [Value.weight_list_cons]
    omega

theorem keeps_exprOpt : ∀ e : Option Expr, L.AllowsAll (Expr.changesOfOpt e) → ∀ c : Nat,
    L.Keeps c (Eval.exprOpt call e) (fun o => ∀ v ∈ o.toList, v.Checked)
      (fun o => c + (Value.list o.toList).weight)
  | none, _, _ => keeps_pure hL (fun _ h => (List.not_mem_nil h).elim) (Nat.le_refl _)
  | some e, h, c => by
    refine (keeps_expr e h c).bind fun v hv => ?_
    refine keeps_pure hL (List.forall_mem_singleton.mpr hv) ?_
    rw [Option.toList_some, Value.weight_list_cons, Value.weight_list_nil]

theorem keeps_entriesOnto : ∀ es : List (Expr × Expr),
    L.AllowsAll (Expr.changesOfEntries es) → ∀ {c : Nat} {d : Value}, WellKeyed d →
      L.Keeps c (Eval.entriesOnto call d es) WellKeyed (fun _ => c)
  | [], _, _, _, hd => keeps_pure hL hd (Nat.le_refl _)
  | (k, e) :: es, h, c, d, hd => by
    obtain ⟨hk, h⟩ := allowsAll_append.mp h
    obtain ⟨he, hes⟩ := allowsAll_append.mp h
    refine (keeps_expr k hk c).bind fun key _ => (keeps_expr e he _).bind fun v hv => ?_
    refine (keeps_ofResult hL (Value.setIndex_wellKeyed hd hv.keyed key)).bind fun d' hd' => ?_
    exact (keeps_entriesOnto es hes hd').mono hL fun v hv => ⟨hv, by omega⟩

/-- The place of an expression has one key for each subscript. -/
theorem keeps_place : ∀ e : Expr, L.AllowsAll e.changes → ∀ {c : Nat},
    L.Keeps c (Eval.place? call e) (fun o => ∀ p, o = some p → p.path.length = e.subscripts)
      (fun _ => c)
  | .name s _, _, _ => keeps_pure hL (fun p hp => by cases hp; rfl) (Nat.le_refl _)
  | .index object i _, h, c => by
    obtain ⟨hobject, hi⟩ := allowsAll_append.mp h
    refine (keeps_place object hobject).bind fun place hplace => ?_
    rcases place with _ | place
    · exact keeps_pure hL (fun p hp => by cases hp) (Nat.le_refl _)
    · refine (keeps_expr i hi _).bind fun key _ => ?_
      refine keeps_pure hL (fun p hp => ?_) (Nat.le_add_right _ _)
      cases hp
      rw [List.length_append, hplace place rfl]
      rfl
  | .int _ _, _, _ | .float _ _, _, _ | .str _ _, _, _ | .bool _ _, _, _ | .none _, _, _
  | .list _ _, _, _ | .dict _ _, _, _ | .call _ _ _, _, _ | .method _ _ _ _, _, _
  | .binary _ _ _ _, _, _ | .unary _ _ _, _, _ | .slice _ _ _ _, _, _ =>
    keeps_pure hL (fun p hp => by cases hp) (Nat.le_refl _)

end

end Expressions

section Statements

variable {c : Nat}

/-- A statement ends with a value that is checked and paid for. -/
def FlowKeeps (L : Ledger) (x : Eval Flow) : Prop :=
  ∀ c : Nat, L.Keeps c x (fun flow => flow.value.Checked) (fun flow => c + flow.value.weight)

theorem checked_none : Value.none.Checked := ⟨.scalar rfl, Nat.zero_le _⟩

theorem items_checked {v : Value} (hv : v.Checked) :
    Yields (fun vs => (∀ u ∈ vs, u.Checked) ∧ (vs.map Value.weight).sum ≤ v.weight) v.items :=
  fun vs hvs =>
    ⟨fun u hu => ⟨Value.items_wellKeyed hv.keyed vs hvs u hu,
        (Value.items_depth_le hv.keyed vs hvs u hu).trans hv.depth⟩,
      Value.items_weight_le v vs hvs⟩

include hL

theorem flowKeeps_pure {flow : Flow} (h : flow.value = .none) : L.FlowKeeps (pure flow) :=
  fun _ => keeps_pure hL (h ▸ checked_none) (by rw [h]; exact Nat.le_refl _)

theorem keeps_iteration (var : Ident) {body : Eval Flow} (hbody : L.FlowKeeps body) {v : Value}
    (hv : v.Checked) :
    L.Keeps (c + v.weight) (Eval.iteration var body v)
      (fun o => (o.getD .normal).value.Checked) (fun o => c + (o.getD .normal).value.weight) := by
  refine (keeps_tick hL).bind fun _ _ => ?_
  refine ((keeps_define hL (c := c + 1) _ hv).spend hL (by omega)).bind fun _ _ => ?_
  refine (hbody (c + 1)).bind fun flow hflow => ?_
  cases flow <;> exact keeps_pure hL hflow (Nat.add_le_add_right (Nat.le_succ c) _)

theorem keeps_loopItems {once : Value → Eval (Option Flow)}
    (honce : ∀ {c : Nat} {v : Value}, v.Checked → L.Keeps (c + v.weight) (once v)
      (fun o => (o.getD .normal).value.Checked) (fun o => c + (o.getD .normal).value.weight)) :
    ∀ vs : List Value, (∀ v ∈ vs, v.Checked) → ∀ {c : Nat},
      L.Keeps (c + (vs.map Value.weight).sum) (Eval.loopItems once vs)
        (fun flow => flow.value.Checked) (fun flow => c + flow.value.weight)
  | [], _, _ => keeps_pure hL checked_none (Nat.le_refl _)
  | v :: vs, h, c => by
    rw [List.forall_mem_cons] at h
    refine ((honce (c := c + (vs.map Value.weight).sum) h.1).spend hL ?_).bind fun o ho => ?_
    · rw [List.map_cons, List.sum_cons]
      omega
    · rcases o with _ | flow
      · exact keeps_loopItems honce vs h.2
      · exact keeps_pure hL ho (Nat.add_le_add_right (Nat.le_add_right c _) _)

theorem keeps_loopRange {once : Value → Eval (Option Flow)}
    (honce : ∀ {c : Nat} {v : Value}, v.Checked → L.Keeps (c + v.weight) (once v)
      (fun o => (o.getD .normal).value.Checked) (fun o => c + (o.getD .normal).value.weight))
    (r : IntRange) : ∀ (n i : Nat) {c : Nat}, L.Keeps c (Eval.loopRange once r i n)
        (fun flow => flow.value.Checked) (fun flow => c + flow.value.weight)
  | 0, _, _ => keeps_pure hL checked_none (Nat.le_refl _)
  | n + 1, i, c => by
    refine (honce (c := c) (v := .int (r.get i)) ⟨.scalar rfl, Nat.zero_le _⟩).bind fun o ho => ?_
    rcases o with _ | flow
    · exact keeps_loopRange honce r n (i + 1)
    · exact keeps_pure hL ho (Nat.le_refl _)

/-- A loop over the items of a value whose weight is paid for. -/
theorem keeps_loopOver {v : Value} (hv : v.Checked) (var : Ident) {body : Eval Flow}
    (hbody : L.FlowKeeps body) :
    L.Keeps (c + v.weight)
      (do Eval.loopItems (Eval.iteration var body) (← Command.ofResult v.items))
      (fun flow => flow.value.Checked) (fun flow => c + flow.value.weight) := by
  refine (keeps_ofResult hL (items_checked hv)).bind fun vs hvs => ?_
  exact (keeps_loopItems hL (keeps_iteration hL var hbody) vs hvs.1).spend hL (by omega)

/-- What every statement starts with. -/
theorem flowKeeps_head (span : Span) {x : Eval Flow} (hx : L.FlowKeeps x) :
    L.FlowKeeps (do Eval.tick; Eval.setLine span.line; x) := by
  intro c
  refine (keeps_tick hL).bind fun _ _ => (keeps_setLine hL _).bind fun _ _ => ?_
  exact (hx (c + 1)).mono hL fun flow h => ⟨h, by omega⟩

/-- A variable that is assigned anew from its old value. -/
theorem keeps_augment {ident : Ident} {op : AssignOp} {b : BinOp}
    (hallows : L.Allows (.assign (.name ident) op)) (hb : op.binary? = some b) {x : Eval Value}
    (hx : L.Keeps c x Value.Checked (fun v => c + (v.weight + 1))) :
    L.Keeps c
      (do
        let current ← Eval.variable_ ident.name
        let v ← x
        Eval.define ident.name (← Command.ofResult (Value.binary b current v)))
      (fun _ => True) (fun _ => c) := by
  intro g m hm
  have hvariable := keeps_variable (c := c) hL ident.name g m hm
  rw [bind_apply]
  rcases hcurrent : Eval.variable_ ident.name m with ⟨current, m'⟩ | ⟨e, m'⟩ <;>
    rw [hcurrent] at hvariable
  · obtain ⟨hget, rfl⟩ := Eval.variable_eq_ok hcurrent
    -- `x` may change the variable, so the ledger takes note of the old value before it runs
    obtain ⟨g', hg', hback, hassign⟩ := hL.hold hallows hb hget hm.holds
    have h := hx g' m' ⟨hm.functions, hm.keyed, hg'⟩
    simp only [bind_apply]
    rcases hr : x m' with ⟨v, n⟩ | ⟨e, n⟩ <;> rw [hr] at h
    · dsimp only
      rcases hbinary : Value.binary b current v with e | y
      · exact ⟨h.2.functions, h.2.keyed, hL.less (hback h.2.holds) (Nat.zero_le _)⟩
      · have hy := Value.binary_mixes Value.wellKeyed_mixes b hvariable.1 h.1.keyed _ hbinary
        exact ⟨trivial, h.2.functions, h.2.keyed.define hy _, hassign h.1 hbinary h.2.holds⟩
    · exact ⟨h.functions, h.keyed, hback h.holds⟩
  · exact hvariable

variable {call : Caller} (hcall : L.CallsKeep call)
include hcall

theorem keeps_assign {target : Target} {op : AssignOp} {value : Expr}
    (hallows : L.Allows (.assign target op)) (htarget : L.AllowsAll target.changes)
    (hvalue : L.AllowsAll value.changes) :
    L.Keeps c (Eval.assign call target op value) (fun _ => True) (fun _ => c) := by
  unfold Eval.assign
  split
  · split
    · refine (keeps_expr hL hcall value hvalue c).bind fun v hv => ?_
      exact (keeps_define hL _ hv).spend hL (by omega)
    · exact keeps_augment hL hallows ‹_› (keeps_expr hL hcall value hvalue c)
  · rename_i object index
    obtain ⟨hobject, hindex⟩ := allowsAll_append.mp htarget
    refine (keeps_expr hL hcall value hvalue c).bind fun v hv => ?_
    refine (keeps_place hL hcall object hobject).bind fun place hplace => ?_
    rcases place with _ | place
    · refine (keeps_expr hL hcall object hobject _).bind fun container _ => ?_
      refine (keeps_expr hL hcall index hindex _).bind fun key _ => ?_
      refine (keeps_ofResult hL (Value.yields_true _)).bind fun _ _ => ?_
      exact keeps_pure hL trivial (by omega)
    · refine (keeps_expr hL hcall index hindex _).bind fun key hkey => ?_
      refine keeps_changePlace hL (fun u hu => ?_) fun hg hw hr =>
        hL.store hallows hkey hv (hplace place rfl) hw hr hg
      exact Value.yields_bind (Eval.stored_wellKeyed hu hv.keyed op key) fun x hx =>
        Value.yields_ok ⟨trivial, hx⟩

theorem keeps_bounds {start : Option Expr} {stop : Expr} {step : Option Expr}
    (hstart : L.AllowsAll (Expr.changesOfOpt start)) (hstop : L.AllowsAll stop.changes)
    (hstep : L.AllowsAll (Expr.changesOfOpt step)) :
    L.Keeps c (Eval.bounds call start stop step) (fun vs => ∀ v ∈ vs, v.Checked)
      (fun vs => c + (Value.list vs).weight) := by
  refine (keeps_exprOpt hL hcall start hstart _).bind fun a ha => ?_
  refine (keeps_expr hL hcall stop hstop _).bind fun b hb => ?_
  refine (keeps_exprOpt hL hcall step hstep _).bind fun d hd => keeps_pure hL ?_ ?_
  · exact List.forall_mem_append.mpr ⟨ha, List.forall_mem_cons.mpr ⟨hb, hd⟩⟩
  · rw [Value.weight_list_append, Value.weight_list_cons]
    omega

set_option linter.unusedSectionVars false in
mutual

theorem keeps_stmt : ∀ s : Stmt, L.AllowsAll s.changes → L.FlowKeeps (Eval.stmt call s)
  | .assign target op value span, h => by
    obtain ⟨hallows, h⟩ := allowsAll_cons.mp h
    obtain ⟨htarget, hvalue⟩ := allowsAll_append.mp h
    exact flowKeeps_head hL span fun c =>
      (keeps_assign hL hcall hallows htarget hvalue).bind fun _ _ => flowKeeps_pure hL rfl c
  | .ifElse branches otherwise span, h => by
    obtain ⟨hbranches, hotherwise⟩ := allowsAll_append.mp h
    exact flowKeeps_head hL span
      (keeps_firstTrue branches hbranches (keeps_blockOpt otherwise hotherwise))
  | .forRange var start stop step body span, h => by
    obtain ⟨hstart, h⟩ := allowsAll_append.mp h
    obtain ⟨hstop, h⟩ := allowsAll_append.mp h
    obtain ⟨hstep, hbody⟩ := allowsAll_append.mp h
    refine flowKeeps_head hL span fun c => ?_
    refine (keeps_bounds hL hcall hstart hstop hstep).bind fun args hargs => ?_
    intro g m hm
    rw [bind_apply, get_apply]
    dsimp only
    rcases hf : m.function? "range" with _ | f
    · -- numbers weigh nothing, so the arguments are not needed any more
      refine Keeps.spend hL ?_ (Nat.le_add_right c _) g m hm
      exact (keeps_ofResult hL (Value.yields_true _)).bind fun r _ =>
        keeps_loopRange hL (keeps_iteration hL var (keeps_block body hbody)) r r.count 0
    · -- the script has a function of that name, and the loop is over what it returns
      have hallows := hm.functions f (List.mem_of_find?_eq_some hf)
      have hloop := (hcall c f args hallows hargs).bind (fun v hv =>
        keeps_loopOver (c := c) hL hv var (keeps_block body hbody)) g m hm
      rw [bind_apply] at hloop
      rw [Option.isSome_some, if_pos rfl, bind_apply, Eval.callNamed_of_function? call args hf]
      exact hloop
  | .forEach var items body span, h => by
    obtain ⟨hitems, hbody⟩ := allowsAll_append.mp h
    refine flowKeeps_head hL span fun c => ?_
    refine (keeps_expr hL hcall items hitems c).bind fun v hv => ?_
    exact (keeps_loopOver (c := c) hL hv var (keeps_block body hbody)).spend hL (by omega)
  | .define name params body span, h => by
    refine flowKeeps_head hL span fun c => ?_
    refine Keeps.bind (F := fun _ => True) (w := fun _ => c) ?_ fun _ _ => flowKeeps_pure hL rfl c
    exact fun g m hm =>
      ⟨trivial, List.forall_mem_cons.mpr ⟨h, hm.functions⟩, hm.keyed, hL.same hm.holds rfl rfl⟩
  | .ret value span, h => by
    refine flowKeeps_head hL span fun c => ?_
    refine (keeps_exprOpt hL hcall value h c).bind fun o ho => ?_
    rcases o with _ | v
    · exact flowKeeps_pure hL rfl _
    · refine keeps_pure hL (ho v List.mem_cons_self) ?_
      rw [Option.toList_some, Value.weight_list_cons]
      dsimp only [Flow.value]
      omega
  | .brk span, _ => flowKeeps_head hL span (flowKeeps_pure hL rfl)
  | .cont span, _ => flowKeeps_head hL span (flowKeeps_pure hL rfl)
  | .pass span, _ => flowKeeps_head hL span (flowKeeps_pure hL rfl)
  | .expr e span, h =>
    flowKeeps_head hL span fun c => (keeps_expr hL hcall e h c).bind fun v _ =>
      (flowKeeps_pure hL rfl _).mono hL fun flow hflow => ⟨hflow, by omega⟩

theorem keeps_block : ∀ b : Block, L.AllowsAll b.changes → L.FlowKeeps (Eval.block call b)
  | .mk body _, h => keeps_stmts body h

theorem keeps_stmts : ∀ ss : List Stmt, L.AllowsAll (changesOfStmts ss) →
    L.FlowKeeps (Eval.stmts call ss)
  | [], _ => flowKeeps_pure hL rfl
  | s :: rest, h => by
    obtain ⟨hs, hrest⟩ := allowsAll_append.mp h
    intro c
    refine (keeps_stmt s hs c).bind fun flow hflow => ?_
    cases flow
    case normal => exact keeps_stmts rest hrest c
    all_goals exact keeps_pure hL hflow (Nat.le_refl _)

theorem keeps_firstTrue {otherwise : Eval Flow} : ∀ branches : List (Expr × Block),
    L.AllowsAll (changesOfBranches branches) → L.FlowKeeps otherwise →
      L.FlowKeeps (Eval.firstTrue call otherwise branches)
  | [], _, hotherwise => hotherwise
  | (condition, body) :: rest, h, hotherwise => by
    obtain ⟨hcondition, h⟩ := allowsAll_append.mp h
    obtain ⟨hbody, hrest⟩ := allowsAll_append.mp h
    intro c
    refine (keeps_setLine hL _).bind fun _ _ => ?_
    refine (keeps_expr hL hcall condition hcondition c).bind fun v _ => ?_
    exact .ite ((keeps_block body hbody c).spend hL (by omega))
      ((keeps_firstTrue rest hrest hotherwise c).spend hL (by omega))

theorem keeps_blockOpt : ∀ b : Option Block, L.AllowsAll (changesOfElse b) →
    L.FlowKeeps (Eval.blockOpt call b)
  | none, _ => flowKeeps_pure hL rfl
  | some b, h => keeps_block b h

end

end Statements

section Calls

include hL

theorem keeps_inScope {c : Nat} (f : Function) {args : List Value} (hargs : ∀ v ∈ args, v.Checked)
    {body : Eval Flow} (hbody : L.FlowKeeps body) :
    L.Keeps (c + (Value.list args).weight) (Eval.inScope f args body) Value.Checked
      (fun v => c + v.weight) := by
  intro g m hm
  obtain ⟨g', hg', hback⟩ := hL.call f hargs hm.holds
  have hkeyed := hm.keyed.enter f fun v hv => (hargs v hv).keyed
  have h := hbody c g' { m with env := Eval.enter f args m.env } ⟨hm.functions, hkeyed, hg'⟩
  unfold Eval.inScope
  rcases hr : body { m with env := Eval.enter f args m.env } with ⟨flow, m'⟩ | ⟨e, m'⟩ <;>
    rw [hr] at h
  · exact ⟨h.1, h.2.functions, h.2.keyed.pop, hL.same (hback h.2.holds) rfl rfl⟩
  · exact ⟨h.functions, h.keyed.pop, hback h.holds⟩

theorem callsKeep_callWithin : ∀ limit : Nat, L.CallsKeep (Eval.callWithin limit)
  | 0, _, _, _, _, _ =>
    (keeps_ofResult hL (Value.yields_true _)).bind fun _ _ => keeps_throw hL _
  | limit + 1, _, f, _, hf, hargs =>
    (keeps_ofResult hL (Value.yields_true _)).bind fun _ _ =>
      keeps_inScope hL f hargs (keeps_block hL (callsKeep_callWithin limit) f.body hf)

end Calls

end Ledger

/-- The ledger that only says that values are well keyed and checked. -/
def Ledger.plain : Ledger where
  Note := Unit
  Allows _ := True
  Holds _ _ _ := True

theorem Ledger.plain_lawful : plain.Lawful where
  less _ _ := trivial
  same _ _ _ := trivial
  charge _ _ := trivial
  define _ _ _ := trivial
  method _ _ _ _ _ _ := trivial
  store _ _ _ _ _ _ _ := trivial
  hold _ _ _ _ := ⟨(), trivial, id, fun _ _ _ => trivial⟩
  call _ _ _ := ⟨(), trivial, fun _ => trivial⟩

/-- The machine as an action leaves it, whether it succeeds or fails. -/
def Eval.leaves {α : Type} (x : Eval α) (m : Machine) : Machine :=
  match x m with
  | .ok _ m' | .error _ m' => m'

/-- The machine after some statements of a script, one after the other. A statement that fails stops
halfway; the next one is executed all the same. -/
def Machine.after (limits : Limits) (m : Machine) : List Stmt → Machine
  | [] => m
  | s :: ss => ((Eval.topLevel limits s).leaves m).after limits ss

namespace Ledger

variable {L : Ledger} (hL : L.Lawful) {limits : Limits}
include hL

/-- A statement keeps the ledger, also if it fails. -/
theorem Held.leaves {g : L.Note} {m : Machine} (hm : L.Held g 0 m) {s : Stmt}
    (hs : L.AllowsAll s.changes) : L.Held g 0 ((Eval.topLevel limits s).leaves m) := by
  have h := keeps_stmt hL (callsKeep_callWithin hL limits.callDepth) s hs 0 g m hm
  unfold Eval.leaves Eval.topLevel
  rcases hr : Eval.stmt (Eval.callWithin limits.callDepth) s m with ⟨flow, m'⟩ | ⟨e, m'⟩ <;>
    rw [hr] at h
  · exact h.2.less hL (Nat.zero_le _)
  · exact h

theorem Held.after {g : L.Note} : ∀ (ss : List Stmt) {m : Machine}, L.Held g 0 m →
    L.AllowsAll (changesOfStmts ss) → L.Held g 0 (m.after limits ss)
  | [], _, hm, _ => hm
  | _ :: ss, _, hm, h =>
    Held.after ss (hm.leaves hL (allowsAll_append.mp h).1) (allowsAll_append.mp h).2

/-- What holds at the start holds after any statements with allowed changes. -/
theorem held_after_start {g : L.Note} {level : Level} {commands : List Command}
    (hstart : L.Holds g 0 (.start level limits commands)) {ss : List Stmt}
    (hss : L.AllowsAll (changesOfStmts ss)) :
    L.Held g 0 ((Machine.start level limits commands).after limits ss) :=
  Held.after hL ss ⟨fun _ h => (List.not_mem_nil h).elim, Environment.all_empty, hstart⟩ hss

end Ledger

end MissionScript
