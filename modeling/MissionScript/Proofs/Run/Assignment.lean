import MissionScript.Proofs.Run.Counting
import MissionScript.Proofs.Run.Places

/-!
# Assignments without calls

An assignment in which nothing is called evaluates its parts, and all that they do is to spend gas;
only its last step changes a variable, and this step does not fail halfway. So an assignment that
fails leaves everything as it was but for the gas and the current line
(`failed_assign_unchanged`).

An augmented assignment reads its target in another way than the expression does that the target
stands for, and it looks up the place only once. Where the gas never runs out, and no variable is
nested more deeply than an expression may be, it still does what the assignment does in which the
operation is written out (`augmented_eq_expanded`).
-/

namespace MissionScript

open Value (Result)

/-- Whether no function and no method is called to find the target. -/
def Target.isCallFree (target : Target) : Bool := target.expr.isCallFree

namespace Eval

open Command (ofResult)

variable {call : Caller}

/-- What an assignment to an item does once its value and the place are known. -/
def storeItem (call : Caller) (op : AssignOp) (object i : Expr) (v : Value) :
    Option Place → Eval Unit
  | some place => do
    let key ← expr call i
    changePlace place fun container => do return ((), ← stored op key v container)
  | none => do
    let container ← expr call object
    let key ← expr call i
    let _ ← ofResult (stored op key v container)

theorem assign_item (call : Caller) (object i : Expr) (op : AssignOp) (value : Expr) :
    assign call (.item object i) op value =
      expr call value >>= fun v => place? call object >>= storeItem call op object i v := by
  unfold assign
  refine congrArg (expr call value >>= ·) (funext fun v => ?_)
  refine congrArg (place? call object >>= ·) (funext fun o => ?_)
  cases o <;> rfl

section Ending

variable {α β : Type} {m : Machine}

/-- The variables that an action leaves, if it does not fail. -/
def envAfter (x : Eval α) (m : Machine) : Option Environment :=
  match x m with
  | .ok _ m' => some m'.env
  | .error _ _ => none

/-- How much gas was spent before makes no difference to the variables that the action leaves. -/
def GasBlind (m : Machine) (x : Eval α) : Prop :=
  ∀ used, x.envAfter (m.spent used) = x.envAfter m

theorem Quiet.envAfter_bind {x : Eval α} (hx : Quiet x) {f : α → Eval β}
    (hf : ∀ a, GasBlind m (f a)) :
    (x >>= f).envAfter m = (x.outcome m).toOption.bind fun a => (f a).envAfter m := by
  obtain ⟨used, hused⟩ := hx.spends m
  unfold leaves at hused
  unfold envAfter outcome
  rw [bind_apply]
  rcases hr : x m with ⟨a, n⟩ | ⟨e, n⟩ <;> rw [hr] at hused
  · dsimp only at hused ⊢
    rw [hused]
    exact hf a used
  · rfl

theorem GasBlind.bind {x : Eval α} (hm : m.Unlimited) (hx : Quiet x) {f : α → Eval β}
    (hf : ∀ a, GasBlind m (f a)) : GasBlind m (x >>= f) := by
  intro used
  have hf' (a : α) : GasBlind (m.spent used) (f a) := fun n => (hf a n).trans (hf a used).symm
  rw [hx.envAfter_bind hf, hx.envAfter_bind hf', hx.agrees hm used]
  exact congrArg _ (funext fun a => hf a used)

theorem gasBlind_pure (a : α) : GasBlind m (pure a : Eval α) := fun _ => rfl

theorem gasBlind_define (name : String) (v : Value) : GasBlind m (define name v) := fun _ => rfl

theorem envAfter_changePlace (place : Place) (change : Value → Result (α × Value)) :
    (changePlace place change).envAfter m = (m.env.get? place.root).bind fun w =>
      (w.changeAt change place.path).toOption.map fun r => m.env.set place.root r.2 := by
  unfold envAfter
  rw [changePlace_eq]
  rcases m.env.get? place.root with _ | w
  · rfl
  · rw [Option.bind_some]
    dsimp only
    rcases w.changeAt change place.path with e | ⟨a, w'⟩ <;> rfl

theorem gasBlind_changePlace (place : Place) (change : Value → Result (α × Value)) :
    GasBlind m (changePlace place change) := by
  intro used
  rw [envAfter_changePlace, envAfter_changePlace]
  rfl

end Ending

section Failing

variable {α β : Type}

/-- If the action fails, it has done nothing but spend gas. -/
def Atomic (x : Eval α) : Prop :=
  ∀ ⦃m e m'⦄, x m = .error e m' → ∃ used, m' = m.spent used

theorem Quiet.atomic {x : Eval α} (hx : Quiet x) : Atomic x := by
  intro m e m' h
  obtain ⟨used, hused⟩ := hx.spends m
  unfold leaves at hused
  rw [h] at hused
  exact ⟨used, hused⟩

theorem Quiet.bind_atomic {x : Eval α} (hx : Quiet x) {f : α → Eval β}
    (hf : ∀ a, Atomic (f a)) : Atomic (x >>= f) := by
  intro m e m' h
  obtain ⟨used, hused⟩ := hx.spends m
  unfold leaves at hused
  rw [bind_apply] at h
  rcases hr : x m with ⟨a, n⟩ | ⟨e', n⟩ <;> rw [hr] at h hused
  · obtain ⟨used', hused'⟩ := hf a h
    dsimp only at hused
    exact ⟨used', hused'.trans (hused ▸ rfl)⟩
  · cases h
    exact ⟨used, hused⟩

theorem atomic_define (name : String) (v : Value) : Atomic (define name v) := by
  intro m e m' h
  cases h

theorem atomic_changePlace (place : Place) (change : Value → Result (α × Value)) :
    Atomic (changePlace place change) := by
  intro m e m' h
  refine ⟨m.session.gas.used, ?_⟩
  rw [changePlace_eq] at h
  rcases hv : m.env.get? place.root with _ | v <;> rw [hv] at h
  · cases h
    rfl
  · dsimp only at h
    rcases hr : v.changeAt change place.path with e | ⟨a, v'⟩ <;> rw [hr] at h <;> cases h
    rfl

theorem atomic_assign {target : Target} (htarget : target.isCallFree = true) (op : AssignOp)
    {value : Expr} (hvalue : value.isCallFree = true) :
    Atomic (assign call target op value) := by
  have hv : Quiet (expr call value) := quiet_expr value hvalue
  cases target with
  | name ident =>
    unfold assign
    dsimp only
    split
    · exact hv.bind_atomic fun v => atomic_define _ _
    · exact (quiet_variable _).bind_atomic fun current => hv.bind_atomic fun v =>
        (Quiet.ofResult _).bind_atomic fun x => atomic_define _ _
  | item object i =>
    obtain ⟨hobject, hi⟩ := (Bool.and_eq_true _ _).mp htarget
    rw [assign_item]
    refine hv.bind_atomic fun v => (quiet_place object hobject).bind_atomic fun place => ?_
    rcases place with _ | place
    · exact ((quiet_expr object hobject).bind fun container => (quiet_expr i hi).bind fun key =>
        (Quiet.ofResult _).bind fun _ => .pure _).atomic
    · exact (quiet_expr i hi).bind_atomic fun key => atomic_changePlace _ _

/-- An assignment that fails changes no variable, and neither functions nor anything that can be
seen of the run. -/
theorem failed_assign_unchanged {target : Target} {op : AssignOp} {value : Expr} {span : Span}
    (htarget : target.isCallFree = true) (hvalue : value.isCallFree = true) {m m' : Machine}
    {e : RuntimeError} (h : stmt call (.assign target op value span) m = .error e m') :
    m'.env = m.env ∧ m'.functions = m.functions ∧ m'.session.world = m.session.world
      ∧ m'.session.recorder = m.session.recorder ∧ m'.session.steps = m.session.steps
      ∧ m'.session.output = m.session.output := by
  have hatomic : Atomic (assign call target op value >>= fun _ => pure Flow.normal) := by
    intro n e n' hn
    rw [bind_apply] at hn
    rcases hr : assign call target op value n with ⟨u, n₁⟩ | ⟨e₁, n₁⟩ <;> rw [hr] at hn <;>
      cases hn
    exact atomic_assign htarget op hvalue hr
  obtain ⟨used, hticked⟩ : ∃ used, tick.leaves m = m.spent used := (quiet_charge 1).spends m
  unfold leaves at hticked
  rw [stmt, bind_apply] at h
  rcases hr : tick m with ⟨u, n⟩ | ⟨e', n⟩ <;> rw [hr] at h hticked <;> dsimp only at h hticked
  · subst hticked
    rw [bind_apply] at h
    obtain ⟨used', rfl⟩ := hatomic h
    exact ⟨rfl, rfl, rfl, rfl, rfl, rfl⟩
  · cases h
    subst hticked
    exact ⟨rfl, rfl, rfl, rfl, rfl, rfl⟩

/-- An int in a list in a dict, to which a text is added. -/
theorem failed_assign_unchanged_add :
    let m := holding "x" (.dict [(.str "a", .list [.int 1])])
    let object : Expr := .index (.name "x" default) (.str "a" default) default
    let target : Target := .item object (.int (-1) default)
    (target.isCallFree = true ∧ (Expr.str "b" default).isCallFree = true)
      ∧ ∃ e m', stmt (callWithin 0) (.assign target .add (.str "b" default) default) m = .error e m'
        ∧ m'.env = m.env ∧ m'.functions = m.functions ∧ m'.session.world = m.session.world
        ∧ m'.session.recorder = m.session.recorder ∧ m'.session.steps = m.session.steps
        ∧ m'.session.output = m.session.output := by
  intro m object target
  have hfails : (envAfter (stmt (callWithin 0)
      (.assign target .add (.str "b" default) default)) m).isNone = true := by decide +kernel
  unfold envAfter at hfails
  rcases h : stmt (callWithin 0) (.assign target .add (.str "b" default) default) m
    with ⟨flow, m'⟩ | ⟨e, m'⟩
  · rw [h] at hfails
    cases hfails
  · exact ⟨⟨rfl, rfl⟩, e, m', rfl, failed_assign_unchanged rfl rfl h⟩

end Failing

section Expanding

variable {m : Machine} {object i value : Expr} {op : AssignOp} {b : BinOp}

theorem refuseDeep_of_le {v : Value} (h : v.depth ≤ deepestValue) : refuseDeep v = .ok v := if_pos h

theorem outcome_binary (hm : m.Unlimited) {left right : Expr} (hleft : left.isCallFree = true)
    (hright : right.isCallFree = true) (hb : op.binary? = some b) (mark : Mark) :
    (expr call (.binary left b right mark)).outcome m =
      (expr call left).outcome m >>= fun u =>
        (expr call right).outcome m >>= fun v => Value.binary b u v >>= refuseDeep := by
  have hvalue (u : Value) :
      Quiet (expr call right >>= fun v => Command.ofResult (Value.binary b u v)) :=
    (quiet_expr right hright).bind fun _ => .ofResult _
  have hfirst : Quiet (expr call left) := quiet_expr left hleft
  have hall := hfirst.bind hvalue
  have hexpr : expr call (.binary left b right mark) = produce (expr call left >>= fun u =>
      expr call right >>= fun v => Command.ofResult (Value.binary b u v)) := by
    cases op <;> cases hb <;> rw [expr]
  rw [hexpr, outcome_produce hm hall.steady (hall.agrees hm),
    hfirst.outcome_bind fun u => (hvalue u).agrees hm, bind_assoc]
  refine congrArg _ (funext fun u => ?_)
  rw [(quiet_expr right hright).outcome_bind fun v => (Quiet.ofResult _).agrees hm, bind_assoc]
  refine congrArg _ (funext fun v => ?_)
  rw [outcome_ofResult]

theorem outcome_shallow {e : Expr} {v : Value} (h : (expr call e).outcome m = .ok v) :
    v.depth ≤ deepestValue := by
  unfold outcome at h
  rcases hr : expr call e m with ⟨u, n⟩ | ⟨e, n⟩ <;> rw [hr] at h <;> cases h
  exact expr_shallow call e hr

/-- What is read in the container with the key, combined with a value. -/
def combined (b : BinOp) (key v container : Value) : Result Value :=
  (container.index key >>= refuseDeep) >>= fun u => Value.binary b u v >>= refuseDeep

/-- To store a value combined with what is there is to combine the two first. -/
theorem stored_eq (hb : op.binary? = some b) {key v container : Value}
    (hcontainer : container.depth ≤ deepestValue) (hv : v.depth ≤ deepestValue) :
    stored op key v container =
      combined b key v container >>= fun x => stored .set key x container := by
  unfold stored combined
  rw [hb]
  rcases hu : container.index key with e | u
  · rfl
  have hdepth : u.depth ≤ deepestValue := (Value.index_depth_le container key u hu).trans hcontainer
  change (Value.binary b u v >>= fun x => container.setIndex key x)
    = refuseDeep u >>= (fun u => Value.binary b u v >>= refuseDeep) >>= fun x => _
  rw [refuseDeep_of_le hdepth]
  change _ = Value.binary b u v >>= refuseDeep >>= fun x => _
  rcases hx : Value.binary b u v with e | x
  · rfl
  · change _ = refuseDeep x >>= fun x => _
    rw [refuseDeep_of_le (Value.binary_mixes (Value.depth_mixes _) b hdepth hv x hx)]
    rfl

/-- At the end of a path that leads to a container it is the same. -/
theorem changeAt_stored (hb : op.binary? = some b) {key v container w : Value} {path : List Value}
    (hreach : w.Reaches path container) (hcontainer : container.depth ≤ deepestValue)
    (hv : v.depth ≤ deepestValue) :
    (w.changeAt (fun c => do return ((), ← stored op key v c)) path).toOption =
      (combined b key v container).toOption.bind fun x =>
        (w.changeAt (fun c => do return ((), ← stored .set key x c)) path).toOption := by
  have hstored : stored op key v container =
      combined b key v container >>= fun x => stored .set key x container :=
    stored_eq hb hcontainer hv
  rcases hx : combined b key v container with e | x <;> rw [hx] at hstored
  · have hfail := hreach.changeAt_fst fun c => do return ((), ← stored op key v c)
    rw [hstored] at hfail
    rcases hr : w.changeAt (fun c => do return ((), ← stored op key v c)) path with e | r
    · rfl
    · rw [hr] at hfail
      cases hfail
  · refine congrArg Except.toOption (hreach.changeAt_congr ?_)
    rw [hstored]
    rfl

/-- What a place leads to is the value of the expression that means the place. -/
theorem outcome_at_place (hm : m.Unlimited)
    (hdepth : m.env.All fun v => v.depth ≤ deepestValue) :
    ∀ {o : Expr} {place : Place} {w c : Value}, o.isCallFree = true →
      (place? call o).outcome m = .ok (some place) → m.env.get? place.root = some w →
        w.Reaches place.path c → (expr call o).outcome m = .ok c
  | .name s mark, place, w, c, _, hplace, hget, hreach => by
    cases hplace
    obtain rfl : w = c := Except.ok.inj hreach.read_eq
    rw [outcome_name hm, outcome_variable hget]
    exact refuseDeep_of_le (hdepth.get? hget)
  | .index object i mark, place, w, c, hfree, hplace, hget, hreach => by
    obtain ⟨hobject, hi⟩ := (Bool.and_eq_true _ _).mp hfree
    rw [outcome_place_index hm hobject hi] at hplace
    rcases ho : (place? call object).outcome m with e | _ | outer <;> rw [ho] at hplace
    · cases hplace
    · cases hplace
    change (expr call i).outcome m >>= _ = _ at hplace
    rcases hk : (expr call i).outcome m with e | key <;> rw [hk] at hplace <;> cases hplace
    obtain ⟨u, n, hu, hn, rfl⟩ := hreach.exists_of_concat
    have hread : u.index key = .ok (u.content n) := Value.index_of_slot hn
    have hle : (u.content n).depth ≤ deepestValue :=
      hreach.depth_le.trans (hdepth.get? hget)
    rw [outcome_index hm hobject hi, outcome_at_place hm hdepth hobject ho hget hu]
    change (expr call i).outcome m >>= _ = _
    rw [hk]
    change u.index key >>= refuseDeep = _
    rw [hread]
    exact refuseDeep_of_le hle
  | .int _ _, _, _, _, _, hplace, _, _ | .float _ _, _, _, _, _, hplace, _, _
  | .str _ _, _, _, _, _, hplace, _, _ | .bool _ _, _, _, _, _, hplace, _, _
  | .none _, _, _, _, _, hplace, _, _ | .list _ _, _, _, _, _, hplace, _, _
  | .dict _ _, _, _, _, _, hplace, _, _ | .binary _ _ _ _, _, _, _, _, hplace, _, _
  | .unary _ _ _, _, _, _, _, hplace, _, _ | .slice _ _ _ _, _, _, _, _, hplace, _, _ => by
    cases hplace

theorem envAfter_storeItem_some (hi : i.isCallFree = true) (object : Expr) (op : AssignOp)
    (v : Value) (place : Place) :
    (storeItem call op object i v (some place)).envAfter m =
      ((expr call i).outcome m).toOption.bind fun key => (m.env.get? place.root).bind fun w =>
        (w.changeAt (fun c => do return ((), ← stored op key v c)) place.path).toOption.map
          fun r => m.env.set place.root r.2 := by
  refine ((quiet_expr i hi).envAfter_bind fun key => gasBlind_changePlace _ _).trans ?_
  simp only [envAfter_changePlace]

section Item

variable (hm : m.Unlimited) (hobject : object.isCallFree = true) (hi : i.isCallFree = true)
include hm hobject hi

theorem gasBlind_storeItem (op : AssignOp) (v : Value) (o : Option Place) :
    GasBlind m (storeItem call op object i v o) := by
  cases o with
  | some place => exact .bind hm (quiet_expr i hi) fun key => gasBlind_changePlace _ _
  | none =>
    exact .bind hm (quiet_expr object hobject) fun container =>
      .bind hm (quiet_expr i hi) fun key => .bind hm (.ofResult _) fun _ => gasBlind_pure _

theorem envAfter_storeItem_none (op : AssignOp) (v : Value) :
    (storeItem call op object i v none).envAfter m =
      ((expr call object).outcome m).toOption.bind fun container =>
        ((expr call i).outcome m).toOption.bind fun key =>
          (stored op key v container).toOption.map fun _ => m.env := by
  refine ((quiet_expr object hobject).envAfter_bind fun container => .bind hm (quiet_expr i hi)
    fun key => .bind hm (.ofResult _) fun _ => gasBlind_pure _).trans ?_
  refine congrArg _ (funext fun container => ?_)
  refine ((quiet_expr i hi).envAfter_bind fun key => .bind hm (.ofResult _)
    fun _ => gasBlind_pure _).trans ?_
  refine congrArg _ (funext fun key => ?_)
  rcases stored op key v container with e | x <;> rfl

theorem envAfter_assign_item (hvalue : value.isCallFree = true) (op : AssignOp) :
    (assign call (.item object i) op value).envAfter m =
      ((expr call value).outcome m).toOption.bind fun v =>
        ((place? call object).outcome m).toOption.bind fun o =>
          (storeItem call op object i v o).envAfter m := by
  have hstore (v : Value) (o : Option Place) : GasBlind m (storeItem call op object i v o) :=
    gasBlind_storeItem hm hobject hi op v o
  rw [assign_item, (quiet_expr value hvalue).envAfter_bind fun v =>
    .bind hm (quiet_place object hobject) fun o => hstore v o]
  refine congrArg _ (funext fun v => ?_)
  exact (quiet_place object hobject).envAfter_bind fun o => hstore v o

theorem outcome_combined {v container key : Value}
    (hc : (expr call object).outcome m = .ok container) (hk : (expr call i).outcome m = .ok key)
    (mark : Mark) :
    ((expr call (.index object i mark)).outcome m >>= fun u => Value.binary b u v >>= refuseDeep)
      = combined b key v container := by
  rw [outcome_index hm hobject hi, hc]
  change ((expr call i).outcome m >>= fun key => container.index key >>= refuseDeep) >>= _ = _
  rw [hk]
  rfl

variable (hdepth : m.env.All fun v => v.depth ≤ deepestValue) (hb : op.binary? = some b)
include hdepth hb

/-- To combine a value with what is at a place is to read it, to combine the two, and to store the
result. -/
theorem envAfter_store_combined {v : Value} (hv : v.depth ≤ deepestValue) {o : Option Place}
    (ho : (place? call object).outcome m = .ok o) (mark : Mark) :
    (storeItem call op object i v o).envAfter m =
      ((expr call (.index object i mark)).outcome m >>= fun u =>
        Value.binary b u v >>= refuseDeep).toOption.bind fun x =>
          (storeItem call .set object i x o).envAfter m := by
  rcases hk : (expr call i).outcome m with e | key
  · have hnone (op : AssignOp) (x : Value) :
        (storeItem call op object i x o).envAfter m = none := by
      rcases o with _ | place
      · rw [envAfter_storeItem_none hm hobject hi, hk]
        exact Option.bind_fun_none _
      · rw [envAfter_storeItem_some hi, hk]
        rfl
    simp only [hnone, Option.bind_fun_none]
  rcases o with _ | place
  · simp only [envAfter_storeItem_none hm hobject hi]
    rcases hc : (expr call object).outcome m with e | container
    · simp only [Except.toOption, Option.bind_none, Option.bind_fun_none]
    rw [outcome_combined hm hobject hi hc hk]
    simp only [hk, Except.toOption, Option.bind_some]
    rw [stored_eq hb (outcome_shallow hc) hv]
    rcases combined b key v container with e | x <;> rfl
  · simp only [envAfter_storeItem_some hi, hk]
    change (m.env.get? place.root).bind _ = Option.bind _ fun x => (m.env.get? place.root).bind _
    rcases hget : m.env.get? place.root with _ | w
    · simp only [Option.bind_none, Option.bind_fun_none]
    by_cases hreach : ∃ container, w.Reaches place.path container
    · obtain ⟨container, hreach⟩ := hreach
      have hc := outcome_at_place hm hdepth hobject ho hget hreach
      rw [outcome_combined hm hobject hi hc hk, Option.bind_some,
        changeAt_stored hb hreach (outcome_shallow hc) hv]
      rcases combined b key v container with e | x <;> rfl
    · have hnone (op : AssignOp) (x : Value) :
          (w.changeAt (fun c => do return ((), ← stored op key x c)) place.path).toOption
            = none := by
        rcases hr : w.changeAt (fun c => do return ((), ← stored op key x c)) place.path
          with e | r
        · rfl
        · obtain ⟨u, _, hu, -⟩ := Value.exists_reaches_of_changeAt hr
          exact absurd ⟨u, hu⟩ hreach
      simp only [Option.bind_some, hnone, Option.map_none, Option.bind_fun_none]

end Item

section Agreement

variable {target : Target} {span : Span}

theorem envAfter_assign_name (hvalue : value.isCallFree = true) (x : Ident) :
    (assign call (.name x) .set value).envAfter m =
      ((expr call value).outcome m).toOption.map fun v => m.env.define x.name v := by
  refine ((quiet_expr value hvalue).envAfter_bind fun v => gasBlind_define _ _).trans ?_
  rcases (expr call value).outcome m with e | v <;> rfl

variable (hm : m.Unlimited) (hvalue : value.isCallFree = true) (hb : op.binary? = some b)
include hm hvalue hb

theorem envAfter_augment_name (x : Ident) :
    (assign call (.name x) op value).envAfter m =
      ((variable_ x.name).outcome m).toOption.bind fun u =>
        ((expr call value).outcome m).toOption.bind fun v =>
          (Value.binary b u v).toOption.map fun w => m.env.define x.name w := by
  have hassign : assign call (.name x) op value = variable_ x.name >>= fun u =>
      expr call value >>= fun v => ofResult (Value.binary b u v) >>= fun w =>
        define x.name w := by
    unfold assign
    dsimp only
    rw [hb]
  have hdefine (u v : Value) :
      GasBlind m (ofResult (Value.binary b u v) >>= fun w => define x.name w) :=
    .bind hm (.ofResult _) fun w => gasBlind_define _ _
  rw [hassign, (quiet_variable x.name).envAfter_bind fun u =>
    .bind hm (quiet_expr value hvalue) (hdefine u)]
  refine congrArg _ (funext fun u => ?_)
  rw [(quiet_expr value hvalue).envAfter_bind (hdefine u)]
  refine congrArg _ (funext fun v => ?_)
  rcases Value.binary b u v with e | w <;> rfl

variable (hdepth : m.env.All fun v => v.depth ≤ deepestValue)
include hdepth

theorem envAfter_name_expanded (x : Ident) (xmark bmark : Mark) :
    (assign call (.name x) op value).envAfter m =
      (assign call (.name x) .set (.binary (.name x.name xmark) b value bmark)).envAfter m := by
  have hboth : (Expr.binary (.name x.name xmark) b value bmark).isCallFree = true := hvalue
  rw [envAfter_augment_name hm hvalue hb, envAfter_assign_name hboth,
    outcome_binary hm rfl hvalue hb, outcome_name hm]
  rcases hu : (variable_ x.name).outcome m with e | u
  · rfl
  change _ = Option.map _ (refuseDeep u >>= _).toOption
  rw [refuseDeep_of_le (hdepth.get? (get?_of_outcome_variable hu))]
  change ((expr call value).outcome m).toOption.bind _
    = Option.map _ ((expr call value).outcome m >>= _).toOption
  rcases hv : (expr call value).outcome m with e | v
  · rfl
  change Option.map _ (Value.binary b u v).toOption
    = Option.map _ (Value.binary b u v >>= _).toOption
  have hmade := Value.binary_mixes (Value.depth_mixes _) b
    (hdepth.get? (get?_of_outcome_variable hu)) (outcome_shallow hv)
  rcases hw : Value.binary b u v with e | w
  · rfl
  · change _ = Option.map _ (refuseDeep w).toOption
    rw [refuseDeep_of_le (hmade w hw)]

theorem envAfter_item_expanded (hobject : object.isCallFree = true) (hi : i.isCallFree = true)
    (imark bmark : Mark) :
    (assign call (.item object i) op value).envAfter m =
      (assign call (.item object i) .set
        (.binary (.index object i imark) b value bmark)).envAfter m := by
  have hitem : (Expr.index object i imark).isCallFree = true :=
    Bool.and_eq_true_iff.mpr ⟨hobject, hi⟩
  have hboth : (Expr.binary (.index object i imark) b value bmark).isCallFree = true :=
    Bool.and_eq_true_iff.mpr ⟨hitem, hvalue⟩
  rw [envAfter_assign_item hm hobject hi hvalue, envAfter_assign_item hm hobject hi hboth,
    outcome_binary hm hitem hvalue hb]
  rcases hv : (expr call value).outcome m with e | v
  · rcases (expr call (.index object i imark)).outcome m with e | u <;> rfl
  rcases ho : (place? call object).outcome m with e | o
  · simp only [Except.toOption, Option.bind_none, Option.bind_fun_none]
  exact envAfter_store_combined hm hobject hi hdepth hb (outcome_shallow hv) ho imark

omit hvalue hb hdepth in
/-- An assignment starts in a machine with the same variables and with as much gas. -/
theorem envAfter_head (call : Caller) (target : Target) (span : Span) :
    ∃ n : Machine, n.Unlimited ∧ n.env = m.env ∧ ∀ op value,
      (stmt call (.assign target op value span)).envAfter m
        = (assign call target op value).envAfter n := by
  refine ⟨(m.spent (min (m.session.gas.used + 1) Gas.most)).onLine span.line, hm, rfl,
    fun op value => ?_⟩
  unfold envAfter
  rw [stmt, bind_apply, tick, charge_apply hm]
  dsimp only
  rw [bind_apply, setLine_apply]
  dsimp only
  rw [bind_apply]
  rcases assign call target op value _ with ⟨u, n⟩ | ⟨e, n⟩ <;> rfl

/-- An augmented assignment without calls succeeds just where the assignment does in which its
operator is written out, and they leave the same variables. -/
theorem augmented_eq_expanded (htarget : target.isCallFree = true) (mark : Mark) :
    (stmt call (.assign target op value span)).envAfter m =
      (stmt call (.assign target .set (.binary target.expr b value mark) span)).envAfter m := by
  obtain ⟨n, hn, henv, hhead⟩ := envAfter_head hm call target span
  rw [hhead, hhead]
  rw [← henv] at hdepth
  cases target with
  | name x => exact envAfter_name_expanded hn hvalue hb hdepth x _ mark
  | item object i =>
    obtain ⟨hobject, hi⟩ := (Bool.and_eq_true _ _).mp htarget
    exact envAfter_item_expanded hn hvalue hb hdepth hobject hi _ mark

end Agreement

/-- The last item of a list in a dict, with a list that holds the dict added at its end. -/
theorem augmented_eq_expanded_nested :
    let m := holding "x" (.dict [(.str "a", .list [.int 1, .list [.int 2]])])
    let object : Expr := .index (.name "x" default) (.str "a" default) default
    let target : Target := .item object (.int (-1) default)
    let value : Expr := .list [.name "x" default] default
    (m.Unlimited ∧ value.isCallFree = true ∧ AssignOp.add.binary? = some .add
        ∧ (m.env.All fun v => v.depth ≤ deepestValue) ∧ target.isCallFree = true)
      ∧ (stmt (callWithin 0) (.assign target .add value default)).envAfter m =
        (stmt (callWithin 0) (.assign target .set
          (.binary target.expr .add value default) default)).envAfter m
      ∧ ((stmt (callWithin 0) (.assign target .add value default)).envAfter m).isSome = true := by
  intro m object target value
  have hdepth : m.env.All fun v => v.depth ≤ deepestValue :=
    ⟨List.forall_mem_singleton.mpr (by decide), fun _ h => (List.not_mem_nil h).elim⟩
  have hm : m.Unlimited := rfl
  have hsame : (stmt (callWithin 0) (.assign target .add value default)).envAfter m =
      (stmt (callWithin 0) (.assign target .set
        (.binary target.expr .add value default) default)).envAfter m :=
    augmented_eq_expanded hm rfl rfl hdepth rfl default
  exact ⟨⟨hm, rfl, rfl, hdepth, rfl⟩, hsame, by decide +kernel⟩

end Expanding

end Eval

end MissionScript
