import MissionScript.Proofs.Run.Bookkeeping

/-!
# Gas pays for what the variables hold

The values of all variables together weigh no more than the gas that was spent (`weight_after`), up
to one exception: what an assignment with an operator makes is bound without being paid for. What is
added with `+=` weighs no more than the right side, which is paid for; but `*=` makes a list as long
as is allowed at the price of a statement (`weight_after_exceeds`), and so in a script that has it
each unit of gas can stand for that much.

While the right side of such an assignment is evaluated, the variable can lose weight, and get it
back from its old value. For so long the ledger sets that weight aside, under the variable's name.
-/

namespace MissionScript

open Value (Yields)

/-- All values that variables have, in all scopes. -/
def Environment.values (env : Environment) : List Value :=
  env.globals.map (·.2) ++ env.locals.flatMap fun s => s.bindings.map (·.2)

/-- How much the values of all variables weigh. -/
def Environment.weight (env : Environment) : Nat := (env.values.map Value.weight).sum

/-- How much a unit of gas may have to stand for. -/
def AssignOp.price : AssignOp → Nat
  | mul => longestSequence
  | set | add | sub => 1

theorem AssignOp.price_pos (op : AssignOp) : 1 ≤ op.price := by cases op <;> decide

/-- What an operator makes of a value weighs more than it by what the other value was paid with. -/
theorem AssignOp.weight_le {op : AssignOp} {b : BinOp} (h : op.binary? = some b)
    (current v : Value) :
    Yields (fun x => x.weight ≤ current.weight + op.price * (v.weight + 1))
      (Value.binary b current v) := by
  cases op <;> cases h
  case add =>
    refine (Value.add_weight_le current v).mono fun x hx => ?_
    change x.weight ≤ current.weight + 1 * (v.weight + 1)
    omega
  case sub =>
    exact (Value.arith_weight _ _ _ current v).mono fun x hx => hx ▸ Nat.zero_le _
  case mul =>
    refine (Value.mul_weight_le current v).mono fun x hx => ?_
    have hpaid : longestSequence ≤ longestSequence * (v.weight + 1) :=
      Nat.le_mul_of_pos_right _ (Nat.succ_pos _)
    exact hx.trans (hpaid.trans (Nat.le_add_left _ _))

/-- What is stored in a container is paid for with the value and the key. -/
theorem stored_weight_le (op : AssignOp) (key v container : Value) :
    Yields (fun x => x.weight ≤ container.weight + op.price * (v.weight + 1) + (key.weight + 1))
      (Eval.stored op key v container) := by
  unfold Eval.stored
  dsimp only
  split
  · refine Value.yields_bind (Value.yields_self (.ok v)) fun x hx => ?_
    cases hx
    have hprice : v.weight + 1 ≤ op.price * (v.weight + 1) :=
      Nat.le_mul_of_pos_left _ op.price_pos
    refine (Value.setIndex_cases container key v).mono fun c hc => ?_
    rcases hc with ⟨u, -, hfilled⟩ | ⟨entries, rfl, -, -, rfl⟩
    · have := hfilled.weight_eq
      omega
    · rw [Value.weight_dict, Value.weight_dict, List.map_append, List.sum_append,
        List.map_singleton, List.sum_singleton]
      dsimp only
      omega
  · rename_i b hb
    refine Value.yields_bind (Value.yields_self _) fun u hu => ?_
    refine Value.yields_bind (AssignOp.weight_le hb u v) fun x hx => ?_
    refine (Value.setIndex_cases container key x).mono fun c hc => ?_
    rcases hc with ⟨u', hu', hfilled⟩ | ⟨entries, rfl, -, hmissing, -⟩
    · rw [hu] at hu'
      cases hu'
      have := hfilled.weight_eq
      omega
    · exact absurd hu (Value.index_ne_ok hmissing u)

/-- How much a unit of gas has to stand for where a script makes the change. -/
def Change.price : Change → Nat
  | .assign _ op => op.price
  | .method _ _ => 1

namespace Bindings

variable {bs : Bindings} {name : String} {r r' : String → Nat}

/-- How much the variables weigh, where a variable counts for at least what is set aside for it. -/
def charged (r : String → Nat) (bs : Bindings) : Nat :=
  (bs.map fun b => max b.2.weight (r b.1)).sum

theorem charged_cons (r : String → Nat) (b : String × Value) (bs : Bindings) :
    charged r (b :: bs) = max b.2.weight (r b.1) + bs.charged r := rfl

theorem charged_mono (h : ∀ s, r s ≤ r' s) (bs : Bindings) : bs.charged r ≤ bs.charged r' :=
  List.sum_le_sum fun b _ => max_le_max_left _ (h b.1)

/-- A variable that is given a value costs what the value weighs more than it did before, or more
than what is set aside for it. -/
theorem charged_insert_le {v : Value} {n : Nat} (hr : ∀ s, r s ≤ r' s)
    (hbound : r' name ≠ 0 → name ∈ bs.map (·.1))
    (hv : v.weight ≤ max (((bs.get? name).map Value.weight).getD 0) (r' name) + n) :
    (bs.insert name v).charged r ≤ bs.charged r' + n := by
  induction bs with
  | nil =>
    have hzero : r' name = 0 := by_contra fun h => List.not_mem_nil (hbound h)
    have hle := hr name
    have hv : v.weight ≤ max 0 (r' name) + n := hv
    change max v.weight (r name) + 0 ≤ 0 + n
    omega
  | cons b bs ih =>
    unfold insert
    rw [get?_cons] at hv
    have hle := hr b.1
    split
    · rename_i hb
      rw [if_pos hb, ← hb] at hv
      have hv : v.weight ≤ max b.2.weight (r' b.1) + n := hv
      have := charged_mono hr bs
      rw [charged_cons, charged_cons, ← hb]
      dsimp only
      omega
    · rename_i hb
      rw [if_neg hb] at hv
      have hbound (h : r' name ≠ 0) : name ∈ bs.map (·.1) :=
        (List.mem_cons.mp (hbound h)).resolve_left (Ne.symm hb)
      have := ih hbound hv
      rw [charged_cons, charged_cons]
      omega

/-- To set aside the weight that a variable has changes nothing yet. -/
theorem charged_update {v : Value} (hnames : (bs.map (·.1)).Nodup) (h : bs.get? name = some v) :
    bs.charged (Function.update r name (max (r name) v.weight)) = bs.charged r := by
  induction bs with
  | nil => cases h
  | cons b bs ih =>
    obtain ⟨hb, hnames⟩ := List.nodup_cons.mp hnames
    rw [get?_cons] at h
    rw [charged_cons, charged_cons]
    split at h
    · rename_i hname
      subst hname
      cases h
      have hrest : charged (Function.update r b.1 (max (r b.1) b.2.weight)) bs = charged r bs := by
        refine congrArg List.sum (List.map_congr_left fun e he => ?_)
        rw [Function.update_of_ne]
        exact fun heq => hb (List.mem_map.mpr ⟨e, he, heq⟩)
      rw [hrest, Function.update_self]
      omega
    · rename_i hname
      rw [ih hnames h, Function.update_of_ne hname]

theorem nodup_insert (h : (bs.map (·.1)).Nodup) (name : String) (v : Value) :
    ((bs.insert name v).map (·.1)).Nodup := by
  rw [names_insert]
  split
  · exact h
  · rename_i hname
    exact List.nodup_append.mpr ⟨h, List.pairwise_singleton _ _, fun a ha b hb heq =>
      hname (List.mem_singleton.mp hb ▸ heq ▸ ha)⟩

theorem mem_names_insert (bs : Bindings) {name s : String} (v : Value) (h : s ∈ bs.map (·.1)) :
    s ∈ (bs.insert name v).map (·.1) := by
  rw [names_insert]
  split
  · exact h
  · exact List.mem_append_left _ h

end Bindings

/-- With `c` units of gas to spare the gas that was spent, at `price` for each unit, pays for the
global variables and for what is set aside, while there are `n` local scopes. -/
structure Machine.Pays (price : Nat) (r : String → Nat) (n c : Nat) (m : Machine) : Prop where
  scopes : m.env.locals.length = n
  names : (m.env.globals.map (·.1)).Nodup
  reserved : ∀ s, r s ≠ 0 → s ∈ m.env.globals.map (·.1)
  paid : m.session.gas.used < Gas.most →
    m.env.globals.charged r + price * c ≤ price * m.session.gas.used

namespace Machine.Pays

variable {price n c d : Nat} {r r' : String → Nat} {m : Machine} {name : String} {v w : Value}

theorem less (h : m.Pays price r n c) (hd : d ≤ c) : m.Pays price r n d where
  scopes := h.scopes
  names := h.names
  reserved := h.reserved
  paid hused := (Nat.add_le_add_left (Nat.mul_le_mul_left price hd) _).trans (h.paid hused)

theorem charge (h : m.Pays price r n c) (d : Nat) :
    Pays price r n (c + d)
      { m with session := { m.session with gas := m.session.gas.charge d } } where
  scopes := h.scopes
  names := h.names
  reserved := h.reserved
  paid hused := by
    have hused : min (m.session.gas.used + d) Gas.most < Gas.most := hused
    have := h.paid (by omega)
    change m.env.globals.charged r + price * (c + d)
      ≤ price * min (m.session.gas.used + d) Gas.most
    rw [Nat.min_eq_left (by omega), Nat.mul_add, Nat.mul_add]
    omega

/-- What is set aside can be given back. -/
theorem lower (h : m.Pays price r' n c) (hr : ∀ s, r s ≤ r' s) : m.Pays price r n c where
  scopes := h.scopes
  names := h.names
  reserved s hs := h.reserved s (by have := hr s; omega)
  paid hused := (Nat.add_le_add_right (Bindings.charged_mono hr _) _).trans (h.paid hused)

/-- The weight that a global variable has can be set aside. -/
theorem reserve (h : m.Pays price r n c) (hget : m.env.globals.get? name = some v) :
    m.Pays price (Function.update r name (max (r name) v.weight)) n c where
  scopes := h.scopes
  names := h.names
  reserved s hs := by
    by_cases hname : s = name
    · exact hname ▸ List.mem_map_of_mem (Bindings.mem_of_get? hget)
    · rw [Function.update_of_ne hname] at hs
      exact h.reserved s hs
  paid hused := by
    rw [Bindings.charged_update h.names hget]
    exact h.paid hused

/-- A global variable that gets another value is paid for with what was to spare. -/
theorem insert (h : m.Pays price r' n (c + d)) (hr : ∀ s, r s ≤ r' s)
    (hv : v.weight ≤
      max (((m.env.globals.get? name).map Value.weight).getD 0) (r' name) + price * d)
    {env : Environment} (hglobals : env.globals = m.env.globals.insert name v)
    (hlocals : env.locals.length = m.env.locals.length) :
    Pays price r n c { m with env := env } where
  scopes := hlocals.trans h.scopes
  names := by
    rw [hglobals]
    exact Bindings.nodup_insert h.names name v
  reserved s hs := by
    rw [hglobals]
    have := hr s
    exact Bindings.mem_names_insert _ _ (h.reserved s (by omega))
  paid hused := by
    have := h.paid hused
    have := Bindings.charged_insert_le hr (h.reserved name) hv
    rw [Nat.mul_add] at *
    rw [hglobals]
    dsimp only at *
    omega

/-- Where no global variable changes, nothing is to be paid for. -/
theorem keep (h : m.Pays price r n c) {k : Nat} {env : Environment}
    (hglobals : env.globals = m.env.globals) (hlocals : env.locals.length = k) :
    Pays price r k c { m with env := env } where
  scopes := hlocals
  names := hglobals ▸ h.names
  reserved := hglobals ▸ h.reserved
  paid := hglobals ▸ h.paid

/-- Only a variable that is defined outside of all calls has to be paid for. -/
theorem define (h : m.Pays price r' n (c + d)) (hr : ∀ s, r s ≤ r' s)
    (hv : m.env.locals = [] → v.weight ≤
      max (((m.env.globals.get? name).map Value.weight).getD 0) (r' name) + price * d) :
    Pays price r n c { m with env := m.env.define name v } := by
  rcases Environment.define_cases m.env name v with ⟨hlocals, henv⟩ | ⟨-, hglobals, hlocals⟩
  · exact h.insert hr (hv hlocals) (by rw [henv]) (by rw [henv])
  · have hless := (h.less (Nat.le_add_right c d)).keep hglobals (hlocals.trans h.scopes)
    exact hless.lower hr

theorem set (h : m.Pays price r n (c + d)) (hget : m.env.get? name = some v)
    (hw : w.weight ≤ v.weight + price * d) :
    Pays price r n c { m with env := m.env.set name w } := by
  obtain ⟨hglobals | ⟨hglobal, hglobals⟩, hlocals⟩ := Environment.set_cases hget w
  · exact (h.less (Nat.le_add_right c d)).keep hglobals (hlocals.trans h.scopes)
  · refine h.insert (fun _ => Nat.le_refl _) ?_ hglobals hlocals
    rw [hglobal]
    exact hw.trans (Nat.add_le_add_right (Nat.le_max_left _ _) _)

/-- Where a variable is to get another value that is made from the one it has, the weight of this
one is set aside as long as the other operand is evaluated. -/
theorem hold (h : m.Pays price r n c) {op : AssignOp} {b : BinOp} (hop : op.price ≤ price)
    (hb : op.binary? = some b) (hget : m.env.get? name = some v) :
    ∃ r', m.Pays price r' n c ∧ (∀ s, r s ≤ r' s)
      ∧ ∀ {c' : Nat} {m' : Machine} {w x : Value}, Value.binary b v w = .ok x →
        m'.Pays price r' n (c' + (w.weight + 1)) →
        Pays price r n c' { m' with env := m'.env.define name x } := by
  rcases hlocals : m.env.locals with _ | ⟨s, rest⟩
  · have hglobal : m.env.globals.get? name = some v := by
      unfold Environment.get? at hget
      rw [hlocals] at hget
      exact hget
    have hr (s : String) : r s ≤ Function.update r name (max (r name) v.weight) s := by
      by_cases hs : s = name
      · rw [hs, Function.update_self]
        exact Nat.le_max_left _ _
      · rw [Function.update_of_ne hs]
    refine ⟨_, h.reserve hglobal, hr, fun {c' m' w x} hx h' => h'.define hr fun _ => ?_⟩
    have hweight := op.weight_le hb v w x hx
    have := Nat.mul_le_mul_right (w.weight + 1) hop
    rw [Function.update_self]
    omega
  · -- in a call a variable of its own is defined, and those count for nothing
    refine ⟨r, h, fun _ => Nat.le_refl _, fun {c' m' w x} _ h' =>
      h'.define (fun _ => Nat.le_refl _) fun hnil => ?_⟩
    have hlength := h.scopes.trans h'.scopes.symm
    rw [hlocals, hnil] at hlength
    cases hlength

end Machine.Pays

namespace Ledger

/-- The script makes changes that cost at most `price`, and pays for the global variables. -/
def paying (price : Nat) : Ledger where
  Note := (String → Nat) × Nat
  Allows change := change.price ≤ price
  Holds g c m := m.Pays price g.1 g.2 c

theorem paying_lawful {price : Nat} (hprice : 1 ≤ price) : (paying price).Lawful where
  less h hc := h.less hc
  same {g c m m'} h henv hgas := by
    refine ⟨?_, ?_, ?_, ?_⟩
    · rw [henv]; exact h.scopes
    · rw [henv]; exact h.names
    · rw [henv]; exact h.reserved
    · rw [henv, hgas]; exact h.paid
  charge n h := h.charge n
  define {g c m v} name hv h := by
    refine Machine.Pays.define h (fun _ => Nat.le_refl _) fun _ => ?_
    exact (Nat.le_mul_of_pos_left _ hprice).trans (Nat.le_add_left _ _)
  method {g c m object name args place v a} _ _ _ hv hr h := by
    refine Machine.Pays.set h hv ?_
    have hweight := Value.changeAt_weight_le
      (fun u => (Value.callMethod_remade u name args).mono fun _ => Value.Remade.weight_le) _ v a hr
    exact hweight.trans (Nat.add_le_add_left (Nat.le_mul_of_pos_left _ hprice) _)
  store {g c m object index op key v place w a} hallows _ _ _ hw hr h := by
    have hop : op.price ≤ price := hallows
    rw [Nat.add_assoc] at h
    refine Machine.Pays.set h hw ?_
    have hpaid : op.price * (v.weight + 1) + (key.weight + 1)
        ≤ price * (v.weight + 1 + (key.weight + 1)) := by
      rw [Nat.mul_add price]
      exact Nat.add_le_add (Nat.mul_le_mul_right _ hop) (Nat.le_mul_of_pos_left _ hprice)
    refine Value.changeAt_weight_le (fun u => ?_) _ w a hr
    exact Value.yields_bind (stored_weight_le op key v u) fun x hx =>
      Value.yields_ok (hx.trans (by omega))
  hold hallows hb hcurrent h := by
    obtain ⟨r', hr', hlower, hassign⟩ := Machine.Pays.hold h hallows hb hcurrent
    exact ⟨(r', _), hr', fun h' => h'.lower hlower, fun _ hx h' => hassign hx h'⟩
  call {g c m args} f _ h := by
    obtain ⟨hglobals, hlocals⟩ := Environment.enter_globals f args m.env
    refine ⟨(g.1, g.2 + 1), (h.less (Nat.le_add_right c _)).keep hglobals ?_, fun {c' m'} h' => ?_⟩
    · rw [hlocals, h.scopes]
    · refine Machine.Pays.keep h' rfl ?_
      change m'.env.locals.tail.length = g.2
      rw [List.length_tail, h'.scopes]
      rfl

end Ledger

/-- How much a unit of gas may have to stand for in a script. -/
def price (ss : List Stmt) : Nat := ((changesOfStmts ss).map Change.price).max?.getD 1

theorem Change.price_pos (change : Change) : 1 ≤ change.price := by
  cases change with
  | assign target op => exact op.price_pos
  | method object name => exact Nat.le_refl 1

theorem price_le_price {ss : List Stmt} {change : Change} (h : change ∈ changesOfStmts ss) :
    change.price ≤ price ss :=
  List.le_max?_getD_of_mem (List.mem_map_of_mem h)

theorem price_pos (ss : List Stmt) : 1 ≤ price ss := by
  unfold price
  rcases hmax : ((changesOfStmts ss).map Change.price).max? with _ | n
  · exact Nat.le_refl 1
  · obtain ⟨change, -, hprice⟩ := List.mem_map.mp (List.max?_mem hmax)
    exact hprice ▸ change.price_pos

/-- After any statements, each of which may have failed, the values of all variables weigh no more
than the gas that was spent, at the price of the script, unless so much was spent that it is not
counted any more. -/
theorem weight_after (level : Level) (limits : Limits) (commands : List Command) (ss : List Stmt) :
    let m := (Machine.start level limits commands).after limits ss
    min m.env.weight Gas.most ≤ price ss * m.session.gas.used := by
  intro m
  have hstart : (Ledger.paying (price ss)).Holds (fun _ => 0, 0) 0
      (.start level limits commands) :=
    ⟨rfl, List.nodup_nil, fun _ h => absurd rfl h, fun _ => Nat.zero_le _⟩
  have hpays : m.Pays (price ss) (fun _ => 0) 0 0 :=
    (Ledger.held_after_start (Ledger.paying_lawful (price_pos ss)) hstart
      fun _ h => price_le_price h).holds
  have hweight : m.env.weight = m.env.globals.charged fun _ => 0 := by
    unfold Environment.weight Environment.values Bindings.charged
    rw [List.length_eq_zero_iff.mp hpays.scopes, List.flatMap_nil, List.append_nil, List.map_map]
    exact congrArg List.sum (List.map_congr_left fun b _ => (Nat.max_zero _).symm)
  by_cases hused : m.session.gas.used < Gas.most
  · have := hpays.paid hused
    omega
  · have := Nat.le_mul_of_pos_left m.session.gas.used (price_pos ss)
    omega

/-- A list is repeated in place, and nothing but the statement is paid for. -/
theorem weight_after_exceeds :
    let x : Target := .name ⟨"x", default⟩
    let script : List Stmt :=
      [.assign x .set (.list [.int 0 default] default) default,
        .assign x .mul (.int 20 default) default]
    let m := (Machine.start default .standard Command.standard).after .standard script
    m.env.weight = 20 ∧ m.session.gas.used = 6 := by
  decide +kernel

end MissionScript
