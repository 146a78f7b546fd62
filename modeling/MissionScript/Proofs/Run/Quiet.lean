import MissionScript.Proofs.Run.Bookkeeping

/-!
# Quiet expressions

An expression without calls only reads: all that it does to the machine is to spend gas, and while
there is gas it does not matter how much was spent before. So where the gas never runs out, its
outcome is put together from the outcomes of its parts, all of them taken in the machine as it is at
the start.
-/

namespace MissionScript

mutual

/-- Whether the expression calls no function and no method. -/
def Expr.isCallFree : Expr → Bool
  | .int _ _ | .float _ _ | .str _ _ | .bool _ _ | .none _ | .name _ _ => true
  | .list items _ => areCallFree items
  | .dict entries _ => entriesCallFree entries
  | .call _ _ _ | .method _ _ _ _ => false
  | .binary left _ right _ => left.isCallFree && right.isCallFree
  | .unary _ operand _ => operand.isCallFree
  | .index object i _ => object.isCallFree && i.isCallFree
  | .slice object start stop _ => object.isCallFree && (optCallFree start && optCallFree stop)

def areCallFree : List Expr → Bool
  | [] => true
  | e :: es => e.isCallFree && areCallFree es

def entriesCallFree : List (Expr × Expr) → Bool
  | [] => true
  | (k, e) :: es => k.isCallFree && (e.isCallFree && entriesCallFree es)

def optCallFree : Option Expr → Bool
  | none => true
  | some e => e.isCallFree

end

namespace Machine

/-- The machine with another amount of gas spent. -/
def spent (used : Nat) (m : Machine) : Machine :=
  { m with session := { m.session with gas := { m.session.gas with used := used } } }

/-- There is as much gas as can be counted. -/
def Unlimited (m : Machine) : Prop := m.session.gas.limit = Gas.most

end Machine

namespace Eval

/-- What an action gives, without the machine that it leaves. -/
def outcome {α : Type} (x : Eval α) (m : Machine) : Value.Result α :=
  match x m with
  | .ok a _ => .ok a
  | .error e _ => .error e

/-- The action does nothing but spend gas, and if this never runs out, its outcome does not depend
on how much was spent before. -/
structure Quiet {α : Type} (x : Eval α) : Prop where
  spends (m : Machine) : ∃ used, x.leaves m = m.spent used
  agrees {m : Machine} (hm : m.Unlimited) (used : Nat) :
    x.outcome (m.spent used) = x.outcome m

/-- The action leaves the limit of the gas as it is. -/
def Steady {α : Type} (x : Eval α) : Prop :=
  ∀ m, (x.leaves m).session.gas.limit = m.session.gas.limit

section Outcomes

variable {α β : Type} {m : Machine}

theorem outcome_ofResult (r : Value.Result α) :
    outcome (Command.ofResult r) m = r := by
  cases r <;> rfl

theorem charge_apply (hm : m.Unlimited) (n : Nat) :
    onSession (Session.charge n) m
      = .ok () (m.spent (min (m.session.gas.used + n) Gas.most)) := by
  have hspent : ¬ (m.session.gas.charge n).isSpent = true := by
    have hlimit : m.session.gas.limit = Gas.most := hm
    unfold Gas.isSpent Gas.charge
    rw [decide_eq_true_iff]
    dsimp only
    omega
  unfold onSession Session.charge
  simp only [if_neg hspent]
  rfl

/-- What comes after a quiet action may as well be done at the start. -/
theorem Quiet.outcome_bind {x : Eval α} (hx : Quiet x) {f : α → Eval β}
    (hf : ∀ a used, (f a).outcome (m.spent used) = (f a).outcome m) :
    (x >>= f).outcome m = x.outcome m >>= fun a => (f a).outcome m := by
  obtain ⟨used, hused⟩ := hx.spends m
  unfold leaves at hused
  unfold outcome
  rw [bind_apply]
  rcases hr : x m with ⟨a, n⟩ | ⟨e, n⟩ <;> rw [hr] at hused
  · dsimp only at hused ⊢
    rw [hused]
    exact hf a used
  · rfl

theorem Quiet.agrees_bind {x : Eval α} (hx : Quiet x) (hm : m.Unlimited) {f : α → Eval β}
    (hf : ∀ a used, (f a).outcome (m.spent used) = (f a).outcome m) (used : Nat) :
    (x >>= f).outcome (m.spent used) = (x >>= f).outcome m := by
  have hf' (a : α) (n : Nat) :
      (f a).outcome ((m.spent used).spent n) = (f a).outcome (m.spent used) :=
    (hf a n).trans (hf a used).symm
  rw [hx.outcome_bind hf, hx.outcome_bind hf', hx.agrees hm used]
  exact congrArg _ (funext fun a => hf a used)

end Outcomes

section Closure

variable {α β : Type}

theorem spends_of_eq {x : Eval α} {m : Machine} (h : x.leaves m = m) :
    ∃ used, x.leaves m = m.spent used := ⟨m.session.gas.used, h⟩

theorem Quiet.pure (a : α) : Quiet (pure a : Eval α) := ⟨fun _ => spends_of_eq rfl, fun _ _ => rfl⟩

theorem Quiet.throw (e : RuntimeError) : Quiet (throw e : Eval α) :=
  ⟨fun _ => spends_of_eq rfl, fun _ _ => rfl⟩

theorem Quiet.ofResult (r : Value.Result α) : Quiet (Command.ofResult r : Eval α) := by
  cases r with
  | error e => exact .throw e
  | ok a => exact .pure a

theorem Quiet.ite {p : Prop} [Decidable p] {x y : Eval α} (hx : Quiet x) (hy : Quiet y) :
    Quiet (if p then x else y) := by
  split
  · exact hx
  · exact hy

theorem Quiet.bind {x : Eval α} {f : α → Eval β} (hx : Quiet x) (hf : ∀ a, Quiet (f a)) :
    Quiet (x >>= f) where
  spends m := by
    obtain ⟨used, hused⟩ := hx.spends m
    unfold leaves at hused ⊢
    rw [bind_apply]
    rcases hr : x m with ⟨a, n⟩ | ⟨e, n⟩ <;> rw [hr] at hused
    · obtain ⟨used', hused'⟩ := (hf a).spends n
      unfold leaves at hused'
      dsimp only at hused ⊢
      exact ⟨used', hused'.trans (hused ▸ rfl)⟩
    · exact ⟨used, hused⟩
  agrees hm used := hx.agrees_bind hm (fun a n => (hf a).agrees hm n) used

/-- An action whose result depends on what does not change. -/
theorem Quiet.look {f : Machine → Eval α} (hf : ∀ m, Quiet (f m))
    (hspent : ∀ m used, f (m.spent used) = f m) : Quiet (get >>= f) where
  spends m := (hf m).spends m
  agrees {m} hm used := by
    change (f (m.spent used)).outcome (m.spent used) = (f m).outcome m
    rw [hspent]
    exact (hf m).agrees hm used

theorem Quiet.steady {x : Eval α} (hx : Quiet x) : Steady x := by
  intro m
  obtain ⟨used, hused⟩ := hx.spends m
  rw [hused]
  rfl

theorem Steady.bind {x : Eval α} {f : α → Eval β} (hx : Steady x) (hf : ∀ a, Steady (f a)) :
    Steady (x >>= f) := by
  intro m
  have h := hx m
  unfold leaves at h ⊢
  rw [bind_apply]
  rcases hr : x m with ⟨a, n⟩ | ⟨e, n⟩ <;> rw [hr] at h
  · exact (hf a n).trans h
  · exact h

theorem quiet_charge (n : Nat) : Quiet (onSession (Session.charge n)) where
  spends m := by
    unfold leaves onSession Session.charge
    by_cases hspent : (m.session.gas.charge n).isSpent = true
    · simp only [if_pos hspent]
      exact ⟨_, rfl⟩
    · simp only [if_neg hspent]
      exact ⟨_, rfl⟩
  agrees {m} hm used := by
    unfold outcome
    rw [charge_apply hm, charge_apply (m := m.spent used) hm]

theorem quiet_account (v : Value) : Quiet (account v) :=
  .ite ((quiet_charge _).bind fun _ => .pure v) (.throw _)

theorem Quiet.produce {x : Eval Value} (hx : Quiet x) : Quiet (produce x) :=
  (quiet_charge 1).bind fun _ => hx.bind quiet_account

theorem quiet_variable (name : String) : Quiet (variable_ name) := by
  refine .look (fun m => ?_) fun _ _ => rfl
  split
  · exact .pure _
  · exact .ite (.throw _) (.throw _)

end Closure

section Expressions

variable {call : Caller}

mutual

theorem quiet_expr : ∀ e : Expr, e.isCallFree = true → Quiet (expr call e)
  | .int _ _, _ => (Quiet.pure _).produce
  | .float _ _, _ => (Quiet.pure _).produce
  | .str _ _, _ => (Quiet.pure _).produce
  | .bool _ _, _ => (Quiet.pure _).produce
  | .none _, _ => (Quiet.pure _).produce
  | .name s _, _ => (quiet_variable s).produce
  | .list items _, h => ((quiet_exprs items h).bind fun _ => .pure _).produce
  | .dict entries _, h => (quiet_entriesOnto entries h _).produce
  | .binary left op right _, h => by
    obtain ⟨hleft, hright⟩ := (Bool.and_eq_true _ _).mp h
    refine ((quiet_expr left hleft).bind fun a => ?_).produce
    cases op
    case and => exact .ite (quiet_expr right hright) (.pure _)
    case or => exact .ite (.pure _) (quiet_expr right hright)
    all_goals exact (quiet_expr right hright).bind fun _ => .ofResult _
  | .unary _ operand _, h => ((quiet_expr operand h).bind fun _ => .ofResult _).produce
  | .index object i _, h => by
    obtain ⟨hobject, hi⟩ := (Bool.and_eq_true _ _).mp h
    exact ((quiet_expr object hobject).bind fun _ =>
      (quiet_expr i hi).bind fun _ => .ofResult _).produce
  | .slice object start stop _, h => by
    obtain ⟨hobject, h⟩ := (Bool.and_eq_true _ _).mp h
    obtain ⟨hstart, hstop⟩ := (Bool.and_eq_true _ _).mp h
    exact ((quiet_expr object hobject).bind fun _ => (quiet_exprOpt start hstart).bind fun _ =>
      (quiet_exprOpt stop hstop).bind fun _ => .ofResult _).produce

theorem quiet_exprs : ∀ es : List Expr, areCallFree es = true → Quiet (exprs call es)
  | [], _ => .pure _
  | e :: es, h => by
    obtain ⟨he, hes⟩ := (Bool.and_eq_true _ _).mp h
    exact (quiet_expr e he).bind fun _ => (quiet_exprs es hes).bind fun _ => .pure _

theorem quiet_exprOpt : ∀ e : Option Expr, optCallFree e = true → Quiet (exprOpt call e)
  | none, _ => .pure _
  | some e, h => (quiet_expr e h).bind fun _ => .pure _

theorem quiet_entriesOnto : ∀ es : List (Expr × Expr), entriesCallFree es = true →
    ∀ d : Value, Quiet (entriesOnto call d es)
  | [], _, _ => .pure _
  | (k, e) :: es, h, d => by
    obtain ⟨hk, h⟩ := (Bool.and_eq_true _ _).mp h
    obtain ⟨he, hes⟩ := (Bool.and_eq_true _ _).mp h
    exact (quiet_expr k hk).bind fun _ => (quiet_expr e he).bind fun _ =>
      (Quiet.ofResult _).bind fun d => quiet_entriesOnto es hes d

end

theorem quiet_place : ∀ e : Expr, e.isCallFree = true → Quiet (place? call e)
  | .name _ _, _ => .pure _
  | .index object i _, h => by
    obtain ⟨hobject, hi⟩ := (Bool.and_eq_true _ _).mp h
    refine (quiet_place object hobject).bind fun place => ?_
    rcases place with _ | place
    · exact .pure _
    · exact (quiet_expr i hi).bind fun _ => .pure _
  | .int _ _, _ | .float _ _, _ | .str _ _, _ | .bool _ _, _ | .none _, _ | .list _ _, _
  | .dict _ _, _ | .binary _ _ _ _, _ | .unary _ _ _, _ | .slice _ _ _ _, _ => .pure _

end Expressions

section Values

/-- Refuses a value that is nested too deeply. -/
def refuseDeep (v : Value) : Value.Result Value :=
  if v.depth ≤ deepestValue then .ok v else .error .nestedTooDeeply

variable {m : Machine} (hm : m.Unlimited)
include hm

theorem outcome_account (v : Value) : (account v).outcome m = refuseDeep v := by
  unfold account refuseDeep
  split
  · unfold outcome
    rw [bind_apply, charge_apply hm]
    rfl
  · rfl

/-- Where the gas never runs out, a value is made by the action and then only its depth is looked
at. -/
theorem outcome_produce {x : Eval Value} (hx : Steady x)
    (hspent : ∀ used, x.outcome (m.spent used) = x.outcome m) :
    (produce x).outcome m = x.outcome m >>= refuseDeep := by
  have h := hspent (min (m.session.gas.used + 1) Gas.most)
  have hlimit := hx (m.spent (min (m.session.gas.used + 1) Gas.most))
  unfold outcome at h
  unfold leaves at hlimit
  unfold produce outcome
  rw [bind_apply, tick, charge_apply hm]
  dsimp only
  rw [bind_apply, ← h]
  rcases hr : x (m.spent (min (m.session.gas.used + 1) Gas.most)) with ⟨v, n⟩ | ⟨e, n⟩ <;>
    rw [hr] at hlimit
  · exact outcome_account (hlimit.trans hm) v
  · rfl

end Values

end Eval

end MissionScript
