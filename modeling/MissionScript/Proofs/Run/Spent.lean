import MissionScript.Proofs.Run.Quiet

/-!
# Gas that never runs out

Gas is counted only so that a run can be stopped. On machines where it never runs out, two runs of
the same actions from machines that differ in the gas spent so far are alike: they end in the same
way and leave machines behind that differ in nothing but the gas spent (`Alike`). One of the runs
may also pay for more on its way than the other does (`Alike.charge_right`). This is kept by all
that a script is put together from (`alike_congruence`).
-/

namespace MissionScript

/-- A machine with all the gas that can be counted and the standard commands. -/
structure Machine.Rich (m : Machine) : Prop where
  unlimited : m.Unlimited
  commands : m.commands = Command.standard

namespace Eval

/-- The second outcome is the first one, but for the amount of gas spent. -/
inductive SameButGas {α : Type} : EStateM.Result RuntimeError Machine α →
    EStateM.Result RuntimeError Machine α → Prop
  | ok (a : α) (m : Machine) (used : Nat) : SameButGas (.ok a m) (.ok a (m.spent used))
  | error (e : RuntimeError) (m : Machine) (used : Nat) :
    SameButGas (.error e m) (.error e (m.spent used))

/-- On rich machines that differ in the gas spent only, the actions do the same. -/
structure Alike {α : Type} (x y : Eval α) : Prop where
  same {m : Machine} (hm : m.Rich) (used : Nat) : SameButGas (x m) (y (m.spent used))
  rich {m m' : Machine} {a : α} : m.Rich → x m = .ok a m' → m'.Rich

variable {α β : Type}

theorem SameButGas.bind {x y : Eval α} {f g : α → Eval β} {m m' : Machine}
    (h : SameButGas (x m) (y m'))
    (hf : ∀ a n used, x m = .ok a n → SameButGas (f a n) (g a (n.spent used))) :
    SameButGas ((x >>= f) m) ((y >>= g) m') := by
  rw [bind_apply, bind_apply]
  generalize x m = r at h hf
  generalize y m' = r' at h
  cases h with
  | ok a n used => exact hf a n used rfl
  | error e n used => exact .error e n used

namespace Alike

theorem bind {x y : Eval α} {f g : α → Eval β} (h : Alike x y) (hf : ∀ a, Alike (f a) (g a)) :
    Alike (x >>= f) (y >>= g) where
  same hm used :=
    (h.same hm used).bind fun a _ used' ha => (hf a).same (h.rich hm ha) used'
  rich {m m' b} hm hb := by
    rw [bind_apply] at hb
    rcases hx : x m with ⟨a, n⟩ | ⟨e, n⟩ <;> rw [hx] at hb
    · exact (hf a).rich (h.rich hm hx) hb
    · cases hb

/-- An action that does the same with any amount of gas spent. -/
theorem of_eq {x : Eval α}
    (hsame : ∀ m used, x (m.spent used) =
      match x m with
      | .ok a n => .ok a (n.spent used)
      | .error e n => .error e (n.spent used))
    (hrich : ∀ {m : Machine} {a n}, m.Rich → x m = .ok a n → n.Rich) : Alike x x where
  same {m} _ used := by
    rw [hsame]
    cases x m with
    | ok a n => exact .ok a n used
    | error e n => exact .error e n used
  rich := hrich

theorem pure (a : α) : Alike (pure a) (pure a) :=
  .of_eq (fun _ _ => rfl) fun hm h => by
    cases h
    exact hm

theorem throw (e : RuntimeError) : Alike (throw e : Eval α) (throw e) :=
  .of_eq (fun _ _ => rfl) fun _ h => by cases h

/-- A change to the machine that has nothing to do with gas or commands. -/
theorem modify {f : Machine → Machine} (hsame : ∀ m used, f (m.spent used) = (f m).spent used)
    (hrich : ∀ m : Machine, m.Rich → (f m).Rich) : Alike (modify f) (modify f) :=
  .of_eq (fun m used => by rw [modify_apply, modify_apply, hsame]) fun hm h => by
    cases h
    exact hrich _ hm

theorem charge (n : Nat) : Alike (onSession (Session.charge n)) (onSession (Session.charge n)) where
  same {m} hm used := by
    have hspent : (m.spent used).Unlimited := hm.unlimited
    rw [charge_apply hm.unlimited, charge_apply hspent]
    exact .ok () (m.spent _) _
  rich hm h := by
    rw [charge_apply hm.unlimited] at h
    cases h
    exact ⟨hm.unlimited, hm.commands⟩

/-- Only the right side charges. -/
theorem charge_right {x y : Eval α} (h : Alike x y) (n : Nat) :
    Alike x (do onSession (Session.charge n); y) where
  same {m} hm used := by
    have hspent : (m.spent used).Unlimited := hm.unlimited
    rw [bind_apply, charge_apply hspent]
    exact h.same hm _
  rich := h.rich

/-- An action in the session that has nothing to do with the gas. -/
theorem onSession {act : Act α}
    (hact : ∀ s gas, act { s with gas := gas } =
      match act s with
      | .ok a s' => .ok a { s' with gas := gas }
      | .error e s' => .error e { s' with gas := gas }) :
    Alike (onSession act) (onSession act) := by
  have hgas (s : Session) :
      match act s with
      | .ok _ s' | .error _ s' => s'.gas = s.gas := by
    have h : act s = _ := hact s s.gas
    rcases hr : act s with ⟨a, s'⟩ | ⟨e, s'⟩ <;> rw [hr] at h
    · exact (congrArg Session.gas (EStateM.Result.ok.inj h).2 :)
    · exact (congrArg Session.gas (EStateM.Result.error.inj h).2 :)
  refine .of_eq (fun m used => ?_) fun {m a n} hm h => ?_
  · have h := hgas m.session
    unfold Eval.onSession Machine.spent
    dsimp only
    rw [hact]
    rcases hr : act m.session with ⟨a, s⟩ | ⟨e, s⟩ <;> rw [hr] at h <;> dsimp only at h ⊢ <;> rw [h]
  · have hsame := hgas m.session
    unfold Eval.onSession at h
    rcases hr : act m.session with ⟨b, s⟩ | ⟨e, s⟩ <;> rw [hr] at h hsame <;> cases h
    exact ⟨(congrArg Gas.limit hsame).trans hm.unlimited, hm.commands⟩

theorem moveOnce (d : Direction) :
    Alike (Eval.onSession (Session.moveOnce d)) (Eval.onSession (Session.moveOnce d)) := by
  refine .onSession fun s gas => ?_
  rw [Session.moveOnce_eq, Session.moveOnce_eq]
  rcases s.steps.consume? with _ | b
  · rfl
  · dsimp only
    rcases Session.ahead s.world d with o | p <;> rfl

theorem speak (text : String) :
    Alike (Eval.onSession (Session.speak text)) (Eval.onSession (Session.speak text)) := by
  refine .onSession fun s gas => ?_
  rw [Session.speak_eq, Session.speak_eq]
  rcases s.steps.consume? with _ | b <;> rfl

theorem changePlace (place : Place) (change : Value → Value.Result (α × Value)) :
    Alike (Eval.changePlace place change) (Eval.changePlace place change) := by
  refine .of_eq (fun m used => ?_) fun {m a n} hm h => ?_
  · rw [changePlace_eq, changePlace_eq]
    have henv : (m.spent used).env = m.env := rfl
    rw [henv]
    rcases m.env.get? place.root with _ | v
    · rfl
    · dsimp only
      rcases v.changeAt change place.path with e | ⟨a, v'⟩ <;> rfl
  · rw [changePlace_eq] at h
    rcases hv : m.env.get? place.root with _ | v <;> rw [hv] at h
    · cases h
    · dsimp only at h
      rcases hc : v.changeAt change place.path with e | ⟨a, v'⟩ <;> rw [hc] at h <;> cases h
      exact ⟨hm.unlimited, hm.commands⟩

theorem inScope (f : Function) (args : List Value) {x y : Eval Flow} (h : Alike x y) :
    Alike (Eval.inScope f args x) (Eval.inScope f args y) where
  same {m} hm used := by
    have hinside : Machine.Rich { m with env := enter f args m.env } := ⟨hm.unlimited, hm.commands⟩
    have h := h.same hinside used
    have hspent : Machine.spent used { m with env := enter f args m.env } =
      { m.spent used with env := enter f args (m.spent used).env } := rfl
    rw [hspent] at h
    unfold Eval.inScope
    generalize x _ = r at h
    generalize y _ = r' at h
    cases h with
    | ok flow n used =>
      let session := { n.session with line := m.session.line }
      exact .ok _ { n with env := n.env.pop, session := session } used
    | error e n used => exact .error e { n with env := n.env.pop } used
  rich {m n v} hm hv := by
    have hinside : Machine.Rich { m with env := enter f args m.env } := ⟨hm.unlimited, hm.commands⟩
    unfold Eval.inScope at hv
    rcases hr : x { m with env := enter f args m.env } with ⟨flow, n'⟩ | ⟨e, n'⟩ <;>
      rw [hr] at hv <;> cases hv
    have h := h.rich hinside hr
    exact ⟨h.unlimited, h.commands⟩

end Alike

/-- How much gas was spent makes no difference to what a script does while there is gas left. -/
theorem alike_congruence : CallCongruence fun _ x y => Alike x y where
  pure := .pure
  bind := .bind
  fail _ := .throw _
  look hf :=
    { same := fun {m} hm used => (hf m (m.spent used) ⟨rfl, rfl, rfl⟩).same hm used
      rich := fun {m _ _} hm h => (hf m m ⟨rfl, rfl, rfl⟩).rich hm h }
  charge := .charge
  moveOnce := .moveOnce
  speak := .speak
  changePlace place _ _ _ := .changePlace place _
  setLine _ := .modify (fun _ _ => rfl) fun _ hm => ⟨hm.unlimited, hm.commands⟩
  define _ _ := .modify (fun _ _ => rfl) fun _ hm => ⟨hm.unlimited, hm.commands⟩
  learn _ := .modify (fun _ _ => rfl) fun _ hm => ⟨hm.unlimited, hm.commands⟩
  tooDeep := .throw _
  inScope f args _ _ h := .inScope f args h

end Eval

end MissionScript
