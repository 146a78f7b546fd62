import MissionScript.Proofs.Run.Trail
import MissionScript.Proofs.Run.Variables
import MissionScript.Proofs.Script.Changes
import MissionScript.Proofs.Value.Extent

/-!
# Ledgers

What is said about the values of all variables, and about the gas that was paid for them, is kept by
a run for the same few reasons each time. A ledger is such an invariant: it says what a machine is
like when so much gas has been paid in advance, for values that are on their way to a variable. Each
value that an expression gives is checked for its depth, and its weight and one unit more have been
paid. To define a variable spends the weight of its value.

A ledger is lawful if it is kept where a variable gets a value: where one is defined, changed at a
place or assigned anew from its old value, and where a call begins and ends. What an action keeps is
put together from what its parts keep (`Keeps.bind`).
-/

namespace MissionScript

open Value (WellKeyed Yields)

/-- A value that has been checked. -/
structure Value.Checked (v : Value) : Prop where
  keyed : WellKeyed v
  depth : v.depth ≤ deepestValue

/-- An invariant of machines that counts gas paid in advance. -/
structure Ledger where
  /-- What is kept in mind while a part of the script runs. -/
  Note : Type
  /-- The changes that the script may make. -/
  Allows : Change → Prop
  Holds : Note → Nat → Machine → Prop

namespace Ledger

variable (L : Ledger)

/-- The ledger is kept by all that gives a variable a value. -/
structure Lawful : Prop where
  less {g : L.Note} {c c' : Nat} {m : Machine} : L.Holds g c m → c' ≤ c → L.Holds g c' m
  /-- Only variables and gas matter. -/
  same {g : L.Note} {c : Nat} {m m' : Machine} : L.Holds g c m → m'.env = m.env →
    m'.session.gas = m.session.gas → L.Holds g c m'
  charge {g : L.Note} {c : Nat} {m : Machine} (n : Nat) : L.Holds g c m →
    L.Holds g (c + n) { m with session := { m.session with gas := m.session.gas.charge n } }
  define {g : L.Note} {c : Nat} {m : Machine} {v : Value} (name : String) : v.Checked →
    L.Holds g (c + v.weight) m → L.Holds g c { m with env := m.env.define name v }
  method {g : L.Note} {c : Nat} {m : Machine} {object : Expr} {name : String} {args : List Value}
      {place : Eval.Place} {v : Value} {r : Value × Value} :
    L.Allows (.method object name) → (∀ a ∈ args, a.Checked) →
      place.path.length = object.subscripts → m.env.get? place.root = some v →
      v.changeAt (fun u => u.callMethod name args) place.path = .ok r →
      L.Holds g (c + (Value.list args).weight) m →
      L.Holds g c { m with env := m.env.set place.root r.2 }
  store {g : L.Note} {c : Nat} {m : Machine} {object index : Expr} {op : AssignOp} {key v : Value}
      {place : Eval.Place} {w : Value} {r : Unit × Value} :
    L.Allows (.assign (.item object index) op) → key.Checked → v.Checked →
      place.path.length = object.subscripts → m.env.get? place.root = some w →
      w.changeAt (fun u => do return ((), ← Eval.stored op key v u)) place.path = .ok r →
      L.Holds g (c + (v.weight + 1) + (key.weight + 1)) m →
      L.Holds g c { m with env := m.env.set place.root r.2 }
  /-- What a variable is to be given can be computed from the value that it had before. -/
  hold {g : L.Note} {c : Nat} {m : Machine} {ident : Ident} {op : AssignOp} {b : BinOp}
      {current : Value} :
    L.Allows (.assign (.name ident) op) → op.binary? = some b →
      m.env.get? ident.name = some current → L.Holds g c m →
      ∃ g', L.Holds g' c m ∧ (∀ {c' m'}, L.Holds g' c' m' → L.Holds g c' m')
        ∧ ∀ {c' m' v x}, v.Checked → Value.binary b current v = .ok x →
          L.Holds g' (c' + (v.weight + 1)) m' →
          L.Holds g c' { m' with env := m'.env.define ident.name x }
  /-- The variables of a call are paid for as long as it lasts. -/
  call {g : L.Note} {c : Nat} {m : Machine} {args : List Value} (f : Function) :
    (∀ a ∈ args, a.Checked) → L.Holds g (c + (Value.list args).weight) m →
      ∃ g', L.Holds g' c { m with env := Eval.enter f args m.env }
        ∧ ∀ {c' m'}, L.Holds g' c' m' → L.Holds g c' { m' with env := m'.env.pop }

/-- All of the changes are allowed. -/
def AllowsAll (changes : List Change) : Prop := ∀ change ∈ changes, L.Allows change

variable {L} in
theorem allowsAll_append {changes changes' : List Change} :
    L.AllowsAll (changes ++ changes') ↔ L.AllowsAll changes ∧ L.AllowsAll changes' :=
  List.forall_mem_append

variable {L} in
theorem allowsAll_cons {change : Change} {changes : List Change} :
    L.AllowsAll (change :: changes) ↔ L.Allows change ∧ L.AllowsAll changes :=
  List.forall_mem_cons

/-- The ledger holds of a machine that only knows functions that keep it. -/
structure Held (g : L.Note) (c : Nat) (m : Machine) : Prop where
  functions : ∀ f ∈ m.functions, L.AllowsAll f.body.changes
  keyed : m.env.All WellKeyed
  holds : L.Holds g c m

/-- From where `c` is paid in advance the action keeps the ledger. It gives a value of which `F`
holds, and then `w` is paid in advance; an error may lose what was paid. -/
def Keeps {α : Type} (c : Nat) (x : Eval α) (F : α → Prop) (w : α → Nat) : Prop :=
  ∀ g m, L.Held g c m →
    match x m with
    | .ok a m' => F a ∧ L.Held g (w a) m'
    | .error _ m' => L.Held g 0 m'

variable {L} (hL : L.Lawful)

section Actions

variable {α β : Type} {F : α → Prop} {H : β → Prop} {c : Nat} {w : α → Nat}

theorem Keeps.bind {x : Eval α} {f : α → Eval β} {u : β → Nat} (hx : L.Keeps c x F w)
    (hf : ∀ a, F a → L.Keeps (w a) (f a) H u) : L.Keeps c (x >>= f) H u := by
  intro g m hm
  have h := hx g m hm
  rw [bind_apply]
  rcases hr : x m with ⟨a, m'⟩ | ⟨e, m'⟩ <;> rw [hr] at h
  · exact hf a h.1 g m' h.2
  · exact h

/-- An action whose result depends on the machine at its start. -/
theorem Keeps.look {f : Machine → Eval α}
    (hf : ∀ m, (∀ d ∈ m.functions, L.AllowsAll d.body.changes) → m.env.All WellKeyed →
      L.Keeps c (f m) F w) : L.Keeps c (get >>= f) F w :=
  fun g m hm => hf m hm.functions hm.keyed g m hm

theorem Keeps.ite {p : Prop} [Decidable p] {x y : Eval α} (hx : L.Keeps c x F w)
    (hy : L.Keeps c y F w) : L.Keeps c (if p then x else y) F w := by
  split
  · exact hx
  · exact hy

include hL

theorem Held.less {g : L.Note} {c c' : Nat} {m : Machine} (h : L.Held g c m) (hc : c' ≤ c) :
    L.Held g c' m := ⟨h.functions, h.keyed, hL.less h.holds hc⟩

theorem keeps_pure {a : α} (ha : F a) (hc : w a ≤ c) : L.Keeps c (pure a) F w :=
  fun _ _ hm => ⟨ha, hm.less hL hc⟩

theorem keeps_throw (e : RuntimeError) : L.Keeps c (throw e : Eval α) F w :=
  fun _ _ hm => hm.less hL (Nat.zero_le c)

theorem Keeps.mono {x : Eval α} {G : α → Prop} {u : α → Nat} (hx : L.Keeps c x F w)
    (hF : ∀ a, F a → G a ∧ u a ≤ w a) : L.Keeps c x G u := by
  intro g m hm
  have h := hx g m hm
  rcases hr : x m with ⟨a, m'⟩ | ⟨e, m'⟩ <;> rw [hr] at h
  · exact ⟨(hF a h.1).1, h.2.less hL (hF a h.1).2⟩
  · exact h

theorem Keeps.spend {x : Eval α} {c' : Nat} (hx : L.Keeps c x F w) (hc : c ≤ c') :
    L.Keeps c' x F w := fun g m hm => hx g m (hm.less hL hc)

theorem keeps_ofResult {r : Value.Result α} (hr : Yields F r) :
    L.Keeps c (Command.ofResult r) F (fun _ => c) := by
  rcases r with e | a
  · exact keeps_throw hL e
  · exact keeps_pure hL (hr a rfl) (Nat.le_refl c)

theorem keeps_modify {f : Machine → Machine} (hfunctions : ∀ m, (f m).functions = m.functions)
    (henv : ∀ m, (f m).env = m.env) (hgas : ∀ m, (f m).session.gas = m.session.gas) :
    L.Keeps c (modify f) (fun _ => True) (fun _ => c) := by
  intro g m hm
  refine ⟨trivial, ?_, ?_, hL.same hm.holds (henv m) (hgas m)⟩
  · rw [hfunctions]
    exact hm.functions
  · rw [henv]
    exact hm.keyed

theorem keeps_onSession {act : Act α} (hact : ∀ s, match act s with
      | .ok a s' => F a ∧ s'.gas = s.gas
      | .error _ s' => s'.gas = s.gas) : L.Keeps c (Eval.onSession act) F (fun _ => c) := by
  intro g m hm
  have h := hact m.session
  unfold Eval.onSession
  rcases hr : act m.session with ⟨a, s⟩ | ⟨e, s⟩ <;> rw [hr] at h
  · exact ⟨h.1, hm.functions, hm.keyed, hL.same hm.holds rfl h.2⟩
  · exact ⟨hm.functions, hm.keyed, hL.less (hL.same hm.holds rfl h) (Nat.zero_le c)⟩

theorem keeps_charge (n : Nat) :
    L.Keeps c (Eval.onSession (Session.charge n)) (fun _ => True) (fun _ => c + n) := by
  intro g m hm
  have h : L.Held g (c + n)
      { m with session := { m.session with gas := m.session.gas.charge n } } :=
    ⟨hm.functions, hm.keyed, hL.charge n hm.holds⟩
  unfold Eval.onSession Session.charge
  by_cases hspent : (m.session.gas.charge n).isSpent = true
  · simp only [if_pos hspent]
    exact h.less hL (Nat.zero_le _)
  · simp only [if_neg hspent]
    exact ⟨trivial, h⟩

theorem keeps_tick : L.Keeps c Eval.tick (fun _ => True) (fun _ => c + 1) := keeps_charge hL 1

theorem keeps_setLine (line : Nat) :
    L.Keeps c (Eval.setLine line) (fun _ => True) (fun _ => c) :=
  keeps_modify hL (fun _ => rfl) (fun _ => rfl) (fun _ => rfl)

theorem keeps_define (name : String) {v : Value} (hv : v.Checked) :
    L.Keeps (c + v.weight) (Eval.define name v) (fun _ => True) (fun _ => c) :=
  fun _ _ hm =>
    ⟨trivial, hm.functions, hm.keyed.define hv.keyed name, hL.define name hv hm.holds⟩

theorem keeps_changePlace {place : Eval.Place} {c' : Nat}
    {change : Value → Value.Result (α × Value)}
    (hkeyed : ∀ v, WellKeyed v → Yields (fun r => F r.1 ∧ WellKeyed r.2) (change v))
    (hholds : ∀ {g m v r}, L.Holds g c m → m.env.get? place.root = some v →
      v.changeAt change place.path = .ok r →
      L.Holds g c' { m with env := m.env.set place.root r.2 }) :
    L.Keeps c (Eval.changePlace place change) F (fun _ => c') := by
  intro g m hm
  rw [Eval.changePlace_eq]
  rcases hv : m.env.get? place.root with _ | v
  · exact hm.less hL (Nat.zero_le c)
  · dsimp only
    rcases hr : v.changeAt change place.path with e | ⟨a, v'⟩
    · exact hm.less hL (Nat.zero_le c)
    · obtain ⟨ha, hv'⟩ := Value.changeAt_wellKeyed hkeyed place.path (hm.keyed.get? hv) _ hr
      exact ⟨ha, hm.functions, hm.keyed.set hv' _, hholds hm.holds hv hr⟩

theorem keeps_variable (name : String) :
    L.Keeps c (Eval.variable_ name) WellKeyed (fun _ => c) := by
  refine .look fun m _ hkeyed => ?_
  split
  · exact keeps_pure hL (hkeyed.get? ‹_›) (Nat.le_refl c)
  · exact .ite (keeps_throw hL _) (keeps_throw hL _)

end Actions

section Commands

variable {α β : Type} {F : α → Prop} {H : β → Prop} {c : Nat} {w : α → Nat}

theorem Keeps.onSession_bind {act : Act α} {next : α → Act β} {u : β → Nat}
    (hact : L.Keeps c (Eval.onSession act) F w)
    (hnext : ∀ a, F a → L.Keeps (w a) (Eval.onSession (next a)) H u) :
    L.Keeps c (Eval.onSession (act >>= next)) H u := by
  rw [Eval.onSession_bind]
  exact hact.bind hnext

include hL

theorem keeps_onSession_ofResult {r : Value.Result α} (hr : Yields F r) :
    L.Keeps c (Eval.onSession (Command.ofResult r)) F (fun _ => c) := by
  rw [Eval.onSession_ofResult]
  exact keeps_ofResult hL hr

/-- Gas that a command charges is not used to pay for values. -/
theorem keeps_onSession_charge (n : Nat) :
    L.Keeps c (Eval.onSession (Session.charge n)) (fun _ => True) (fun _ => c) :=
  (keeps_charge hL n).mono hL fun _ _ => ⟨trivial, Nat.le_add_right c n⟩

theorem keeps_moveOnce (d : Direction) :
    L.Keeps c (Eval.onSession (Session.moveOnce d)) (fun _ => True) (fun _ => c) := by
  refine keeps_onSession hL fun s => ?_
  rw [Session.moveOnce_eq]
  rcases s.steps.consume? with _ | b
  · rfl
  · dsimp only
    rcases Session.ahead s.world d with o | p
    · rfl
    · exact ⟨trivial, rfl⟩

theorem keeps_speak (text : String) :
    L.Keeps c (Eval.onSession (Session.speak text)) (fun _ => True) (fun _ => c) := by
  refine keeps_onSession hL fun s => ?_
  rw [Session.speak_eq]
  rcases s.steps.consume? with _ | b
  · rfl
  · exact ⟨trivial, rfl⟩

theorem keeps_times {act : Act Unit}
    (hact : L.Keeps c (Eval.onSession act) (fun _ => True) (fun _ => c)) :
    ∀ n, L.Keeps c (Eval.onSession (Session.times act n)) (fun _ => True) (fun _ => c)
  | 0 => keeps_pure hL trivial (Nat.le_refl c)
  | n + 1 => hact.onSession_bind fun _ _ => keeps_times hact n

theorem keeps_effect (command : Command) {args : List Value} (hargs : ∀ v ∈ args, WellKeyed v) :
    L.Keeps c (Eval.onSession (command.effect args)) WellKeyed (fun _ => c) := by
  have hscalar {v : Value} (h : v.isHashable = true) :
      L.Keeps c (Eval.onSession (pure v : Act Value)) WellKeyed (fun _ => c) :=
    keeps_pure hL (.scalar h) (Nat.le_refl c)
  cases command with
  | move d =>
    exact (keeps_onSession_ofResult hL (Value.yields_true _)).onSession_bind fun n _ =>
      (keeps_times hL (keeps_moveOnce hL d) n).onSession_bind fun _ _ => hscalar rfl
  | speak => exact (keeps_speak hL _).onSession_bind fun _ _ => hscalar rfl
  | abs =>
    exact keeps_onSession_ofResult hL ((Command.magnitude_scalar _).mono fun _ => .scalar)
  | sum =>
    exact (keeps_onSession_ofResult hL
      (Value.items_wellKeyed (Value.first_wellKeyed hargs))).onSession_bind fun items hitems =>
        (keeps_onSession_charge hL _).onSession_bind fun _ _ =>
          keeps_onSession_ofResult hL (Command.total_wellKeyed hitems (.scalar rfl))
  | max | min =>
    exact (keeps_onSession_charge hL _).onSession_bind fun _ _ =>
      keeps_onSession_ofResult hL (Command.extreme_wellKeyed _ _ _ hargs)
  | len => exact keeps_onSession_ofResult hL ((Command.length_scalar _).mono fun _ => .scalar)
  | range =>
    refine (keeps_onSession_ofResult hL (Value.yields_true _)).onSession_bind fun r _ =>
      (keeps_onSession_charge hL _).onSession_bind fun _ _ => ?_
    split
    · exact keeps_pure hL (Command.take_wellKeyed r _) (Nat.le_refl c)
    · exact keeps_throw hL _
  | str => exact hscalar rfl
  | int =>
    exact keeps_onSession_ofResult hL ((Command.toInteger_scalar _).mono fun _ => .scalar)

theorem keeps_invoke (command : Command) {args : List Value} (hargs : ∀ v ∈ args, WellKeyed v) :
    L.Keeps c (Eval.onSession (command.invoke args)) WellKeyed (fun _ => c) :=
  (keeps_onSession_ofResult hL (Value.yields_true _)).onSession_bind fun _ _ =>
    keeps_effect hL command hargs

end Commands

end Ledger

end MissionScript
