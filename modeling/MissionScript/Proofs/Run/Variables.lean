import MissionScript.Run.Execute

/-!
# Variables that hold values of one sort

What holds of the values of all variables (`Environment.All`) is found again when one is looked up,
and is kept when a variable is given such a value, in whatever scope, and when scopes come and go.
-/

namespace MissionScript

namespace Bindings

theorem get?_cons (b : String × Value) (bs : Bindings) (name : String) :
    get? (b :: bs) name = if b.1 = name then some b.2 else bs.get? name := by
  unfold get?
  rw [List.lookup_cons]
  by_cases h : b.1 = name
  · rw [if_pos h, h, beq_self_eq_true]
  · rw [if_neg h, beq_false_of_ne (Ne.symm h)]

theorem mem_of_get? {bs : Bindings} {name : String} {v : Value} (h : bs.get? name = some v) :
    (name, v) ∈ bs := by
  induction bs with
  | nil => cases h
  | cons b bs ih =>
    rw [get?_cons] at h
    split at h
    · rename_i hb
      rw [← hb, ← Option.some.inj h]
      exact List.mem_cons_self
    · exact List.mem_cons_of_mem _ (ih h)

theorem mem_insert {bs : Bindings} {name : String} {v : Value} {b : String × Value}
    (h : b ∈ bs.insert name v) : b = (name, v) ∨ b ∈ bs := by
  induction bs with
  | nil => exact .inl (List.mem_singleton.mp h)
  | cons c bs ih =>
    unfold insert at h
    split at h
    · exact (List.mem_cons.mp h).imp_right (List.mem_cons_of_mem _)
    · rcases List.mem_cons.mp h with rfl | h
      · exact .inr List.mem_cons_self
      · exact (ih h).imp_right (List.mem_cons_of_mem _)

theorem names_insert (bs : Bindings) (name : String) (v : Value) :
    (bs.insert name v).map (·.1) =
      if name ∈ bs.map (·.1) then bs.map (·.1) else bs.map (·.1) ++ [name] := by
  induction bs with
  | nil => rfl
  | cons b bs ih =>
    unfold insert
    split
    · rename_i hb
      rw [List.map_cons, List.map_cons, hb, if_pos List.mem_cons_self]
    · rename_i hb
      rw [List.map_cons, List.map_cons, ih]
      by_cases hmem : name ∈ bs.map (·.1)
      · rw [if_pos hmem, if_pos (List.mem_cons_of_mem _ hmem)]
      · rw [if_neg hmem, if_neg (List.not_mem_cons_of_ne_of_not_mem (Ne.symm hb) hmem)]
        rfl

theorem get?_insert (bs : Bindings) (name : String) (v : Value) (s : String) :
    (bs.insert name v).get? s = if name = s then some v else bs.get? s := by
  induction bs with
  | nil => exact get?_cons (name, v) [] s
  | cons b bs ih =>
    unfold insert
    split
    · rename_i hb
      rw [get?_cons, get?_cons, hb]
      split <;> rfl
    · rename_i hb
      rw [get?_cons, get?_cons, ih]
      by_cases hs : b.1 = s
      · rw [if_pos hs, if_pos hs, if_neg fun h => hb (hs.trans h.symm)]
      · rw [if_neg hs, if_neg hs]

theorem has_eq_true {bs : Bindings} {name : String} {v : Value} (h : bs.get? name = some v) :
    bs.has name = true := by
  unfold has
  rw [h]
  rfl

theorem has_eq_false {bs : Bindings} {name : String} (h : bs.get? name = none) :
    bs.has name = false := by
  unfold has
  rw [h]
  rfl

end Bindings

namespace Environment

/-- All variables have values of which `P` holds. -/
structure All (P : Value → Prop) (env : Environment) : Prop where
  globals : ∀ b ∈ env.globals, P b.2
  locals : ∀ s ∈ env.locals, ∀ b ∈ s.bindings, P b.2

variable {P : Value → Prop} {env : Environment}

theorem all_empty : empty.All P := ⟨fun _ h => (List.not_mem_nil h).elim,
  fun _ h => (List.not_mem_nil h).elim⟩

theorem All.mono {Q : Value → Prop} (h : env.All P) (hPQ : ∀ v, P v → Q v) : env.All Q :=
  ⟨fun b hb => hPQ _ (h.globals b hb), fun s hs b hb => hPQ _ (h.locals s hs b hb)⟩

theorem all_insert {bs : Bindings} {name : String} {v : Value} (h : ∀ b ∈ bs, P b.2) (hv : P v) :
    ∀ b ∈ bs.insert name v, P b.2 := by
  intro b hb
  rcases Bindings.mem_insert hb with rfl | hb
  · exact hv
  · exact h b hb

theorem all_getFrom {globals : Bindings} {name : String} {v : Value}
    (hglobals : ∀ b ∈ globals, P b.2) : ∀ {locals : List Scope} {i : Nat},
      (∀ s ∈ locals, ∀ b ∈ s.bindings, P b.2) → getFrom globals name locals i = some v → P v
  | _, 0, _, h => by
    unfold getFrom at h
    exact hglobals _ (Bindings.mem_of_get? h)
  | [], _ + 1, _, h => by cases h
  | s :: rest, i + 1, hlocals, h => by
    rw [List.forall_mem_cons] at hlocals
    unfold getFrom at h
    split at h
    · split at h
      · rename_i hs
        exact hlocals.1 _ (Bindings.mem_of_get? (hs.trans h))
      · exact all_getFrom hglobals hlocals.2 h
    · exact all_getFrom hglobals hlocals.2 h

theorem All.get? (h : env.All P) {name : String} {v : Value} (hv : env.get? name = some v) : P v :=
  all_getFrom h.globals h.locals hv

theorem All.define (h : env.All P) {v : Value} (hv : P v) (name : String) :
    (env.define name v).All P := by
  unfold Environment.define
  split
  · exact ⟨all_insert h.globals hv, h.locals⟩
  · rename_i s rest hlocals
    have hall := h.locals
    rw [hlocals, List.forall_mem_cons] at hall
    refine ⟨h.globals, ?_⟩
    rw [List.forall_mem_cons]
    exact ⟨all_insert hall.1 hv, hall.2⟩

theorem all_setFrom {globals : Bindings} (name : String) {v : Value} (hv : P v)
    (hglobals : ∀ b ∈ globals, P b.2) : ∀ {locals : List Scope} {i : Nat},
      (∀ s ∈ locals, ∀ b ∈ s.bindings, P b.2) →
        (∀ b ∈ (setFrom name v globals locals i).1, P b.2)
          ∧ ∀ s ∈ (setFrom name v globals locals i).2, ∀ b ∈ s.bindings, P b.2
  | _, 0, hlocals => by
    unfold setFrom
    refine ⟨?_, hlocals⟩
    dsimp only
    split
    · exact all_insert hglobals hv
    · exact hglobals
  | [], _ + 1, hlocals => ⟨hglobals, hlocals⟩
  | s :: rest, i + 1, hlocals => by
    rw [List.forall_mem_cons] at hlocals
    unfold setFrom
    split
    · split
      · exact ⟨hglobals, List.forall_mem_cons.mpr ⟨all_insert hlocals.1 hv, hlocals.2⟩⟩
      · have ih := all_setFrom name hv hglobals (i := s.parent) hlocals.2
        exact ⟨ih.1, List.forall_mem_cons.mpr ⟨hlocals.1, ih.2⟩⟩
    · have ih := all_setFrom name hv hglobals (i := i + 1) hlocals.2
      exact ⟨ih.1, List.forall_mem_cons.mpr ⟨hlocals.1, ih.2⟩⟩

theorem All.set (h : env.All P) {v : Value} (hv : P v) (name : String) :
    (env.set name v).All P := by
  have hset := all_setFrom name hv h.globals (i := env.locals.length) h.locals
  exact ⟨hset.1, hset.2⟩

theorem All.pop (h : env.All P) : env.pop.All P :=
  ⟨h.globals, fun s hs => h.locals s (List.mem_of_mem_tail hs)⟩

theorem All.push (h : env.All P) (parent : Nat) : (env.push parent).All P :=
  ⟨h.globals, List.forall_mem_cons.mpr ⟨fun _ hb => (List.not_mem_nil hb).elim, h.locals⟩⟩

theorem enter_eq (f : Function) (args : List Value) (env : Environment) :
    Eval.enter f args env =
      (f.params.zip args).foldl (fun e q => e.define q.1.name q.2) (env.push 0) := rfl

theorem All.enter (h : env.All P) (f : Function) {args : List Value} (hargs : ∀ v ∈ args, P v) :
    (Eval.enter f args env).All P := by
  rw [enter_eq]
  exact List.foldlRecOn _ _ (h.push 0) fun e he q hq =>
    he.define (hargs q.2 (List.of_mem_zip hq).2) _

section Globals

theorem define_cases (env : Environment) (name : String) (v : Value) :
    (env.locals = [] ∧ env.define name v = { env with globals := env.globals.insert name v })
      ∨ env.locals ≠ [] ∧ (env.define name v).globals = env.globals
        ∧ (env.define name v).locals.length = env.locals.length := by
  unfold Environment.define
  rcases hlocals : env.locals with _ | ⟨s, rest⟩
  · exact .inl ⟨rfl, rfl⟩
  · exact .inr ⟨List.cons_ne_nil _ _, rfl, rfl⟩

/-- To give a variable a new value leaves the global ones as they are, or it is a global one. -/
theorem setFrom_cases {globals : Bindings} {name : String} {v w : Value} :
    ∀ {locals : List Scope} {i : Nat}, getFrom globals name locals i = some v →
      ((setFrom name w globals locals i).1 = globals
          ∨ globals.get? name = some v
            ∧ (setFrom name w globals locals i).1 = globals.insert name w)
        ∧ (setFrom name w globals locals i).2.length = locals.length
  | locals, 0, h => by
    unfold getFrom at h
    unfold setFrom
    rw [if_pos (Bindings.has_eq_true h)]
    exact ⟨.inr ⟨h, rfl⟩, rfl⟩
  | [], _ + 1, h => by cases h
  | s :: rest, i + 1, h => by
    unfold getFrom at h
    unfold setFrom
    split at h
    · rename_i hi
      rw [if_pos hi]
      rcases hv : s.bindings.get? name with _ | u <;> rw [hv] at h
      · rw [Bindings.has_eq_false hv, if_neg Bool.false_ne_true]
        have ih := setFrom_cases (w := w) h
        exact ⟨ih.1, congrArg (· + 1) ih.2⟩
      · rw [if_pos (Bindings.has_eq_true hv)]
        exact ⟨.inl rfl, rfl⟩
    · rename_i hi
      rw [if_neg hi]
      have ih := setFrom_cases (w := w) h
      exact ⟨ih.1, congrArg (· + 1) ih.2⟩

theorem set_cases {env : Environment} {name : String} {v : Value} (h : env.get? name = some v)
    (w : Value) :
    ((env.set name w).globals = env.globals
        ∨ env.globals.get? name = some v
          ∧ (env.set name w).globals = env.globals.insert name w)
      ∧ (env.set name w).locals.length = env.locals.length := setFrom_cases h

theorem enter_globals (f : Function) (args : List Value) (env : Environment) :
    (Eval.enter f args env).globals = env.globals
      ∧ (Eval.enter f args env).locals.length = env.locals.length + 1 := by
  rw [enter_eq]
  refine List.foldlRecOn (motive := fun e : Environment => e.globals = env.globals
    ∧ e.locals.length = env.locals.length + 1) _ _ ⟨rfl, rfl⟩ fun e he q _ => ?_
  rcases define_cases e q.1.name q.2 with ⟨hnil, -⟩ | ⟨-, hglobals, hlocals⟩
  · rw [hnil] at he
    cases he.2
  · exact ⟨hglobals.trans he.1, hlocals.trans he.2⟩

end Globals

end Environment

end MissionScript
