import MissionScript.Proofs.Run.Bookkeeping

/-!
# Calls are isolated

A call has a scope of its own, and the scope around it is the global one. So whatever the function
does, and whether it comes to an end or fails, no variable of the callers changes and no global
variable comes or goes; the call can only change what is inside of global lists and dicts
(`call_isolated`). The invariant that carries this through all statements, loops and nested calls is
that the innermost scope lies directly in the global one and that nothing below it has changed
(`Environment.Inside`).

There are as many calls under way as there are local scopes, and this is what the limit on calls is
held against (`call_eq_counting`).
-/

namespace MissionScript

open Value (Altered Yields)

/-- The same variables with altered values. -/
structure Bindings.Altered (bs bs' : Bindings) : Prop where
  names : bs'.map (·.1) = bs.map (·.1)
  values {name : String} {v : Value} : bs.get? name = some v →
    ∃ v', bs'.get? name = some v' ∧ Value.Altered v v'

namespace Bindings

theorem Altered.refl (bs : Bindings) : bs.Altered bs := ⟨rfl, fun h => ⟨_, h, .same _⟩⟩

theorem Altered.trans {bs bs' bs'' : Bindings} (h : bs.Altered bs') (h' : bs'.Altered bs'') :
    bs.Altered bs'' := by
  refine ⟨h'.names.trans h.names, fun hv => ?_⟩
  obtain ⟨v', hv', halter⟩ := h.values hv
  obtain ⟨v'', hv'', halter'⟩ := h'.values hv'
  exact ⟨v'', hv'', halter.trans halter'⟩

theorem Altered.insert {bs : Bindings} {name : String} {v v' : Value}
    (hget : bs.get? name = some v) (hv : Value.Altered v v') :
    bs.Altered (bs.insert name v') where
  names := by
    have hmem : name ∈ bs.map (·.1) := List.mem_map_of_mem (mem_of_get? hget)
    rw [names_insert, if_pos hmem]
  values {s u} hs := by
    rw [get?_insert]
    by_cases hname : name = s
    · subst hname
      rw [hget] at hs
      cases hs
      exact ⟨v', if_pos rfl, hv⟩
    · rw [if_neg hname]
      exact ⟨u, hs, .same u⟩

end Bindings

namespace Environment

/-- The innermost scope is that of a call which began with these local scopes and global variables;
since then nothing has changed outside but what is inside of global lists and dicts. -/
structure Inside (locals : List Scope) (globals : Bindings) (env : Environment) : Prop where
  scope : ∃ s : Scope, env.locals = s :: locals ∧ s.parent = 0
  globals : globals.Altered env.globals

variable {locals : List Scope} {globals : Bindings} {env : Environment}

theorem Inside.define (h : env.Inside locals globals) (name : String) (v : Value) :
    (env.define name v).Inside locals globals := by
  obtain ⟨s, hs, hparent⟩ := h.scope
  unfold Environment.define
  rw [hs]
  exact ⟨⟨_, rfl, hparent⟩, h.globals⟩

/-- A name that is not found in the scope of the call means a global variable. -/
theorem Inside.set (h : env.Inside locals globals) {name : String} {v v' : Value}
    (hget : env.get? name = some v) (hv : Altered v v') :
    (env.set name v').Inside locals globals := by
  obtain ⟨s, hs, hparent⟩ := h.scope
  unfold Environment.get? at hget
  unfold Environment.set
  rw [hs, List.length_cons] at hget ⊢
  unfold getFrom at hget
  unfold setFrom
  rw [if_pos rfl] at hget ⊢
  rcases hlocal : s.bindings.get? name with _ | u <;> rw [hlocal] at hget
  · rw [Bindings.has_eq_false hlocal, if_neg Bool.false_ne_true, hparent]
    rw [hparent] at hget
    unfold getFrom at hget
    unfold setFrom
    rw [if_pos (Bindings.has_eq_true hget)]
    exact ⟨⟨s, rfl, hparent⟩, h.globals.trans (.insert hget hv)⟩
  · rw [if_pos (Bindings.has_eq_true hlocal)]
    exact ⟨⟨_, rfl, hparent⟩, h.globals⟩

theorem inside_enter (f : Function) (args : List Value) (env : Environment) :
    (Eval.enter f args env).Inside env.locals env.globals := by
  rw [enter_eq]
  exact List.foldlRecOn _ _ ⟨⟨_, rfl, rfl⟩, .refl _⟩ fun _ h _ _ => h.define _ _

end Environment

/-- How many calls are under way: each has a scope of its own. -/
def Machine.calls (m : Machine) : Nat := m.env.locals.length

namespace Eval

open Command (ofResult)

/-- Inside of a call the action changes nothing outside of it. -/
def Isolated {α : Type} (x : Eval α) : Prop :=
  ∀ ⦃locals globals m⦄, m.env.Inside locals globals → (x.leaves m).env.Inside locals globals

section Isolated

variable {α β : Type}

theorem Isolated.bind {x : Eval α} {f : α → Eval β} (hx : Isolated x) (hf : ∀ a, Isolated (f a)) :
    Isolated (x >>= f) := by
  intro locals globals m hm
  have h := hx hm
  unfold leaves at h ⊢
  rw [bind_apply]
  rcases hr : x m with ⟨a, m'⟩ | ⟨e, m'⟩ <;> rw [hr] at h
  · exact hf a h
  · exact h

theorem isolated_onSession (act : Act α) : Isolated (onSession act) := by
  intro locals globals m hm
  unfold leaves onSession
  rcases act m.session with ⟨a, s⟩ | ⟨e, s⟩ <;> exact hm

theorem isolated_changePlace (place : Place) {change : Value → Value.Result (α × Value)}
    (h : ∀ v, Yields (fun r => Altered v r.2) (change v)) :
    Isolated (changePlace place change) := by
  intro locals globals m hm
  unfold leaves
  rw [changePlace_eq]
  rcases hget : m.env.get? place.root with _ | v
  · exact hm
  · dsimp only
    rcases hr : v.changeAt change place.path with e | ⟨a, v'⟩
    · exact hm
    · exact hm.set hget (Value.changeAt_altered h _ _ _ hr)

/-- The body of a function leaves the local scopes of its callers as they are. -/
theorem leaves_inScope {x : Eval Flow} (hx : Isolated x) (f : Function) (args : List Value)
    (m : Machine) :
    ((inScope f args x).leaves m).env.locals = m.env.locals
      ∧ m.env.globals.Altered ((inScope f args x).leaves m).env.globals := by
  have h := hx (m := { m with env := enter f args m.env })
    (Environment.inside_enter f args m.env)
  unfold leaves inScope at *
  rcases hr : x { m with env := enter f args m.env } with ⟨flow, m'⟩ | ⟨e, m'⟩ <;> rw [hr] at h <;>
  · obtain ⟨s, hs, -⟩ := h.scope
    exact ⟨congrArg List.tail hs, h.globals⟩

theorem isolated_inScope {x : Eval Flow} (hx : Isolated x) (f : Function) (args : List Value) :
    Isolated (inScope f args x) := by
  intro locals globals m hm
  obtain ⟨hlocals, hglobals⟩ := leaves_inScope hx f args m
  exact ⟨hlocals ▸ hm.scope, hm.globals.trans hglobals⟩

end Isolated

/-- Whatever a script does in a call is isolated. -/
theorem isolated_congruence : CallCongruence fun _ x _ => Isolated x where
  pure _ _ _ _ h := h
  bind hx hf := hx.bind hf
  fail _ _ _ _ h := h
  look hf _ _ m h := hf m m ⟨rfl, rfl, rfl⟩ h
  charge _ := isolated_onSession _
  moveOnce _ := isolated_onSession _
  speak _ := isolated_onSession _
  changePlace place _ _ h := isolated_changePlace place h
  setLine _ _ _ _ h := h
  define name v _ _ _ h := h.define name v
  learn _ _ _ _ h := h
  tooDeep {_} _ _ _ h := h
  inScope f args _ _ h := isolated_inScope h f args

/-- Outside of all calls, too, a call changes nothing but what is inside of global lists and
dicts. -/
theorem leaves_callWithin (limit : Nat) (f : Function) (args : List Value) (m : Machine) :
    ((callWithin limit f args).leaves m).env.locals = m.env.locals
      ∧ m.env.globals.Altered ((callWithin limit f args).leaves m).env.globals := by
  have hsame := And.intro (Eq.refl m.env.locals) (Bindings.Altered.refl m.env.globals)
  unfold callWithin
  rcases (Arity.exact f.params.length).check f.name.name args.length with e | u
  · exact hsame
  · cases limit with
    | zero => exact hsame
    | succ rest =>
      have hbody : Isolated (block (callWithin rest) f.body) :=
        @related_block (fun _ x _ => Isolated x) _ isolated_congruence.anywhere _ (callWithin rest)
          (@related_callNamed _ isolated_congruence.toExprCongruence _ (callWithin rest)
            (related_callWithin isolated_congruence rest)) f.body fun _ _ => trivial
      exact leaves_inScope hbody f args m

section Counting

/-- Calls a function unless as many calls as `most` are under way. At most `depth` calls more are
begun. -/
def callCounting (most : Nat) : Nat → Caller
  | depth, f, args => do
    ofResult ((Arity.exact f.params.length).check f.name.name args.length)
    if most ≤ (← get).calls then throw .recursionTooDeep
    else
      match depth with
      | 0 => throw .recursionTooDeep
      | rest + 1 => inScope f args (block (callCounting most rest) f.body)

/-- With `n` calls under way the two actions do the same, and then `n` calls are under way. -/
def AgreeAt (n : Nat) ⦃α : Type⦄ (x y : Eval α) : Prop :=
  ∀ m, m.calls = n → x m = y m ∧ (x.leaves m).calls = n

theorem AgreeAt.bind {n : Nat} {α β : Type} {x y : Eval α} {f g : α → Eval β} (hx : AgreeAt n x y)
    (hf : ∀ a, AgreeAt n (f a) (g a)) : AgreeAt n (x >>= f) (y >>= g) := by
  intro m hm
  obtain ⟨heq, hcalls⟩ := hx m hm
  unfold leaves at hcalls ⊢
  rw [bind_apply, bind_apply, ← heq]
  rcases hr : x m with ⟨a, m'⟩ | ⟨e, m'⟩ <;> rw [hr] at hcalls
  · exact hf a m' hcalls
  · exact ⟨rfl, hcalls⟩

theorem agreeAt_onSession {n : Nat} {α : Type} (act : Act α) :
    AgreeAt n (onSession act) (onSession act) := by
  intro m hm
  refine ⟨rfl, ?_⟩
  unfold leaves onSession
  rcases act m.session with ⟨a, s⟩ | ⟨e, s⟩ <;> exact hm

theorem agreeAt_changePlace {n : Nat} {α : Type} (place : Place)
    (change : Value → Value.Result (α × Value)) :
    AgreeAt n (changePlace place change) (changePlace place change) := by
  intro m hm
  refine ⟨rfl, ?_⟩
  unfold leaves
  rw [changePlace_eq]
  rcases hget : m.env.get? place.root with _ | v
  · exact hm
  · dsimp only
    rcases v.changeAt change place.path with e | ⟨a, v'⟩
    · exact hm
    · exact (Environment.set_cases hget v').2.trans hm

theorem agreeAt_congruence (n : Nat) : StmtCongruence fun _ x y => AgreeAt n x y where
  pure _ _ hm := ⟨rfl, hm⟩
  bind hx hf := hx.bind hf
  fail _ _ hm := ⟨rfl, hm⟩
  look hf m hm := hf m m ⟨rfl, rfl, rfl⟩ m hm
  charge _ := agreeAt_onSession _
  moveOnce _ := agreeAt_onSession _
  speak _ := agreeAt_onSession _
  changePlace place _ _ _ := agreeAt_changePlace place _
  setLine _ _ hm := ⟨rfl, hm⟩
  define name v m hm := by
    refine ⟨rfl, ?_⟩
    change (m.env.define name v).locals.length = n
    rcases Environment.define_cases m.env name v with ⟨-, henv⟩ | ⟨-, -, hlocals⟩
    · rw [henv]
      exact hm
    · exact hlocals.trans hm
  learn _ _ hm := ⟨rfl, hm⟩

/-- In a call one more call is under way. -/
theorem AgreeAt.inScope {n : Nat} {x y : Eval Flow} (h : AgreeAt (n + 1) x y) (f : Function)
    (args : List Value) : AgreeAt n (inScope f args x) (inScope f args y) := by
  intro m hm
  have henter : Machine.calls { m with env := enter f args m.env } = n + 1 :=
    (Environment.enter_globals f args m.env).2.trans (congrArg (· + 1) hm)
  obtain ⟨heq, hcalls⟩ := h _ henter
  unfold leaves Eval.inScope at *
  rw [← heq]
  refine ⟨rfl, ?_⟩
  rcases hr : x { m with env := enter f args m.env } with ⟨flow, m'⟩ | ⟨e, m'⟩ <;>
    rw [hr] at hcalls <;>
  · dsimp only at hcalls ⊢
    unfold Machine.calls Environment.pop at *
    rw [List.length_tail, hcalls]
    rfl

theorem agreeAt_callCounting : ∀ (limit n : Nat) (f : Function) (args : List Value),
    AgreeAt n (callWithin limit f args) (callCounting (n + limit) limit f args)
  | limit, n, f, args => by
    unfold callWithin callCounting
    have h := agreeAt_congruence n
    refine h.bind (related_ofResult h.toExprCongruence (Value.arityCheck_confined _ _ _))
      fun _ m hm => ?_
    rw [bind_apply, get_apply]
    dsimp only
    cases limit with
    | zero =>
      rw [if_pos (by omega)]
      exact ⟨rfl, hm⟩
    | succ rest =>
      have hbody : AgreeAt (n + 1) (block (callWithin rest) f.body)
          (block (callCounting (n + (rest + 1)) rest) f.body) := by
        have hnext := agreeAt_congruence (n + 1)
        refine related_block hnext.anywhere
          (related_callNamed hnext.toExprCongruence fun f args => ?_) f.body fun _ _ => trivial
        -- one call more is under way and one less is left, so their sum stays
        rw [show n + (rest + 1) = n + 1 + rest by omega]
        exact agreeAt_callCounting rest (n + 1) f args
      rw [if_neg (by omega)]
      exact hbody.inScope f args m hm

/-- The limit that is left is the one on all calls without those that are under way. -/
theorem call_eq_counting (limit : Nat) (f : Function) (args : List Value) (m : Machine) :
    callWithin limit f args m = callCounting (m.calls + limit) limit f args m :=
  (agreeAt_callCounting limit m.calls f args m rfl).1

end Counting

end Eval

/-- A call, whether it succeeds or fails, leaves the scopes and the calls under way as many as they
were, no local scope and no global variable changed that is not a list or a dict, and a list or a
dict under the name of each global variable that was one. The calls under way are those that the
limit on calls is held against. -/
theorem call_isolated (limit : Nat) (f : Function) (args : List Value) (m : Machine) :
    let m' := (Eval.callWithin limit f args).leaves m
    m'.env.depth = m.env.depth ∧ m'.calls = m.calls
      ∧ m'.env.locals = m.env.locals
      ∧ m'.env.globals.map (·.1) = m.env.globals.map (·.1)
      ∧ (∀ name v, m.env.globals.get? name = some v →
          (v.isHashable = true → m'.env.globals.get? name = some v)
            ∧ (∀ items, v = .list items → ∃ items', m'.env.globals.get? name = some (.list items'))
            ∧ ∀ entries, v = .dict entries →
                ∃ entries', m'.env.globals.get? name = some (.dict entries'))
      ∧ Eval.callWithin limit f args m = Eval.callCounting (m.calls + limit) limit f args m := by
  intro m'
  obtain ⟨hlocals, hglobals⟩ := Eval.leaves_callWithin limit f args m
  refine ⟨?_, congrArg List.length hlocals, hlocals, hglobals.names, fun name v hv => ?_,
    Eval.call_eq_counting limit f args m⟩
  · exact congrArg (fun locals => List.length locals + 1) hlocals
  obtain ⟨v', hv', halter⟩ := hglobals.values hv
  refine ⟨fun hplain => ?_, fun items hitems => ?_, fun entries hentries => ?_⟩
  · cases halter with
    | same => exact hv'
    | list => cases hplain
    | dict => cases hplain
  · subst hitems
    cases halter with
    | same => exact ⟨_, hv'⟩
    | list _ items' => exact ⟨items', hv'⟩
  · subst hentries
    cases halter with
    | same => exact ⟨_, hv'⟩
    | dict _ entries' => exact ⟨entries', hv'⟩

end MissionScript
