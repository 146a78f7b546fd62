import MissionScript.Proofs.Run.Variables

/-!
# Lexical scopes

Scopes come and go in the order of their numbers, and each of them but the global one names the scope
around it. In every environment that can be made this is an older one, so that going outwards from
the innermost scope comes to the global one (`Chain`). A name means its variable in the nearest of
the scopes on this way, and no scope beside the way is looked at; to give the name a new value
changes this one variable. A scope that is left leaves nothing behind (`scopes_lexical`).
-/

namespace MissionScript.Environment

/-- What can be made by opening and leaving scopes, and by giving variables values. A scope that is
opened lies in one that there is. -/
inductive Built : Environment → Prop
  | empty : Built empty
  | push {env : Environment} {p : Nat} (h : Built env) (hp : p < env.depth) : Built (env.push p)
  | pop {env : Environment} (h : Built env) : Built env.pop
  | define {env : Environment} (h : Built env) (name : String) (v : Value) :
      Built (env.define name v)
  | set {env : Environment} (h : Built env) (name : String) (v : Value) : Built (env.set name v)

/-- The variables of the scope with this number. -/
def bindingsAt (env : Environment) : Nat → Bindings
  | 0 => env.globals
  | i + 1 => (env.locals.reverse[i]?.map (·.bindings)).getD []

/-- The number of the scope around the one with this number. -/
def parent? (env : Environment) : Nat → Option Nat
  | 0 => none
  | i + 1 => env.locals.reverse[i]?.map (·.parent)

/-- Going from the scope with this number to the one around it, and so on, leads through these
scopes to the global one. -/
inductive Chain (env : Environment) : Nat → List Nat → Prop
  | global : Chain env 0 [0]
  | around {i p : Nat} {chain : List Nat} (hp : env.parent? i = some p) (h : Chain env p chain) :
      Chain env i (i :: chain)

/-- The scope around a scope is an older one. -/
def Lexical (env : Environment) : Prop := ∀ i p, env.parent? i = some p → p < i

/-- The environment with one variable of one scope given a value. -/
def rebind (env : Environment) (name : String) (v : Value) : Nat → Environment
  | 0 => { env with globals := env.globals.insert name v }
  | i + 1 => { env with
      locals := env.locals.modify (env.locals.length - (i + 1))
        fun s => { s with bindings := s.bindings.insert name v } }

/-- The second environment is the first with `v` as the value of one variable in scope `i`. -/
structure Changed (name : String) (v : Value) (i : Nat) (env env' : Environment) : Prop where
  depth : env'.depth = env.depth
  parents (j : Nat) : env'.parent? j = env.parent? j
  names (j : Nat) : (env'.bindingsAt j).map (·.1) = (env.bindingsAt j).map (·.1)
  values (j : Nat) (s : String) : (env'.bindingsAt j).get? s =
    if j = i ∧ s = name then some v else (env.bindingsAt j).get? s

section Numbers

variable {s t : Scope} {rest : List Scope} {i : Nat}

theorem getElem?_reverse_cons (h : i < rest.length) :
    (s :: rest).reverse[i]? = rest.reverse[i]? := by
  rw [List.reverse_cons, List.getElem?_append_left (by rwa [List.length_reverse])]

theorem getElem?_reverse_length : (s :: rest).reverse[rest.length]? = some s := by
  rw [List.reverse_cons, ← List.length_reverse, List.getElem?_concat_length]

/-- The scope with a number is the innermost one, or it has the number without that one. -/
theorem reverse_cons_cases (h : (s :: rest).reverse[i]? = some t) :
    i = rest.length ∧ t = s ∨ i < rest.length ∧ rest.reverse[i]? = some t := by
  rw [List.reverse_cons, List.getElem?_append, List.length_reverse] at h
  split at h
  · exact .inr ⟨‹_›, h⟩
  · rcases hk : i - rest.length with _ | k <;> rw [hk] at h <;> cases h
    exact .inl ⟨by omega, rfl⟩

end Numbers

section Lookup

variable {globals : Bindings} {name : String} {v : Value} {s t : Scope} {rest locals : List Scope}
  {i : Nat}

/-- A lookup that starts further out does not see the innermost scope. -/
theorem getFrom_cons (h : i ≤ rest.length) :
    getFrom globals name (s :: rest) i = getFrom globals name rest i := by
  cases i with
  | zero => rw [getFrom, getFrom]
  | succ i => rw [getFrom, if_neg (by omega)]

theorem getFrom_succ (ht : locals.reverse[i]? = some t) (hp : t.parent ≤ i) :
    getFrom globals name locals (i + 1) =
      (t.bindings.get? name).or (getFrom globals name locals t.parent) := by
  induction locals with
  | nil => cases ht
  | cons s rest ih =>
    rcases reverse_cons_cases ht with ⟨rfl, rfl⟩ | ⟨hi, ht⟩
    · rw [getFrom, if_pos rfl, getFrom_cons hp]
      cases t.bindings.get? name <;> rfl
    · rw [getFrom_cons hi, getFrom_cons (Nat.le_trans hp (Nat.le_of_lt hi)), ih ht]

theorem setFrom_cons (h : i ≤ rest.length) :
    setFrom name v globals (s :: rest) i =
      ((setFrom name v globals rest i).1, s :: (setFrom name v globals rest i).2) := by
  cases i with
  | zero => rw [setFrom, setFrom]
  | succ i => rw [setFrom, if_neg (by omega)]

theorem setFrom_succ (ht : locals.reverse[i]? = some t) (hp : t.parent ≤ i) :
    setFrom name v globals locals (i + 1) =
      if t.bindings.has name then
        (globals, locals.modify (locals.length - (i + 1))
          fun s => { s with bindings := s.bindings.insert name v })
      else setFrom name v globals locals t.parent := by
  induction locals with
  | nil => cases ht
  | cons s rest ih =>
    rcases reverse_cons_cases ht with ⟨rfl, rfl⟩ | ⟨hi, ht⟩
    · rw [setFrom, if_pos rfl, setFrom_cons hp, List.length_cons, Nat.sub_self]
      split <;> rfl
    · have hindex : (s :: rest).length - (i + 1) = rest.length - (i + 1) + 1 := by
        rw [List.length_cons]
        omega
      rw [setFrom_cons hi, setFrom_cons (Nat.le_trans hp (Nat.le_of_lt hi)), ih ht, hindex]
      split <;> rfl

end Lookup

section Rebinding

variable {env : Environment} {name : String} {v : Value} {i j : Nat}

theorem reverse_modify {locals : List Scope} (f : Scope → Scope) (hi : i < locals.length) :
    (locals.modify (locals.length - (i + 1)) f).reverse = locals.reverse.modify i f := by
  apply List.ext_getElem?
  intro j
  rw [List.getElem?_modify]
  by_cases hj : j < locals.length
  · rw [List.getElem?_reverse (by rwa [List.length_modify]), List.getElem?_modify,
      List.getElem?_reverse hj, List.length_modify]
    have hsame : locals.length - (i + 1) = locals.length - 1 - j ↔ i = j := by omega
    simp only [hsame]
  · rw [List.getElem?_eq_none (by rw [List.length_reverse, List.length_modify]; omega),
      List.getElem?_eq_none (by rw [List.length_reverse]; omega)]
    rfl

theorem bindingsAt_rebind (hi : i < env.depth) : (env.rebind name v i).bindingsAt j =
    if j = i then (env.bindingsAt i).insert name v else env.bindingsAt j := by
  cases i with
  | zero => cases j <;> rfl
  | succ i =>
    have hi : i < env.locals.length := Nat.lt_of_succ_lt_succ hi
    cases j with
    | zero => rfl
    | succ j =>
      obtain ⟨t, ht⟩ : ∃ t, env.locals.reverse[i]? = some t :=
        ⟨_, List.getElem?_eq_getElem (by rwa [List.length_reverse])⟩
      rw [bindingsAt, rebind, reverse_modify _ hi, List.getElem?_modify]
      by_cases hj : i = j
      · subst hj
        rw [if_pos rfl, bindingsAt, ht, Option.map_eq_map, Option.map_some, if_pos rfl]
        rfl
      · simp only [if_neg hj]
        rw [if_neg (by omega), bindingsAt]
        cases env.locals.reverse[j]? <;> rfl

theorem parent?_rebind (hi : i < env.depth) : (env.rebind name v i).parent? j = env.parent? j := by
  cases i with
  | zero => cases j <;> rfl
  | succ i =>
    cases j with
    | zero => rfl
    | succ j =>
      rw [parent?, parent?, rebind, reverse_modify _ (Nat.lt_of_succ_lt_succ hi),
        List.getElem?_modify]
      split <;> cases env.locals.reverse[j]? <;> rfl

theorem changed_rebind (hi : i < env.depth) (h : (env.bindingsAt i).has name = true) :
    Changed name v i env (env.rebind name v i) where
  depth := by
    cases i with
    | zero => rfl
    | succ k => exact congrArg (· + 1) (List.length_modify ..)
  parents j := parent?_rebind hi
  names j := by
    rw [bindingsAt_rebind hi]
    split
    · rename_i hj
      obtain ⟨u, hu⟩ := Option.isSome_iff_exists.mp h
      rw [Bindings.names_insert, if_pos (List.mem_map_of_mem (Bindings.mem_of_get? hu)), hj]
    · rfl
  values j s := by
    rw [bindingsAt_rebind hi]
    by_cases hj : j = i
    · rw [if_pos hj, hj, Bindings.get?_insert]
      simp only [true_and, eq_comm]
    · rw [if_neg hj, if_neg fun h => hj h.1]

end Rebinding

section Chains

variable {env : Environment} {name : String} {i p : Nat} {chain : List Nat}

theorem exists_scope (h : env.parent? i = some p) : ∃ k t, i = k + 1
    ∧ env.locals.reverse[k]? = some t ∧ t.parent = p ∧ env.bindingsAt i = t.bindings := by
  cases i with
  | zero => cases h
  | succ k =>
    obtain ⟨t, ht, hp⟩ := Option.map_eq_some_iff.mp h
    refine ⟨k, t, rfl, ht, hp, ?_⟩
    rw [bindingsAt, ht]
    rfl

theorem exists_parent (hi : i + 1 < env.depth) : ∃ p, env.parent? (i + 1) = some p := by
  have hlt : i < env.locals.reverse.length := by
    rw [List.length_reverse]
    exact Nat.lt_of_succ_lt_succ hi
  exact ⟨_, Option.map_eq_some_iff.mpr ⟨_, List.getElem?_eq_getElem hlt, rfl⟩⟩

/-- As the numbers become smaller, the way outwards comes to an end. -/
theorem Lexical.exists_chain (h : env.Lexical) (i : Nat) (hi : i < env.depth) :
    ∃ chain, env.Chain i chain := by
  induction i using Nat.strongRecOn with
  | ind i ih =>
    cases i with
    | zero => exact ⟨[0], .global⟩
    | succ i =>
      obtain ⟨p, hp⟩ := exists_parent hi
      have hlt := h _ _ hp
      obtain ⟨chain, hchain⟩ := ih p hlt (Nat.lt_trans hlt hi)
      exact ⟨_, .around hp hchain⟩

theorem Chain.lt_depth (hchain : env.Chain i chain) (h : env.Lexical) (hi : i < env.depth) :
    ∀ j ∈ chain, j < env.depth := by
  induction hchain with
  | global => exact List.forall_mem_singleton.mpr hi
  | around hp hchain ih =>
    exact List.forall_mem_cons.mpr ⟨hi, ih (Nat.lt_trans (h _ _ hp) hi)⟩

/-- A lookup goes from scope to scope on the way outwards. -/
theorem Chain.getFrom_eq (hchain : env.Chain i chain) (h : env.Lexical) (name : String) :
    getFrom env.globals name env.locals i =
      chain.findSome? fun j => (env.bindingsAt j).get? name := by
  induction hchain with
  | global =>
    rw [getFrom, List.findSome?_singleton]
    rfl
  | around hp hchain ih =>
    have hlt := h _ _ hp
    obtain ⟨k, t, rfl, ht, rfl, hbindings⟩ := exists_scope hp
    rw [getFrom_succ ht (Nat.le_of_lt_succ hlt), List.findSome?_cons, hbindings, ih]
    cases t.bindings.get? name <;> rfl

/-- What gets a new value is the first that a lookup comes to. -/
theorem Chain.setFrom_eq (hchain : env.Chain i chain) (h : env.Lexical) (name : String)
    (v : Value) :
    (⟨(setFrom name v env.globals env.locals i).1, (setFrom name v env.globals env.locals i).2⟩ :
        Environment) =
      match chain.find? fun j => (env.bindingsAt j).has name with
      | some j => env.rebind name v j
      | none => env := by
  induction hchain with
  | global =>
    rw [setFrom, List.find?_singleton, bindingsAt]
    cases env.globals.has name <;> rfl
  | around hp hchain ih =>
    have hlt := h _ _ hp
    obtain ⟨k, t, rfl, ht, rfl, hbindings⟩ := exists_scope hp
    rw [setFrom_succ ht (Nat.le_of_lt_succ hlt), List.find?_cons, hbindings]
    cases t.bindings.has name
    · exact ih
    · rfl

end Chains

section Built

variable {env : Environment} {name : String} {v : Value} {p : Nat} {chain : List Nat}

theorem lexical_iff :
    env.Lexical ↔ ∀ (k : Nat) (t : Scope), env.locals.reverse[k]? = some t → t.parent ≤ k := by
  constructor
  · intro h k t ht
    exact Nat.le_of_lt_succ (h (k + 1) t.parent (Option.map_eq_some_iff.mpr ⟨t, ht, rfl⟩))
  · intro h i p hp
    obtain ⟨k, t, rfl, ht, rfl, -⟩ := exists_scope hp
    exact Nat.lt_succ_of_le (h k t ht)

theorem lexical_empty : empty.Lexical := lexical_iff.mpr nofun

theorem Lexical.push (h : env.Lexical) (hp : p < env.depth) : (env.push p).Lexical := by
  rw [lexical_iff] at h ⊢
  intro k t ht
  rcases reverse_cons_cases ht with ⟨rfl, rfl⟩ | ⟨-, ht⟩
  · exact Nat.le_of_lt_succ hp
  · exact h k t ht

theorem Lexical.pop (h : env.Lexical) : env.pop.Lexical := by
  rw [lexical_iff] at h ⊢
  intro k t ht
  unfold Environment.pop at ht
  rcases hlocals : env.locals with _ | ⟨s, rest⟩ <;> rw [hlocals] at ht h
  · cases ht
  · obtain ⟨hk, -⟩ := List.getElem?_eq_some_iff.mp ht
    rw [List.tail_cons, List.length_reverse] at hk
    exact h k t ((getElem?_reverse_cons hk).trans ht)

theorem Lexical.define (h : env.Lexical) (name : String) (v : Value) :
    (env.define name v).Lexical := by
  rw [lexical_iff] at h ⊢
  intro k t ht
  unfold Environment.define at ht
  rcases hlocals : env.locals with _ | ⟨s, rest⟩ <;> rw [hlocals] at ht h
  · exact h k t ht
  · rcases reverse_cons_cases ht with ⟨rfl, rfl⟩ | ⟨hk, ht⟩
    · exact h rest.length s getElem?_reverse_length
    · exact h k t ((getElem?_reverse_cons hk).trans ht)

/-- The variable that a name means gets the new value, or else nothing changes. -/
theorem Lexical.set_changed (h : env.Lexical) (hchain : env.Chain env.locals.length chain)
    (name : String) (v : Value) :
    match chain.find? fun i => (env.bindingsAt i).has name with
    | some i => Changed name v i env (env.set name v)
    | none => env.set name v = env := by
  have hset : env.set name v = _ := hchain.setFrom_eq h name v
  split
  · rename_i i hi
    rw [hset, hi]
    have hmem := List.mem_of_find?_eq_some hi
    have hhas := List.find?_some (p := fun i => (env.bindingsAt i).has name) hi
    exact changed_rebind (hchain.lt_depth h (Nat.lt_succ_self _) i hmem) hhas
  · rename_i hnone
    rw [hset, hnone]

theorem Lexical.set (h : env.Lexical) (name : String) (v : Value) : (env.set name v).Lexical := by
  obtain ⟨chain, hchain⟩ := h.exists_chain env.locals.length (Nat.lt_succ_self _)
  have hset := h.set_changed hchain name v
  split at hset
  · intro i p hp
    rw [hset.parents] at hp
    exact h i p hp
  · rw [hset]
    exact h

theorem Built.lexical (h : Built env) : env.Lexical := by
  induction h with
  | empty => exact lexical_empty
  | push _ hp ih => exact ih.push hp
  | pop _ ih => exact ih.pop
  | define _ name v ih => exact ih.define name v
  | set _ name v ih => exact ih.set name v

/-- Whatever is done to the variables of a new scope goes with it. -/
theorem pop_defines (env : Environment) (p : Nat) (bs : Bindings) :
    (bs.foldl (fun e b => e.define b.1 b.2) (env.push p)).pop = env := by
  have hscope : ∃ s, bs.foldl (fun e b => e.define b.1 b.2) (env.push p)
      = { env with locals := s :: env.locals } := by
    refine List.foldlRecOn (motive := fun e : Environment =>
      ∃ s, e = { env with locals := s :: env.locals }) _ _ ⟨_, rfl⟩ ?_
    rintro _ ⟨s, rfl⟩ b -
    exact ⟨_, rfl⟩
  obtain ⟨s, hs⟩ := hscope
  rw [hs]
  rfl

end Built

/-- In every environment that can be made the scope around a scope is an older one, so the way from
the innermost scope outwards ends at the global one. A name means its variable in the nearest scope
on this way, if there is one; to give the name a new value changes this variable and nothing else.
A scope that is opened and left again leaves everything as it was. -/
theorem scopes_lexical {env : Environment} (h : Built env) :
    (∀ i p, env.parent? i = some p → p < i)
      ∧ (∀ i < env.depth, ∃ chain, env.Chain i chain)
      ∧ (∀ chain, env.Chain env.locals.length chain → ∀ name,
        (env.get? name = chain.findSome? fun i => (env.bindingsAt i).get? name)
          ∧ ∀ v, match chain.find? fun i => (env.bindingsAt i).has name with
            | some i => Changed name v i env (env.set name v)
            | none => env.set name v = env)
      ∧ ∀ p < env.depth, ∀ bs : Bindings,
        (bs.foldl (fun e b => e.define b.1 b.2) (env.push p)).pop = env :=
  have hlexical := h.lexical
  ⟨hlexical, hlexical.exists_chain,
    fun _ hchain name => ⟨hchain.getFrom_eq hlexical name, hlexical.set_changed hchain name⟩,
    fun p _ bs => pop_defines env p bs⟩

/-- Two scopes that lie directly in the global one: the second does not see the variable of the
first, and both see the global one. -/
theorem scopes_lexical_siblings :
    let outer := (empty.define "x" .none).push 0
    let env := (outer.define "y" .none).push 0
    Built env ∧ 0 < env.depth ∧ env.Chain 2 [2, 0] ∧ env.parent? 2 = some 0
      ∧ env.get? "y" = none ∧ env.get? "x" = some .none
      ∧ Changed "x" (.bool true) 0 env (env.set "x" (.bool true))
      ∧ env.set "y" (.bool true) = env
      ∧ (((env.push 0).define "z" .none).define "x" .none).pop = env := by
  intro outer env
  have hbuilt : Built env := .push (.define (.push (.define .empty _ _) (by decide)) _ _) (by decide)
  have hchain : env.Chain 2 [2, 0] := .around rfl .global
  obtain ⟨-, -, hnearest, hpop⟩ := scopes_lexical hbuilt
  have hx := hnearest [2, 0] hchain "x"
  have hy := hnearest [2, 0] hchain "y"
  exact ⟨hbuilt, by decide, hchain, rfl, hy.1, hx.1, hx.2 _, hy.2 _,
    hpop 0 (by decide) [("z", .none), ("x", .none)]⟩

end MissionScript.Environment
