import MissionScript.Run.Command

/-!
# Slots

What putting a value into a container does to it: the container keeps all else that it holds, in its
order (`Refilled`). To go along a path and change what is found at its end is to do this once for
each key of the path (`changeAt_yields`), and to read with a key is to read the slot of that key,
except in texts, which have no slots (`index_eq_slot`). A method leaves its receiver as it is, takes
items out of it or puts one at its end (`Remade`). None of this makes a list or a dict anything else
(`Altered`).
-/

namespace MissionScript.Value

/-- Only values of which `F` holds come out of the computation. -/
def Yields {α : Type} (F : α → Prop) (r : Result α) : Prop := ∀ a, r = .ok a → F a

section Closure

variable {α β : Type} {F G : α → Prop}

theorem yields_ok {a : α} (h : F a) : Yields F (.ok a) := by
  intro b hb
  cases hb
  exact h

theorem yields_error (e : RuntimeError) : Yields F (.error e) := by
  intro b hb
  cases hb

theorem yields_bind {H : β → Prop} {r : Result α} {f : α → Result β} (hr : Yields F r)
    (hf : ∀ a, F a → Yields H (f a)) : Yields H (r >>= f) := by
  intro b hb
  rcases r with e | a
  · cases hb
  · exact hf a (hr a rfl) b hb

theorem yields_ite {c : Prop} [Decidable c] {r s : Result α} (hr : Yields F r) (hs : Yields F s) :
    Yields F (if c then r else s) := by
  split
  · exact hr
  · exact hs

theorem yields_self (r : Result α) : Yields (fun a => r = .ok a) r := fun _ h => h

theorem yields_true (r : Result α) : Yields (fun _ => True) r := fun _ _ => trivial

theorem Yields.mono {r : Result α} (h : Yields F r) (hFG : ∀ a, F a → G a) : Yields G r :=
  fun a ha => hFG a (h a ha)

end Closure

/-- The second container is the first with `x` in the place of `u`. -/
inductive Refilled (u x : Value) : Value → Value → Prop
  | item (before after : List Value) :
      Refilled u x (list (before ++ u :: after)) (list (before ++ x :: after))
  | entry (before : List (Value × Value)) (key : Value) (after : List (Value × Value)) :
      Refilled u x (dict (before ++ (key, u) :: after)) (dict (before ++ (key, x) :: after))

theorem refilled_set {items : List Value} {i : Nat} (h : i < items.length) (x : Value) :
    Refilled (items[i]?.getD none) x (list items) (list (items.set i x)) := by
  have hset : ∃ before after, items = before ++ items[i] :: after ∧ before.length = i
      ∧ items.set i x = before ++ x :: after := List.exists_of_set h
  obtain ⟨before, after, hitems, -, hset⟩ := hset
  rw [hset, List.getElem?_eq_getElem h, Option.getD_some]
  generalize items[i] = u at hitems
  rw [hitems]
  exact .item before after

theorem refilled_modify {entries : List (Value × Value)} {i : Nat} (h : i < entries.length)
    (x : Value) :
    Refilled ((entries[i]?.map (·.2)).getD none) x (dict entries)
      (dict (entries.modify i fun e => (e.1, x))) := by
  obtain ⟨before, e, after, hentries, hi, hmodify⟩ :=
    List.exists_of_modify (fun e : Value × Value => (e.1, x)) h
  have hread : entries[i]? = some e := by rw [hentries, ← hi]; simp
  rw [hmodify, hread, hentries]
  exact .entry before e.1 after

theorem position?_lt {i : Int64} {length n : Nat} (h : position? i length = some n) :
    n < length := by
  unfold position? at h
  dsimp only at h
  rw [Option.ite_none_right_eq_some] at h
  generalize (if i.toInt < 0 then i.toInt + length else i.toInt) = k at h
  obtain ⟨⟨hk, hlt⟩, hn⟩ := h
  rw [Option.some.injEq] at hn
  omega

theorem itemPosition_eq_ok {kind : Kind} {length : Nat} {outside : RuntimeError} {index : Value}
    {n : Nat} :
    itemPosition kind length outside index = .ok n
      ↔ ∃ i, index = int i ∧ position? i length = some n := by
  unfold itemPosition
  split
  · rename_i i
    rcases hi : position? i length with _ | k <;> simp [hi]
  · rename_i hv
    exact iff_of_false (fun h => by cases h) fun ⟨i, hi, _⟩ => hv i hi

theorem itemPosition_lt (kind : Kind) (length : Nat) (outside : RuntimeError) (index : Value) :
    Yields (· < length) (itemPosition kind length outside index) := by
  intro n hn
  obtain ⟨i, -, hi⟩ := itemPosition_eq_ok.mp hn
  exact position?_lt hi

theorem entryPosition_lt (entries : List (Value × Value)) (key : Value) :
    Yields (· < entries.length) (entryPosition entries key) := by
  refine yields_bind (yields_true _) fun _ _ => ?_
  split
  · exact yields_ok (List.findIdx?_eq_some_iff_getElem.mp ‹_›).1
  · exact yields_error _

/-- A slot that there is can be refilled. -/
theorem slot_refilled (v key x : Value) :
    Yields (fun i => Refilled (v.content i) x v (v.withContent i x)) (v.slot key) := by
  unfold slot
  split
  · exact (itemPosition_lt _ _ _ _).mono fun i hi => refilled_set hi x
  · exact (entryPosition_lt _ _).mono fun i hi => refilled_modify hi x
  · exact yields_error _

theorem lookup?_eq_findIdx? (entries : List (Value × Value)) (key : Value) :
    lookup? entries key =
      (entries.findIdx? fun e => e.1.equal key).map
        fun i => (entries[i]?.map (·.2)).getD none := by
  induction entries with
  | nil => rfl
  | cons e es ih =>
    unfold lookup? at ih ⊢
    rw [List.find?_cons, List.findIdx?_cons]
    rcases e.1.equal key with _ | _
    · simp only [ih, Bool.false_eq_true, if_false, Option.map_map]
      rfl
    · rfl

/-- A container that is no text is read from the slot of the key. -/
theorem index_eq_slot {v : Value} (hv : v.kind ≠ .str) (key : Value) :
    v.index key = (v.slot key).map v.content := by
  cases v with
  | none | bool b | int n | float x => rfl
  | str s => exact absurd rfl hv
  | list items =>
    unfold index slot
    dsimp only
    rcases itemPosition .list items.length .listIndex key with e | i <;> rfl
  | dict entries =>
    unfold index slot entryPosition
    simp only [lookup?_eq_findIdx?]
    rcases requireHashable key with e | u
    · rfl
    · generalize entries.findIdx? (fun e => e.1.equal key) = found
      cases found <;> rfl

theorem requireHashable_yields (key : Value) :
    Yields (fun _ => key.isHashable = true) (requireHashable key) := by
  unfold requireHashable
  split
  · exact yields_ok ‹_›
  · exact yields_error _

theorem index_ne_ok {entries : List (Value × Value)} {key : Value}
    (h : ∀ e ∈ entries, e.1.equal key = false) (u : Value) : (dict entries).index key ≠ .ok u := by
  have hfound : entries.findIdx? (fun e => e.1.equal key) = Option.none :=
    List.findIdx?_eq_none_iff.mpr h
  unfold index
  dsimp only
  rw [lookup?_eq_findIdx?, hfound]
  rcases requireHashable key with e | a <;> exact fun h => by cases h

theorem setIndex_new {entries : List (Value × Value)} {key : Value} (hkey : key.isHashable = true)
    (hnew : ∀ e ∈ entries, e.1.equal key = false) (x : Value) :
    (dict entries).setIndex key x = .ok (dict (entries ++ [(key, x)])) := by
  have hput : putEntry entries key x = entries ++ [(key, x)] := by
    rw [putEntry, List.findIdx?_eq_none_iff.mpr hnew]
  rw [setIndex, requireHashable, if_pos hkey, hput]
  rfl

/-- A value put under a key is put in the slot of the key, or it makes a new entry of a dict. -/
theorem setIndex_slot_cases (v key x : Value) :
    Yields
      (fun v' => (∃ i, v.slot key = .ok i ∧ v' = v.withContent i x)
        ∨ ∃ entries, v = dict entries ∧ key.isHashable = true
            ∧ (∀ e ∈ entries, e.1.equal key = false) ∧ v' = dict (entries ++ [(key, x)]))
      (v.setIndex key x) := by
  cases v with
  | none | bool b | int n | float x | str s => exact yields_error _
  | list items =>
    refine yields_bind (yields_self _) fun i hi => yields_ok (.inl ⟨i, ?_, rfl⟩)
    exact itemPosition_eq_ok.mpr (itemPosition_eq_ok.mp hi)
  | dict entries =>
    refine yields_bind (requireHashable_yields key) fun u hkey => yields_ok ?_
    unfold putEntry
    rcases hi : entries.findIdx? (fun e => e.1.equal key) with _ | i <;> simp only [hi]
    · exact .inr ⟨entries, rfl, hkey, List.findIdx?_eq_none_iff.mp hi, rfl⟩
    · refine .inl ⟨i, ?_, rfl⟩
      unfold slot entryPosition requireHashable
      dsimp only
      rw [hi, hkey]
      rfl

theorem kind_ne_str_of_slot {v key : Value} {i : Nat} (h : v.slot key = .ok i) :
    v.kind ≠ .str := by
  intro hkind
  cases v with
  | str s => cases h
  | none | bool _ | int _ | float _ | list _ | dict _ => cases hkind

theorem index_of_slot {v key : Value} {i : Nat} (h : v.slot key = .ok i) :
    v.index key = .ok (v.content i) := by
  rw [index_eq_slot (kind_ne_str_of_slot h), h]
  rfl

/-- A value put under a key takes the place of what is read with the key, or it makes a new entry of
a dict. -/
theorem setIndex_cases (v key x : Value) :
    Yields
      (fun v' => (∃ u, v.index key = .ok u ∧ Refilled u x v v')
        ∨ ∃ entries, v = dict entries ∧ key.isHashable = true
            ∧ (∀ e ∈ entries, e.1.equal key = false) ∧ v' = dict (entries ++ [(key, x)]))
      (v.setIndex key x) := by
  refine (setIndex_slot_cases v key x).mono fun v' h => h.imp_left ?_
  rintro ⟨i, hi, rfl⟩
  exact ⟨v.content i, index_of_slot hi, slot_refilled v key x i hi⟩

/-- A relation between a value and what a change makes of it is kept along a path if refilling a
slot keeps it. -/
theorem changeAt_yields {α : Type} {change : Value → Result (α × Value)}
    {R : Nat → Value → α × Value → Prop} (hchange : ∀ u, Yields (R 0 u) (change u))
    (hrefill : ∀ {n u a u' v v'}, Refilled u u' v v' → R n u (a, u') → R (n + 1) v (a, v')) :
    ∀ (path : List Value) (v : Value), Yields (R path.length v) (changeAt change path v)
  | [], v => hchange v
  | key :: path, v => by
    refine yields_bind (yields_self _) fun i hi => ?_
    refine yields_bind (changeAt_yields hchange hrefill path (v.content i)) fun r hr => ?_
    exact yields_ok (hrefill (slot_refilled v key r.2 i hi) hr)

/-- What a method called with `args` may make of its receiver. -/
inductive Remade (method : String) (args : List Value) : Value → Value → Prop
  | same (v : Value) : Remade method args v v
  | fewer {items items' : List Value} (h : items'.Sublist items) :
      Remade method args (list items) (list items')
  | more {items : List Value} {a : Value} (hmethod : method = "append") (hargs : args = [a]) :
      Remade method args (list items) (list (items ++ [a]))

theorem pop_remade (method : String) (items args : List Value) :
    Yields (fun r => Remade method args (list items) (list r.2)) (pop items args) := by
  have hpop (i : Int64) :
      Yields (fun r => Remade method args (list items) (list r.2)) (popAt items i) := by
    unfold popAt
    split
    · exact yields_ok (.fewer (List.eraseIdx_sublist _ _))
    · exact yields_error _
  refine yields_ite (yields_error _) ?_
  split
  · exact hpop _
  · exact hpop _
  · exact yields_error _

theorem arityCheck_yields (arity : Arity) (callee : String) (given : Nat) :
    Yields (fun _ => arity.accepts given = true) (arity.check callee given) := by
  unfold Arity.check
  split
  · exact yields_ok ‹_›
  · exact yields_error _

theorem listMethod_remade (items : List Value) (method : String) (args : List Value) :
    Yields (fun r => Remade method args (list items) (list r.2))
      (listMethod items method args) := by
  unfold listMethod
  split
  · refine yields_bind (arityCheck_yields _ _ _) fun _ h => yields_ok ?_
    obtain ⟨a, rfl⟩ := List.length_eq_one_iff.mp (of_decide_eq_true h)
    exact .more rfl rfl
  · exact yields_bind (yields_true _) fun _ _ => pop_remade _ items args
  · refine yields_bind (yields_true _) fun _ _ => ?_
    dsimp only
    split
    · exact yields_ok (.same _)
    · exact yields_error _
  · exact yields_bind (yields_true _) fun _ _ => yields_ok (.same _)
  · exact yields_error _

theorem callMethod_remade (v : Value) (method : String) (args : List Value) :
    Yields (fun r => Remade method args v r.2) (v.callMethod method args) := by
  unfold callMethod
  split
  · exact yields_bind (listMethod_remade _ _ _) fun r h => yields_ok h
  · exact yields_bind (yields_true _) fun _ _ => yields_ok (.same _)
  · exact yields_bind (yields_true _) fun _ _ => yields_ok (.same _)
  · exact yields_error _

section Altered

/-- What changes inside of a value may make of it: a list stays a list and a dict stays a dict, and
all else stays what it is. -/
inductive Altered : Value → Value → Prop
  | same (v : Value) : Altered v v
  | list (items items' : List Value) : Altered (list items) (list items')
  | dict (entries entries' : List (Value × Value)) : Altered (dict entries) (dict entries')

theorem Altered.trans {u v w : Value} (h : Altered u v) (h' : Altered v w) : Altered u w := by
  cases h with
  | same => exact h'
  | list items items' =>
    cases h' with
    | same => exact .list _ _
    | list _ items'' => exact .list _ _
  | dict entries entries' =>
    cases h' with
    | same => exact .dict _ _
    | dict _ entries'' => exact .dict _ _

theorem Refilled.altered {u x v v' : Value} (h : Refilled u x v v') : Altered v v' := by
  cases h with
  | item => exact .list _ _
  | entry => exact .dict _ _

theorem Remade.altered {method : String} {args : List Value} {v v' : Value}
    (h : Remade method args v v') : Altered v v' := by
  cases h with
  | same => exact .same _
  | fewer => exact .list _ _
  | more => exact .list _ _

theorem setIndex_altered (v key x : Value) : Yields (Altered v) (v.setIndex key x) := by
  refine (setIndex_cases v key x).mono fun v' h => ?_
  rcases h with ⟨u, -, hrefilled⟩ | ⟨entries, rfl, -, -, rfl⟩
  · exact hrefilled.altered
  · exact .dict _ _

/-- Whatever is changed at the end of a path alters the value that it starts from. -/
theorem changeAt_altered {α : Type} {change : Value → Result (α × Value)}
    (h : ∀ u, Yields (fun r => Altered u r.2) (change u)) (path : List Value) (v : Value) :
    Yields (fun r => Altered v r.2) (changeAt change path v) :=
  changeAt_yields (R := fun _ u r => Altered u r.2) h
    (fun hrefilled _ => hrefilled.altered) path v

end Altered

end MissionScript.Value
