import Mathlib.Data.List.Find
import Mathlib.Data.List.Pairwise
import Mathlib.Data.List.Perm.Basic
import MissionScript.Proofs.Value.Slot

/-!
# Equality of values

Two dicts count as equal if they have as many entries as each other and every entry of the first is
found in the second. That this depends neither on the side nor on the entry that is found first
needs keys of which no two are equal. Then two values without floats are equal if and only if the
one comes from the other by reordering the entries of dicts, however deep inside
(`Value.equality_of_plain`), and so equality is an equivalence.
-/

namespace MissionScript.Value

/-- Values without floats, in which no dict has two keys that are equal. A key may be any such
value, also one that a dict of a script cannot have. -/
inductive Plain : Value → Prop
  | none : Plain none
  | bool (b : Bool) : Plain (bool b)
  | int (n : Int64) : Plain (int n)
  | str (s : String) : Plain (str s)
  | list {items : List Value} (h : ∀ v ∈ items, Plain v) : Plain (list items)
  | dict {entries : List (Value × Value)}
      (hunequal : (entries.map (·.1)).Pairwise fun k k' => k.equal k' = false)
      (hkeys : ∀ e ∈ entries, Plain e.1) (hvalues : ∀ e ∈ entries, Plain e.2) :
      Plain (dict entries)

variable {u v w a b : Value} {as bs items : List Value} {es fs entries : List (Value × Value)}

theorem plain_list : Plain (list items) ↔ ∀ v ∈ items, Plain v := by
  refine ⟨fun h => ?_, .list⟩
  cases h with
  | list h => exact h

theorem plain_dict :
    Plain (dict es) ↔
      ((es.map (·.1)).Pairwise fun k k' => k.equal k' = false)
        ∧ (∀ e ∈ es, Plain e.1) ∧ ∀ e ∈ es, Plain e.2 := by
  refine ⟨fun h => ?_, fun h => .dict h.1 h.2.1 h.2.2⟩
  cases h with
  | dict hunequal hkeys hvalues => exact ⟨hunequal, hkeys, hvalues⟩

section Sides

/-- Whether a dict has an equal of the entry. -/
def hasEntry (entries : List (Value × Value)) (e : Value × Value) : Bool :=
  (lookup? entries e.1).any e.2.equal

theorem equalFrom_false (a b : Value) : equalFrom false a b = a.equal b := rfl

theorem allFound_eq (h : ∀ e ∈ es, ∀ f ∈ fs, equalFrom true e.1 f.1 = f.1.equal e.1) :
    allFound es fs = es.all (hasEntry fs) := by
  induction es with
  | nil => rw [allFound, List.all_nil]
  | cons e es ih =>
    rw [List.forall_mem_cons] at h
    have hfind : (fs.find? fun f => equalFrom true e.1 f.1) = fs.find? fun f => f.1.equal e.1 :=
      List.find?_congr h.1
    rw [allFound, List.all_cons, ih h.2, hfind, hasEntry, lookup?]
    cases fs.find? fun f => f.1.equal e.1 with
    | none => rfl
    | some f => rfl

theorem foundIn_eq {k v : Value} (h : ∀ e ∈ es, equalFrom true e.2 v = v.equal e.2) :
    foundIn es k v = hasEntry es (k, v) := by
  induction es with
  | nil => rw [foundIn, hasEntry, lookup?, List.find?_nil, Option.map_none, Option.any_none]
  | cons e es ih =>
    rw [List.forall_mem_cons] at h
    have ih := ih h.2
    rw [hasEntry, lookup?] at ih ⊢
    rw [foundIn, List.find?_cons, equalFrom_false, h.1]
    cases e.1.equal k with
    | false => exact ih
    | true => rfl

theorem all_foundIn_eq (h : ∀ f ∈ fs, ∀ e ∈ es, equalFrom true e.2 f.2 = f.2.equal e.2) :
    (fs.all fun f => foundIn es f.1 f.2) = fs.all (hasEntry es) := by
  rw [Bool.eq_iff_iff, List.all_eq_true, List.all_eq_true]
  exact forall₂_congr fun f hf => by rw [foundIn_eq (h f hf)]

theorem equalItems_swap (flip : Bool)
    (h : ∀ a ∈ as, ∀ b ∈ bs, equalFrom (!flip) b a = equalFrom flip a b) :
    equalItems (!flip) bs as = equalItems flip as bs := by
  induction as generalizing bs with
  | nil => cases bs <;> simp only [equalItems]
  | cons a as ih =>
    cases bs with
    | nil => simp only [equalItems]
    | cons b bs =>
      simp only [List.forall_mem_cons] at h
      rw [equalItems, equalItems, h.1.1, ih fun a ha => (h.2 a ha).2]

/-- To look from the other side at two values that change places makes no difference. -/
theorem equalFrom_swap (ha : Plain a) (hb : Plain b) (flip : Bool) :
    equalFrom (!flip) b a = equalFrom flip a b := by
  induction ha generalizing b flip with
  | none | bool | int | str =>
    cases hb <;> simp [equalFrom, sameNumber, number?, eq_comm]
  | list _ ih =>
    cases hb with
    | list hb =>
      simp only [equalFrom]
      exact equalItems_swap flip fun a ha b hb' => ih a ha (hb b hb') flip
    | none | bool | int | str | dict => simp [equalFrom, sameNumber, number?]
  | @dict es _ _ _ ihkeys ihvalues =>
    cases hb with
    | @dict fs _ hkeys hvalues =>
      have hleft : (fs.all fun f => foundIn es f.1 f.2) = allFound fs es := by
        rw [allFound_eq fun f hf e he => ihkeys e he (hkeys f hf) false]
        exact all_foundIn_eq fun f hf e he => (ihvalues e he (hvalues f hf) true).symm
      have hright : (es.all fun e => foundIn fs e.1 e.2) = allFound es fs := by
        rw [allFound_eq fun e he f hf => (ihkeys e he (hkeys f hf) true).symm]
        exact all_foundIn_eq fun e he f hf => ihvalues e he (hvalues f hf) false
      have hlength : decide (fs.length = es.length) = decide (es.length = fs.length) :=
        decide_eq_decide.mpr eq_comm
      cases flip
      · simp [equalFrom, hlength, hright]
      · simp [equalFrom, hlength, hleft]
    | none | bool | int | str | list => simp [equalFrom, sameNumber, number?]

/-- Lists are equal item by item. -/
theorem equal_list :
    (list as).equal (list bs) = true ↔ List.Forall₂ (fun a b => a.equal b = true) as bs := by
  rw [equal, equalFrom]
  induction as generalizing bs with
  | nil =>
    cases bs with
    | nil => simp [equalItems]
    | cons b bs => simp [equalItems]
  | cons a as ih =>
    cases bs with
    | nil => simp [equalItems]
    | cons b bs => rw [equalItems, Bool.and_eq_true, ih, List.forall₂_cons, equalFrom_false]

/-- Dicts are equal if they have as many entries and the second has an equal of each entry of the
first. -/
theorem equal_dict (he : Plain (dict es)) (hf : Plain (dict fs)) :
    (dict es).equal (dict fs) = true ↔
      es.length = fs.length ∧ ∀ e ∈ es, hasEntry fs e = true := by
  cases he with
  | dict _ hkeys _ =>
    cases hf with
    | dict _ hkeys' _ =>
      have hfound := allFound_eq fun e he f hf =>
        (equalFrom_swap (hkeys e he) (hkeys' f hf) true).symm
      rw [equal, equalFrom, if_neg Bool.false_ne_true, hfound, Bool.and_eq_true,
        decide_eq_true_eq, List.all_eq_true]

theorem hasEntry_eq_true {e : Value × Value} :
    hasEntry fs e = true ↔
      ∃ f, (fs.find? fun f => f.1.equal e.1) = some f ∧ e.2.equal f.2 = true := by
  rw [hasEntry, lookup?]
  cases fs.find? fun f => f.1.equal e.1 with
  | none => simp
  | some f => simp

end Sides

section Matching

variable {α : Type} {R S : α → α → Prop} {xs ys zs : List α}

/-- Reordered, the second list goes with the first, item by item. -/
def Matched (R : α → α → Prop) (xs ys : List α) : Prop :=
  ∃ zs, List.Forall₂ R xs zs ∧ zs.Perm ys

theorem Matched.length_eq (h : Matched R xs ys) : xs.length = ys.length := by
  obtain ⟨zs, hzs, hperm⟩ := h
  exact hzs.length_eq.trans hperm.length_eq

theorem Matched.exists_mem (h : Matched R xs ys) {x : α} (hx : x ∈ xs) : ∃ y ∈ ys, R x y := by
  obtain ⟨zs, hzs, hperm⟩ := h
  have hfind : ∃ y ∈ zs, R x y := by
    clear hperm
    induction hzs with
    | nil => exact absurd hx List.not_mem_nil
    | cons hxz _ ih =>
      rcases List.mem_cons.mp hx with rfl | hx
      · exact ⟨_, List.mem_cons_self, hxz⟩
      · obtain ⟨y, hy, hxy⟩ := ih hx
        exact ⟨y, List.mem_cons_of_mem _ hy, hxy⟩
  obtain ⟨y, hy, hxy⟩ := hfind
  exact ⟨y, hperm.subset hy, hxy⟩

/-- Lists of one length match if each item of the first goes with one of the second, and no two of
them with the same. -/
theorem matched_of_exists (hlength : xs.length = ys.length) (h : ∀ x ∈ xs, ∃ y ∈ ys, R x y)
    (hapart : xs.Pairwise fun x x' => ∀ y, R x y → ¬ R x' y) : Matched R xs ys := by
  induction xs generalizing ys with
  | nil =>
    obtain rfl := List.length_eq_zero_iff.mp hlength.symm
    exact ⟨[], .nil, .refl _⟩
  | cons x xs ih =>
    rw [List.forall_mem_cons] at h
    rw [List.pairwise_cons] at hapart
    obtain ⟨y, hy, hxy⟩ := h.1
    obtain ⟨before, after, rfl⟩ := List.append_of_mem hy
    have hrest : ∀ x' ∈ xs, ∃ y' ∈ before ++ after, R x' y' := by
      intro x' hx'
      obtain ⟨y', hy', hxy'⟩ := h.2 x' hx'
      refine ⟨y', ?_, hxy'⟩
      rw [List.mem_append, List.mem_cons] at hy'
      rw [List.mem_append]
      rcases hy' with hy' | rfl | hy'
      · exact .inl hy'
      · exact absurd hxy' (hapart.1 x' hx' y' hxy)
      · exact .inr hy'
    have hlength' : xs.length = (before ++ after).length := by
      rw [List.length_append, List.length_cons, List.length_cons] at hlength
      rw [List.length_append]
      omega
    obtain ⟨zs, hzs, hperm⟩ := ih hlength' hrest hapart.2
    exact ⟨y :: zs, .cons hxy hzs, (hperm.cons y).trans List.perm_middle.symm⟩

theorem forall₂_trans (htrans : ∀ x y z, R x y → R y z → R x z) (h : List.Forall₂ R xs ys)
    (h' : List.Forall₂ R ys zs) : List.Forall₂ R xs zs := by
  induction h generalizing zs with
  | nil => exact h'
  | cons hxy _ ih =>
    cases h' with
    | cons hyz h' => exact .cons (htrans _ _ _ hxy hyz) (ih h')

theorem Matched.trans (htrans : ∀ x y z, R x y → R y z → R x z) (h : Matched R xs ys)
    (h' : Matched R ys zs) : Matched R xs zs := by
  obtain ⟨us, hus, hperm⟩ := h
  obtain ⟨ws, hws, hperm'⟩ := h'
  obtain ⟨ss, hss, hperm''⟩ := List.perm_comp_forall₂ hperm hws
  exact ⟨ss, forall₂_trans htrans hus hss, hperm''.trans hperm'⟩

end Matching

section Rearranging

/-- The second value comes from the first by reordering the entries of dicts, however deep inside,
in lists as well as in the keys and the values of dicts. -/
inductive Rearranged : Value → Value → Prop
  | refl (v : Value) : Rearranged v v
  | trans {u v w : Value} (h : Rearranged u v) (h' : Rearranged v w) : Rearranged u w
  | entries {es fs : List (Value × Value)} (h : es.Perm fs) : Rearranged (dict es) (dict fs)
  | inside {u u' v v' : Value} (h : Rearranged u u') (hrefilled : Refilled u u' v v') :
      Rearranged v v'
  | key (before : List (Value × Value)) {k k' : Value} (h : Rearranged k k') (v : Value)
      (after : List (Value × Value)) :
      Rearranged (dict (before ++ (k, v) :: after)) (dict (before ++ (k', v) :: after))

theorem Refilled.symm {x v' : Value} (h : Refilled u x v v') : Refilled x u v' v := by
  cases h with
  | item before after => exact .item before after
  | entry before key after => exact .entry before key after

theorem Rearranged.symm (h : Rearranged u v) : Rearranged v u := by
  induction h with
  | refl v => exact .refl v
  | trans _ _ ih ih' => exact .trans ih' ih
  | entries h => exact .entries h.symm
  | inside _ hrefilled ih => exact .inside ih hrefilled.symm
  | key before _ v after ih => exact .key before ih v after

/-- Entries of which the keys and the values are rearranged. -/
def RearrangedEntry (e f : Value × Value) : Prop := Rearranged e.1 f.1 ∧ Rearranged e.2 f.2

theorem RearrangedEntry.refl (e : Value × Value) : RearrangedEntry e e := ⟨.refl _, .refl _⟩

theorem RearrangedEntry.trans (e f g : Value × Value) (h : RearrangedEntry e f)
    (h' : RearrangedEntry f g) : RearrangedEntry e g := ⟨h.1.trans h'.1, h.2.trans h'.2⟩

/-- What rearranging does to the outermost list or dict. -/
inductive Outermost : Value → Value → Prop
  | same (v : Value) : Outermost v v
  | list {as bs : List Value} (h : List.Forall₂ Rearranged as bs) : Outermost (list as) (list bs)
  | dict {es fs : List (Value × Value)} (h : Matched RearrangedEntry es fs) :
      Outermost (dict es) (dict fs)

theorem Outermost.trans (h : Outermost u v) (h' : Outermost v w) : Outermost u w := by
  cases h with
  | same => exact h'
  | list h =>
    cases h' with
    | same => exact .list h
    | list h' => exact .list (forall₂_trans (fun _ _ _ => .trans) h h')
  | dict h =>
    cases h' with
    | same => exact .dict h
    | dict h' => exact .dict (h.trans RearrangedEntry.trans h')

/-- One item in its place is put instead of another. -/
theorem forall₂_replaced {α : Type} {R : α → α → Prop} (hrefl : ∀ x, R x x) (before : List α)
    {x y : α} (h : R x y) (after : List α) :
    List.Forall₂ R (before ++ x :: after) (before ++ y :: after) :=
  List.rel_append (List.forall₂_same.mpr fun x _ => hrefl x)
    (.cons h (List.forall₂_same.mpr fun x _ => hrefl x))

theorem Rearranged.outermost (h : Rearranged u v) : Outermost u v := by
  induction h with
  | refl v => exact .same v
  | trans _ _ ih ih' => exact ih.trans ih'
  | entries h => exact .dict ⟨_, List.forall₂_same.mpr fun e _ => .refl e, h⟩
  | inside h hrefilled =>
    cases hrefilled with
    | item before after => exact .list (forall₂_replaced .refl before h after)
    | entry before key after =>
      exact .dict ⟨_, forall₂_replaced .refl before ⟨.refl key, h⟩ after, .refl _⟩
  | key before h v after =>
    exact .dict ⟨_, forall₂_replaced .refl before ⟨h, .refl v⟩ after, .refl _⟩

theorem rearranged_list : Rearranged (list as) (list bs) ↔ List.Forall₂ Rearranged as bs := by
  constructor
  · intro h
    cases h.outermost with
    | same => exact List.forall₂_same.mpr fun v _ => .refl v
    | list h => exact h
  · intro h
    have hfrom : ∀ before : List Value,
        Rearranged (list (before ++ as)) (list (before ++ bs)) := by
      induction h with
      | nil => exact fun before => .refl _
      | @cons a b as bs hab _ ih =>
        intro before
        have hrest := ih (before ++ [b])
        rw [List.append_assoc, List.append_assoc] at hrest
        exact .trans (.inside hab (.item before as)) hrest
    exact hfrom []

theorem rearranged_dict :
    Rearranged (dict es) (dict fs) ↔ Matched RearrangedEntry es fs := by
  constructor
  · intro h
    cases h.outermost with
    | same => exact ⟨es, List.forall₂_same.mpr fun e _ => .refl e, .refl _⟩
    | dict h => exact h
  · rintro ⟨gs, hgs, hperm⟩
    refine .trans ?_ (.entries hperm)
    clear hperm
    have hfrom : ∀ before : List (Value × Value),
        Rearranged (dict (before ++ es)) (dict (before ++ gs)) := by
      induction hgs with
      | nil => exact fun before => .refl _
      | @cons e g es gs heg _ ih =>
        intro before
        have hrest := ih (before ++ [g])
        rw [List.append_assoc, List.append_assoc] at hrest
        exact .trans (.trans (.key before heg.1 e.2 es) (.inside heg.2 (.entry before g.1 es)))
          hrest
    exact hfrom []

end Rearranging

section Deciding

/-- On these values equality is rearrangement. -/
def Decides (P : Value → Prop) : Prop :=
  ∀ u v, P u → P v → (u.equal v = true ↔ Rearranged u v)

variable {P : Value → Prop}

theorem Decides.lists (h : Decides P) (has : ∀ a ∈ as, P a) (hbs : ∀ b ∈ bs, P b) :
    List.Forall₂ (fun a b => a.equal b = true) as bs ↔ List.Forall₂ Rearranged as bs := by
  rw [List.forall₂_iff_get, List.forall₂_iff_get]
  refine and_congr_right fun _ => forall₃_congr fun i hi hi' => ?_
  exact h _ _ (has _ (List.get_mem _ _)) (hbs _ (List.get_mem _ _))

/-- Keys of which no two are equal are no rearrangements of each other. -/
theorem Decides.keys_apart (h : Decides P) (hes : ∀ e ∈ es, P e.1)
    (hunequal : (es.map (·.1)).Pairwise fun k k' => k.equal k' = false) :
    es.Pairwise fun e e' => ¬ Rearranged e.1 e'.1 := by
  rw [List.pairwise_map] at hunequal
  refine hunequal.imp_of_mem fun he he' hfalse hrearranged => ?_
  rw [(h _ _ (hes _ he) (hes _ he')).mpr hrearranged] at hfalse
  cases hfalse

theorem eq_of_keys_apart (h : es.Pairwise fun e e' => ¬ Rearranged e.1 e'.1)
    {e e' : Value × Value} (he : e ∈ es) (he' : e' ∈ es) (hkeys : Rearranged e.1 e'.1) :
    e = e' := by
  have : Std.Symm fun e e' : Value × Value => ¬ Rearranged e.1 e'.1 := ⟨fun _ _ => mt .symm⟩
  by_contra hne
  exact h.forall he he' hne hkeys

variable (hP : Decides P) (hes : ∀ e ∈ es, P e.1 ∧ P e.2) (hfs : ∀ f ∈ fs, P f.1 ∧ P f.2)
  (hapart : es.Pairwise fun e e' => ¬ Rearranged e.1 e'.1)
  (hapart' : fs.Pairwise fun f f' => ¬ Rearranged f.1 f'.1)
include hP hes hfs

theorem Decides.exists_of_hasEntry {e : Value × Value} (he : e ∈ es)
    (h : hasEntry fs e = true) : ∃ f ∈ fs, RearrangedEntry e f := by
  obtain ⟨f, hfind, hvalue⟩ := hasEntry_eq_true.mp h
  have hf := List.mem_of_find?_eq_some hfind
  have hkey := List.find?_some (p := fun f : Value × Value => f.1.equal e.1) hfind
  exact ⟨f, hf, ((hP _ _ (hfs f hf).1 (hes e he).1).mp hkey).symm,
    (hP _ _ (hes e he).2 (hfs f hf).2).mp hvalue⟩

include hapart' in
/-- An equal of the entry is found where there is a rearrangement of it: there is no other entry
under its key. -/
theorem Decides.hasEntry_of_mem {e f : Value × Value} (he : e ∈ es) (hf : f ∈ fs)
    (h : RearrangedEntry e f) : hasEntry fs e = true := by
  have hkey : f.1.equal e.1 = true := (hP _ _ (hfs f hf).1 (hes e he).1).mpr h.1.symm
  obtain ⟨g, hg⟩ := Option.isSome_iff_exists.mp
    (List.find?_isSome.mpr ⟨f, hf, hkey⟩ : (fs.find? fun f => f.1.equal e.1).isSome = true)
  have hgmem := List.mem_of_find?_eq_some hg
  have hgkey := List.find?_some (p := fun f : Value × Value => f.1.equal e.1) hg
  have hsame : Rearranged f.1 g.1 :=
    h.1.symm.trans ((hP _ _ (hfs g hgmem).1 (hes e he).1).mp hgkey).symm
  obtain rfl := eq_of_keys_apart hapart' hf hgmem hsame
  exact hasEntry_eq_true.mpr ⟨f, hg, (hP _ _ (hes e he).2 (hfs f hf).2).mpr h.2⟩

include hapart hapart' in
theorem Decides.matched :
    (es.length = fs.length ∧ ∀ e ∈ es, hasEntry fs e = true) ↔ Matched RearrangedEntry es fs := by
  constructor
  · rintro ⟨hlength, hfound⟩
    refine matched_of_exists hlength
      (fun e he => hP.exists_of_hasEntry hes hfs he (hfound e he)) ?_
    exact hapart.imp fun hkeys f hef hef' => hkeys (hef.1.trans hef'.1.symm)
  · intro h
    refine ⟨h.length_eq, fun e he => ?_⟩
    obtain ⟨f, hf, hef⟩ := h.exists_mem he
    exact hP.hasEntry_of_mem hes hfs hapart' he hf hef

end Deciding

section Plain

theorem sizeOf_item (h : v ∈ items) : sizeOf v < sizeOf (list items) := by
  have := List.sizeOf_lt_of_mem h
  rw [list.sizeOf_spec]
  omega

theorem sizeOf_entry {k : Value} (h : (k, v) ∈ es) :
    sizeOf k < sizeOf (dict es) ∧ sizeOf v < sizeOf (dict es) := by
  have := List.sizeOf_lt_of_mem h
  rw [Prod.mk.sizeOf_spec] at this
  rw [dict.sizeOf_spec]
  omega

theorem Plain.equal_scalar (hu : Plain u) (hscalar : u.isHashable = true) (hv : Plain v) :
    u.equal v = true ↔ u = v := by
  cases hu with
  | none | bool | int | str =>
    cases hv <;> simp [equal, equalFrom, sameNumber, number?]
  | list => cases hscalar
  | dict => cases hscalar

theorem rearranged_scalar (hscalar : u.isHashable = true) : Rearranged u v ↔ u = v := by
  constructor
  · intro h
    cases h.outermost with
    | same => rfl
    | list => cases hscalar
    | dict => cases hscalar
  · rintro rfl
    exact .refl u

theorem Plain.kind_eq (hu : Plain u) (hv : Plain v) (h : u.equal v = true) : u.kind = v.kind := by
  cases hu <;> cases hv <;> first | rfl | simp [equal, equalFrom, sameNumber, number?] at h

theorem Rearranged.kind_eq (h : Rearranged u v) : u.kind = v.kind := by
  cases h.outermost <;> rfl

theorem iff_of_kind_ne (hu : Plain u) (hv : Plain v) (h : u.kind ≠ v.kind) :
    u.equal v = true ↔ Rearranged u v :=
  iff_of_false (fun hequal => h (hu.kind_eq hv hequal)) fun hrearranged => h hrearranged.kind_eq

def PlainBelow (n : Nat) (v : Value) : Prop := sizeOf v < n ∧ Plain v

theorem PlainBelow.list_items {n : Nat} (h : PlainBelow (n + 1) (list as)) :
    ∀ a ∈ as, PlainBelow n a := by
  intro a ha
  have hsize := h.1
  have hitem := sizeOf_item ha
  exact ⟨by omega, plain_list.mp h.2 a ha⟩

theorem PlainBelow.dict_entries {n : Nat} (h : PlainBelow (n + 1) (dict es)) :
    ∀ e ∈ es, PlainBelow n e.1 ∧ PlainBelow n e.2 := by
  intro e he
  obtain ⟨hsize, hplain⟩ := h
  obtain ⟨-, hkeys, hvalues⟩ := plain_dict.mp hplain
  obtain ⟨hkey, hvalue⟩ := sizeOf_entry (show (e.1, e.2) ∈ es from he)
  exact ⟨⟨by omega, hkeys e he⟩, ⟨by omega, hvalues e he⟩⟩

/-- The induction is on a bound for the sizes of both values, since the keys of either dict are
compared among themselves as well as with the keys of the other. -/
theorem decides_plain (n : Nat) : Decides (PlainBelow n) := by
  induction n with
  | zero => exact fun u _ h => absurd h.1 (Nat.not_lt_zero _)
  | succ n ih =>
    intro u v hu hv
    by_cases hkind : u.kind = v.kind
    case neg => exact iff_of_kind_ne hu.2 hv.2 hkind
    cases u with
    | none | bool | int | str =>
      rw [hu.2.equal_scalar rfl hv.2, rearranged_scalar rfl]
    | float x => cases hu.2
    | list as =>
      cases v with
      | list bs =>
        rw [equal_list, rearranged_list]
        exact ih.lists hu.list_items hv.list_items
      | none | bool | int | float | str | dict => cases hkind
    | dict es =>
      cases v with
      | dict fs =>
        have hes := hu.dict_entries
        have hfs := hv.dict_entries
        rw [equal_dict hu.2 hv.2, rearranged_dict]
        exact ih.matched hes hfs (ih.keys_apart (fun e he => (hes e he).1) (plain_dict.mp hu.2).1)
          (ih.keys_apart (fun f hf => (hfs f hf).1) (plain_dict.mp hv.2).1)
      | none | bool | int | float | str | list => cases hkind

namespace Plain

theorem equal_iff (hu : Plain u) (hv : Plain v) : u.equal v = true ↔ Rearranged u v :=
  decides_plain (sizeOf u + sizeOf v + 1) u v ⟨by omega, hu⟩ ⟨by omega, hv⟩

theorem equal_refl (hv : Plain v) : v.equal v = true := (hv.equal_iff hv).mpr (.refl v)

theorem equal_symm (hu : Plain u) (hv : Plain v) (h : u.equal v = true) : v.equal u = true :=
  (hv.equal_iff hu).mpr ((hu.equal_iff hv).mp h).symm

theorem equal_trans (hu : Plain u) (hv : Plain v) (hw : Plain w) (h : u.equal v = true)
    (h' : v.equal w = true) : u.equal w = true :=
  (hu.equal_iff hw).mpr (((hu.equal_iff hv).mp h).trans ((hv.equal_iff hw).mp h'))

end Plain

/-- Equality of values without floats, in whose dicts no two keys are equal, is an equivalence: two
of them are equal if and only if the one comes from the other by reordering the entries of
dicts. -/
theorem equality_of_plain :
    Equivalence (fun u v : { v : Value // Plain v } => u.1.equal v.1 = true)
      ∧ ∀ u v : Value, Plain u → Plain v → (u.equal v = true ↔ Rearranged u v) :=
  ⟨⟨fun v => v.2.equal_refl, fun {u v} => u.2.equal_symm v.2,
    fun {u v w} => u.2.equal_trans v.2 w.2⟩, fun _ _ => Plain.equal_iff⟩

/-- A dict in a list, and the same list with the entries of both dicts turned round. -/
theorem equality_of_plain_nested :
    let u := list [dict [(str "a", int 1), (str "b", dict [(int 2, none), (none, list [])])]]
    let v := list [dict [(str "b", dict [(none, list []), (int 2, none)]), (str "a", int 1)]]
    Plain u ∧ Plain v ∧ u.equal v = true ∧ Rearranged u v := by
  intro u v
  have hu : Plain u := by
    simp [u, plain_list, plain_dict, Plain.none, Plain.int, Plain.str, equal, equalFrom,
      sameNumber, number?]
  have hv : Plain v := by
    simp [v, plain_list, plain_dict, Plain.none, Plain.int, Plain.str, equal, equalFrom,
      sameNumber, number?]
  have hequal : u.equal v = true := by
    simp [u, v, equal, equalFrom, equalItems, allFound, sameNumber, number?]
  exact ⟨hu, hv, hequal, (equality_of_plain.2 u v hu hv).mp hequal⟩

end Plain

end MissionScript.Value
