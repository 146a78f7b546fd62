import MissionScript.Proofs.Run.Congruence
import MissionScript.Proofs.Value.Equality

/-!
# Order of values

Lists are ordered by the first items that are not equal, and the items before these need not have an
order at all. All the same, values without floats, in whose dicts no two keys are equal, are ordered
consistently: the order is the same seen from either side, equal values stand alike in it, and it is
passed on from one value to the next. So the greatest of some items, or the least, is found by
comparing each of them with the best one so far alone: it is the first that none of them surpasses
(`order_of_plain`).
-/

namespace MissionScript

namespace Value

variable {a b c : Value} {as bs cs : List Value} {o : Ordering}

theorem Plain.equal_comm (ha : Plain a) (hb : Plain b) : a.equal b = b.equal a :=
  Bool.eq_iff_iff.mpr ⟨ha.equal_symm hb, hb.equal_symm ha⟩

theorem Plain.equal_congr (ha : Plain a) (hb : Plain b) (hc : Plain c) (h : a.equal b = true) :
    a.equal c = b.equal c :=
  Bool.eq_iff_iff.mpr ⟨hb.equal_trans ha hc (ha.equal_symm hb h), ha.equal_trans hb hc h⟩

/-- Values that may have an order: two ints, two texts or two lists. -/
inductive Akin : Value → Value → Prop
  | int (m n : Int64) : Akin (int m) (int n)
  | str (s t : String) : Akin (str s) (str t)
  | list (as bs : List Value) : Akin (list as) (list bs)

theorem akin_of_order (ha : Plain a) (hb : Plain b) (h : a.order b = some o) : Akin a b := by
  cases ha <;> cases hb <;> first | constructor | simp [order, orderNumbers, number?] at h

section Lists

theorem orderItems_cons (a b : Value) (as bs : List Value) :
    orderItems (a :: as) (b :: bs) = if a.equal b then orderItems as bs else a.order b := by
  rw [orderItems]

theorem orderItems_swap (has : ∀ a ∈ as, Plain a) (hbs : ∀ b ∈ bs, Plain b)
    (h : ∀ a ∈ as, ∀ b ∈ bs, b.order a = (a.order b).map Ordering.swap) :
    orderItems bs as = (orderItems as bs).map Ordering.swap := by
  induction as generalizing bs with
  | nil => cases bs <;> simp [orderItems]
  | cons a as ih =>
    cases bs with
    | nil => simp [orderItems]
    | cons b bs =>
      simp only [List.forall_mem_cons] at has hbs h
      rw [orderItems_cons, orderItems_cons, has.1.equal_comm hbs.1]
      split
      · exact ih has.2 hbs.2 fun a ha => (h.2 a ha).2
      · exact h.1.1

theorem orderItems_congr (has : ∀ a ∈ as, Plain a) (hbs : ∀ b ∈ bs, Plain b)
    (hcs : ∀ c ∈ cs, Plain c)
    (h : ∀ a ∈ as, ∀ b ∈ bs, ∀ c ∈ cs, a.equal b = true → a.order c = b.order c)
    (hequal : List.Forall₂ (fun a b => a.equal b = true) as bs) :
    orderItems as cs = orderItems bs cs := by
  induction hequal generalizing cs with
  | nil => rfl
  | cons hab _ ih =>
    cases cs with
    | nil => simp [orderItems]
    | cons c cs =>
      simp only [List.forall_mem_cons] at has hbs hcs h
      rw [orderItems_cons, orderItems_cons, has.1.equal_congr hbs.1 hcs.1 hab,
        h.1.1.1 hab, ih has.2 hbs.2 hcs.2 fun a ha b hb => ((h.2 a ha).2 b hb).2]

theorem orderItems_cons_eq_some :
    orderItems (a :: as) (b :: bs) = some o ↔
      a.equal b = true ∧ orderItems as bs = some o ∨ a.equal b ≠ true ∧ a.order b = some o := by
  rw [orderItems_cons]
  split
  · rename_i h
    simp [h]
  · rename_i h
    simp [h]

theorem forall₂_of_orderItems_eq (h : ∀ a ∈ as, ∀ b ∈ bs, a.order b = some .eq → a.equal b = true)
    (horder : orderItems as bs = some .eq) :
    List.Forall₂ (fun a b => a.equal b = true) as bs := by
  induction as generalizing bs with
  | nil =>
    cases bs with
    | nil => exact .nil
    | cons b bs => cases horder
  | cons a as ih =>
    cases bs with
    | nil => cases horder
    | cons b bs =>
      simp only [List.forall_mem_cons] at h
      rcases orderItems_cons_eq_some.mp horder with ⟨hab, horder⟩ | ⟨hab, horder⟩
      · exact .cons hab (ih (fun a ha => (h.2 a ha).2) horder)
      · exact absurd (h.1.1 horder) hab

end Lists

theorem order_swap (ha : Plain a) (hb : Plain b) :
    b.order a = (a.order b).map Ordering.swap := by
  induction ha generalizing b with
  | none | bool | dict => cases hb <;> simp [order, orderNumbers, number?]
  | int m =>
    cases hb with
    | int n => exact congrArg some Std.OrientedCmp.eq_swap
    | none | bool | str | list | dict => simp [order, orderNumbers, number?]
  | str s =>
    cases hb with
    | str t => exact congrArg some Std.OrientedCmp.eq_swap
    | none | bool | int | list | dict => simp [order, orderNumbers, number?]
  | list has ih =>
    cases hb with
    | list hbs =>
      rw [order, order]
      exact orderItems_swap has hbs fun a ha b hb => ih a ha (hbs b hb)
    | none | bool | int | str | dict => simp [order, orderNumbers, number?]

/-- Equal values stand alike to any other. -/
theorem order_congr_left (ha : Plain a) (hb : Plain b) (hc : Plain c) (h : a.equal b = true) :
    a.order c = b.order c := by
  induction ha generalizing b c with
  | none | bool | int | str =>
    obtain rfl := (Plain.equal_scalar (by constructor) rfl hb).mp h
    rfl
  | dict =>
    cases hb with
    | dict => cases hc <;> simp [order, orderNumbers, number?]
    | none | bool | int | str | list => simp [equal, equalFrom, sameNumber, number?] at h
  | list has ih =>
    cases hb with
    | list hbs =>
      cases hc with
      | list hcs =>
        rw [order, order]
        exact orderItems_congr has hbs hcs
          (fun a ha b hb c hc => ih a ha (hbs b hb) (hcs c hc)) (equal_list.mp h)
      | none | bool | int | str | dict => simp [order, orderNumbers, number?]
    | none | bool | int | str | dict => simp [equal, equalFrom, sameNumber, number?] at h

theorem order_congr_right (ha : Plain a) (hb : Plain b) (hc : Plain c) (h : a.equal b = true) :
    c.order a = c.order b := by
  rw [order_swap ha hc, order_swap hb hc, order_congr_left ha hb hc h]

/-- Values that stand neither below nor above each other are equal. -/
theorem equal_of_order_eq (ha : Plain a) (hb : Plain b) (h : a.order b = some .eq) :
    a.equal b = true := by
  induction ha generalizing b with
  | none | bool | dict => cases akin_of_order (by constructor <;> assumption) hb h
  | int m =>
    cases akin_of_order (.int m) hb h with
    | int _ n =>
      have hcompare := Option.some.inj h
      have heq : m = n := Int64.toInt_inj.mp (Std.LawfulEqCmp.eq_of_compare hcompare)
      exact (Plain.equal_scalar (.int m) rfl hb).mpr (congrArg int heq)
  | str s =>
    cases akin_of_order (.str s) hb h with
    | str _ t =>
      have hcompare := Option.some.inj h
      have heq : s = t := Std.LawfulEqCmp.eq_of_compare hcompare
      exact (Plain.equal_scalar (.str s) rfl hb).mpr (congrArg str heq)
  | @list as has ih =>
    cases akin_of_order (.list has) hb h with
    | list _ bs =>
      have hbs := plain_list.mp hb
      rw [order] at h
      exact equal_list.mpr (forall₂_of_orderItems_eq (fun a ha b hb => ih a ha (hbs b hb)) h)

theorem swap_ne (ho : o ≠ .eq) : o.swap ≠ o := by
  cases o with
  | eq => exact absurd rfl ho
  | lt => decide
  | gt => decide

/-- A value that stands below one of two equals cannot stand above the other. -/
theorem unequal_of_order (ha : Plain a) (hb : Plain b) (hc : Plain c) (hab : a.order b = some o)
    (hbc : b.order c = some o) (hne : a.equal b ≠ true) : a.equal c ≠ true := by
  intro hac
  rw [← order_congr_right ha hc hb hac, order_swap ha hb, hab] at hbc
  have ho : o = .eq := of_not_not fun ho => swap_ne ho (Option.some.inj hbc)
  exact hne (equal_of_order_eq ha hb (ho ▸ hab))

/-- The order of lists is passed on if that of their items is. -/
theorem orderItems_trans (has : ∀ a ∈ as, Plain a) (hbs : ∀ b ∈ bs, Plain b)
    (hcs : ∀ c ∈ cs, Plain c)
    (h : ∀ a ∈ as, ∀ b ∈ bs, ∀ c ∈ cs, a.order b = some o → b.order c = some o →
      a.order c = some o)
    (hab : orderItems as bs = some o) (hbc : orderItems bs cs = some o) :
    orderItems as cs = some o := by
  induction as generalizing bs cs with
  | nil =>
    cases bs with
    | nil => exact hbc
    | cons b bs =>
      cases hab
      cases cs with
      | nil => cases hbc
      | cons c cs => rfl
  | cons a as ih =>
    cases bs with
    | nil =>
      cases hab
      cases cs with
      | nil => rfl
      | cons c cs => cases hbc
    | cons b bs =>
      cases cs with
      | nil => exact hbc
      | cons c cs =>
        simp only [List.forall_mem_cons] at has hbs hcs h
        obtain ⟨ha, has⟩ := has
        obtain ⟨hb, hbs⟩ := hbs
        obtain ⟨hc, hcs⟩ := hcs
        -- The heads decide unless both pairs of them are equal.
        refine orderItems_cons_eq_some.mpr ?_
        rcases orderItems_cons_eq_some.mp hab with ⟨hequal, hab⟩ | ⟨hne, hab⟩
        · rcases orderItems_cons_eq_some.mp hbc with ⟨hequal', hbc⟩ | ⟨hne', hbc⟩
          · exact .inl ⟨ha.equal_trans hb hc hequal hequal',
              ih has hbs hcs (fun a ha b hb => ((h.2 a ha).2 b hb).2) hab hbc⟩
          · refine .inr ⟨fun hac => hne' ?_, (order_congr_left ha hb hc hequal).trans hbc⟩
            exact hb.equal_trans ha hc (ha.equal_symm hb hequal) hac
        · rcases orderItems_cons_eq_some.mp hbc with ⟨hequal', -⟩ | ⟨hne', hbc⟩
          · refine .inr ⟨fun hac => hne ?_, (order_congr_right hb hc ha hequal').symm.trans hab⟩
            exact ha.equal_trans hc hb hac (hb.equal_symm hc hequal')
          · exact .inr ⟨unequal_of_order ha hb hc hab hbc hne, h.1.1.1 hab hbc⟩

theorem compare_trans {α : Type} {cmp : α → α → Ordering} [Std.TransCmp cmp] {x y z : α}
    (hxy : cmp x y = o) (hyz : cmp y z = o) : cmp x z = o := by
  cases o with
  | lt => exact Std.TransCmp.lt_trans hxy hyz
  | eq => exact Std.TransCmp.eq_trans hxy hyz
  | gt => exact Std.TransCmp.gt_trans hxy hyz

/-- The order is passed on from value to value. -/
theorem order_trans (ha : Plain a) (hb : Plain b) (hc : Plain c) (hab : a.order b = some o)
    (hbc : b.order c = some o) : a.order c = some o := by
  induction ha generalizing b c with
  | none | bool | dict => cases akin_of_order (by constructor <;> assumption) hb hab
  | int m =>
    cases akin_of_order (.int m) hb hab with
    | int =>
      cases akin_of_order hb hc hbc with
      | int =>
        exact congrArg some (compare_trans (Option.some.inj hab) (Option.some.inj hbc))
  | str s =>
    cases akin_of_order (.str s) hb hab with
    | str =>
      cases akin_of_order hb hc hbc with
      | str =>
        exact congrArg some (compare_trans (Option.some.inj hab) (Option.some.inj hbc))
  | @list as has ih =>
    cases akin_of_order (.list has) hb hab with
    | list _ bs =>
      cases akin_of_order hb hc hbc with
      | list _ cs =>
        have hbs := plain_list.mp hb
        have hcs := plain_list.mp hc
        rw [order] at hab hbc ⊢
        exact orderItems_trans has hbs hcs
          (fun a ha b hb c hc => ih a ha (hbs b hb) (hcs c hc)) hab hbc

section Surpassing

variable {want : Ordering} (hwant : want ≠ .eq)
include hwant

theorem swap_eq_of_ne (ho : o ≠ .eq) (hne : o ≠ want) : o.swap = want := by
  cases o with
  | eq => exact absurd rfl ho
  | lt => cases want <;> first | rfl | contradiction
  | gt => cases want <;> first | rfl | contradiction

theorem order_self_ne (ha : Plain a) : a.order a ≠ some want := by
  intro h
  have hswap := order_swap ha ha
  rw [h] at hswap
  exact swap_ne hwant (Option.some.inj hswap).symm

/-- A value above another is above all that do not surpass this one. -/
theorem order_of_surpassed (ha : Plain a) (hb : Plain b) (hc : Plain c)
    (hab : a.order b = some want) (hcb : c.order b = some o) (hne : o ≠ want) :
    a.order c = some want := by
  by_cases heq : o = .eq
  · have hequal := equal_of_order_eq hc hb (heq ▸ hcb)
    rw [order_congr_right hc hb ha hequal, hab]
  · have hbc : b.order c = some want := by
      rw [order_swap hc hb, hcb, Option.map_some, swap_eq_of_ne hwant heq hne]
    exact order_trans ha hb hc hab hbc

end Surpassing

end Value

namespace Command

open Value (Plain)

variable {want : Ordering} {op : BinOp} {best u v : Value}
  {args items vs : List Value} {e : RuntimeError}

/-- The items from which `max` and `min` choose: those of a single argument, or the arguments. -/
def candidates (args : List Value) : Value.Result (List Value) :=
  match args with
  | [v] => v.items
  | vs => .ok vs

/-- None of the items compares to this one as `want`: none is greater, or none is less. -/
def unsurpassed (want : Ordering) (items : List Value) (v : Value) : Bool :=
  items.all fun u => u.order v ≠ some want

/-- Two of the items do not compare. -/
def SomeUnordered (items : List Value) : Prop := ∃ u v, [u, v].Sublist items ∧ v.order u = none

/-- What the command gives is the first of its items that none surpasses. It fails in
three ways only: two items do not compare, there is no item, or the gas is spent. -/
def Chooses (c : Command) (want : Ordering) : Prop :=
  ∀ (args items : List Value) (s : Session),
    args ≠ [] → candidates args = .ok items → (∀ v ∈ items, Plain v) →
      match c.invoke args s with
      | .ok v _ => items.find? (unsurpassed want items) = some v
      | .error e _ =>
        e.kind = .type ∧ SomeUnordered items
          ∨ e.kind = .value ∧ items = []
          ∨ e.kind = .stepLimit ∧ (s.gas.charge args.length).isSpent = true

/-- The items before the best one are below it, and those after it do not surpass it. -/
inductive Leads (want : Ordering) (best : Value) : List Value → Prop
  | intro {before after : List Value} (hbefore : ∀ u ∈ before, best.order u = some want)
      (hafter : ∀ u ∈ after, ∃ o, u.order best = some o ∧ o ≠ want) :
      Leads want best (before ++ best :: after)

theorem unsurpassed_eq_true :
    unsurpassed want items v = true ↔ ∀ u ∈ items, u.order v ≠ some want := by
  simp [unsurpassed]

namespace Leads

theorem alone (want : Ordering) (v : Value) : Leads want v [v] := by
  change Leads want v ([] ++ [v])
  exact .intro (fun _ h => absurd h List.not_mem_nil) fun _ h => absurd h List.not_mem_nil

theorem keep (h : Leads want best items) {o : Ordering} (horder : v.order best = some o)
    (ho : o ≠ want) : Leads want best (items ++ [v]) := by
  cases h with
  | intro hbefore hafter =>
    rw [List.append_assoc, List.cons_append]
    refine .intro hbefore fun u hu => ?_
    rcases List.mem_append.mp hu with hu | hu
    · exact hafter u hu
    · rw [List.mem_singleton.mp hu]
      exact ⟨o, horder, ho⟩

theorem mem (h : Leads want best items) : best ∈ items := by
  cases h with
  | intro => exact List.mem_append_right _ List.mem_cons_self

theorem standing (h : Leads want best items) (hu : u ∈ items) :
    best.order u = some want ∨ u = best ∨ ∃ o, u.order best = some o ∧ o ≠ want := by
  cases h with
  | intro hbefore hafter =>
    rcases List.mem_append.mp hu with hu | hu
    · exact .inl (hbefore u hu)
    · rcases List.mem_cons.mp hu with rfl | hu
      · exact .inr (.inl rfl)
      · exact .inr (.inr (hafter u hu))

/-- All the items are below one that surpasses the best of them. -/
theorem overtake (h : Leads want best items) (hwant : want ≠ .eq)
    (hitems : ∀ u ∈ items, Plain u) (hv : Plain v) (horder : v.order best = some want) :
    Leads want v (items ++ [v]) := by
  have hbest : Plain best := hitems best h.mem
  have hbelow : ∀ u ∈ items, v.order u = some want := by
    intro u hu
    rcases h.standing hu with habove | rfl | ⟨o, ho, hne⟩
    · exact Value.order_trans hv hbest (hitems u hu) horder habove
    · exact horder
    · exact Value.order_of_surpassed hwant hv hbest (hitems u hu) horder ho hne
  exact .intro hbelow fun u hu => absurd hu List.not_mem_nil

theorem not_surpassed (h : Leads want best items) (hwant : want ≠ .eq)
    (hitems : ∀ u ∈ items, Plain u) : unsurpassed want items best = true := by
  have hbest : Plain best := hitems best h.mem
  refine unsurpassed_eq_true.mpr fun u hu hsurpasses => ?_
  rcases h.standing hu with habove | rfl | ⟨o, ho, hne⟩
  · rw [Value.order_swap hbest (hitems u hu), habove] at hsurpasses
    exact Value.swap_ne hwant (Option.some.inj hsurpasses)
  · exact Value.order_self_ne hwant hbest hsurpasses
  · exact hne (Option.some.inj (ho.symm.trans hsurpasses))

theorem find?_eq (h : Leads want best items) (hwant : want ≠ .eq)
    (hitems : ∀ u ∈ items, Plain u) :
    items.find? (unsurpassed want items) = some best := by
  have hunsurpassed := h.not_surpassed hwant hitems
  cases h with
  | @intro before after hbefore hafter =>
    refine List.find?_eq_some_iff_append.mpr ⟨hunsurpassed, before, after, rfl, fun u hu => ?_⟩
    rw [Bool.not_eq_true', Bool.eq_false_iff, Ne, unsurpassed_eq_true]
    exact fun hall => hall best (List.mem_append_right _ List.mem_cons_self) (hbefore u hu)

end Leads

theorem extremeFrom_cons_of_some {o : Ordering} (h : v.order best = some o) :
    extremeFrom want op best (v :: vs) = extremeFrom want op (if o = want then v else best) vs := by
  rw [extremeFrom, h]

/-- The best of the items so far becomes the best of all, compared with the others one by one. The
induction is on the items that are left; that the best one leads those before them is kept. -/
theorem leads_of_extremeFrom (h : Leads want best items) (hwant : want ≠ .eq)
    (hplain : ∀ u ∈ items ++ vs, Plain u) (hrun : extremeFrom want op best vs = .ok v) :
    Leads want v (items ++ vs) := by
  induction vs generalizing best items with
  | nil =>
    cases hrun
    rwa [List.append_nil]
  | cons u vs ih =>
    rw [List.append_cons] at hplain ⊢
    have hitems : ∀ w ∈ items, Plain w := fun w hw =>
      hplain w (List.mem_append_left _ (List.mem_append_left _ hw))
    have hu : Plain u :=
      hplain u (List.mem_append_left _ (List.mem_append_right _ List.mem_cons_self))
    cases horder : u.order best with
    | none =>
      rw [extremeFrom, horder] at hrun
      cases hrun
    | some o =>
      rw [extremeFrom_cons_of_some horder] at hrun
      by_cases ho : o = want
      · rw [if_pos ho] at hrun
        exact ih (h.overtake hwant hitems hu (ho ▸ horder)) hplain hrun
      · rw [if_neg ho] at hrun
        exact ih (h.keep horder ho) hplain hrun

theorem unordered_of_extremeFrom (hrun : extremeFrom want op best vs = .error e) :
    e.kind = .type ∧ SomeUnordered (best :: vs) := by
  induction vs generalizing best with
  | nil => cases hrun
  | cons v vs ih =>
    cases horder : v.order best with
    | none =>
      rw [extremeFrom, horder] at hrun
      cases hrun
      exact ⟨rfl, best, v, by simp, horder⟩
    | some o =>
      rw [extremeFrom_cons_of_some horder] at hrun
      obtain ⟨hkind, u, w, hsublist, hnone⟩ := ih hrun
      refine ⟨hkind, u, w, hsublist.trans ?_, hnone⟩
      split
      · exact .cons _ (.refl _)
      · exact .cons_cons _ (.cons _ (.refl _))

theorem extreme_eq (name : String) (want : Ordering) (op : BinOp) (args : List Value) :
    extreme name want op args =
      (candidates args >>= fun items =>
        match items with
        | [] => .error (.emptySequence name)
        | v :: vs => extremeFrom want op v vs) := by
  match args with
  | [] => rfl
  | [_] => rfl
  | _ :: _ :: _ => rfl

theorem extreme_chooses (name : String) (op : BinOp) (hwant : want ≠ .eq)
    (hitems : candidates args = .ok items) (hplain : ∀ v ∈ items, Plain v) :
    match extreme name want op args with
    | .ok v => items.find? (unsurpassed want items) = some v
    | .error e => e.kind = .type ∧ SomeUnordered items ∨ e.kind = .value ∧ items = [] := by
  rw [extreme_eq, hitems]
  cases items with
  | nil => exact .inr ⟨rfl, rfl⟩
  | cons v vs =>
    change match extremeFrom want op v vs with
      | .ok v' => (v :: vs).find? (unsurpassed want (v :: vs)) = some v'
      | .error e => e.kind = .type ∧ SomeUnordered (v :: vs) ∨ e.kind = .value ∧ v :: vs = []
    cases hrun : extremeFrom want op v vs with
    | ok best =>
      have hleads := leads_of_extremeFrom (.alone want v) hwant hplain hrun
      exact hleads.find?_eq hwant hplain
    | error e => exact .inl (unordered_of_extremeFrom hrun)

theorem chooses_of_effect {c : Command} (name : String) (op : BinOp) (hwant : want ≠ .eq)
    (harity : c.arity = .atLeast 1)
    (heffect : ∀ args, c.effect args =
      (Session.charge args.length >>= fun _ => ofResult (extreme name want op args))) :
    Chooses c want := by
  intro args items s hargs hitems hplain
  have hchosen := extreme_chooses name op hwant hitems hplain
  have hcheck : c.arity.check c.name args.length = .ok () := by
    rw [harity]
    exact if_pos (decide_eq_true (List.length_pos_iff.mpr hargs))
  have hinvoke : c.invoke args s = c.effect args s := by
    rw [invoke, hcheck]
    rfl
  rw [hinvoke, heffect, bind_apply]
  by_cases hspent : (s.gas.charge args.length).isSpent = true
  · have hcharge : Session.charge args.length s =
        .error .budgetSpent { s with gas := s.gas.charge args.length } := if_pos hspent
    rw [hcharge]
    exact .inr (.inr ⟨rfl, hspent⟩)
  · have hcharge : Session.charge args.length s =
        .ok () { s with gas := s.gas.charge args.length } := if_neg hspent
    rw [hcharge]
    cases hrun : extreme name want op args with
    | ok v =>
      rw [hrun] at hchosen
      exact hchosen
    | error e =>
      rw [hrun] at hchosen
      exact hchosen.imp_right .inl

theorem max_chooses : Chooses max .gt :=
  chooses_of_effect "max" .greater (by decide) rfl fun _ => rfl

theorem min_chooses : Chooses min .lt :=
  chooses_of_effect "min" .less (by decide) rfl fun _ => rfl

end Command

namespace Value

/-- Values without floats, in whose dicts no two keys are equal, are ordered consistently, though
the items that decide between two lists may follow others that have no order; and `max` and `min`
find the first of the items that none surpasses. -/
theorem order_of_plain :
    (∀ a b : Value, Plain a → Plain b →
        (a.order b = some .eq → a.equal b = true) ∧ b.order a = (a.order b).map Ordering.swap)
      ∧ (∀ a b c : Value, Plain a → Plain b → Plain c → ∀ o,
        a.order b = some o → b.order c = some o → a.order c = some o)
      ∧ Command.Chooses .max .gt ∧ Command.Chooses .min .lt :=
  ⟨fun _ _ ha hb => ⟨equal_of_order_eq ha hb, order_swap ha hb⟩,
    fun _ _ _ ha hb hc _ => order_trans ha hb hc, Command.max_chooses, Command.min_chooses⟩

/-- Lists that are told apart after a dict, which has no order. -/
theorem order_of_plain_lists :
    let item (n : Int64) := list [dict [(str "a", none)], int n]
    let lists := [item 1, item 3, item 2]
    let level : Level :=
      { grid := ⟨1, 1⟩, start := ⟨0, 0⟩, startDirection := .up, targets := [], obstacles := []
        requiredOutput := Option.none, maxMoves := Option.none, initialCode := "", hints := [] }
    let s := Session.start level 1 10
    (item 1).order (item 3) = some .lt ∧ (item 3).order (item 1) = some .gt
      ∧ Command.max.invoke lists s = .ok (item 3) { s with gas := s.gas.charge 3 }
      ∧ lists.find? (Command.unsurpassed .gt lists) = some (item 3) := by
  intro item lists level s
  have hplain : ∀ n, Plain (item n) := by
    simp [item, plain_list, plain_dict, Plain.none, Plain.int, Plain.str]
  have hdict : Plain (dict [(str "a", none)]) := by
    simp [plain_dict, Plain.none, Plain.str]
  have horder : ∀ m n, m ≠ n → (item m).order (item n) = some (compare m.toInt n.toInt) := by
    intro m n hne
    have hunequal : (int m).equal (int n) ≠ true := fun h =>
      hne (int.inj ((Plain.equal_scalar (.int m) rfl (.int n)).mp h))
    rw [order, orderItems_cons, if_pos hdict.equal_refl, orderItems_cons, if_neg hunequal, order]
  have hlt : (item 1).order (item 3) = some .lt := horder 1 3 (by decide)
  have hgt := (order_of_plain.1 (item 1) (item 3) (hplain 1) (hplain 3)).2
  rw [hlt] at hgt
  have hextreme : Command.extreme "max" .gt .greater lists = .ok (item 3) := by
    have h31 : (item 3).order (item 1) = some .gt := hgt
    have h23 : (item 2).order (item 3) = some .lt := horder 2 3 (by decide)
    rw [Command.extreme_eq]
    change Command.extremeFrom .gt .greater (item 1) [item 3, item 2] = _
    rw [Command.extremeFrom_cons_of_some h31, if_pos rfl, Command.extremeFrom_cons_of_some h23]
    rfl
  have hrun : Command.max.invoke lists s = .ok (item 3) { s with gas := s.gas.charge 3 } := by
    have heffect : Command.max.effect lists =
        (Session.charge 3 >>= fun _ => Command.ofResult (.ok (item 3))) := by
      rw [Command.effect, hextreme]
      rfl
    rw [Command.invoke, heffect]
    rfl
  have hplains : ∀ v ∈ lists, Plain v := by simp [lists, hplain]
  have hchosen := order_of_plain.2.2.1 lists lists s (by simp [lists]) rfl hplains
  rw [hrun] at hchosen
  exact ⟨hlt, hgt, hrun, hchosen⟩

end Value

end MissionScript
