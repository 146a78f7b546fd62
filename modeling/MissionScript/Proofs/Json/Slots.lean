import MissionScript.Proofs.Json.Fits

/-!
# The members of a record find their places again

Text and content are read into a record in the same way: an entry goes to the slot of the member
that its key names, and one whose key names no member is kept for a spread record. `Places` is that
way, and `places_written` says where it leads for the entries that are written for a record. What is
then missing was left out, and `fillSlots_slotsOf` gives it back.
-/

namespace MissionScript.Json

/-- Taken one after the other, the entries fill the slots that their keys name, and those that name
none are `others`. What an entry holds is read for the member at a position by `gives`. -/
inductive Places (members : List Member) (gives : Nat → Json → Datum → Prop) :
    Slots → List (String × Json) → Slots → List (String × Json) → Prop where
  | nil {slots : Slots} : Places members gives slots [] slots []
  | member {slots slots' : Slots} {es others : List (String × Json)} {k : String} {j : Json}
    {i : Nat} {d : Datum} (hposition : memberPosition? members k = some i)
    (hfree : slots[i]? = some none) (hgives : gives i j d)
    (h : Places members gives (slots.set i (some d)) es slots' others) :
    Places members gives slots ((k, j) :: es) slots' others
  | other {slots slots' : Slots} {es others : List (String × Json)} {k : String} {j : Json}
    (hposition : memberPosition? members k = none)
    (h : Places members gives slots es slots' others) :
    Places members gives slots ((k, j) :: es) slots' ((k, j) :: others)

theorem Places.others {members : List Member} {gives : Nat → Json → Datum → Prop}
    {slots slots' : Slots} {inner es others : List (String × Json)}
    (hinner : ∀ e ∈ inner, memberPosition? members e.1 = none)
    (h : Places members gives slots es slots' others) :
    Places members gives slots (inner ++ es) slots' (inner ++ others) := by
  induction inner with
  | nil => exact h
  | cons e inner ih =>
    exact .other (hinner e List.mem_cons_self)
      (ih fun e he => hinner e (List.mem_cons_of_mem _ he))

/-- A spread member has no entry of its own, and one that is left out has none. -/
def slotOf (m : Member) (d : Datum) : Option Datum :=
  if m.spread || (m.omitted && d.isNothing) then none else some d

/-- The slots of a record that was written. -/
def slotsOf : List (Member × Shape) → List Datum → Slots
  | (m, _) :: ms, d :: ds => slotOf m d :: slotsOf ms ds
  | _, _ => []

/-- The entries of the records that are spread. -/
def spreadEntries : List (Member × Shape) → List Datum → List (String × Json)
  | (m, s) :: ms, d :: ds =>
    if m.spread then
      match s.write d with
      | .obj inner => inner ++ spreadEntries ms ds
      | _ => spreadEntries ms ds
    else spreadEntries ms ds
  | _, _ => []

/-- The value is what is written for the datum as the member at the position, which is not a spread
one. -/
def IsWritten (members : List (Member × Shape)) (i : Nat) (j : Json) (d : Datum) : Prop :=
  ∃ m s, members[i]? = some (m, s) ∧ m.spread = false ∧ s.Fits d ∧ j = s.write d

section Keys

variable {m : Member} {s : Shape} {ms todo : List (Member × Shape)}

theorem keysOf_append (xs ys : List (Member × Shape)) :
    keysOf (xs ++ ys) = keysOf xs ++ keysOf ys := List.flatMap_append

theorem keysOf_cons_own (hm : m.spread = false) : keysOf ((m, s) :: ms) = m.name :: keysOf ms := by
  simp [keysOf, hm]

theorem keysOf_cons_spread (hm : m.spread = true) :
    keysOf ((m, s) :: ms) = s.names?.getD [] ++ keysOf ms := by
  simp [keysOf, hm]

theorem name_mem_keysOf {x : Member × Shape} (hx : x ∈ ms) (hspread : x.1.spread = false) :
    x.1.name ∈ keysOf ms :=
  List.mem_flatMap.mpr ⟨x, hx, by simp [hspread]⟩

/-- A key that is not among those of the members names none of them. -/
theorem memberPosition?_of_notMem {k : String} (hk : k ∉ keysOf ms) :
    memberPosition? (ms.map (·.1)) k = none := by
  rw [memberPosition?, List.findIdx?_eq_none_iff]
  intro m hm
  obtain ⟨x, hx, rfl⟩ := List.mem_map.mp hm
  rw [Bool.and_eq_false_imp, Bool.not_eq_true']
  intro hspread
  rw [decide_eq_false_iff_not]
  rintro rfl
  exact hk (name_mem_keysOf hx hspread)

/-- The name of a member names no other one. -/
theorem memberPosition?_own {done : List (Member × Shape)} (hm : m.spread = false)
    (hnodup : (keysOf (done ++ (m, s) :: todo)).Nodup) :
    memberPosition? ((done ++ (m, s) :: todo).map (·.1)) m.name = some done.length := by
  rw [keysOf_append, keysOf_cons_own hm, List.nodup_append] at hnodup
  have hdone : m.name ∉ keysOf done := fun h =>
    hnodup.2.2 m.name h m.name List.mem_cons_self rfl
  have hnone := memberPosition?_of_notMem hdone
  rw [memberPosition?] at hnone ⊢
  rw [List.map_append, List.findIdx?_append, hnone, List.map_cons, List.findIdx?_cons]
  simp [hm]

/-- The keys of a spread record name no member of the record around it. -/
theorem memberPosition?_inner {done : List (Member × Shape)} {k : String} (hm : m.spread = true)
    (hk : k ∈ s.names?.getD []) (hnodup : (keysOf (done ++ (m, s) :: todo)).Nodup) :
    memberPosition? ((done ++ (m, s) :: todo).map (·.1)) k = none := by
  rw [keysOf_append, keysOf_cons_spread hm, List.nodup_append, List.nodup_append] at hnodup
  obtain ⟨-, ⟨-, -, htodo⟩, hdone⟩ := hnodup
  have hrest : k ∉ keysOf (done ++ todo) := by
    rw [keysOf_append, List.mem_append]
    rintro (h | h)
    · exact hdone k h k (List.mem_append_left _ hk) rfl
    · exact htodo k hk k h rfl
  have hnone := memberPosition?_of_notMem hrest
  rw [memberPosition?, List.findIdx?_eq_none_iff] at hnone ⊢
  intro x hx
  simp only [List.map_append, List.map_cons, List.mem_append, List.mem_cons] at hx hnone
  rcases hx with hx | rfl | hx
  · exact hnone x (.inl hx)
  · simp [hm]
  · exact hnone x (.inr hx)

/-- Where nothing is spread, the keys that are written are the names of the members. -/
theorem mem_names_of_mem_writeMembers : ∀ {ms : List (Member × Shape)} {ds : List Datum},
    Shape.allFaithful false ms → ∀ e ∈ Shape.writeMembers ms ds, e.1 ∈ ms.map (·.1.name)
  | [], ds, _, e, he => by simp [Shape.writeMembers] at he
  | x :: ms, [], _, e, he => by simp [Shape.writeMembers] at he
  | (m, s) :: ms, d :: ds, hms, e, he => by
    rw [Shape.writeMembers, List.mem_append] at he
    rcases he with he | he
    · cases hm : m.spread with
      | true => exact absurd (Shape.allFaithful_spread hms hm).1 Bool.false_ne_true
      | false =>
        rw [hm, if_neg Bool.false_ne_true] at he
        split at he
        · simp at he
        · obtain rfl := List.mem_singleton.mp he
          exact List.mem_cons_self
    · exact List.mem_cons_of_mem _
        (mem_names_of_mem_writeMembers (Shape.allFaithful_tail hms) e he)

theorem mem_names_of_mem_write {d : Datum} {inner : List (String × Json)}
    (hrecord : s.names?.isSome) (hs : s.faithful false) (hd : s.Fits d)
    (hwrite : s.write d = .obj inner) : ∀ e ∈ inner, e.1 ∈ s.names?.getD [] := by
  cases s with
  | record name members =>
    obtain ⟨ds, rfl, -⟩ := hd
    obtain rfl : Shape.writeMembers members ds = inner := by simpa [Shape.write] using hwrite
    simp only [Shape.faithful, Bool.and_eq_true] at hs
    exact mem_names_of_mem_writeMembers hs.2
  | _ => simp [Shape.names?] at hrecord

end Keys

theorem spreadEntries_eq_nil : ∀ {ms : List (Member × Shape)} {ds : List Datum},
    hasSpread (ms.map (·.1)) = false → spreadEntries ms ds = []
  | [], ds, _ => by cases ds <;> rfl
  | x :: ms, [], _ => rfl
  | (m, s) :: ms, d :: ds, h => by
    simp only [hasSpread, List.map_cons, List.any_cons, Bool.or_eq_false_iff] at h
    rw [spreadEntries, h.1, if_neg Bool.false_ne_true]
    exact spreadEntries_eq_nil h.2

/-- The entries of spread records are among those that are written. -/
theorem mem_writeMembers_of_mem_spreadEntries : ∀ {ms : List (Member × Shape)} {ds : List Datum}
    {e : String × Json}, e ∈ spreadEntries ms ds → e ∈ Shape.writeMembers ms ds
  | [], ds, e, he => by cases ds <;> simp [spreadEntries] at he
  | x :: ms, [], e, he => by simp [spreadEntries] at he
  | (m, s) :: ms, d :: ds, e, he => by
    rw [spreadEntries] at he
    rw [Shape.writeMembers, List.mem_append]
    cases hm : m.spread with
    | true =>
      rw [hm, if_pos rfl] at he
      rw [if_pos rfl]
      revert he
      cases s.write d with
      | obj inner =>
        intro he
        exact (List.mem_append.mp he).imp_right mem_writeMembers_of_mem_spreadEntries
      | _ => exact fun he => .inr (mem_writeMembers_of_mem_spreadEntries he)
    | false =>
      rw [hm, if_neg Bool.false_ne_true] at he
      exact .inr (mem_writeMembers_of_mem_spreadEntries he)

/-- Each entry that is written for a record goes to the slot of its own member, or is one of a
record that is spread. -/
theorem places_written {spreads : Bool} {ms : List (Member × Shape)} (hnodup : (keysOf ms).Nodup) :
    ∀ (done todo : List (Member × Shape)) {ds : List Datum} (slots : Slots),
      ms = done ++ todo → slots.length = done.length → Shape.allFaithful spreads todo →
      Shape.FitsAll todo ds →
      Places (ms.map (·.1)) (IsWritten ms) (slots ++ todo.map fun _ => none)
        (Shape.writeMembers todo ds) (slots ++ slotsOf todo ds) (spreadEntries todo ds)
  | done, [], ds, slots, _, _, _, hds => by
    obtain rfl : ds = [] := hds
    exact .nil
  | done, (m, s) :: todo, _, slots, hms, hlength, htodo, hds => by
    obtain ⟨d, ds, rfl, hd, hds⟩ := hds
    -- the slots of the members to come are free, whatever the one at hand gets
    have hnext : ms = (done ++ [(m, s)]) ++ todo := by rw [hms, List.append_assoc]; rfl
    have ih (slot : Option Datum) := places_written hnodup (done ++ [(m, s)]) todo (slots ++ [slot])
      hnext (by simp [hlength]) (Shape.allFaithful_tail htodo) hds
    simp only [List.append_assoc, List.singleton_append] at ih
    rw [List.map_cons, Shape.writeMembers, slotsOf, spreadEntries]
    cases hm : m.spread with
    | true =>
      obtain ⟨-, hrecord, -, hs⟩ := Shape.allFaithful_spread htodo hm
      obtain ⟨inner, hinner⟩ := Shape.write_record hrecord hd
      have hkeys := mem_names_of_mem_write hrecord hs hd hinner
      simp only [if_pos, hinner, slotOf, hm, Bool.true_or]
      refine .others (fun e he => ?_) (ih none)
      rw [hms] at hnodup ⊢
      exact memberPosition?_inner hm (hkeys e he) hnodup
    | false =>
      rw [if_neg Bool.false_ne_true, if_neg Bool.false_ne_true, slotOf, hm, Bool.false_or]
      cases hout : m.omitted && d.isNothing with
      | true => exact ih none
      | false =>
        have hposition : memberPosition? (ms.map (·.1)) m.name = some slots.length := by
          rw [hms] at hnodup ⊢
          rw [hlength]
          exact memberPosition?_own hm hnodup
        have hwritten : IsWritten ms slots.length (s.write d) d :=
          ⟨m, s, by simp [hms, hlength], hm, hd, rfl⟩
        refine .member hposition (by simp) hwritten ?_
        have hset : (slots ++ none :: todo.map fun _ => none).set slots.length (some d) =
            slots ++ some d :: todo.map fun _ => none := by simp
        rw [hset]
        exact ih (some d)

/-- The slots of a record once those of lacking members are filled. -/
def filledSlots : List (Member × Shape) → List Datum → Slots
  | (m, _) :: ms, d :: ds => (if m.spread then none else some d) :: filledSlots ms ds
  | _, _ => []

/-- The members that were left out get back what was there. -/
theorem fillSlots_slotsOf {spreads : Bool} : ∀ {ms : List (Member × Shape)} {ds : List Datum},
    Shape.allFaithful spreads ms → Shape.FitsAll ms ds →
    fillSlots (ms.map (·.1)) (slotsOf ms ds) = .ok (filledSlots ms ds)
  | [], _, _, hds => by
    cases hds
    rfl
  | (m, s) :: ms, _, hms, hds => by
    obtain ⟨d, ds, rfl, hd, hds⟩ := hds
    have ih := fillSlots_slotsOf (Shape.allFaithful_tail hms) hds
    simp only [List.map_cons, slotsOf, filledSlots, fillSlots, ih]
    cases hm : m.spread with
    | true => rw [slotOf, hm]; rfl
    | false =>
      rw [slotOf, hm, Bool.false_or]
      cases hout : m.omitted && d.isNothing with
      | true =>
        rw [Bool.and_eq_true] at hout
        have hrestores := (Shape.allFaithful_own hms hm).1 hout.1
        have hlacking := Member.lacking_of_restores hrestores hd hout.2
        simp only [if_neg Bool.false_ne_true, if_pos, hlacking]
        rfl
      | false => rfl

theorem map_filledSlots : ∀ {ms : List (Member × Shape)} {ds : List Datum},
    Shape.allFaithful false ms → Shape.FitsAll ms ds →
    (filledSlots ms ds).map (·.getD .absent) = ds
  | [], _, _, hds => by
    cases hds
    rfl
  | (m, s) :: ms, _, hms, hds => by
    obtain ⟨d, ds, rfl, -, hds⟩ := hds
    have ih := map_filledSlots (Shape.allFaithful_tail hms) hds
    cases hm : m.spread with
    | true => exact absurd (Shape.allFaithful_spread hms hm).1 Bool.false_ne_true
    | false => simp [filledSlots, hm, ih]

end MissionScript.Json
