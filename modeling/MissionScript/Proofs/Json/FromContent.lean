import MissionScript.Proofs.Json.Slots

/-!
# Data are read back from content

Where nothing is spread, data that fit their shape are read back from the content of what is written
for them (`Shape.ofContent_write`).
-/

namespace MissionScript.Json

/-- Items that are read back one by one are read back all together. -/
theorem mapM_map_eq_ok {α β ε : Type} {f : β → Except ε α} {g : α → β} :
    ∀ {xs : List α}, (∀ x ∈ xs, f (g x) = .ok x) → (xs.map g).mapM f = .ok xs
  | [], _ => rfl
  | x :: xs, h => by
    have hx := h x List.mem_cons_self
    have ih : (xs.map g).mapM f = .ok xs :=
      mapM_map_eq_ok fun y hy => h y (List.mem_cons_of_mem _ hy)
    rw [List.map_cons, List.mapM_cons, hx, ih]
    rfl

theorem bind_eq_of_eq_ok {α β ε : Type} {x : Except ε α} {a : α} {f : α → Except ε β}
    (h : x = .ok a) : (x >>= f) = f a := by
  rw [h]
  rfl

theorem asContent_ne_null {j : Json} (hj : j ≠ .null) : j.asContent ≠ .null := by
  cases j <;> simp_all [asContent]

theorem inRange_eq_ok {name : String} {low high n : Int} (hlow : low ≤ n) (hhigh : n ≤ high) :
    inRange name low high n = .ok (.whole n) := by
  rw [inRange, if_pos ⟨hlow, hhigh⟩]

theorem chosen_eq_ok {names : List String} {s : String} (hs : s ∈ names) :
    chosen names s = .ok (.text s) := by
  rw [chosen, if_pos (List.contains_iff_mem.mpr hs)]

theorem ofContent_optional {s : Shape} {c : Content} (hc : c ≠ .null) :
    (Shape.optional s).ofContent c = s.ofContent c := by
  rw [Shape.ofContent]
  exact hc

theorem contentReaders_eq_map : ∀ ms : List (Member × Shape),
    Shape.contentReaders ms = ms.map fun x => x.2.ofContent
  | [] => rfl
  | (m, s) :: ms => by rw [Shape.contentReaders, contentReaders_eq_map ms, List.map_cons]

/-- Content is taken in as the entries are placed. -/
theorem slotsOfMembers_of_places {members : List Member} {gives : Nat → Json → Datum → Prop}
    {read : Nat → Content → Except Fault Datum} {slots slots' : Slots}
    {es others : List (String × Json)}
    (hread : ∀ i j d, gives i j d → read i j.asContent = .ok d)
    (h : Places members gives slots es slots' others) :
    slotsOfMembers members read slots (contentOfMembers es) = .ok slots' := by
  induction h with
  | nil => rfl
  | member hposition hfree hgives _ ih =>
    simp only [contentOfMembers, slotsOfMembers, hposition, hfree, hread _ _ _ hgives]
    exact ih
  | other hposition _ ih =>
    simp only [contentOfMembers, slotsOfMembers, hposition]
    exact ih

/-- A record is read back if its members are. -/
theorem ofContent_record {name : String} {ms : List (Member × Shape)} {ds : List Datum}
    (hms : (Shape.record name ms).faithful false) (hds : Shape.FitsAll ms ds)
    (hread : ∀ x ∈ ms, ∀ d, x.2.Fits d → x.2.ofContent (x.2.write d).asContent = .ok d) :
    (Shape.record name ms).ofContent (Json.obj (Shape.writeMembers ms ds)).asContent =
      .ok (.record ds) := by
  simp only [Shape.faithful, Bool.and_eq_true, decide_eq_true_eq] at hms
  have hplaces := places_written hms.1 [] ms [] rfl rfl hms.2 hds
  rw [List.nil_append, List.nil_append] at hplaces
  rw [asContent, Shape.ofContent, List.map_map]
  refine (bind_eq_of_eq_ok (slotsOfMembers_of_places (fun i j d hgives => ?_) hplaces)).trans ?_
  · obtain ⟨m, s, hi, -, hd, rfl⟩ := hgives
    simp only [contentReaders_eq_map, List.getElem?_map, hi, Option.map_some]
    exact hread (m, s) (List.mem_of_getElem? hi) d hd
  · refine (bind_eq_of_eq_ok (fillSlots_slotsOf hms.2 hds)).trans ?_
    rw [map_filledSlots hms.2 hds]
    rfl

mutual

/-- Data of a shape without spread records are read back from content. -/
theorem Shape.ofContent_write : ∀ (s : Shape) {d : Datum}, s.faithful false → s.Fits d →
    s.ofContent (s.write d).asContent = .ok d
  | .whole _ low high, _, _, hd => by
    obtain ⟨n, rfl, hlow, hhigh⟩ := hd
    exact inRange_eq_ok hlow hhigh
  | .flag, _, _, hd => by
    obtain ⟨b, rfl⟩ := hd
    rfl
  | .text, _, _, hd => by
    obtain ⟨s, rfl⟩ := hd
    rfl
  | .choice names, _, _, hd => by
    obtain ⟨s, hs, rfl⟩ := hd
    exact chosen_eq_ok hs
  | .list item, _, hs, hd => by
    obtain ⟨ds, rfl, hds⟩ := hd
    have hitems : (ds.map fun d => (item.write d).asContent).mapM item.ofContent = .ok ds :=
      mapM_map_eq_ok fun d hd => Shape.ofContent_write item hs (hds d hd)
    simp only [Shape.write, Datum.items, asContent, contentOfItems_eq_map, Shape.ofContent,
      List.map_map, Function.comp_def, hitems]
    rfl
  | .optional s, _, hs, hd => by
    simp only [Shape.faithful, Bool.and_eq_true, Bool.not_eq_true'] at hs
    rcases hd with rfl | hd
    · rfl
    · rw [Shape.write_optional (hd.ne_absent hs.1),
        ofContent_optional (asContent_ne_null (Shape.write_ne_null hs.1 hd))]
      exact Shape.ofContent_write s hs.2 hd
  | .record name members, _, hs, hd => by
    obtain ⟨ds, rfl, hds⟩ := hd
    refine ofContent_record hs hds (Shape.ofContent_writeAll members ?_)
    simp only [Shape.faithful, Bool.and_eq_true] at hs
    exact hs.2

theorem Shape.ofContent_writeAll : ∀ (ms : List (Member × Shape)), Shape.allFaithful false ms →
    ∀ x ∈ ms, ∀ d, x.2.Fits d → x.2.ofContent (x.2.write d).asContent = .ok d
  | [], _, x, hx, _, _ => absurd hx List.not_mem_nil
  | (m, s) :: ms, hms, x, hx, d, hd => by
    rcases List.mem_cons.mp hx with rfl | hx
    · cases hm : m.spread with
      | true => exact absurd (Shape.allFaithful_spread hms hm).1 Bool.false_ne_true
      | false => exact Shape.ofContent_write s (Shape.allFaithful_own hms hm).2 hd
    · exact Shape.ofContent_writeAll ms (Shape.allFaithful_tail hms) x hx d hd

end

/-- A spread record is made again of the entries that were its own. -/
theorem spreadSlots_filledSlots {spreads : Bool} (entries : List (String × Json)) :
    ∀ {ms : List (Member × Shape)} {ds : List Datum}, Shape.allFaithful spreads ms →
      Shape.FitsAll ms ds → (hasSpread (ms.map (·.1)) = true → entries = spreadEntries ms ds) →
      Reading.spreadSlots (contentOfMembers entries) ms (filledSlots ms ds) = .ok ds
  | [], _, _, hds, _ => by
    cases hds
    rfl
  | (m, s) :: ms, _, hms, hds, hentries => by
    obtain ⟨d, ds, rfl, hd, hds⟩ := hds
    have htail := Shape.allFaithful_tail hms
    cases hm : m.spread with
    | true =>
      obtain ⟨-, hrecord, hlast, hs⟩ := Shape.allFaithful_spread hms hm
      obtain ⟨inner, hinner⟩ := Shape.write_record hrecord hd
      have ih := spreadSlots_filledSlots entries htail hds
        fun h => absurd (h.symm.trans hlast) Bool.true_eq_false.mp
      have hown := Shape.ofContent_write s hs hd
      have hall := hentries (by simp [hasSpread, hm])
      simp only [spreadEntries, hm, ↓reduceIte, hinner, spreadEntries_eq_nil hlast,
        List.append_nil] at hall
      rw [hinner, asContent, ← hall] at hown
      simp only [filledSlots, Reading.spreadSlots, hm, ↓reduceIte, hown, ih]
      rfl
    | false =>
      have ih := spreadSlots_filledSlots entries htail hds fun h => by
        rw [hentries (by simpa [hasSpread, hm] using h), spreadEntries, hm,
          if_neg Bool.false_ne_true]
      simp only [filledSlots, Reading.spreadSlots, hm, Bool.false_eq_true, ↓reduceIte, ih]
      rfl

end MissionScript.Json
