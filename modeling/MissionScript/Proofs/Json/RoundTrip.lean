import MissionScript.Proofs.Json.FromContent

/-!
# Data are read back from text

The reader of a faithful shape takes the compact form of what is written for data of the shape, and
gives the data (`Shape.reads_write`). So the text of such data is read as the data
(`Shape.read_write`), and two of them with the same text are equal (`Shape.write_injective`).
-/

namespace MissionScript.Json

theorem Takes.alone {α : Type} {act : Reading α} {cs : List Char} {a : α}
    (h : Takes act cs [] a) : Takes act.alone cs [] a :=
  h.bind_end (.bind_nil (Reading.takes_token nofun) (.pure a))

namespace Reading

variable {rest : List Char}

theorem takes_ofFinding {α : Type} {r : Except Fault α} {a : α} (h : r = .ok a) :
    Takes (ofFinding r) [] rest a := by
  rw [h]
  exact .pure a

theorem reads_whole {name : String} {low high n : Int} (hn : IsWhole n) (hlow : low ≤ n)
    (hhigh : n ≤ high) : Reads (whole name low high) (.num n) (.whole n) := by
  intro rest hrest
  obtain ⟨c, cs, hchars, hc⟩ := chars_num_start n
  have hnumber := takes_number hn hrest hchars
  rw [whole]
  rw [hchars] at hnumber ⊢
  refine .bind_nil (takes_valueStart (startsNumber_apart hc).1) ?_
  rw [if_pos hc]
  exact .placed (.bind_end hnumber (takes_ofFinding (inRange_eq_ok hlow hhigh)))

theorem reads_flag (b : Bool) : Reads flag (.bool b) (.flag b) := by
  intro rest _
  rw [flag]
  cases b <;> exact .bind_nil (takes_valueStart rfl) (.bind_end (takes_word rfl) (.pure _))

theorem reads_textThrough {wanted s : String} {f : String → Except Fault Datum} {d : Datum}
    (hf : f s = .ok d) : Reads (textThrough wanted f) (.str s) d := by
  intro rest _
  rw [textThrough]
  exact .bind_nil (takes_valueStart rfl)
    (.placed (.bind_end (takes_quote s) (takes_ofFinding hf)))

theorem reads_choiceOf {levels : Nat} {names : List String} {s : String} (hs : s ∈ names) :
    Reads (choiceOf levels names) (.str s) (.text s) := by
  intro rest hrest
  rw [choiceOf]
  exact .bind_nil (takes_token_cons rfl) (reads_textThrough (chosen_eq_ok hs) rest hrest)

theorem reads_listOf {item : Reading Datum} {w : Datum → Json} {ds : List Datum} {levels : Nat}
    (hlevels : 1 < levels) (h : ∀ d ∈ ds, Reads item (w d) d) :
    Reads (listOf levels item) (.arr (ds.map w)) (.list ds) := by
  intro rest _
  have hlist := takes_list (v := id) hlevels h Datum.list rest
  rw [List.map_id] at hlist
  rw [listOf]
  exact .bind_nil (takes_valueStart rfl) hlist

theorem reads_optionalOf_null (item : Reading Datum) : Reads (optionalOf item) .null .absent := by
  intro rest _
  rw [optionalOf]
  exact .bind_nil (takes_token_cons rfl) (.bind_end (takes_word rfl) (.pure _))

theorem reads_optionalOf {item : Reading Datum} {j : Json} {d : Datum} (hj : j ≠ .null)
    (h : Reads item j d) : Reads (optionalOf item) j d := by
  intro rest hrest
  obtain ⟨c, cs, hchars, hspace, -, hnull⟩ := chars_start j
  have hitem := h rest hrest
  rw [optionalOf]
  rw [hchars] at hitem ⊢
  refine .bind_nil (takes_token_cons hspace) ?_
  rw [if_neg fun hc => hj (hnull (Option.some.inj hc))]
  exact hitem

theorem readings_eq_map (levels : Nat) : ∀ ms : List (Member × Shape),
    Shape.readings levels ms = ms.map fun x => x.2.reading levels
  | [] => rfl
  | (m, s) :: ms => by rw [Shape.readings, readings_eq_map levels ms, List.map_cons]

/-- Entries are taken in as they are placed. Those that are kept can be read as content. -/
theorem takes_recordSlots {levels : Nat} {members : List Member} {readers : List (Reading Datum)}
    {gives : Nat → Json → Datum → Prop}
    (hread : ∀ i j d, gives i j d → ∃ r, readers[i]? = some r ∧ Reads r j d)
    {slots slots' : Slots} {es others : List (String × Json)}
    (h : Places members gives slots es slots' others)
    (hothers : ∀ e ∈ others, hasSpread members = true ∧ Shallow levels e.2) (rest : List Char) :
    ∀ (bound : Nat) (isFirst : Bool) (sofar : List (String × Content)), es.length < bound →
      Takes (recordSlots levels members readers bound isFirst slots sofar)
        (charsOfMembers isFirst es) ('\x7d' :: rest)
        (slots', sofar.reverse ++ contentOfMembers others) := by
  induction h with
  | nil =>
    rintro (_ | bound) isFirst sofar hbound
    · contradiction
    · rw [recordSlots, contentOfMembers, List.append_nil]
      exact .bind_nil (takes_nextKey_end isFirst) (.pure _)
  | @member slots slots' es others k j i d hposition hfree hgives _ ih =>
    rintro (_ | bound) isFirst sofar hbound
    · contradiction
    · -- the key names a member whose slot is free
      obtain ⟨r, hr, hreads⟩ := hread i j d hgives
      have hj := hreads _ (follows_charsOfMembers es rest)
      have hrest := ih hothers bound false sofar (Nat.lt_of_succ_lt_succ hbound)
      rw [recordSlots, charsOfMembers]
      refine (takes_nextKey isFirst).bind ((takes_quote k).bind ?_)
      simp only [hposition, hfree, hr, Option.getD_some, Option.isSome_none, Bool.false_eq_true,
        ↓reduceIte]
      exact takes_colon.bind (hj.bind hrest)
  | @other slots slots' es others k j hposition _ ih =>
    rintro (_ | bound) isFirst sofar hbound
    · contradiction
    · -- the key names no member, so that the value is kept as content
      obtain ⟨hspread, hshallow⟩ := hothers (k, j) List.mem_cons_self
      have hj := reads_content hshallow _ (follows_charsOfMembers es rest)
      have hrest := ih (fun e he => hothers e (List.mem_cons_of_mem _ he)) bound false
        ((k, j.asContent) :: sofar) (Nat.lt_of_succ_lt_succ hbound)
      rw [List.reverse_cons, List.append_assoc] at hrest
      rw [recordSlots, charsOfMembers]
      refine (takes_nextKey isFirst).bind ((takes_quote k).bind ?_)
      simp only [hposition, hspread, ↓reduceIte]
      exact takes_colon.bind (hj.bind hrest)

section Record

variable {levels : Nat} {ms : List (Member × Shape)} {ds : List Datum}

/-- What is kept for a spread record can be read as content. -/
theorem kept_spreadEntries (hms : Shape.allFaithful true ms) (hds : Shape.FitsAll ms ds)
    (hlevels : Shape.depthOfAll ms < levels) {e : String × Json} (he : e ∈ spreadEntries ms ds) :
    hasSpread (ms.map (·.1)) = true ∧ Shallow levels e.2 := by
  refine ⟨?_, Shape.shallow_writeMembers ms hms hds hlevels e
    (mem_writeMembers_of_mem_spreadEntries he)⟩
  by_contra hnone
  rw [spreadEntries_eq_nil (Bool.not_eq_true _ ▸ hnone)] at he
  exact List.not_mem_nil he

/-- The inside of a record is read back if its members are. -/
theorem takes_recordBody (hnodup : (keysOf ms).Nodup) (hms : Shape.allFaithful true ms)
    (hds : Shape.FitsAll ms ds) (hlevels : Shape.depthOfAll ms < levels)
    (hread : ∀ x ∈ ms, x.1.spread = false → ∀ d, x.2.Fits d →
      Reads (x.2.reading levels) (x.2.write d) d) (rest : List Char) :
    Takes (recordBody levels ms (Shape.readings levels ms))
      (charsOfMembers true (Shape.writeMembers ms ds)) ('\x7d' :: rest) (.record ds) := by
  have hplaces := places_written hnodup [] ms [] rfl rfl hms hds
  rw [List.nil_append, List.nil_append] at hplaces
  have hgives : ∀ i j d, IsWritten ms i j d →
      ∃ r, (Shape.readings levels ms)[i]? = some r ∧ Reads r j d := by
    rintro i j d ⟨m, s, hi, hm, hd, rfl⟩
    refine ⟨s.reading levels, ?_, hread (m, s) (List.mem_of_getElem? hi) hm d hd⟩
    rw [readings_eq_map, List.getElem?_map, hi, Option.map_some]
  have hbound := Nat.lt_succ_of_le
    (length_le_charsOfMembers (Shape.writeMembers ms ds) true ('\x7d' :: rest))
  have hslots := takes_recordSlots hgives hplaces
    (fun e he => kept_spreadEntries hms hds hlevels he) rest _ true [] hbound
  rw [recordBody, List.map_map]
  refine .bind_nil takes_remaining (.bind_end hslots ?_)
  refine .bind_nil (takes_ofFinding (fillSlots_slotsOf hms hds)) ?_
  exact .bind_nil (takes_ofFinding (spreadSlots_filledSlots _ hms hds fun _ => rfl)) (.pure _)

/-- A record is read back if its members are. -/
theorem reads_recordOf {name : String} (hms : (Shape.record name ms).faithful true)
    (hlevels : (Shape.record name ms).depth < levels) (hds : Shape.FitsAll ms ds)
    (hread : ∀ x ∈ ms, x.1.spread = false → ∀ d, x.2.Fits d →
      Reads (x.2.reading (levels - 1)) (x.2.write d) d) :
    Reads (recordOf levels name ms (Shape.readings (levels - 1) ms))
      (.obj (Shape.writeMembers ms ds)) (.record ds) := by
  intro rest _
  simp only [Shape.faithful, Bool.and_eq_true, decide_eq_true_eq] at hms
  rw [Shape.depth] at hlevels
  have hbody := takes_recordBody hms.1 hms.2 hds (Nat.lt_sub_of_add_lt hlevels) hread rest
  have hnested : 1 < levels := Nat.lt_of_le_of_lt (Nat.le_add_left 1 _) hlevels
  rw [recordOf]
  exact .bind_nil (takes_valueStart rfl)
    (.nested hnested ((takes_eat '\x7b').bind (hbody.closedBy takes_closeObject)))

end Record

end Reading

mutual

/-- Data that fit a faithful shape are read back from what is written for them. -/
theorem Shape.reads_write : ∀ (s : Shape) {levels : Nat} {d : Datum}, s.faithful true →
    s.depth < levels → s.Fits d → Reads (s.reading levels) (s.write d) d
  | .whole _ low high, _, _, hs, _, hd => by
    obtain ⟨n, rfl, hlow, hhigh⟩ := hd
    simp only [Shape.faithful, Bool.and_eq_true, decide_eq_true_eq] at hs
    exact Reading.reads_whole ⟨Int.le_trans hs.1 hlow, Int.le_trans hhigh hs.2⟩ hlow hhigh
  | .flag, _, _, _, _, hd => by
    obtain ⟨b, rfl⟩ := hd
    exact Reading.reads_flag b
  | .text, _, _, _, _, hd => by
    obtain ⟨s, rfl⟩ := hd
    exact Reading.reads_textThrough rfl
  | .choice names, _, _, _, _, hd => by
    obtain ⟨s, hs, rfl⟩ := hd
    exact Reading.reads_choiceOf hs
  | .list item, levels, _, hs, hlevels, hd => by
    obtain ⟨ds, rfl, hds⟩ := hd
    rw [Shape.depth] at hlevels
    exact Reading.reads_listOf (Nat.lt_of_le_of_lt (Nat.le_add_left 1 _) hlevels) fun d hd =>
      Shape.reads_write item hs (Nat.lt_sub_of_add_lt hlevels) (hds d hd)
  | .optional s, _, _, hs, hlevels, hd => by
    simp only [Shape.faithful, Bool.and_eq_true, Bool.not_eq_true'] at hs
    rcases hd with rfl | hd
    · exact Reading.reads_optionalOf_null _
    · rw [Shape.write_optional (hd.ne_absent hs.1)]
      exact Reading.reads_optionalOf (Shape.write_ne_null hs.1 hd)
        (Shape.reads_write s hs.2 hlevels hd)
  | .record name members, _, _, hs, hlevels, hd => by
    obtain ⟨ds, rfl, hds⟩ := hd
    have hmembers := hs
    simp only [Shape.faithful, Bool.and_eq_true] at hmembers
    exact Reading.reads_recordOf hs hlevels hds
      (Shape.reads_writeAll members hmembers.2 (Nat.lt_sub_of_add_lt hlevels))

theorem Shape.reads_writeAll : ∀ (ms : List (Member × Shape)) {levels : Nat},
    Shape.allFaithful true ms → Shape.depthOfAll ms < levels →
    ∀ x ∈ ms, x.1.spread = false → ∀ d, x.2.Fits d → Reads (x.2.reading levels) (x.2.write d) d
  | [], _, _, _, x, hx, _, _, _ => absurd hx List.not_mem_nil
  | (m, s) :: ms, levels, hms, hlevels, x, hx, hspread, d, hd => by
    rw [Shape.depthOfAll, Nat.max_lt] at hlevels
    rcases List.mem_cons.mp hx with rfl | hx
    · exact Shape.reads_write s (Shape.allFaithful_own hms hspread).2 hlevels.1 hd
    · exact Shape.reads_writeAll ms (Shape.allFaithful_tail hms) hlevels.2 x hx hspread d hd

end

namespace Shape

variable {s : Shape} {d : Datum}

/-- The text of data is read as the data. -/
theorem read_write (hs : s.faithful true) (hdepth : s.depth < Reading.levelLimit)
    (hd : s.Fits d) : s.read (s.write d).compact = .ok d := by
  have hreads := Shape.reads_write s hs hdepth hd [] nofun
  rw [← toList_compact] at hreads
  obtain ⟨i, hi, -⟩ := hreads.alone (.ofText (s.write d).compact) (List.append_nil _).symm
  rw [read, hi]

/-- Two data with the same text are equal. -/
theorem write_injective {e : Datum} (hs : s.faithful true) (hdepth : s.depth < Reading.levelLimit)
    (hd : s.Fits d) (he : s.Fits e) (h : (s.write d).compact = (s.write e).compact) : d = e := by
  have hread := read_write hs hdepth hd
  rw [h, read_write hs hdepth he] at hread
  exact (Except.ok.inj hread).symm

end Shape

end MissionScript.Json
