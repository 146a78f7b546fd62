import MissionScript.Proofs.Json.Contents

/-!
# Data that fit a shape

`Shape.Fits` says which data a shape is about. `Shape.faithful` says what a shape needs so that such
data can be told from what is written for them: numbers are whole ones, `null` stands for one thing
only, no two members have the same key, and what is left out is what a lacking member means. A
record that is spread in another one is read from content, where nothing is spread.
-/

namespace MissionScript.Json

mutual

/-- The datum is one of those that the shape is about. -/
def Shape.Fits : Shape → Datum → Prop
  | .whole _ low high, d => ∃ n, d = .whole n ∧ low ≤ n ∧ n ≤ high
  | .flag, d => ∃ b, d = .flag b
  | .text, d => ∃ s, d = .text s
  | .list item, d => ∃ ds, d = .list ds ∧ ∀ d ∈ ds, Shape.Fits item d
  | .optional s, d => d = .absent ∨ Shape.Fits s d
  | .choice names, d => ∃ s ∈ names, d = .text s
  | .record _ members, d => ∃ ds, d = .record ds ∧ Shape.FitsAll members ds

/-- The items of a record fit its members. -/
def Shape.FitsAll : List (Member × Shape) → List Datum → Prop
  | [], ds => ds = []
  | (_, s) :: ms, ds => ∃ d rest, ds = d :: rest ∧ Shape.Fits s d ∧ Shape.FitsAll ms rest

end

section Simp

variable {name : String} {low high n : Int} {b : Bool} {text : String} {names : List String}
  {m : Member} {s : Shape} {ms : List (Member × Shape)} {d : Datum} {ds : List Datum}

@[simp] theorem Shape.fits_whole :
    (Shape.whole name low high).Fits (.whole n) ↔ low ≤ n ∧ n ≤ high := by
  simp [Shape.Fits]

@[simp] theorem Shape.fits_flag : Shape.flag.Fits (.flag b) := ⟨b, rfl⟩

@[simp] theorem Shape.fits_text : Shape.text.Fits (.text text) := ⟨text, rfl⟩

@[simp] theorem Shape.fits_choice : (Shape.choice names).Fits (.text text) ↔ text ∈ names := by
  simp [Shape.Fits]

@[simp] theorem Shape.fits_optional : (Shape.optional s).Fits d ↔ d = .absent ∨ s.Fits d := by
  rw [Shape.Fits]

@[simp] theorem Shape.fits_list : (Shape.list s).Fits (.list ds) ↔ ∀ d ∈ ds, s.Fits d := by
  simp [Shape.Fits]

@[simp] theorem Shape.fits_record : (Shape.record name ms).Fits (.record ds) ↔ FitsAll ms ds := by
  simp [Shape.Fits]

@[simp] theorem Shape.fitsAll_nil : FitsAll [] ds ↔ ds = [] := by rw [FitsAll]

@[simp] theorem Shape.fitsAll_cons :
    FitsAll ((m, s) :: ms) (d :: ds) ↔ s.Fits d ∧ FitsAll ms ds := by
  simp [FitsAll]

end Simp

def Shape.isOptional : Shape → Bool
  | .optional _ => true
  | _ => false

/-- The names of the members of a record. -/
def Shape.names? : Shape → Option (List String)
  | .record _ members => some (members.map (·.1.name))
  | _ => none

/-- The keys that are written for members, those of spread ones included. -/
def keysOf (members : List (Member × Shape)) : List String :=
  members.flatMap fun (m, s) => if m.spread then s.names?.getD [] else [m.name]

/-- What is left out where there is nothing to write is what the lacking member means. -/
def Member.restores (m : Member) : Shape → Bool
  | .list _ =>
    match m.lack with
    | .means (.list []) => true
    | _ => false
  | .optional (.list _) => false
  | .optional (.optional _) => false
  | .optional _ =>
    match m.lack with
    | .absent => true
    | .means .absent => true
    | _ => false
  | _ => false

mutual

/-- Data of the shape can be told from what is written for them. Whether records may be spread in
others is given. -/
def Shape.faithful (spreads : Bool) : Shape → Bool
  | .whole _ low high => -0x8000000000000000 ≤ low && high ≤ 0xffffffffffffffff
  | .flag => true
  | .text => true
  | .list item => Shape.faithful spreads item
  | .optional s => !s.isOptional && Shape.faithful spreads s
  | .choice _ => true
  | .record _ members => decide (keysOf members).Nodup && Shape.allFaithful spreads members

def Shape.allFaithful (spreads : Bool) : List (Member × Shape) → Bool
  | [] => true
  | (m, s) :: rest =>
    (if m.spread then
      spreads && s.names?.isSome && !hasSpread (rest.map (·.1)) && Shape.faithful false s
    else (!m.omitted || m.restores s) && Shape.faithful spreads s) &&
    Shape.allFaithful spreads rest

end

mutual

/-- How deep lists and records are nested in what is written. -/
def Shape.depth : Shape → Nat
  | .list item => Shape.depth item + 1
  | .optional s => Shape.depth s
  | .record _ members => Shape.depthOfAll members + 1
  | _ => 0

def Shape.depthOfAll : List (Member × Shape) → Nat
  | [] => 0
  | (_, s) :: rest => max (Shape.depth s) (Shape.depthOfAll rest)

end

namespace Shape

variable {spreads : Bool} {m : Member} {s : Shape} {d : Datum} {rest : List (Member × Shape)}

theorem allFaithful_tail (h : allFaithful spreads ((m, s) :: rest)) : allFaithful spreads rest := by
  rw [allFaithful, Bool.and_eq_true] at h
  exact h.2

theorem allFaithful_spread (h : allFaithful spreads ((m, s) :: rest)) (hm : m.spread = true) :
    spreads = true ∧ s.names?.isSome ∧ hasSpread (rest.map (·.1)) = false ∧ s.faithful false := by
  rw [allFaithful, hm, if_pos rfl] at h
  simp only [Bool.and_eq_true, Bool.not_eq_true'] at h
  exact ⟨h.1.1.1.1, h.1.1.1.2, h.1.1.2, h.1.2⟩

theorem allFaithful_own (h : allFaithful spreads ((m, s) :: rest)) (hm : m.spread = false) :
    (m.omitted = true → m.restores s) ∧ s.faithful spreads := by
  rw [allFaithful, hm, if_neg Bool.false_ne_true] at h
  simp only [Bool.and_eq_true, Bool.or_eq_true, Bool.not_eq_true'] at h
  exact ⟨fun homitted => h.1.1.resolve_left (by simp [homitted]), h.1.2⟩

/-- A record is written for a record. -/
theorem write_record (hs : s.names?.isSome) (hd : s.Fits d) :
    ∃ entries, s.write d = .obj entries := by
  cases s with
  | record name members =>
    obtain ⟨ds, rfl, -⟩ := hd
    exact ⟨_, rfl⟩
  | _ => simp [names?] at hs

/-- Only what is absent is written as `null`. -/
theorem write_ne_null (hs : s.isOptional = false) (hd : s.Fits d) : s.write d ≠ .null := by
  cases s with
  | optional s => simp [isOptional] at hs
  | record name members =>
    obtain ⟨ds, rfl, -⟩ := hd
    simp [write]
  | _ => simp [write]

theorem Fits.ne_absent (hs : s.isOptional = false) (hd : s.Fits d) : d ≠ .absent := by
  rintro rfl
  cases s with
  | optional s => simp [isOptional] at hs
  | _ => simp [Fits] at hd

theorem write_optional (hd : d ≠ .absent) : (optional s).write d = s.write d := by
  cases d <;> first | contradiction | rfl

end Shape

theorem Datum.isNothing_iff {d : Datum} : d.isNothing = true ↔ d = .absent ∨ d = .list [] := by
  constructor
  · intro h
    unfold isNothing at h
    split at h <;> simp_all
  · rintro (rfl | rfl) <;> rfl

/-- What is left out is what a lacking member means. -/
theorem Member.lacking_of_restores {m : Member} {s : Shape} {d : Datum} (h : m.restores s)
    (hd : s.Fits d) (hnothing : d.isNothing = true) : m.lacking = .ok d := by
  unfold restores at h
  split at h
  · obtain ⟨ds, rfl, -⟩ := hd
    obtain rfl : ds = [] := by simpa using Datum.isNothing_iff.mp hnothing
    split at h
    · rename_i hlack
      rw [lacking, hlack]
    · contradiction
  · contradiction
  · contradiction
  · rename_i t hlist hoptional
    obtain rfl : d = .absent := by
      refine (Datum.isNothing_iff.mp hnothing).resolve_right ?_
      rintro rfl
      cases t <;> simp_all [Shape.Fits]
    split at h
    · rename_i hlack
      rw [lacking, hlack]
    · rename_i hlack
      rw [lacking, hlack]
    · contradiction
  · contradiction

theorem Shallow.succ {levels : Nat} {j : Json} (h : Shallow levels j) : Shallow (levels + 1) j := by
  induction h with
  | null => exact .null
  | bool b => exact .bool b
  | num hn => exact .num hn
  | str s => exact .str s
  | arr _ ih => exact .arr ih
  | obj _ ih => exact .obj ih

mutual

/-- What is written for data is nested no deeper than their shape. -/
theorem Shape.shallow_write : ∀ (s : Shape) {spreads : Bool} {d : Datum} {levels : Nat},
    s.faithful spreads → s.Fits d → s.depth < levels → Shallow levels (s.write d)
  | .whole _ low high, _, _, levels + 1, hs, hd, _ => by
    obtain ⟨n, rfl, hlow, hhigh⟩ := hd
    simp only [Shape.faithful, Bool.and_eq_true, decide_eq_true_eq] at hs
    exact .num ⟨Int.le_trans hs.1 hlow, Int.le_trans hhigh hs.2⟩
  | .flag, _, _, levels + 1, _, _, _ => .bool _
  | .text, _, _, levels + 1, _, _, _ => .str _
  | .choice _, _, _, levels + 1, _, _, _ => .str _
  | .list item, _, _, levels + 2, hs, hd, hlevels => by
    obtain ⟨ds, rfl, hds⟩ := hd
    refine .arr fun j hj => ?_
    obtain ⟨d, hd, rfl⟩ := List.mem_map.mp hj
    exact Shape.shallow_write item hs (hds d hd) (Nat.lt_of_succ_lt_succ hlevels)
  | .optional s, spreads, d, levels + 1, hs, hd, hlevels => by
    simp only [Shape.faithful, Bool.and_eq_true] at hs
    rcases hd with rfl | hd
    · exact .null
    · rw [Shape.write_optional (hd.ne_absent (by simpa using hs.1))]
      exact Shape.shallow_write s hs.2 hd hlevels
  | .record _ members, _, _, levels + 2, hs, hd, hlevels => by
    obtain ⟨ds, rfl, hds⟩ := hd
    simp only [Shape.faithful, Bool.and_eq_true] at hs
    exact .obj (Shape.shallow_writeMembers members hs.2 hds (Nat.lt_of_succ_lt_succ hlevels))

theorem Shape.shallow_writeMembers : ∀ (ms : List (Member × Shape)) {spreads : Bool}
    {ds : List Datum} {levels : Nat}, Shape.allFaithful spreads ms → Shape.FitsAll ms ds →
    Shape.depthOfAll ms < levels → ∀ e ∈ Shape.writeMembers ms ds, Shallow levels e.2
  | [], _, _, _, _, hds, _, e, he => by
    cases hds
    simp [Shape.writeMembers] at he
  | (m, s) :: ms, spreads, _, levels, hms, hds, hlevels, e, he => by
    obtain ⟨d, ds, rfl, hd, hds⟩ := hds
    rw [Shape.depthOfAll, Nat.max_lt] at hlevels
    rw [Shape.writeMembers, List.mem_append] at he
    rcases he with he | he
    · rcases hm : m.spread with _ | _
      · have hs := (Shape.allFaithful_own hms hm).2
        rw [hm, if_neg Bool.false_ne_true] at he
        split at he
        · simp at he
        · obtain rfl := List.mem_singleton.mp he
          exact Shape.shallow_write s hs hd hlevels.1
      · obtain ⟨-, hrecord, -, hs⟩ := Shape.allFaithful_spread hms hm
        obtain ⟨entries, hentries⟩ := Shape.write_record hrecord hd
        have hshallow := Shape.shallow_write s hs hd hlevels.1
        rw [hm, if_pos rfl, hentries] at he
        rw [hentries] at hshallow
        cases hshallow with
        | obj h => exact (h e he).succ
    · exact Shape.shallow_writeMembers ms (Shape.allFaithful_tail hms) hds hlevels.2 e he

end

end MissionScript.Json
