import MissionScript.Proofs.Value.Exact
import MissionScript.Proofs.Value.Update

/-!
# Slices

Lists and texts are sequences (`Sequence`). A slice of one has the items between its two bounds, in
their order, whatever ints the bounds are: a negative one counts from the end, and both are moved
into the sequence. So the parts before and after a bound make up the whole, and an index means the
one item of a slice of length one (`slice_exact`). All sums on the way are sums of 64-bit ints.
-/

namespace MissionScript.Value

/-- A list is the sequence of its items, and a text that of its characters, each of them a text. -/
inductive Sequence : Value → List Value → Prop
  | ofItems (items : List Value) : Sequence (list items) items
  | ofChars (s : String) : Sequence (str s) (chars s)

section Between

variable {α : Type} {n : Nat} {x : α} {xs : List α}

/-- The items at the positions from `start` to before `stop`. -/
def between (start stop : Int) (xs : List α) : List α :=
  (xs.zipIdx.filter fun e => start ≤ e.2 ∧ e.2 < stop).map (·.1)

/-- The positions may be counted from any number on. -/
theorem filter_zipIdx_eq_cut (a b k : Nat) (xs : List α) :
    ((xs.zipIdx k).filter fun e => (a : Int) ≤ e.2 ∧ (e.2 : Int) < b).map (·.1)
      = cut (a - k) (b - k) xs := by
  induction xs generalizing k with
  | nil => rw [cut, List.take_nil, List.drop_nil, List.zipIdx_nil, List.filter_nil, List.map_nil]
  | cons x xs ih =>
    have ih := ih (k + 1)
    rw [List.zipIdx_cons, List.filter_cons]
    rcases Nat.lt_or_ge k b with hb | hb
    · have hstop : b - k = b - (k + 1) + 1 := by omega
      rcases Nat.lt_or_ge k a with ha | ha
      · have hstart : a - k = a - (k + 1) + 1 := by omega
        rw [if_neg (by simp; omega), ih, cut, cut, hstart, hstop, List.take_succ_cons,
          List.drop_succ_cons]
      · have hstart : a - k = 0 ∧ a - (k + 1) = 0 := by omega
        rw [if_pos (by simp; omega), List.map_cons, ih, cut, cut, hstart.1, hstart.2, hstop,
          List.take_succ_cons, List.drop_zero, List.drop_zero]
    · have hstop : b - k = 0 ∧ b - (k + 1) = 0 := by omega
      rw [if_neg (by simp; omega), ih, cut, cut, hstop.1, hstop.2, List.take_zero, List.take_zero,
        List.drop_nil, List.drop_nil]

theorem between_eq_cut (a b : Nat) (xs : List α) : between a b xs = cut a b xs :=
  filter_zipIdx_eq_cut a b 0 xs

theorem cut_append_cut (a : Nat) (xs : List α) : cut 0 a xs ++ cut a xs.length xs = xs := by
  rw [cut, cut, List.drop_zero, List.take_length, List.take_append_drop]

theorem cut_single (h : xs[n]? = some x) : cut n (n + 1) xs = [x] := by
  rw [cut, List.drop_take, Nat.add_sub_cancel_left, List.take_one, List.head?_drop, h]
  rfl

theorem chars_cut (a b : Nat) (s : String) :
    chars (String.ofList (cut a b s.toList)) = cut a b (chars s) := by
  rw [chars, chars, String.toList_ofList, cut, cut, List.map_drop, List.map_take]

end Between

section Bounds

variable {v : Value} {xs : List Value} {i : Int64} {u : Value} {n : Nat}

/-- Where an int lies in a sequence of `n` items: a negative one counts from the end, and what lies
outside is moved to the nearer end. -/
def edge (i : Int64) (n : Nat) : Int :=
  max 0 (min n (if i.toInt < 0 then i.toInt + n else i.toInt))

/-- Where a bound of a slice lies in a sequence of `n` items. If it is left out, or is `None`, it
lies at `default`. -/
inductive Bound (n default : Nat) : Option Value → Int → Prop
  | absent : Bound n default Option.none default
  | unset : Bound n default (some none) default
  | placed (i : Int64) : Bound n default (some (int i)) (edge i n)

theorem clamp_eq_edge (i : Int64) (n : Nat) : (clamp i n : Int) = edge i n := by
  unfold clamp edge
  split <;> omega

theorem edge_of_denotes {length : Nat} (h : Denotes i length n) : edge i length = n := by
  obtain ⟨hlt, heq⟩ := h
  rw [edge, ← heq]
  omega

theorem Bound.exists_eq {default : Nat} {bound : Option Value} {A : Int}
    (h : Bound n default bound A) : ∃ a : Nat, A = a ∧ sliceBound n default bound = .ok a := by
  cases h with
  | absent | unset => exact ⟨default, rfl, rfl⟩
  | placed i => exact ⟨clamp i n, (clamp_eq_edge i n).symm, rfl⟩

theorem Sequence.slice_eq (h : Sequence v xs) {start stop : Option Value} {A B : Int}
    (hstart : Bound xs.length 0 start A) (hstop : Bound xs.length xs.length stop B) :
    ∃ w, v.slice start stop = .ok w ∧ w.kind = v.kind ∧ Sequence w (between A B xs) := by
  obtain ⟨a, rfl, ha⟩ := hstart.exists_eq
  obtain ⟨b, rfl, hb⟩ := hstop.exists_eq
  rw [between_eq_cut]
  cases h with
  | ofItems =>
    refine ⟨list (cut a b xs), ?_, rfl, .ofItems _⟩
    rw [slice, ha, hb]
    rfl
  | ofChars s =>
    rw [chars, List.length_map] at ha hb
    refine ⟨str (String.ofList (cut a b s.toList)), ?_, rfl, ?_⟩
    · unfold slice
      dsimp only
      rw [ha, hb]
      rfl
    · rw [← chars_cut]
      exact .ofChars _

theorem between_append_between (i : Int64) (xs : List Value) :
    between 0 (edge i xs.length) xs ++ between (edge i xs.length) xs.length xs = xs := by
  have hbefore := between_eq_cut 0 (clamp i xs.length) xs
  have hafter := between_eq_cut (clamp i xs.length) xs.length xs
  rw [clamp_eq_edge] at hbefore hafter
  rw [← Nat.cast_zero, hbefore, hafter, cut_append_cut]

theorem Sequence.index_isOk_iff (h : Sequence v xs) : (∃ u, v.index (int i) = .ok u)
    ↔ -(xs.length : Int) ≤ i.toInt ∧ i.toInt < xs.length := by
  have hindex : (∃ u, v.index (int i) = .ok u)
      ↔ ∃ j, int i = int j ∧ -(xs.length : Int) ≤ j.toInt ∧ j.toInt < xs.length := by
    cases h with
    | ofItems => exact list_index_isOk_iff
    | ofChars s =>
      rw [chars, List.length_map]
      exact bind_ok_isOk_iff.trans itemPosition_isOk_iff
  simp only [hindex, int.injEq, exists_eq_left']

/-- What an index reads is what stands at the position that it means. -/
theorem Sequence.index_eq (h : Sequence v xs) (hn : Denotes i xs.length n) :
    ∃ u, xs[n]? = some u ∧ v.index (int i) = .ok u := by
  cases h with
  | ofItems =>
    obtain ⟨u, hu, hread, -⟩ := list_slots_agree (x := none) hn
    exact ⟨u, hu, hread⟩
  | ofChars s =>
    rw [chars, List.length_map] at hn
    have hposition : itemPosition .str s.toList.length .textIndex (int i) = .ok n :=
      itemPosition_eq_ok_iff.mpr ⟨i, rfl, hn⟩
    obtain ⟨c, hc⟩ : ∃ c, s.toList[n]? = some c := ⟨_, List.getElem?_eq_getElem hn.1⟩
    refine ⟨str c.toString, ?_, ?_⟩
    · rw [chars, List.getElem?_map, hc]
      rfl
    · unfold index
      dsimp only
      rw [hposition]
      change Except.ok (str ((s.toList[n]?.map Char.toString).getD "")) = _
      rw [hc]
      rfl

theorem Sequence.between_eq_single (h : Sequence v xs) (hu : v.index (int i) = .ok u) :
    between (edge i xs.length) (edge i xs.length + 1) xs = [u] := by
  obtain ⟨n, hn⟩ := exists_denotes.mpr (h.index_isOk_iff.mp ⟨u, hu⟩)
  obtain ⟨u', hitem, hread⟩ := h.index_eq hn
  obtain rfl : u' = u := Except.ok.inj (hread.symm.trans hu)
  rw [edge_of_denotes hn, ← Nat.cast_succ, between_eq_cut, cut_single hitem]

/-- An item that can be read is all that a slice from its position to the next one has. -/
theorem Sequence.slice_single (h : Sequence v xs) (hu : v.index (int i) = .ok u)
    {start stop : Option Value} (hstart : Bound xs.length 0 start (edge i xs.length))
    (hstop : Bound xs.length xs.length stop (edge i xs.length + 1)) :
    ∃ w, v.slice start stop = .ok w ∧ w.kind = v.kind ∧ Sequence w [u] := by
  obtain ⟨w, hw, hkind, hitems⟩ := h.slice_eq hstart hstop
  rw [h.between_eq_single hu] at hitems
  exact ⟨w, hw, hkind, hitems⟩

end Bounds

section Words

variable {i : Int64} {n : Nat}

/-- A bound of a slice, moved into the sequence as `clamp` does, with each step of the arithmetic
refused where it has no result among 64-bit ints. -/
def clampStepwise? (i : Int64) (length : Nat) : Option Nat := do
  let n ← signed? 64 length
  let k ← if i.toInt < 0 then (signed? 64 (i.toInt + n)).map (max 0) else some (min n i.toInt)
  return k.toNat

/-- The position that an index means, found as `position?` does, with each step of the arithmetic
refused where it has no result among 64-bit ints. -/
def positionStepwise? (i : Int64) (length : Nat) : Option (Option Nat) := do
  let n ← signed? 64 length
  let k ← if i.toInt < 0 then signed? 64 (i.toInt + n) else some i.toInt
  return if 0 ≤ k ∧ k < n then some k.toNat else Option.none

theorem clampStepwise?_eq (h : n < 2 ^ 63) (i : Int64) :
    clampStepwise? i n = some (clamp i n) := by
  have hlow := i.le_toInt
  unfold clampStepwise? clamp
  rw [signed?_of_fits ⟨by omega, by omega⟩, Option.bind_eq_bind, Option.bind_some]
  split
  · rw [signed?_of_fits ⟨by omega, by omega⟩]
    change some (max 0 (i.toInt + n)).toNat = _
    exact congrArg some (by omega)
  · change some (min (n : Int) i.toInt).toNat = _
    exact congrArg some (by omega)

theorem positionStepwise?_eq (h : n < 2 ^ 63) (i : Int64) :
    positionStepwise? i n = some (position? i n) := by
  have hlow := i.le_toInt
  unfold positionStepwise? position?
  rw [signed?_of_fits ⟨by omega, by omega⟩, Option.bind_eq_bind, Option.bind_some]
  split
  · rw [signed?_of_fits ⟨by omega, by omega⟩]
    rfl
  · rfl

end Words

/-- Slices of lists and texts are exact: they have the items between their bounds, wherever these
are, and in their order. The parts before and after a bound make up the whole. An index that is in
range, and no other one, reads an item, which is the only one of a slice from its position to the
next one. Nothing of this is computed with ints of more than 64 bits, unless there are too many items
to be counted with them. -/
theorem slice_exact {v : Value} {xs : List Value} (h : Sequence v xs) :
    (∀ {start stop : Option Value} {A B : Int}, Bound xs.length 0 start A →
        Bound xs.length xs.length stop B →
      ∃ w, v.slice start stop = .ok w ∧ w.kind = v.kind ∧ Sequence w (between A B xs))
    ∧ (∀ a : Int64, ∃ w w' ys zs, v.slice Option.none (some (int a)) = .ok w
        ∧ v.slice (some (int a)) Option.none = .ok w' ∧ w.kind = v.kind ∧ w'.kind = v.kind
        ∧ Sequence w ys ∧ Sequence w' zs ∧ ys ++ zs = xs)
    ∧ (∀ i : Int64, ((∃ u, v.index (int i) = .ok u)
          ↔ -(xs.length : Int) ≤ i.toInt ∧ i.toInt < xs.length)
        ∧ ∀ u, v.index (int i) = .ok u → ∀ {start stop : Option Value},
          Bound xs.length 0 start (edge i xs.length) →
            Bound xs.length xs.length stop (edge i xs.length + 1) →
          ∃ w, v.slice start stop = .ok w ∧ w.kind = v.kind ∧ Sequence w [u])
    ∧ (xs.length < 2 ^ 63 → ∀ i, clampStepwise? i xs.length = some (clamp i xs.length)
        ∧ positionStepwise? i xs.length = some (position? i xs.length)) := by
  refine ⟨h.slice_eq, fun a => ?_, fun i => ⟨h.index_isOk_iff, fun u => h.slice_single⟩,
    fun hn i => ⟨clampStepwise?_eq hn i, positionStepwise?_eq hn i⟩⟩
  obtain ⟨w, hw, hkind, hbefore⟩ := h.slice_eq .absent (.placed a)
  obtain ⟨w', hw', hkind', hafter⟩ := h.slice_eq (.placed a) .absent
  exact ⟨w, w', _, _, hw, hw', hkind, hkind', hbefore, hafter, between_append_between a xs⟩

/-- The last three letters of a text, of which some take more than a byte, and a single one. -/
theorem slice_exact_text :
    Sequence (str "rövér") (chars "rövér")
      ∧ (∃ w, (str "rövér").slice (some (int (-3))) (some none) = .ok w ∧ w.kind = .str
        ∧ Sequence w [str "v", str "é", str "r"])
      ∧ (∃ u, (str "rövér").index (int (-2)) = .ok u)
      ∧ ∃ w, (str "rövér").slice (some (int (-2))) (some (int 4)) = .ok w ∧ w.kind = .str
        ∧ Sequence w [str "é"] := by
  have h := Sequence.ofChars "rövér"
  obtain ⟨hslice, -, hindex, -⟩ := slice_exact h
  refine ⟨h, ?_, ?_, ?_⟩
  · exact hslice (.placed (-3)) .unset
  · exact (hindex (-2)).1.mpr (by decide)
  · exact (hindex (-2)).2 (str "é") rfl (.placed (-2)) (.placed 4)

end MissionScript.Value
