import MissionScript.Proofs.Value.Extent
import MissionScript.Proofs.Value.Slices

/-!
# Repetition

A text or list is repeated by going through it as often as the count says, and the only thing that
is looked at beforehand is how large the result would be. As each item counts for something, a count
that is too large makes the result too large and is refused (`repetition_bounded`). Only what is empty
may be repeated as often as there are ints (`empty_repetition_unbounded`).
-/

namespace MissionScript.Value

/-- How large a text or list is when it is repeated: the bytes of the one, the weight of the other. -/
def repeatSize : Value → Nat
  | str s => s.utf8ByteSize
  | list items => weightOfItems 0 items
  | none | bool _ | int _ | float _ | dict _ => 0

section Repetition

variable {v : Value} {xs : List Value} {n : Int64}

theorem Sequence.repeatSize_eq_zero_iff (h : Sequence v xs) : v.repeatSize = 0 ↔ xs = [] := by
  cases h with
  | ofItems =>
    change (list xs).weight = 0 ↔ xs = []
    cases xs with
    | nil => exact ⟨fun _ => rfl, fun _ => rfl⟩
    | cons v vs =>
      rw [weight_list_cons]
      exact ⟨fun hzero => by omega, nofun⟩
  | ofChars s =>
    rw [repeatSize, String.utf8ByteSize_eq_zero_iff, chars, List.map_eq_nil_iff,
      String.toList_eq_nil_iff]

theorem chars_copies (n : Nat) (s : String) :
    chars (String.ofList (copies n s.toList)) = copies n (chars s) := by
  rw [copies_eq, copies_eq, chars, chars, String.toList_ofList, List.map_flatten,
    List.map_replicate]

/-- A sequence that is repeated becomes so many copies of it, one after the other, if that is not
too large. -/
theorem Sequence.mul_eq (h : Sequence v xs) (n : Int64) :
    if v.repeatSize * n.toInt.toNat ≤ longestSequence then
      ∃ w, mul v (int n) = .ok w ∧ w.kind = v.kind
        ∧ Sequence w (List.replicate n.toInt.toNat xs).flatten
    else mul v (int n) =
      .error (.sequenceTooLong (min (v.repeatSize * n.toInt.toNat) largestSize)) := by
  simp only [← copies_eq]
  cases h with
  | ofItems =>
    have hmul : mul (list xs) (int n) =
        (repeatCount (repeatSize (list xs)) n >>= fun count => .ok (list (copies count xs))) := rfl
    rw [hmul, repeatCount_eq]
    split
    · exact ⟨_, rfl, rfl, .ofItems _⟩
    · rfl
  | ofChars s =>
    have hmul : mul (str s) (int n) = (repeatCount (repeatSize (str s)) n >>= fun count =>
        .ok (str (String.ofList (copies count s.toList)))) := rfl
    rw [hmul, repeatCount_eq]
    split
    · exact ⟨_, rfl, rfl, chars_copies _ s ▸ .ofChars _⟩
    · rfl

theorem Sequence.mul_comm (h : Sequence v xs) (n : Int64) : mul (int n) v = mul v (int n) := by
  cases h <;> rfl

theorem Sequence.mul_isOk_iff (h : Sequence v xs) (n : Int64) :
    (∃ w, mul v (int n) = .ok w) ↔ v.repeatSize * n.toInt.toNat ≤ longestSequence := by
  have hmul := h.mul_eq n
  split at hmul
  · rename_i hfits
    obtain ⟨w, hw, -⟩ := hmul
    exact ⟨fun _ => hfits, fun _ => ⟨w, hw⟩⟩
  · rename_i hlarge
    rw [hmul]
    exact ⟨nofun, fun hfits => absurd hfits hlarge⟩

/-- What has a size may be repeated no more often than the longest sequence has items. -/
theorem count_le_of_repeatCount {size count : Nat} (hsize : size ≠ 0)
    (h : repeatCount size n = .ok count) : count ≤ longestSequence :=
  (Nat.le_mul_of_pos_left count (Nat.pos_of_ne_zero hsize)).trans
    (repeatCount_yields size n count h)

end Repetition

/-- What is not empty is never gone through more often than the longest sequence has items, by
whatever int it is multiplied. What is empty may be multiplied by any int, and is gone through as
often as the int says. -/
theorem repetition_bounded {v : Value} {xs : List Value} (h : Sequence v xs) (n : Int64) :
    binary .mul (int n) v = binary .mul v (int n)
      ∧ (∀ w, binary .mul v (int n) = .ok w → ∃ count, repeatCount v.repeatSize n = .ok count
        ∧ (xs ≠ [] → count ≤ longestSequence) ∧ w.kind = v.kind
        ∧ Sequence w (List.replicate count xs).flatten)
      ∧ ((∃ w, binary .mul v (int n) = .ok w)
        ↔ v.repeatSize * n.toInt.toNat ≤ longestSequence)
      ∧ (xs = [] → ∃ w, binary .mul v (int n) = .ok w
        ∧ repeatCount v.repeatSize n = .ok n.toInt.toNat) := by
  have hcount (hfits : v.repeatSize * n.toInt.toNat ≤ longestSequence) :
      repeatCount v.repeatSize n = .ok n.toInt.toNat := by
    rw [repeatCount_eq, if_pos hfits]
  refine ⟨h.mul_comm n, fun w hw => ?_, h.mul_isOk_iff n, fun hempty => ?_⟩
  · have hfits := (h.mul_isOk_iff n).mp ⟨w, hw⟩
    have hmul := h.mul_eq n
    rw [if_pos hfits] at hmul
    obtain ⟨w', hw', hkind, hcopies⟩ := hmul
    obtain rfl : w' = w := Except.ok.inj (hw'.symm.trans hw)
    exact ⟨_, hcount hfits, fun hne => count_le_of_repeatCount
      (mt h.repeatSize_eq_zero_iff.mp hne) (hcount hfits), hkind, hcopies⟩
  · have hfits : v.repeatSize * n.toInt.toNat ≤ longestSequence := by
      rw [h.repeatSize_eq_zero_iff.mpr hempty, Nat.zero_mul]
      exact Nat.zero_le _
    obtain ⟨w, hw⟩ := (h.mul_isOk_iff n).mpr hfits
    exact ⟨w, hw, hcount hfits⟩

/-- A text of two bytes is repeated just as often as leaves it in the limit. -/
theorem repetition_bounded_text :
    let v := str "ab"
    let xs := [str "a", str "b"]
    Sequence v xs ∧ xs ≠ []
      ∧ (∃ w count, binary .mul v (int 500000) = .ok w ∧ w.kind = .str
        ∧ repeatCount v.repeatSize 500000 = .ok count ∧ count ≤ longestSequence
        ∧ Sequence w (List.replicate count xs).flatten)
      ∧ ¬∃ w, binary .mul v (int 500001) = .ok w := by
  intro v xs
  have h : Sequence v xs := .ofChars "ab"
  have hne : xs ≠ [] := nofun
  obtain ⟨-, hcount, hok, -⟩ := repetition_bounded h 500000
  obtain ⟨w, hw⟩ := hok.mpr (by decide)
  obtain ⟨count, heq, hle, hkind, hcopies⟩ := hcount w hw
  refine ⟨h, hne, ⟨w, count, hw, hkind, heq, hle hne, hcopies⟩, fun hlarge => ?_⟩
  have hfits := (repetition_bounded h 500001).2.2.1.mp hlarge
  exact absurd hfits (by decide)

/-- The empty list is gone through more often than the longest sequence has items. -/
theorem empty_repetition_unbounded :
    binary .mul (list []) (int 1000001) = .ok (list [])
      ∧ repeatCount (list []).repeatSize 1000001 = .ok 1000001
      ∧ ¬1000001 ≤ longestSequence :=
  ⟨rfl, rfl, by decide⟩

end MissionScript.Value
