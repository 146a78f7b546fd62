import MissionScript.Proofs.Json.Takes
import MissionScript.Proofs.Value.Written

/-!
# Whole numbers are read back

A whole number of 64 bits, with or without a sign, is read as it is from its digits
(`takes_number`). All of its digits are taken in, and what follows a value does not go on with the
number.
-/

namespace MissionScript.Json

/-- The whole numbers that are not read as floats. -/
def IsWhole (n : Int) : Prop := -0x8000000000000000 ≤ n ∧ n ≤ 0xffffffffffffffff

theorem Follows.head {rest : List Char} (h : Follows rest) :
    ∀ c ∈ rest.head?, c.isDigit = false ∧ c ≠ '.' ∧ c ≠ 'e' ∧ c ≠ 'E' := by
  intro c hc
  rcases h c hc with rfl | rfl | rfl <;> decide

theorem le_ofDigitChars : ∀ (ds : List Char) (n : Nat), n ≤ Nat.ofDigitChars 10 ds n
  | [], n => Nat.le_refl n
  | d :: ds, n => by
    have ih := le_ofDigitChars ds (10 * n + (d.toNat - '0'.toNat))
    rw [Nat.ofDigitChars_cons]
    omega

/-- All digits of a number that is not too great are taken in. -/
theorem absorb_eq : ∀ (ds : List Char) (n taken : Nat), Nat.ofDigitChars 10 ds n ≤ mostSignificand →
    absorb n taken ds = (Nat.ofDigitChars 10 ds n, taken + ds.length)
  | [], n, taken, _ => rfl
  | d :: ds, n, taken, h => by
    rw [Nat.ofDigitChars_cons] at h ⊢
    have hd : Decimal.natOfDigits [d] = d.toNat - '0'.toNat := by simp [Decimal.natOfDigits]
    rw [absorb, hd, if_pos (Nat.le_trans (le_ofDigitChars ds _) h), absorb_eq ds _ _ h,
      List.length_cons, Nat.add_assoc, Nat.add_comm 1]

/-- A number other than zero does not begin with the digit zero. -/
theorem head_toDigits_ne_zero (n : Nat) (hn : 0 < n) :
    ∀ c ∈ (Nat.toDigits 10 n).head?, c ≠ '0' := by
  induction n using Nat.strongRecOn with
  | ind n ih =>
    by_cases hsmall : n < 10
    · have hdigit : ∀ m < 10, 0 < m → m.digitChar ≠ '0' := by decide
      simpa [Nat.toDigits_of_lt_base hsmall] using hdigit n hsmall hn
    · have hdiv := ih (n / 10) (by omega) (by omega)
      rw [Nat.toDigits_of_base_le (by decide) (by omega)]
      obtain ⟨d, ds, hdigits⟩ := List.exists_cons_of_ne_nil (@Nat.toDigits_ne_nil (n / 10) 10)
      rwa [hdigits] at hdiv ⊢

namespace Reading

variable {rest : List Char}

/-- What follows a value is neither a point nor an exponent, so the number is whole. -/
theorem takes_numberAfter {n : Nat} {negative : Bool} (hrest : Follows rest)
    (hn : negative = true → 0 < n ∧ n ≤ 0x8000000000000000) :
    Takes (numberAfter negative n 0) [] rest (.whole (if negative then -n else n)) := by
  rw [numberAfter]
  refine .bind_nil takes_peek ?_
  have hpoint : rest.head? ≠ some '.' := fun h => (hrest.head '.' h).2.1 rfl
  have hexponent : isExponentMark rest.head? = false := by
    rw [isExponentMark, Bool.or_eq_false_iff, decide_eq_false_iff_not, decide_eq_false_iff_not]
    exact ⟨fun h => (hrest.head 'e' h).2.2.1 rfl, fun h => (hrest.head 'E' h).2.2.2 rfl⟩
  rw [List.nil_append, if_neg hpoint, hexponent, if_neg Bool.false_ne_true,
    if_neg (Nat.lt_irrefl 0)]
  cases negative with
  | false => exact .pure _
  | true =>
    obtain ⟨hpositive, hmost⟩ := hn rfl
    rw [if_neg (by decide), if_pos (by simp [hpositive, hmost])]
    exact .pure _

theorem takes_unsignedNumber (n : Nat) (negative : Bool) (hrest : Follows rest)
    (hsize : n ≤ mostSignificand) (hn : negative = true → 0 < n ∧ n ≤ 0x8000000000000000) :
    Takes (unsignedNumber negative) (Nat.toDigits 10 n) rest
      (.whole (if negative then -n else n)) := by
  have hafter := takes_numberAfter hrest hn
  have hdigit : ∀ c ∈ rest.head?, c.isDigit = false := fun c hc => (hrest.head c hc).1
  rw [unsignedNumber]
  rcases Nat.eq_zero_or_pos n with rfl | hpositive
  · -- zero has a single digit, behind which no other may stand
    rw [Nat.toDigits_zero]
    refine .bind_nil takes_peek ((takes_eat '0').bind (.bind_nil takes_peek ?_))
    have hmore : ((rest.head?).map Char.isDigit).getD false = false := by
      cases rest with
      | nil => rfl
      | cons c rest => exact hdigit c rfl
    rw [List.nil_append, hmore, if_neg Bool.false_ne_true]
    exact hafter
  · have hvalue : Nat.ofDigitChars 10 (Nat.toDigits 10 n) 0 = n :=
      Nat.ofDigitChars_toDigits (by decide) (by decide)
    have habsorb := absorb_eq (Nat.toDigits 10 n) 0 0 (by rwa [hvalue])
    have hall : ∀ c ∈ Nat.toDigits 10 n, c.isDigit = true := fun c hc =>
      Nat.isDigit_of_mem_toDigits (by decide) (by decide) hc
    have hzero := head_toDigits_ne_zero n hpositive
    refine .bind_nil takes_peek ?_
    obtain ⟨d, ds, hdigits⟩ := List.exists_cons_of_ne_nil (@Nat.toDigits_ne_nil n 10)
    rw [hdigits] at habsorb hall hzero hvalue ⊢
    have hd : d.isDigit = true := hall d List.mem_cons_self
    have hleading : d ≠ '0' := hzero d rfl
    simp only [List.cons_append, List.head?_cons, hd, ↓reduceIte]
    refine .bind_end (takes_run hall hdigit) ?_
    rwa [habsorb, hvalue, Nat.zero_add, Nat.sub_self]

end Reading

theorem chars_num (n : Int) :
    (num n).chars = (if n < 0 then ['-'] else []) ++ Nat.toDigits 10 n.natAbs :=
  Value.toList_intRepr n

/-- The sign or a digit is in front. -/
theorem chars_num_start (n : Int) :
    ∃ c cs, (num n).chars = c :: cs ∧ Reading.startsNumber c = true := by
  rw [chars_num]
  split
  · exact ⟨'-', _, rfl, rfl⟩
  · obtain ⟨d, ds, hdigits⟩ := List.exists_cons_of_ne_nil (@Nat.toDigits_ne_nil n.natAbs 10)
    have hd : d.isDigit = true := Nat.isDigit_of_mem_toDigits (b := 10) (n := n.natAbs) (by decide)
      (by decide) (hdigits ▸ List.mem_cons_self)
    exact ⟨d, ds, hdigits, by simp [Reading.startsNumber, hd]⟩

namespace Reading

/-- A whole number of 64 bits is read back from its digits. -/
theorem takes_number {n : Int} {rest : List Char} {c : Char} {cs : List Char} (hn : IsWhole n)
    (hrest : Follows rest) (hchars : (num n).chars = c :: cs) :
    Takes (number c) (num n).chars rest (.whole n) := by
  obtain ⟨hlow, hhigh⟩ := hn
  rw [number]
  by_cases hnegative : n < 0
  · have hsigned : (num n).chars = '-' :: Nat.toDigits 10 n.natAbs := by
      rw [chars_num, if_pos hnegative]; rfl
    obtain ⟨rfl, -⟩ : c = '-' ∧ _ := by simpa [hsigned, eq_comm] using hchars
    have hnumber := takes_unsignedNumber n.natAbs true hrest
      (by rw [mostSignificand]; omega) fun _ => by omega
    rw [if_pos rfl, show -((n.natAbs : Nat) : Int) = n by omega] at hnumber
    rw [hsigned, if_pos rfl]
    exact (takes_eat '-').bind hnumber
  · have hunsigned : (num n).chars = Nat.toDigits 10 n.natAbs := by
      rw [chars_num, if_neg hnegative]; rfl
    have hc : c.isDigit = true := Nat.isDigit_of_mem_toDigits (b := 10) (n := n.natAbs) (by decide)
      (by decide) (by rw [← hunsigned, hchars]; exact List.mem_cons_self)
    have hnumber := takes_unsignedNumber n.natAbs false hrest
      (by rw [mostSignificand]; omega) nofun
    rw [if_neg Bool.false_ne_true, show ((n.natAbs : Nat) : Int) = n by omega] at hnumber
    rw [hunsigned, if_neg (by rintro rfl; exact absurd hc (by decide))]
    exact hnumber

end Reading

end MissionScript.Json
