import Mathlib.Data.Rat.Floor
import MissionScript.Run.Command

/-!
# Exact ints

Sums, differences, products, opposites, magnitudes and quotients of ints are computed exactly, and
refused as an overflow just where no int has the value. The same holds of remainders, with one
exception: the remainder of the smallest int by minus one is zero and is refused all the same
(`int_arithmetic`, `mod_refuses_zero`). Quotients are rounded toward zero first and then put right:
where the rest lies on the other side of zero than the divisor, the quotient becomes one less and
the rest one divisor more, and neither can overflow (`floorDiv_mod_corrected`).
-/

namespace MissionScript.Value

/-- There is an int of this value. -/
def Fits (n : Int) : Prop := -2 ^ 63 ≤ n ∧ n < 2 ^ 63

instance (n : Int) : Decidable (Fits n) := inferInstanceAs (Decidable (_ ∧ _))

/-- The number, if it is one of the ints of so many bits. -/
def signed? (bits : Nat) (n : Int) : Option Int :=
  if -2 ^ (bits - 1) ≤ n ∧ n < 2 ^ (bits - 1) then some n else Option.none

/-- The result is the int of the value `n` if there is one, and an arithmetic error else. -/
structure Exact (n : Int) (r : Result Value) : Prop where
  value : Fits n → ∃ c : Int64, c.toInt = n ∧ r = .ok (int c)
  refused : (∃ e, r = .error e ∧ e.kind = .arithmetic) ↔ ¬Fits n

/-- Division of `a` by `b` that rounds down: the quotient, and the rest, which has the sign of the
divisor and is smaller. -/
structure FloorDivision (a b quotient rest : Int) : Prop where
  sum : a = quotient * b + rest
  small : |rest| < |b|
  sign : 0 ≤ rest * b
  floor : quotient = ⌊(a : ℚ) / b⌋

section Numbers

variable {a b : Int}

theorem fits_toInt (n : Int64) : Fits n.toInt := ⟨n.le_toInt, n.toInt_lt⟩

theorem signed?_of_fits {n : Int} (h : Fits n) : signed? 64 n = some n := if_pos h

theorem ofInt_eq (n : Int) :
    ofInt n = if Fits n then .ok (int (Int64.ofInt n)) else .error .overflow := by
  have hrange : Fits n ↔ smallestInt ≤ n ∧ n ≤ largestInt := by
    unfold Fits smallestInt largestInt
    omega
  simp only [hrange, ofInt]

theorem exact_ok {n : Int} {c : Int64} (h : c.toInt = n) : Exact n (.ok (int c)) := by
  subst h
  exact ⟨fun _ => ⟨c, rfl, rfl⟩, nofun, fun h => absurd (fits_toInt c) h⟩

theorem exact_overflow {n : Int} (h : ¬Fits n) : Exact n (.error .overflow) :=
  ⟨fun hfits => absurd hfits h, fun _ => h, fun _ => ⟨_, rfl, rfl⟩⟩

theorem ofInt_exact (n : Int) : Exact n (ofInt n) := by
  rw [ofInt_eq]
  split
  · rename_i h
    exact exact_ok (Int64.toInt_ofInt_of_le h.1 h.2)
  · exact exact_overflow ‹_›

theorem eq_floor {quotient rest : Int} (hsum : a = quotient * b + rest) (hb : b ≠ 0)
    (hrest : 0 ≤ rest ∧ rest < b ∨ b < rest ∧ rest ≤ 0) : quotient = ⌊(a : ℚ) / b⌋ := by
  have hbq : (b : ℚ) ≠ 0 := Int.cast_ne_zero.mpr hb
  have hratio : (a : ℚ) / b = quotient + rest / b := by
    rw [hsum, Int.cast_add, Int.cast_mul, add_div, mul_div_cancel_right₀ _ hbq]
  have hfraction : ⌊(rest : ℚ) / b⌋ = 0 := by
    rw [Int.floor_eq_zero_iff]
    rcases hrest with ⟨hnonneg, hlt⟩ | ⟨hlt, hnonpos⟩
    · have hpos : (0 : ℚ) < b := Int.cast_pos.mpr (hnonneg.trans_lt hlt)
      exact ⟨div_nonneg (Int.cast_nonneg hnonneg) hpos.le,
        (div_lt_one hpos).mpr (Int.cast_lt.mpr hlt)⟩
    · have hneg : (b : ℚ) < 0 := Int.cast_lt_zero.mpr (hlt.trans_le hnonpos)
      exact ⟨div_nonneg_of_nonpos (Int.cast_nonpos.mpr hnonpos) hneg.le,
        (div_lt_one_of_neg hneg).mpr (Int.cast_lt.mpr hlt)⟩
  rw [hratio, Int.floor_intCast_add, hfraction, add_zero]

theorem floorDivision_of_bounds {quotient rest : Int} (hsum : a = quotient * b + rest) (hb : b ≠ 0)
    (hrest : 0 ≤ rest ∧ rest < b ∨ b < rest ∧ rest ≤ 0) : FloorDivision a b quotient rest := by
  refine ⟨hsum, ?_, ?_, eq_floor hsum hb hrest⟩
  · rcases hrest with ⟨hnonneg, hlt⟩ | ⟨hlt, hnonpos⟩
    · rw [abs_of_nonneg hnonneg]
      exact hlt.trans_le (le_abs_self b)
    · rw [abs_of_nonpos hnonpos]
      exact (neg_lt_neg hlt).trans_le (neg_le_abs b)
  · rcases hrest with ⟨hnonneg, hlt⟩ | ⟨hlt, hnonpos⟩
    · exact mul_nonneg hnonneg (hnonneg.trans hlt.le)
    · exact mul_nonneg_of_nonpos_of_nonpos hnonpos (hlt.le.trans hnonpos)

/-- What a quotient rounded toward zero leaves is smaller than the divisor. If it lies on the other
side of zero, the quotient is one too large. -/
theorem floorDivision_tdiv (a : Int) (hb : b ≠ 0) :
    if a.tmod b ≠ 0 ∧ ¬(a.tmod b < 0 ↔ b < 0) then
      FloorDivision a b (a.tdiv b - 1) (a.tmod b + b)
    else FloorDivision a b (a.tdiv b) (a.tmod b) := by
  have hsum : a = a.tdiv b * b + a.tmod b := (Int.tdiv_mul_add_tmod a b).symm
  have hsmall : (a.tmod b).natAbs < b.natAbs := by
    rw [Int.natAbs_tmod]
    exact Nat.mod_lt _ (Int.natAbs_pos.mpr hb)
  split
  · refine floorDivision_of_bounds ?_ hb (by omega)
    rw [sub_mul, one_mul]
    omega
  · exact floorDivision_of_bounds hsum hb (by omega)

/-- A divisor that is not one or minus one halves the number at least. -/
theorem natAbs_tdiv_le (a : Int) (hb : b ≠ 0) (hone : b.natAbs ≠ 1) :
    (a.tdiv b).natAbs ≤ a.natAbs / 2 := by
  rw [Int.natAbs_tdiv]
  exact Nat.div_le_div_left (by omega) (by decide)

theorem natAbs_ne_one_of_tmod (h : a.tmod b ≠ 0) : b.natAbs ≠ 1 := by
  intro hone
  have hrest : (a.tmod b).natAbs = a.natAbs % b.natAbs := Int.natAbs_tmod a b
  rw [hone, Nat.mod_one] at hrest
  exact h (Int.natAbs_eq_zero.mp hrest)

/-- The quotient of two ints rounded toward zero is too large only for the smallest one by minus
one. -/
theorem fits_tdiv_iff (ha : Fits a) (hb : b ≠ 0) :
    Fits (a.tdiv b) ↔ ¬(a = -2 ^ 63 ∧ b = -1) := by
  unfold Fits at *
  by_cases hone : b.natAbs = 1
  · rcases Int.natAbs_eq_iff.mp hone with rfl | rfl
    · rw [Nat.cast_one, Int.tdiv_one]
      omega
    · rw [Nat.cast_one, Int.tdiv_neg, Int.tdiv_one]
      omega
  · have hhalf := natAbs_tdiv_le a hb hone
    omega

/-- A quotient that has left something can be made one less. -/
theorem fits_tdiv_sub_one (ha : Fits a) (hb : b ≠ 0) (hrest : a.tmod b ≠ 0) :
    Fits (a.tdiv b - 1) := by
  have hhalf := natAbs_tdiv_le a hb (natAbs_ne_one_of_tmod hrest)
  unfold Fits at *
  omega

/-- Ints on either side of zero can be added. -/
theorem fits_add_of_opposite (ha : Fits a) (hb : Fits b) (hopposite : ¬(a < 0 ↔ b < 0)) :
    Fits (a + b) := by
  unfold Fits at *
  omega

end Numbers

section Division

variable {a b : Int64}

theorem toInt_of_fits {n : Int} {c : Int64} (hc : c.toInt = n.bmod (2 ^ 64)) (h : Fits n) :
    c.toInt = n := by
  rw [hc, Int.bmod_eq_of_le h.1 h.2]

theorem isOpposite_iff (r b : Int64) :
    isOpposite r b = true ↔ r.toInt ≠ 0 ∧ ¬(r.toInt < 0 ↔ b.toInt < 0) := by
  have hzero : r = 0 ↔ r.toInt = 0 := Int64.toInt_inj.symm
  simp only [isOpposite, Bool.and_eq_true, bne_iff_ne, ne_eq, hzero, decide_eq_decide,
    Int64.lt_iff_toInt_lt, Int64.toInt_zero]

/-- Quotient and remainder as they are computed, where nothing is refused. -/
theorem floorDiv_mod_eq (hb : b ≠ 0) (h : ¬(a = Int64.minValue ∧ b = -1)) :
    floorDiv (int a) (int b) = .ok (int (if isOpposite (a % b) b then a / b - 1 else a / b))
      ∧ mod (int a) (int b) = .ok (int (if isOpposite (a % b) b then a % b + b else a % b)) := by
  have hquotient : quotient? a b = some (a / b) := if_neg (not_or.mpr ⟨hb, h⟩)
  have hrest : rest? a b = some (a % b) := if_neg (not_or.mpr ⟨hb, h⟩)
  constructor
  · rw [floorDiv, if_neg hb, hquotient, hrest]
    rfl
  · rw [mod, if_neg hb, hrest]
    rfl

theorem floorDivision_smallest :
    FloorDivision Int64.minValue.toInt (-1 : Int64).toInt (2 ^ 63) 0 :=
  floorDivision_of_bounds (by decide) (by decide) (.inr (by decide))

/-- Where nothing is refused, neither of the corrections leaves the ints. -/
theorem floorDiv_mod_corrected (hb : b ≠ 0) (h : ¬(a = Int64.minValue ∧ b = -1)) :
    ∃ quotient rest, FloorDivision a.toInt b.toInt quotient rest
      ∧ Exact quotient (floorDiv (int a) (int b)) ∧ Exact rest (mod (int a) (int b)) := by
  have hb' : b.toInt ≠ 0 := fun hzero => hb (Int64.toInt_inj.mp hzero)
  have hfits : Fits (a.toInt.tdiv b.toInt) :=
    (fits_tdiv_iff (fits_toInt a) hb').mpr fun hextreme =>
      h ⟨Int64.toInt_inj.mp hextreme.1, Int64.toInt_inj.mp hextreme.2⟩
  have hq : (a / b).toInt = a.toInt.tdiv b.toInt := toInt_of_fits (Int64.toInt_div a b) hfits
  have hr : (a % b).toInt = a.toInt.tmod b.toInt := Int64.toInt_mod a b
  have hfloor := floorDivision_tdiv a.toInt hb'
  rw [← hq, ← hr] at hfloor
  obtain ⟨hdiv, hmod⟩ := floorDiv_mod_eq hb h
  rw [hdiv, hmod]
  by_cases hopposite : isOpposite (a % b) b = true
  · have hleft := (isOpposite_iff _ _).mp hopposite
    have hquotient : Fits ((a / b).toInt - 1) :=
      hq ▸ fits_tdiv_sub_one (fits_toInt a) hb' (hr ▸ hleft.1)
    have hrest : Fits ((a % b).toInt + b.toInt) :=
      fits_add_of_opposite (fits_toInt _) (fits_toInt _) hleft.2
    rw [if_pos hleft] at hfloor
    rw [if_pos hopposite, if_pos hopposite]
    exact ⟨_, _, hfloor, exact_ok (toInt_of_fits (Int64.toInt_sub _ _) hquotient),
      exact_ok (toInt_of_fits (Int64.toInt_add _ _) hrest)⟩
  · rw [if_neg (mt (isOpposite_iff _ _).mpr hopposite)] at hfloor
    rw [if_neg hopposite, if_neg hopposite]
    exact ⟨_, _, hfloor, exact_ok rfl, exact_ok rfl⟩

/-- Floor division and remainder fit together. Only the smallest int by minus one is refused, and
there the remainder is refused with the quotient. -/
theorem floorDiv_mod_exact (a : Int64) (hb : b ≠ 0) :
    ∃ quotient rest, FloorDivision a.toInt b.toInt quotient rest
      ∧ Exact quotient (floorDiv (int a) (int b))
      ∧ if a = Int64.minValue ∧ b = -1 then mod (int a) (int b) = .error .overflow
        else Exact rest (mod (int a) (int b)) := by
  by_cases hextreme : a = Int64.minValue ∧ b = -1
  · obtain ⟨rfl, rfl⟩ := hextreme
    have hlarge : ¬Fits (2 ^ 63) := by decide
    exact ⟨2 ^ 63, 0, floorDivision_smallest, exact_overflow hlarge, rfl⟩
  · simp only [if_neg hextreme]
    exact floorDiv_mod_corrected hb hextreme

end Division

/-- Ints are computed with exactly. Only the remainder of the smallest int by minus one is refused
though it is zero. -/
theorem int_arithmetic (a b : Int64) :
    Exact (a.toInt + b.toInt) (binary .add (int a) (int b))
      ∧ Exact (a.toInt - b.toInt) (binary .sub (int a) (int b))
      ∧ Exact (a.toInt * b.toInt) (binary .mul (int a) (int b))
      ∧ Exact (-a.toInt) (unary .neg (int a))
      ∧ (∃ r, Exact |a.toInt| r ∧ Command.abs.invoke [int a] = Command.ofResult r)
      ∧ (b ≠ 0 → ∃ quotient rest, FloorDivision a.toInt b.toInt quotient rest
          ∧ Exact quotient (binary .floorDiv (int a) (int b))
          ∧ if a = Int64.minValue ∧ b = -1 then
              binary .mod (int a) (int b) = .error .overflow
            else Exact rest (binary .mod (int a) (int b))) := by
  refine ⟨ofInt_exact _, ofInt_exact _, ofInt_exact _, ofInt_exact _, ⟨_, ?_, rfl⟩,
    floorDiv_mod_exact a⟩
  rw [Int.abs_eq_natAbs]
  exact ofInt_exact _

/-- The rest is zero, which fits, and yet it is refused. -/
theorem mod_refuses_zero :
    FloorDivision Int64.minValue.toInt (-1 : Int64).toInt (2 ^ 63) 0 ∧ Fits 0
      ∧ ¬Exact 0 (binary .mod (int Int64.minValue) (int (-1))) := by
  have hfits : Fits 0 := by decide
  refine ⟨floorDivision_smallest, hfits, fun hexact => ?_⟩
  obtain ⟨c, -, hc⟩ := hexact.value hfits
  cases hc

end MissionScript.Value
