import MissionScript.Proofs.Run.Counting
import MissionScript.Proofs.Value.Exact
import MissionScript.Proofs.Value.Path

/-!
# Numbers of a range

The numbers of a range are the start, the start and one step, and so on, as long as they come before
the stop. How many there are is computed by one division, and each of them by one product, from ints
that may lie as far apart as ints can. All of this is exact (`range_exact`): the number of numbers is
right, and the command `range` and the loop that counts both go through just these numbers. No result
on the way is too large for 128 bits, and nothing is lost when the count is kept in 64 bits.
-/

namespace MissionScript.IntRange

open Value (signed?)

/-- The number `k` steps after the start. -/
def nth (r : IntRange) (k : Nat) : Int := r.start.toInt + k * r.step.toInt

/-- The number `k` steps after the start comes before the stop, in the direction of the steps. -/
def Before (r : IntRange) (k : Nat) : Prop :=
  if 0 < r.step.toInt then r.nth k < r.stop.toInt else r.stop.toInt < r.nth k

section Count

variable {r : IntRange} {k : Nat}

/-- How far the stop lies ahead of the start, in the direction of the steps. -/
def distance (r : IntRange) : Int :=
  if 0 < r.step.toInt then r.stop.toInt - r.start.toInt else r.start.toInt - r.stop.toInt

/-- How far each step goes. -/
def stride (r : IntRange) : Nat := r.step.toInt.natAbs

theorem count_eq (r : IntRange) :
    r.count = (r.distance.toNat + r.stride - 1) / r.stride := rfl

theorem stride_pos (h : r.step ≠ 0) : 0 < r.stride :=
  Int.natAbs_pos.mpr fun hzero => h (Int64.toInt_inj.mp hzero)

theorem stride_le (r : IntRange) : r.stride ≤ 2 ^ 63 := by
  have hlow := r.step.le_toInt
  have hhigh := r.step.toInt_lt
  unfold stride
  omega

theorem distance_bounds (r : IntRange) : -2 ^ 64 < r.distance ∧ r.distance < 2 ^ 64 := by
  have := r.start.le_toInt
  have := r.start.toInt_lt
  have := r.stop.le_toInt
  have := r.stop.toInt_lt
  unfold distance
  split <;> omega

theorem before_iff (r : IntRange) (k : Nat) : r.Before k ↔ (k * r.stride : Int) < r.distance := by
  unfold Before nth distance stride
  split
  · rename_i hpos
    rw [Int.natAbs_of_nonneg hpos.le]
    omega
  · rename_i hneg
    rw [Int.ofNat_natAbs_of_nonpos (Int.not_lt.mp hneg), mul_neg]
    omega

/-- The count is the quotient rounded up. -/
theorem lt_count_iff (h : r.step ≠ 0) (k : Nat) : k < r.count ↔ r.Before k := by
  have hpos := stride_pos h
  rw [before_iff, count_eq, ← Nat.succ_le_iff, Nat.le_div_iff_mul_le hpos, Nat.succ_mul]
  have hcast : (k * r.stride : Int) = (k * r.stride : Nat) := (Nat.cast_mul _ _).symm
  omega

theorem count_le (h : r.step ≠ 0) : r.count ≤ r.distance.toNat := by
  by_contra hlt
  have hbefore := (before_iff r _).mp ((lt_count_iff h _).mp (Nat.not_le.mp hlt))
  have hmul : r.distance.toNat ≤ r.distance.toNat * r.stride :=
    Nat.le_mul_of_pos_right _ (stride_pos h)
  omega

theorem count_lt (h : r.step ≠ 0) : r.count < 2 ^ 64 := by
  have := count_le h
  have := distance_bounds r
  omega

/-- A number before the stop lies between the start and the stop, so there is an int of it. -/
theorem nth_fits (h : r.Before k) : Value.Fits (r.nth k) := by
  have hstart := Value.fits_toInt r.start
  have hstop := Value.fits_toInt r.stop
  have hk : (0 : Int) ≤ k := Int.natCast_nonneg k
  unfold Before at h
  unfold Value.Fits nth at *
  split at h
  · rename_i hpos
    have hsteps := mul_nonneg hk hpos.le
    omega
  · rename_i hneg
    have hsteps := mul_nonpos_of_nonneg_of_nonpos hk (Int.not_lt.mp hneg)
    omega

theorem toInt_get (h : r.Before k) : (r.get k).toInt = r.nth k := by
  obtain ⟨hlow, hhigh⟩ := nth_fits h
  exact Int64.toInt_ofInt_of_le hlow hhigh

theorem ncard_before (h : r.step ≠ 0) : {k | r.Before k}.ncard = r.count := by
  have hset : {k | r.Before k} = Set.Iio r.count := Set.ext fun k => (lt_count_iff h k).symm
  rw [hset, Set.ncard_Iio_nat]

end Count

section Steps

variable {r : IntRange} {k : Nat}

/-- The number, if it is one of the natural numbers of so many bits. -/
def unsigned? (bits : Nat) (n : Int) : Option Nat :=
  if 0 ≤ n ∧ n < 2 ^ bits then some n.toNat else none

/-- How many steps of this length lead from `low` to before `high`, each step of the arithmetic
being refused where it has no result among 128-bit ints, and the count where 64 bits are too few. -/
def stepsBetween? (low high stride : Int) : Option Nat :=
  if high ≤ low then some 0
  else do
    let distance ← signed? 128 (high - low)
    let sum ← signed? 128 (distance + stride)
    let less ← signed? 128 (sum - 1)
    let quotient ← signed? 128 (less.tdiv stride)
    unsigned? 64 quotient

/-- Counts the numbers of the range as `count` does, step by step. -/
def countStepwise? (r : IntRange) : Option Nat :=
  if 0 < r.step.toInt then stepsBetween? r.start.toInt r.stop.toInt r.step.toInt
  else do stepsBetween? r.stop.toInt r.start.toInt (← signed? 128 (-r.step.toInt))

/-- The number `k` steps after the start, found as `get` does, with each step of the arithmetic
refused where it has no result among 128-bit ints, and the number where there is no int of it. -/
def getStepwise? (r : IntRange) (k : Nat) : Option Int64 := do
  let product ← signed? 128 (k * r.step.toInt)
  let sum ← signed? 128 (r.start.toInt + product)
  let n ← signed? 64 sum
  return Int64.ofInt n

theorem signed?_wide {n : Int} (hlow : -2 ^ 127 ≤ n) (hhigh : n < 2 ^ 127) :
    signed? 128 n = some n := if_pos ⟨hlow, hhigh⟩

theorem unsigned?_of_lt {n : Nat} (h : n < 2 ^ 64) : unsigned? 64 n = some n :=
  if_pos ⟨Int.natCast_nonneg n, by exact_mod_cast h⟩

theorem stepsBetween?_eq {low high : Int} {stride : Nat} (hpos : 0 < stride)
    (hstride : stride ≤ 2 ^ 63) (hdistance : high - low < 2 ^ 64)
    (hcount : ((high - low).toNat + stride - 1) / stride < 2 ^ 64) :
    stepsBetween? low high stride = some (((high - low).toNat + stride - 1) / stride) := by
  unfold stepsBetween?
  split
  · rename_i hle
    have hnone : (high - low).toNat = 0 := by omega
    rw [hnone, Nat.zero_add, Nat.div_eq_of_lt (by omega)]
  · rename_i hlt
    obtain ⟨d, hd⟩ : ∃ d : Nat, high - low = d := Int.eq_ofNat_of_zero_le (by omega)
    have hless : (d + stride - 1 : Int) = (d + stride - 1 : Nat) := by omega
    rw [hd, Int.toNat_natCast] at hcount ⊢
    rw [hd] at hdistance
    rw [signed?_wide (by omega) (by omega), Option.bind_eq_bind, Option.bind_some,
      signed?_wide (by omega) (by omega), Option.bind_some,
      signed?_wide (by omega) (by omega), Option.bind_some, hless, ← Int.ofNat_tdiv]
    generalize (d + stride - 1) / stride = count at hcount ⊢
    rw [signed?_wide (by omega) (by omega), Option.bind_some, unsigned?_of_lt hcount]

theorem countStepwise?_eq (h : r.step ≠ 0) : r.countStepwise? = some r.count := by
  have hlt := count_lt h
  have hbounds := distance_bounds r
  have hsteps {low high : Int} (hd : r.distance = high - low) :
      stepsBetween? low high r.stride = some r.count := by
    rw [count_eq, hd] at hlt ⊢
    exact stepsBetween?_eq (stride_pos h) (stride_le r) (hd ▸ hbounds.2) hlt
  unfold countStepwise?
  split
  · rename_i hforward
    have hstride : (r.stride : Int) = r.step.toInt := Int.natAbs_of_nonneg hforward.le
    rw [← hstride]
    exact hsteps (if_pos hforward)
  · rename_i hback
    have hstride : (r.stride : Int) = -r.step.toInt :=
      Int.ofNat_natAbs_of_nonpos (Int.not_lt.mp hback)
    have hle := stride_le r
    rw [← hstride, signed?_wide (by omega) (by omega), Option.bind_eq_bind, Option.bind_some]
    exact hsteps (if_neg hback)

theorem getStepwise?_eq (h : r.Before k) : r.getStepwise? k = some (r.get k) := by
  have hstart := Value.fits_toInt r.start
  have hfits := nth_fits h
  have hproduct : (k * r.step.toInt : Int) = r.nth k - r.start.toInt := by
    unfold nth
    omega
  unfold getStepwise?
  unfold Value.Fits at *
  rw [hproduct, signed?_wide (by omega) (by omega), Option.bind_eq_bind, Option.bind_some,
    add_sub_cancel, signed?_wide (by omega) (by omega), Option.bind_some,
    Value.signed?_of_fits hfits]
  rfl

end Steps

section Going

variable {r : IntRange} {args : List Value}

theorem length_bounds {ns : List Int64} (h : args.mapM bound = .ok ns) :
    ns.length = args.length := by
  induction args generalizing ns with
  | nil =>
    cases h
    rfl
  | cons v vs ih =>
    rw [List.mapM_cons] at h
    obtain ⟨n, -, h⟩ := Value.bind_eq_ok.mp h
    obtain ⟨ns', hns', h⟩ := Value.bind_eq_ok.mp h
    cases h
    exact congrArg (· + 1) (ih hns')

/-- A range has one to three arguments. -/
theorem length_of_ofArgs (h : ofArgs args = .ok r) : 1 ≤ args.length ∧ args.length ≤ 3 := by
  obtain ⟨ns, hns, h⟩ := Value.bind_eq_ok.mp h
  rw [← length_bounds hns]
  rcases ns with _ | ⟨a, _ | ⟨b, _ | ⟨c, _ | ⟨d, ns⟩⟩⟩⟩
  · cases h
  · exact ⟨by simp, by simp⟩
  · exact ⟨by simp, by simp⟩
  · exact ⟨by simp, by simp⟩
  · cases h

/-- The command `range` pays for the numbers and makes a list of them, unless they are too many. -/
theorem invoke_range_eq (h : ofArgs args = .ok r) (s : Session) :
    Command.range.invoke args s =
      let s' := { s with gas := s.gas.charge r.count }
      if s'.gas.isSpent then .error .budgetSpent s'
      else if r.count ≤ longestSequence then .ok (.list (r.take r.count)) s'
      else .error (.rangeTooLong r.count) s' := by
  rw [Eval.invoke_range (length_of_ofArgs h), Command.materialize, h]
  change (Session.charge r.count >>= fun _ => _) s = _
  rw [bind_apply, Session.charge]
  dsimp only
  by_cases hspent : (s.gas.charge r.count).isSpent = true
  · rw [if_pos hspent, if_pos hspent]
  · rw [if_neg hspent, if_neg hspent]
    dsimp only
    split <;> rfl

/-- The loop that counts runs its body with one number after the other. -/
theorem stmt_forRange_eq (h : ofArgs args = .ok r) {call : Caller} {var : Ident}
    {start : Option Expr} {stop : Expr} {step : Option Expr} {body : Block} {span : Span}
    {m m' : Machine}
    (hbounds : (do Eval.tick; Eval.setLine span.line; Eval.bounds call start stop step) m =
      .ok args m') (hnone : m'.function? "range" = none) :
    Eval.stmt call (.forRange var start stop step body span) m =
      Eval.loopItems (Eval.iteration var (Eval.block call body)) (r.take r.count) m' := by
  rw [Eval.stmt_forRange, bind_apply, hbounds]
  change Eval.rangeLoop call _ args m' = _
  unfold Eval.rangeLoop
  rw [bind_apply, get_apply]
  dsimp only
  rw [hnone, h]
  change Eval.loopRange _ r 0 r.count m' = _
  rw [Eval.loopRange_take]

end Going

/-- The numbers of a range are exact, whatever ints its start, its stop and its step are: they are
counted right, and the command `range` and the loop that counts both go through just these numbers.
No result on the way needs more than 128 bits, nor does the count need more than 64. -/
theorem range_exact (r : IntRange) (hstep : r.step ≠ 0) :
    (∀ k, r.Before k ↔ k < r.count) ∧ {k | r.Before k}.ncard = r.count
      ∧ r.countStepwise? = some r.count
      ∧ (∀ k < r.count, (r.get k).toInt = r.nth k ∧ r.getStepwise? k = some (r.get k))
      ∧ ∃ ns : List Int64, ns.map Int64.toInt = (List.range r.count).map r.nth
        ∧ (∀ args, ofArgs args = .ok r → ∀ s : Session,
          Command.range.invoke args s =
            let s' := { s with gas := s.gas.charge r.count }
            if s'.gas.isSpent then .error .budgetSpent s'
            else if r.count ≤ longestSequence then .ok (.list (ns.map .int)) s'
            else .error (.rangeTooLong r.count) s')
        ∧ ∀ call var start stop step body span m args m',
          (do Eval.tick; Eval.setLine span.line; Eval.bounds call start stop step) m = .ok args m' →
            ofArgs args = .ok r → m'.function? "range" = none →
            Eval.stmt call (.forRange var start stop step body span) m =
              Eval.loopItems (Eval.iteration var (Eval.block call body)) (ns.map .int) m' := by
  have hget (k : Nat) (hk : k < r.count) := (lt_count_iff hstep k).mp hk
  have htake : ((List.range r.count).map r.get).map Value.int = r.take r.count :=
    List.map_map
  refine ⟨fun k => (lt_count_iff hstep k).symm, ncard_before hstep, countStepwise?_eq hstep,
    fun k hk => ⟨toInt_get (hget k hk), getStepwise?_eq (hget k hk)⟩,
    (List.range r.count).map r.get, ?_, ?_, ?_⟩
  · rw [List.map_map]
    exact List.map_congr_left fun k hk => toInt_get (hget k (List.mem_range.mp hk))
  · intro args hargs s
    rw [htake]
    exact invoke_range_eq hargs s
  · intro call var start stop step body span m args m' hbounds hargs hnone
    rw [htake]
    exact stmt_forRange_eq hargs hbounds hnone

/-- From the largest int down to the smallest, with the longest step that there is. -/
theorem range_exact_longest :
    let r : IntRange := ⟨Int64.maxValue, Int64.minValue, Int64.minValue⟩
    let args : List Value := [.int Int64.maxValue, .int Int64.minValue, .int Int64.minValue]
    let s := Session.start default 1 10
    r.step ≠ 0 ∧ r.count = 2 ∧ (∀ k, r.Before k ↔ k < 2) ∧ r.countStepwise? = some 2
      ∧ (r.get 1).toInt = -1 ∧ r.getStepwise? 1 = some (-1) ∧ ofArgs args = .ok r
      ∧ ∃ ns : List Int64, ns.map Int64.toInt = [2 ^ 63 - 1, -1]
        ∧ Command.range.invoke args s =
            .ok (.list (ns.map .int)) { s with gas := s.gas.charge 2 } := by
  intro r args s
  have hstep : r.step ≠ 0 := by decide
  have htwo : r.count = 2 := by decide
  have hargs : ofArgs args = .ok r := rfl
  obtain ⟨hbefore, -, hcount, hget, ns, hns, hinvoke, -⟩ := range_exact r hstep
  have hinvoke := hinvoke args hargs s
  rw [htwo] at hbefore hcount hget hns hinvoke
  exact ⟨hstep, htwo, hbefore, hcount, (hget 1 (by decide)).1, (hget 1 (by decide)).2, hargs, ns,
    hns.trans (by decide), hinvoke⟩

end MissionScript.IntRange
