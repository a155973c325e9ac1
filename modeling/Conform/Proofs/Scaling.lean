import Conform.Binary64.Scaling
import Conform.Proofs.Rounding

/-!
# Scaling in rounded steps

Where the significand has at most 53 binary digits and the power of ten is one of the first 22, both are exact and
the one step that rounds gives the nearest number (`ofScaled_eq_ofDecimal`).
-/

namespace Conform.Binary64

theorem units_floorRank {odd power : Nat} (small : odd < 2 * binade) :
    units (floorRank (odd * 2 ^ power)) = odd * 2 ^ power := by
  obtain ⟨shift, digits, same, rfl, normal, fits⟩ := floorRank_shifted (odd * 2 ^ power)
  rw [same, units_shifted normal fits]
  apply Nat.div_mul_cancel
  by_cases inside : shift ≤ power
  · exact Nat.dvd_mul_left_of_dvd (Nat.pow_dvd_pow 2 inside) odd
  · have split : 2 ^ shift = 2 ^ power * (2 ^ (shift - power - 1) * 2) := by
      rw [← Nat.pow_succ, ← Nat.pow_add]
      congr 1
      omega
    have few : odd * 2 ^ power / 2 ^ shift ≤ odd / 2 := by
      rw [split, Nat.mul_comm odd, Nat.mul_div_mul_left _ _ (Nat.two_pow_pos power), Nat.mul_comm (2 ^ _),
        ← Nat.div_div_eq_div_mul]
      exact Nat.div_le_self _ _
    omega

/-- What has 53 binary digits before its zeros is a rank. -/
theorem units_rankOfNat {odd power : Nat} (small : odd < 2 * binade) :
    units (rankOfNat (odd * 2 ^ power)) = odd * 2 ^ power * unitsPerOne := by
  have shifted : odd * 2 ^ power * unitsPerOne = odd * 2 ^ (power + 1074) := by
    rw [unitsPerOne_eq, Nat.mul_assoc, Nat.pow_add 2 power 1074]
  have floor := @units_floorRank odd (power + 1074) small
  have exact := @nearestRank_exact (floorRank (odd * 2 ^ (power + 1074))) 1 Nat.one_pos
  rw [floor, Nat.mul_one] at exact
  rw [rankOfNat, shifted, exact, floor]

theorem units_rankOfNat_small {n : Nat} (small : n < 2 * binade) : units (rankOfNat n) = n * unitsPerOne := by
  have exact := @units_rankOfNat n 0 small
  rwa [Nat.pow_zero, Nat.mul_one] at exact

theorem units_rankOfNat_ten_pow {power : Nat} (small : power ≤ 22) :
    units (rankOfNat (10 ^ power)) = 10 ^ power * unitsPerOne := by
  have fives : 5 ^ power < 2 * binade := by
    calc 5 ^ power ≤ 5 ^ 22 := Nat.pow_le_pow_right (by decide) small
      _ < 2 * binade := by decide
  have exact := @units_rankOfNat (5 ^ power) power fives
  rwa [← Nat.mul_pow] at exact

/-- The quick way is as good as the long one if nothing is rounded before the last step. -/
theorem ofScaled_eq_ofDecimal (negative : Bool) {significand : Nat} {exponent : Int}
    (small : significand < 2 * binade) (near : exponent.natAbs ≤ 22) :
    ofScaled negative significand exponent = ofDecimal negative significand exponent := by
  rw [ofDecimal_eq, ofScaled]
  split
  · rename_i none
    rw [none, decimalRank, Nat.zero_mul, Nat.zero_mul, nearestRank_zero (Nat.pow_pos (by decide))]
    rfl
  · congr 1
    rw [scaledRank, if_neg (by simp only [maxPower]; omega)]
    have start := units_rankOfNat_small small
    split
    · have power := @units_rankOfNat_ten_pow exponent.toNat (by omega)
      rw [multiplyByPower, productRank, Nat.pow_eq, start, power, decimalRank, show (-exponent).toNat = 0 by omega]
      refine nearestRank_congr unitsPerOne_pos Nat.one_pos ?_
      rw [Nat.pow_zero, Nat.mul_one, ← Nat.mul_assoc, Nat.mul_right_comm significand]
    · have power := @units_rankOfNat_ten_pow (-exponent).toNat (by omega)
      rw [if_pos (by simp only [maxPower]; omega)]
      rw [divideByPower, quotientRank, Nat.pow_eq, start, power, decimalRank, show exponent.toNat = 0 by omega]
      refine nearestRank_congr (Nat.mul_pos (Nat.pow_pos (by decide)) unitsPerOne_pos) (Nat.pow_pos (by decide)) ?_
      rw [Nat.pow_zero, Nat.mul_one, Nat.mul_assoc _ _ (10 ^ _), Nat.mul_comm (10 ^ _)]

/-! ### No overflow below the last ranks -/

/-- A step is off by half a unit in the last of 53 binary digits. -/
theorem units_nearestRank_le {num den : Nat} (pos : 0 < den) (normal : binade < nearestRank num den) :
    units (nearestRank num den) * den * (2 * binade + 1) ≤ num * (2 * binade + 2) := by
  obtain ⟨low, -⟩ := roundsTo_iff.mp (@roundsTo_nearestRank num den pos)
  generalize nearestRank num den = rank at low normal
  obtain ⟨shift, digits, split, form, fits⟩ := rank_cases (rank - 1)
  have next : rank = shift * binade + digits + 1 := by omega
  have large : binade ≤ digits := by
    rcases form with large | rfl
    · exact large
    · omega
  rw [split, next, units_shifted form fits, units_succ_shifted form fits] at low
  rw [next, units_succ_shifted form fits]
  have half : (digits + 1) * (2 * binade + 1) ≤ (digits + (digits + 1)) * (binade + 1) := by
    simp only [binade, Nat.reduceShiftLeft] at large ⊢
    omega
  calc (digits + 1) * 2 ^ shift * den * (2 * binade + 1)
      = (digits + 1) * (2 * binade + 1) * (2 ^ shift * den) := by
        simp only [Nat.mul_assoc, Nat.mul_left_comm, Nat.mul_comm]
    _ ≤ (digits + (digits + 1)) * (binade + 1) * (2 ^ shift * den) := Nat.mul_le_mul_right _ half
    _ = (digits * 2 ^ shift + (digits + 1) * 2 ^ shift) * den * (binade + 1) := by
        rw [← Nat.add_mul]
        simp only [Nat.mul_assoc, Nat.mul_left_comm, Nat.mul_comm]
    _ ≤ 2 * num * (binade + 1) := Nat.mul_le_mul_right _ low
    _ = num * (2 * binade + 2) := by
        rw [Nat.mul_comm 2, Nat.mul_assoc]
        rfl

theorem unitsPerOne_le_units_rankOfNat {n : Nat} (pos : 0 < n) : unitsPerOne ≤ units (rankOfNat n) := by
  have one := @units_rankOfNat_small 1 (by decide)
  have grows : rankOfNat 1 ≤ rankOfNat n :=
    nearestRank_mono Nat.one_pos Nat.one_pos (Nat.mul_le_mul_right 1 (Nat.mul_le_mul_right _ pos))
  rw [Nat.one_mul] at one
  exact one ▸ units_strictMono.monotone grows

theorem divideByPower_le (rank power : Nat) : divideByPower rank power ≤ rank := by
  have one : unitsPerOne ≤ units (rankOfNat (10 ^ power)) := unitsPerOne_le_units_rankOfNat (Nat.pow_pos (by decide))
  rw [divideByPower, quotientRank, Nat.pow_eq]
  exact nearestRank_le_of_le (Nat.lt_of_lt_of_le unitsPerOne_pos one) (Nat.mul_le_mul_left _ one)

/-- The last ranks have the greatest digits, shifted as far as any. -/
theorem units_last {k : Nat} (few : k < binade) : units (rankCount - 1 - k) = (2 * binade - 1 - k) * 2 ^ 2045 := by
  rw [show rankCount - 1 - k = 2045 * binade + (2 * binade - 1 - k) by simp only [rankCount]; omega]
  exact units_shifted (.inl (by omega)) (by omega)

theorem rankOfNat_lt {n : Nat} (small : n < 1 <<< 64) : rankOfNat n < rankCount := by
  have room : n * unitsPerOne ≤ units (rankCount - 1 - 0) * 1 := by
    rw [@units_last 0 (by decide), Nat.mul_one, unitsPerOne_eq]
    calc n * 2 ^ 1074 ≤ 1 <<< 64 * 2 ^ 1074 := Nat.mul_le_mul_right _ (Nat.le_of_lt small)
      _ ≤ (2 * binade - 1 - 0) * 2 ^ 2045 := by decide +kernel
  have below : rankOfNat n ≤ rankCount - 1 - 0 := nearestRank_le_of_le Nat.one_pos room
  simp only [rankCount, binade] at below ⊢
  omega

theorem ofNat_eq (n : Nat) : ofNat n = ofRank false (rankOfNat n) := rfl

theorem ofInt_eq (n : Int) : ofInt n = ofRank (decide (n < 0)) (rankOfNat n.natAbs) := rfl

theorem isFinite_ofNat {n : Nat} (small : n < 1 <<< 64) : (ofNat n).isFinite = true := by
  rw [ofNat_eq]
  exact isFinite_ofRank (rankOfNat_lt small)

theorem isFinite_ofInt {n : Int} (small : n.natAbs < 1 <<< 64) : (ofInt n).isFinite = true := by
  rw [ofInt_eq]
  exact isFinite_ofRank (rankOfNat_lt small)

/-- Three roundings take a product up by at most two of the last ranks. -/
theorem multiplyByPower_lt {significand power : Nat} (pos : 0 < significand)
    (room : significand * 10 ^ power * unitsPerOne ≤ units (rankCount - 1 - 2)) :
    multiplyByPower (rankOfNat significand) power < rankCount := by
  have normal : ∀ n, 0 < n → binade < rankOfNat n := by
    intro n pos
    refine units_strictMono.lt_iff_lt.mp (Nat.lt_of_lt_of_le ?_ (unitsPerOne_le_units_rankOfNat pos))
    decide +kernel
  have first := units_nearestRank_le Nat.one_pos (normal significand pos)
  have second := units_nearestRank_le Nat.one_pos (normal (10 ^ power) (Nat.pow_pos (by decide)))
  have last : units (rankCount - 1 - 2) * ((2 * binade + 2) * (2 * binade + 2)) ≤
      units (rankCount - 1 - 0) * ((2 * binade + 1) * (2 * binade + 1)) := by
    rw [@units_last 2 (by decide), @units_last 0 (by decide)]
    decide +kernel
  have product : units (rankOfNat significand) * units (rankOfNat (10 ^ power)) ≤
      units (rankCount - 1 - 0) * unitsPerOne := by
    have both := Nat.mul_le_mul first second
    rw [Nat.mul_one, Nat.mul_one] at both
    refine Nat.le_of_mul_le_mul_right ?_ (show 0 < (2 * binade + 1) * (2 * binade + 1) by decide)
    generalize 2 * binade + 1 = more at both last ⊢
    generalize 2 * binade + 2 = most at both last
    calc units (rankOfNat significand) * units (rankOfNat (10 ^ power)) * (more * more)
        = units (rankOfNat significand) * more * (units (rankOfNat (10 ^ power)) * more) := by
          simp only [Nat.mul_assoc, Nat.mul_left_comm, Nat.mul_comm]
      _ ≤ significand * unitsPerOne * most * (10 ^ power * unitsPerOne * most) := both
      _ = significand * 10 ^ power * unitsPerOne * (unitsPerOne * (most * most)) := by
          simp only [Nat.mul_assoc, Nat.mul_left_comm, Nat.mul_comm]
      _ ≤ units (rankCount - 1 - 2) * (unitsPerOne * (most * most)) := Nat.mul_le_mul_right _ room
      _ = units (rankCount - 1 - 2) * (most * most) * unitsPerOne := by
          simp only [Nat.mul_assoc, Nat.mul_left_comm, Nat.mul_comm]
      _ ≤ units (rankCount - 1 - 0) * (more * more) * unitsPerOne := Nat.mul_le_mul_right _ last
      _ = units (rankCount - 1 - 0) * unitsPerOne * (more * more) := Nat.mul_right_comm _ _ _
  have below : multiplyByPower (rankOfNat significand) power ≤ rankCount - 1 - 0 := by
    rw [multiplyByPower, productRank, Nat.pow_eq]
    exact nearestRank_le_of_le unitsPerOne_pos product
  simp only [rankCount, binade] at below ⊢
  omega

theorem scaledRank_lt {significand : Nat} {exponent : Int} (pos : 0 < significand) (small : significand < 1 <<< 64)
    (room : 0 ≤ exponent → significand * 10 ^ exponent.toNat * unitsPerOne ≤ units (rankCount - 1 - 2)) :
    scaledRank significand exponent < rankCount := by
  have start := rankOfNat_lt small
  unfold scaledRank
  dsimp only
  split
  · rename_i great
    have beyond : units (rankCount - 1 - 2) < 10 ^ (maxPower + 1) * unitsPerOne := by
      rw [@units_last 2 (by decide), unitsPerOne_eq]
      decide +kernel
    have grows : 10 ^ (maxPower + 1) ≤ significand * 10 ^ exponent.toNat :=
      Nat.le_trans (Nat.pow_le_pow_right (by decide) (by omega)) (Nat.le_mul_of_pos_left _ pos)
    have inside := Nat.le_trans (Nat.mul_le_mul_right unitsPerOne grows) (room (by omega))
    exact absurd inside (Nat.not_le.mpr beyond)
  · split
    · rename_i scaled
      exact multiplyByPower_lt pos (room scaled)
    · split
      · exact Nat.lt_of_le_of_lt (divideByPower_le _ _) start
      · split
        · exact Nat.lt_of_le_of_lt (Nat.le_trans (divideByPower_le _ _) (divideByPower_le _ _)) start
        · decide

/-! ### Integers -/

/-- An integer of at most 53 binary digits is a number. -/
theorem integer?_ofInt {n : Int} (small : n.natAbs < 2 * binade) : (ofInt n).integer? = some n := by
  have fits : rankOfNat n.natAbs < rankCount := rankOfNat_lt (Nat.lt_trans small (by decide))
  rw [ofInt_eq, ofRank_of_lt fits, integer?, units_rankOfNat_small small, if_pos (Nat.mul_mod_left _ _),
    Nat.mul_div_cancel _ unitsPerOne_pos, signed]
  simp only [decide_eq_true_eq, Option.some_inj]
  split <;> omega

theorem truncate?_of_integer? {x : Binary64} {n : Int} (value : x.integer? = some n) : x.truncate? = some n := by
  cases x with
  | finite negative rank =>
    rw [integer?] at value
    split at value
    · exact value
    · cases value
  | _ => cases value

end Conform.Binary64
