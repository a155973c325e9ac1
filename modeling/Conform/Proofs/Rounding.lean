import Conform.Binary64.Shortest
import Conform.Binary64.Rounding
import Mathlib.Algebra.Group.Nat.Defs
import Mathlib.Order.Monotone.Basic

/-!
# Rounding

Magnitudes grow with the rank (`units_strictMono`), so a rank is the nearest one to a quotient if and only if the
quotient lies between the midpoints to its neighbours (`nearestRank_eq_iff`). All that is used of rounding follows
from this: it depends on the quotient alone, keeps the order, and gives back what is exact. `ofDecimal` rounds the
decimal itself, whatever the exponent (`ofDecimal_eq`).
-/

namespace Conform.Binary64

/-! ### Magnitudes -/

theorem units_of_lt {rank : Nat} (low : rank < binade) : units rank = rank := if_pos low

/-- The magnitude of a rank by its digits, all shifted alike. The digits of a subnormal number are not shifted. -/
theorem units_shifted {shift digits : Nat} (normal : binade ≤ digits ∨ shift = 0) (fits : digits < 2 * binade) :
    units (shift * binade + digits) = digits * 2 ^ shift := by
  by_cases low : digits < binade
  · obtain rfl : shift = 0 := by omega
    rw [Nat.zero_mul, Nat.zero_add, units_of_lt low, Nat.pow_zero, Nat.mul_one]
  · have split : shift * binade + digits = digits - binade + binade * (shift + 1) := by
      rw [Nat.mul_succ, Nat.mul_comm]
      omega
    have inside : digits - binade < binade := by omega
    have high : ¬ shift * binade + digits < binade := by omega
    rw [units, if_neg high, split, Nat.add_mul_mod_self_left, Nat.mod_eq_of_lt inside,
      Nat.add_mul_div_left _ _ (by decide), Nat.div_eq_of_lt inside, Nat.shiftLeft_eq]
    rw [show binade + (digits - binade) = digits by omega, show 0 + (shift + 1) - 1 = shift by omega]

/-- Every rank is of this form. -/
theorem rank_cases (rank : Nat) : ∃ shift digits, rank = shift * binade + digits ∧
    (binade ≤ digits ∨ shift = 0) ∧ digits < 2 * binade := by
  have split := Nat.div_add_mod rank binade
  have inside := Nat.mod_lt rank (show 0 < binade by decide)
  by_cases low : rank < binade
  · exact ⟨0, rank, by omega, .inr rfl, by omega⟩
  · have grows : 1 ≤ rank / binade := Nat.div_pos (Nat.le_of_not_lt low) (by decide)
    refine ⟨rank / binade - 1, binade + rank % binade, ?_, .inl (by omega), by omega⟩
    rw [Nat.sub_mul, Nat.mul_comm (rank / binade)]
    have : 1 * binade ≤ binade * (rank / binade) := by
      rw [Nat.mul_comm binade]
      exact Nat.mul_le_mul_right _ grows
    omega

theorem units_succ_shifted {shift digits : Nat} (normal : binade ≤ digits ∨ shift = 0) (fits : digits < 2 * binade) :
    units (shift * binade + digits + 1) = (digits + 1) * 2 ^ shift := by
  by_cases last : digits + 1 < 2 * binade
  · rw [Nat.add_assoc]
    exact units_shifted (by omega) last
  · have wrapped : shift * binade + digits + 1 = (shift + 1) * binade + binade := by
      rw [Nat.succ_mul]
      omega
    rw [wrapped, units_shifted (.inl (Nat.le_refl _)) (by decide), show digits + 1 = binade * 2 by omega, Nat.pow_succ]
    rw [Nat.mul_comm (2 ^ shift), Nat.mul_assoc]

theorem units_lt_succ (rank : Nat) : units rank < units (rank + 1) := by
  obtain ⟨shift, digits, rfl, normal, fits⟩ := rank_cases rank
  rw [units_shifted normal fits, units_succ_shifted normal fits]
  exact Nat.mul_lt_mul_of_pos_right (Nat.lt_succ_self _) (Nat.two_pow_pos _)

theorem units_strictMono : StrictMono units := strictMono_nat_of_lt_succ units_lt_succ

theorem units_zero : units 0 = 0 := units_of_lt (by decide)

theorem unitsPerOne_eq : unitsPerOne = 2 ^ 1074 := Nat.one_shiftLeft 1074

theorem unitsPerOne_pos : 0 < unitsPerOne := unitsPerOne_eq ▸ Nat.two_pow_pos 1074

theorem units_pos {rank : Nat} (pos : 0 < rank) : 0 < units rank := units_zero ▸ units_strictMono pos

theorem isFinite_ofRank {negative : Bool} {rank : Nat} (low : rank < rankCount) :
    (ofRank negative rank).isFinite = true := by
  rw [ofRank_of_lt low]
  rfl

/-! ### The rank below a magnitude -/

theorem floorRank_shifted (q : Nat) : ∃ shift digits, floorRank q = shift * binade + digits ∧ digits = q / 2 ^ shift ∧
    (binade ≤ digits ∨ shift = 0) ∧ digits < 2 * binade := by
  refine ⟨q.log2 - 52, q / 2 ^ (q.log2 - 52), ?_, rfl, ?_, ?_⟩
  · rw [floorRank, Nat.shiftRight_eq_div_pow]
  · by_cases small : q.log2 ≤ 52
    · exact .inr (by omega)
    · left
      rw [Nat.le_div_iff_mul_le (Nat.two_pow_pos _), show binade = 2 ^ 52 from rfl, ← Nat.pow_add,
        show 52 + (q.log2 - 52) = q.log2 by omega]
      exact Nat.log2_self_le (by rintro rfl; simp at small)
  · rw [Nat.div_lt_iff_lt_mul (Nat.two_pow_pos _), show 2 * binade = 2 ^ 53 from rfl, ← Nat.pow_add]
    exact Nat.lt_of_lt_of_le Nat.lt_log2_self (Nat.pow_le_pow_right (by decide) (by omega))

theorem floorRank_spec (q : Nat) : units (floorRank q) ≤ q ∧ q < units (floorRank q + 1) := by
  obtain ⟨shift, digits, same, rfl, normal, fits⟩ := floorRank_shifted q
  rw [same, units_shifted normal fits, units_succ_shifted normal fits]
  exact ⟨Nat.div_mul_le_self _ _, Nat.lt_mul_of_div_lt (Nat.lt_succ_self _) (Nat.two_pow_pos _)⟩

/-! ### The nearest rank -/

variable {rank num den : Nat}

theorem roundsTo_iff : roundsTo rank num den = true ↔
    (units (rank - 1) + units rank) * den ≤ 2 * num ∧ 2 * num ≤ (units rank + units (rank + 1)) * den ∧
    (rank % 2 = 1 →
      (units (rank - 1) + units rank) * den ≠ 2 * num ∧ 2 * num ≠ (units rank + units (rank + 1)) * den) := by
  unfold roundsTo
  split
  · simp only [decide_eq_true_eq]
    omega
  · simp only [decide_eq_true_eq]
    omega

theorem roundsTo_nearestRank (pos : 0 < den) : roundsTo (nearestRank num den) num den = true := by
  obtain ⟨low, high⟩ := floorRank_spec (num / den)
  rw [Nat.le_div_iff_mul_le pos] at low
  rw [Nat.div_lt_iff_lt_mul pos] at high
  rw [roundsTo_iff, nearestRank]
  generalize floorRank (num / den) = below at low high
  have above := Nat.mul_lt_mul_of_pos_right (units_lt_succ (below + 1)) pos
  simp only [Nat.add_mul]
  split
  · have under : units (below - 1) * den ≤ units below * den :=
      Nat.mul_le_mul_right _ (units_strictMono.monotone (Nat.sub_le below 1))
    have strict : below % 2 = 1 → units (below - 1) * den < units below * den := by
      intro odd
      exact Nat.mul_lt_mul_of_pos_right (units_strictMono (by omega)) pos
    omega
  · simp only [Nat.add_sub_cancel]
    omega

/-- Ranks keep the order of the quotients that round to them. -/
theorem rank_le_of_roundsTo {first last num' den' : Nat} (pos : 0 < den) (pos' : 0 < den')
    (rounds : roundsTo first num den = true) (rounds' : roundsTo last num' den' = true)
    (le : num * den' ≤ num' * den) : first ≤ last := by
  obtain ⟨low, -, strict⟩ := roundsTo_iff.mp rounds
  obtain ⟨-, high, strict'⟩ := roundsTo_iff.mp rounds'
  by_contra more
  rw [Nat.not_le] at more
  have apart : units last + units (last + 1) ≤ units (first - 1) + units first :=
    Nat.add_le_add (units_strictMono.monotone (by omega)) (units_strictMono.monotone more)
  have left : (units (first - 1) + units first) * (den * den') ≤ 2 * num * den' := by
    rw [← Nat.mul_assoc]
    exact Nat.mul_le_mul_right _ low
  have right : 2 * num' * den ≤ (units last + units (last + 1)) * (den * den') := by
    rw [Nat.mul_comm den, ← Nat.mul_assoc]
    exact Nat.mul_le_mul_right _ high
  have middle := Nat.mul_le_mul_right (den * den') apart
  have both : 2 * num * den' ≤ 2 * num' * den := by
    rw [Nat.mul_assoc, Nat.mul_assoc]
    exact Nat.mul_le_mul_left 2 le
  -- All of these are equalities, so the two ranks are neighbours, and one of them is odd.
  have tie : (units (first - 1) + units first) * den = 2 * num :=
    Nat.eq_of_mul_eq_mul_right pos' (by rw [Nat.mul_assoc]; omega)
  have tie' : 2 * num' = (units last + units (last + 1)) * den' :=
    Nat.eq_of_mul_eq_mul_right pos (by rw [Nat.mul_assoc _ den', Nat.mul_comm den']; omega)
  have same : units last + units (last + 1) = units (first - 1) + units first :=
    Nat.eq_of_mul_eq_mul_right (Nat.mul_pos pos pos') (by omega)
  have neighbours : first = last + 1 := by
    by_contra gap
    have beyond : units (last + 1) < units first := units_strictMono (by omega)
    have lower : units last ≤ units (first - 1) := units_strictMono.monotone (by omega)
    omega
  have even : first % 2 ≠ 1 := fun odd => (strict odd).1 tie
  have even' : last % 2 ≠ 1 := fun odd => (strict' odd).2 tie'
  omega

theorem nearestRank_mono {num' den' : Nat} (pos : 0 < den) (pos' : 0 < den') (le : num * den' ≤ num' * den) :
    nearestRank num den ≤ nearestRank num' den' :=
  rank_le_of_roundsTo pos pos' (roundsTo_nearestRank pos) (roundsTo_nearestRank pos') le

/-- Rounding depends on the quotient alone. -/
theorem nearestRank_congr {num' den' : Nat} (pos : 0 < den) (pos' : 0 < den') (same : num * den' = num' * den) :
    nearestRank num den = nearestRank num' den' :=
  Nat.le_antisymm (nearestRank_mono pos pos' (Nat.le_of_eq same)) (nearestRank_mono pos' pos (Nat.le_of_eq same.symm))

theorem nearestRank_eq_iff (pos : 0 < den) : nearestRank num den = rank ↔ roundsTo rank num den = true := by
  constructor
  · rintro rfl
    exact roundsTo_nearestRank pos
  · intro rounds
    have nearest : roundsTo (nearestRank num den) num den = true := roundsTo_nearestRank pos
    exact Nat.le_antisymm (rank_le_of_roundsTo pos pos nearest rounds (Nat.le_refl _))
      (rank_le_of_roundsTo pos pos rounds nearest (Nat.le_refl _))

theorem roundsTo_exact (pos : 0 < den) : roundsTo rank (units rank * den) den = true := by
  have above := Nat.mul_lt_mul_of_pos_right (units_lt_succ rank) pos
  have below : units (rank - 1) * den ≤ units rank * den :=
    Nat.mul_le_mul_right _ (units_strictMono.monotone (Nat.sub_le rank 1))
  have strict : rank % 2 = 1 → units (rank - 1) * den < units rank * den := by
    intro odd
    exact Nat.mul_lt_mul_of_pos_right (units_strictMono (by omega)) pos
  rw [roundsTo_iff]
  simp only [Nat.add_mul]
  omega

theorem nearestRank_exact (pos : 0 < den) : nearestRank (units rank * den) den = rank :=
  (nearestRank_eq_iff pos).mpr (roundsTo_exact pos)

theorem nearestRank_zero (pos : 0 < den) : nearestRank 0 den = 0 := by
  have exact := @nearestRank_exact 0 den pos
  rwa [units_zero, Nat.zero_mul] at exact

theorem nearestRank_le_of_le (pos : 0 < den) (le : num ≤ units rank * den) : nearestRank num den ≤ rank := by
  have mono := nearestRank_mono pos pos (Nat.mul_le_mul_right den le)
  rwa [nearestRank_exact pos] at mono

theorem le_nearestRank_of_le (pos : 0 < den) (le : units rank * den ≤ num) : rank ≤ nearestRank num den := by
  have mono := nearestRank_mono pos pos (Nat.mul_le_mul_right den le)
  rwa [nearestRank_exact pos] at mono

/-! ### Decimals -/

/-- The rank nearest to `digits * 10 ^ exponent`. -/
def decimalRank (digits : Nat) (exponent : Int) : Nat :=
  nearestRank (digits * 10 ^ exponent.toNat * unitsPerOne) (10 ^ (-exponent).toNat)

/-- Zeros at the end of the digits stand for powers of ten. -/
theorem decimalRank_mul_pow (digits zeros : Nat) (exponent : Int) :
    decimalRank (digits * 10 ^ zeros) (exponent - zeros) = decimalRank digits exponent := by
  refine nearestRank_congr (Nat.pow_pos (by decide)) (Nat.pow_pos (by decide)) ?_
  have powers : 10 ^ zeros * 10 ^ (exponent - zeros).toNat * 10 ^ (-exponent).toNat =
      10 ^ exponent.toNat * 10 ^ (-(exponent - zeros)).toNat := by
    rw [← Nat.pow_add, ← Nat.pow_add, ← Nat.pow_add]
    congr 1
    omega
  calc digits * 10 ^ zeros * 10 ^ (exponent - zeros).toNat * unitsPerOne * 10 ^ (-exponent).toNat
      = digits * (10 ^ zeros * 10 ^ (exponent - zeros).toNat * 10 ^ (-exponent).toNat) * unitsPerOne := by
        simp only [Nat.mul_assoc, Nat.mul_left_comm, Nat.mul_comm]
    _ = digits * 10 ^ exponent.toNat * unitsPerOne * 10 ^ (-(exponent - zeros)).toNat := by
        rw [powers]
        simp only [Nat.mul_assoc, Nat.mul_left_comm, Nat.mul_comm]

theorem le_units_decimalRank_succ (digits : Nat) (exponent : Int) :
    digits * 10 ^ exponent.toNat * unitsPerOne ≤ units (decimalRank digits exponent + 1) * 10 ^ (-exponent).toNat := by
  have pos : 0 < 10 ^ (-exponent).toNat := Nat.pow_pos (by decide)
  obtain ⟨-, high, -⟩ := roundsTo_iff.mp (@roundsTo_nearestRank (digits * 10 ^ exponent.toNat * unitsPerOne) _ pos)
  have next := Nat.le_of_lt (units_lt_succ (decimalRank digits exponent))
  have scaled := Nat.mul_le_mul_right (10 ^ (-exponent).toNat) next
  rw [Nat.add_mul] at high
  refine Nat.le_of_mul_le_mul_left (Nat.le_trans high ?_) Nat.two_pos
  rw [Nat.two_mul]
  exact Nat.add_le_add_right scaled _

theorem two_pow_le_ten_pow (k : Nat) : 2 ^ (3 * k) ≤ 10 ^ k := by
  rw [Nat.pow_mul]
  exact Nat.pow_le_pow_left (by decide) k

theorem decimalRank_of_great {digits : Nat} {exponent : Int} (pos : digits ≠ 0) (great : 400 < exponent) :
    rankCount ≤ decimalRank digits exponent := by
  have down : (-exponent).toNat = 0 := by omega
  rw [decimalRank, down, Nat.pow_zero]
  refine le_nearestRank_of_le Nat.one_pos ?_
  have last : units (2046 * binade + binade) = binade * 2 ^ 2046 :=
    units_shifted (.inl (Nat.le_refl binade)) (by decide)
  calc units rankCount * 1 = 2 ^ (52 + 2046) := by
        rw [show rankCount = 2046 * binade + binade by decide, last, Nat.mul_one, show binade = 2 ^ 52 from rfl,
          Nat.pow_add 2 52 2046]
    _ ≤ 2 ^ (3 * exponent.toNat + 1074) := Nat.pow_le_pow_right (by decide) (by omega)
    _ = 2 ^ (3 * exponent.toNat) * unitsPerOne := by rw [Nat.pow_add 2 _ 1074, unitsPerOne_eq]
    _ ≤ 10 ^ exponent.toNat * unitsPerOne := Nat.mul_le_mul_right _ (two_pow_le_ten_pow _)
    _ ≤ digits * 10 ^ exponent.toNat * unitsPerOne :=
      Nat.mul_le_mul_right _ (Nat.le_mul_of_pos_left _ (Nat.pos_of_ne_zero pos))

theorem decimalRank_of_tiny {digits : Nat} {exponent : Int} (tiny : exponent < -(400 + digits.log2 : Int)) :
    decimalRank digits exponent = 0 := by
  have up : exponent.toNat = 0 := by omega
  rw [decimalRank, up, nearestRank_eq_iff (Nat.pow_pos (by decide)), roundsTo_iff]
  have small : 2 * (digits * 10 ^ 0 * unitsPerOne) ≤ 10 ^ (-exponent).toNat := by
    calc 2 * (digits * 10 ^ 0 * unitsPerOne) = digits * 2 * unitsPerOne := by
          rw [Nat.pow_zero, Nat.mul_one, Nat.mul_left_comm, Nat.mul_assoc]
      _ ≤ 2 ^ (digits.log2 + 1) * 2 * 2 ^ 1074 := by
          rw [unitsPerOne_eq]
          exact Nat.mul_le_mul_right _ (Nat.mul_le_mul_right _ (Nat.le_of_lt Nat.lt_log2_self))
      _ ≤ 2 ^ (3 * (-exponent).toNat) := by
          rw [← Nat.pow_succ, ← Nat.pow_add 2 _ 1074]
          exact Nat.pow_le_pow_right (by decide) (by omega)
      _ ≤ 10 ^ (-exponent).toNat := two_pow_le_ten_pow _
  have one : units (0 + 1) = 1 := units_of_lt (by decide)
  rw [one, units_zero]
  omega

/-- The limits on exponents save work and change nothing. -/
theorem ofDecimal_eq (negative : Bool) (digits : Nat) (exponent : Int) :
    ofDecimal negative digits exponent = ofRank negative (decimalRank digits exponent) := by
  unfold ofDecimal
  split
  · rename_i none
    rw [none, decimalRank, Nat.zero_mul, Nat.zero_mul, nearestRank_zero (Nat.pow_pos (by decide))]
    rfl
  · rename_i some
    split
    · rename_i great
      have beyond := Nat.not_lt.mpr (decimalRank_of_great some great)
      rw [ofRank, dif_neg beyond]
    · split
      · rename_i tiny
        rw [decimalRank_of_tiny tiny]
        rfl
      · rfl

end Conform.Binary64
