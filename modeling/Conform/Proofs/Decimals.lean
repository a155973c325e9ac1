import Conform.Binary64.Style
import Conform.Json.Numeral
import Conform.Proofs.Rounding

/-!
# Decimals that read back

The shortest decimal of a rank rounds to it (`decimalRank_shortest`), on whichever grid the search ends.
-/

namespace Conform.Binary64

/-- A point of a grid that is found rounds to the rank that it was looked for. -/
theorem decimalRank_onGrid {tie : Tie} {rank digits : Nat} {exponent : Int}
    (found : onGrid? tie rank exponent = some digits) : decimalRank digits exponent = rank := by
  obtain ⟨up, sameUp⟩ : ∃ up, up = Nat.pow 10 exponent.toNat := ⟨_, rfl⟩
  obtain ⟨down, sameDown⟩ : ∃ down, down = Nat.pow 10 (-exponent).toNat := ⟨_, rfl⟩
  have pos : 0 < down := sameDown ▸ Nat.pow_pos (by decide)
  have hit : ∀ candidate, roundsTo rank (candidate * (unitsPerOne * up)) down →
      decimalRank candidate exponent = rank := by
    intro candidate rounds
    rw [Nat.mul_comm unitsPerOne, ← Nat.mul_assoc, sameUp, sameDown] at rounds
    exact (nearestRank_eq_iff (Nat.pow_pos (by decide))).mpr rounds
  have exact : units rank * down % (unitsPerOne * up) = 0 → roundsTo rank
      (units rank * down / (unitsPerOne * up) * (unitsPerOne * up)) down := by
    intro divides
    rw [Nat.div_mul_cancel (Nat.dvd_of_mod_eq_zero divides)]
    exact roundsTo_exact pos
  rw [onGrid?, powerOfTen, ← sameUp, ← sameDown] at found
  dsimp only at found
  clear sameUp sameDown pos
  generalize unitsPerOne * up = step at found hit exact
  generalize units rank * down / step = low at found exact
  generalize units rank * down % step = rest at found exact
  grind

/-- Every magnitude is a decimal of as many places as it has binary ones. -/
theorem decimalRank_exact (rank places : Nat) (same : unitsPerOne = 1 <<< places) :
    decimalRank (units rank * Nat.pow 5 places) (-places) = rank := by
  have up : (-(places : Int)).toNat = 0 := by omega
  have down : (-(-(places : Int))).toNat = places := by omega
  rw [decimalRank, up, down, same, Nat.pow_zero, Nat.mul_one, Nat.one_shiftLeft, Nat.mul_assoc, Nat.pow_eq,
    ← Nat.mul_pow]
  exact nearestRank_exact (Nat.pow_pos (by decide))

theorem decimalRank_searchGrids (tie : Tie) (rank : Nat) (exponent : Int) (steps : Nat) :
    decimalRank (searchGrids tie rank exponent steps).digits (searchGrids tie rank exponent steps).exponent = rank := by
  induction steps generalizing exponent with
  | zero =>
    simp only [searchGrids]
    exact decimalRank_exact rank 1074 (by rw [unitsPerOne])
  | succ steps ih =>
    unfold searchGrids
    split
    · exact decimalRank_onGrid ‹_›
    · exact ih _

theorem decimalRank_shortest (tie : Tie) (rank : Nat) :
    decimalRank (shortest tie rank).digits (shortest tie rank).exponent = rank := by
  unfold shortest
  split
  · rename_i none
    rw [none, decimalRank, Nat.zero_mul, Nat.zero_mul, nearestRank_zero (Nat.pow_pos (by decide))]
  · exact decimalRank_searchGrids _ _ _ _

theorem digits_shortest_ne (tie : Tie) {rank : Nat} (pos : rank ≠ 0) : (shortest tie rank).digits ≠ 0 := by
  intro none
  have rounds := decimalRank_shortest tie rank
  rw [none, decimalRank, Nat.zero_mul, Nat.zero_mul, nearestRank_zero (Nat.pow_pos (by decide))] at rounds
  exact pos rounds.symm

end Conform.Binary64
