import Conform.Json.Numeral
import Conform.Proofs.Scaling

/-!
# Numerals as numbers

The quick way to take a numeral drops the digits that do not fit a word. It takes a numeral of few digits and a power
near zero to the nearest number (`scaled_eq_nearest`), and one that is not too great to a finite number
(`isFinite_scaled`).
-/

namespace Conform.Json.Numeral

open Conform.Text Conform.Binary64

/-- What is kept of some digits after a significand: all of them if they fit, and no more than they say otherwise. -/
structure Kept (significand : Nat) (digits : List Char) (kept : Nat × Nat) : Prop where
  grows : significand ≤ kept.1
  fits : significand < 1 <<< 64 → kept.1 < 1 <<< 64
  low : kept.1 * 10 ^ kept.2 ≤ Nat.ofDigitChars 10 digits significand
  short : kept.2 ≤ digits.length
  exact : Nat.ofDigitChars 10 digits significand < 1 <<< 64 → kept = (Nat.ofDigitChars 10 digits significand, 0)

theorem ofDigitChars_ge (digits : List Char) (significand : Nat) :
    significand * 10 ^ digits.length ≤ Nat.ofDigitChars 10 digits significand := by
  rw [Nat.ofDigitChars_eq_ofDigitChars_zero, Nat.mul_comm]
  exact Nat.le_add_right _ _

theorem le_ofDigitChars (digits : List Char) (significand : Nat) :
    significand ≤ Nat.ofDigitChars 10 digits significand :=
  Nat.le_trans (Nat.le_mul_of_pos_right _ (Nat.pow_pos (by decide))) (ofDigitChars_ge digits significand)

theorem extend_kept (digits : List Char) (significand : Nat) : Kept significand digits (extend significand digits) := by
  induction digits generalizing significand with
  | nil => exact ⟨Nat.le_refl _, id, by simp [extend], Nat.le_refl _, fun _ => rfl⟩
  | cons c digits ih =>
    have all : Nat.ofDigitChars 10 (c :: digits) significand = Nat.ofDigitChars 10 digits (pushDigit significand c) :=
      Nat.ofDigitChars_append (l := [c]) significand
    have longer : significand ≤ pushDigit significand c := le_ofDigitChars [c] significand
    by_cases inside : pushDigit significand c < 1 <<< 64
    · obtain ⟨grows, fits, low, short, exact⟩ := ih (pushDigit significand c)
      simp only [extend, inside, if_true]
      refine ⟨Nat.le_trans longer grows, fun _ => fits inside, all ▸ low, Nat.le_succ_of_le short, all ▸ exact⟩
    · simp only [extend, inside, if_false]
      refine ⟨Nat.le_refl _, id, ofDigitChars_ge (c :: digits) significand, Nat.le_refl _, fun small => ?_⟩
      have more := le_ofDigitChars digits (pushDigit significand c)
      omega

/-- What the quick way takes from a numeral whose digits before the point fit a word. -/
theorem scaled_cases (n : Numeral) (whole : decimal n.whole < 1 <<< 64) :
    ∃ significand dropped, Kept (decimal n.whole) n.fraction (significand, dropped) ∧
      n.scaled = ofScaled n.negative significand (n.power - n.fraction.length + dropped) := by
  have first := (extend_kept n.whole 0).exact whole
  refine ⟨(extend (decimal n.whole) n.fraction).1, (extend (decimal n.whole) n.fraction).2, extend_kept _ _, ?_⟩
  rw [scaled, first]
  dsimp only
  congr 1
  simp only [decimal]
  omega

theorem decimal_append (whole fraction : List Char) :
    decimal (whole ++ fraction) = Nat.ofDigitChars 10 fraction (decimal whole) := Nat.ofDigitChars_append 0

/-- The digits fit 53 binary ones and the power of the last one is near zero. -/
def Short (n : Numeral) : Prop :=
  decimal (n.whole ++ n.fraction) < 2 * binade ∧ (n.power - n.fraction.length).natAbs ≤ 22

instance : DecidablePred Short := fun _ => inferInstanceAs (Decidable (_ ∧ _))

/-- The quick way is exact for short numerals. -/
theorem scaled_eq_nearest {n : Numeral} (short : n.Short) : n.scaled = n.nearest := by
  obtain ⟨few, near⟩ := short
  have grows := le_ofDigitChars n.fraction (decimal n.whole)
  rw [← decimal_append] at grows
  obtain ⟨significand, dropped, kept, same⟩ := scaled_cases n (by simp only [binade] at few; omega)
  have exact := kept.exact (by rw [← decimal_append]; simp only [binade] at few; omega)
  rw [← decimal_append, Prod.mk.injEq] at exact
  obtain ⟨rfl, rfl⟩ := exact
  rw [same, nearest, Int.ofNat_zero, Int.add_zero]
  exact ofScaled_eq_ofDecimal _ few near

/-- What rounds to none of the last ranks is finite the quick way too. -/
theorem isFinite_scaled (n : Numeral) (whole : decimal n.whole < 1 <<< 64)
    (low : decimalRank (decimal (n.whole ++ n.fraction)) (n.power - n.fraction.length) < rankCount - 1 - 2) :
    n.scaled.isFinite = true := by
  obtain ⟨significand, dropped, kept, same⟩ := scaled_cases n whole
  have below := kept.low
  rw [← decimal_append] at below
  generalize decimal (n.whole ++ n.fraction) = digits at low below
  generalize n.power - n.fraction.length = exponent at low same
  have room : 0 ≤ exponent + dropped →
      significand * 10 ^ (exponent + dropped).toNat * unitsPerOne ≤ units (rankCount - 1 - 2) := by
    intro scaled
    have powers : 10 ^ (exponent + dropped).toNat * 10 ^ (-exponent).toNat = 10 ^ dropped * 10 ^ exponent.toNat := by
      rw [← Nat.pow_add, ← Nat.pow_add]
      congr 1
      omega
    refine Nat.le_of_mul_le_mul_right ?_ (show 0 < 10 ^ (-exponent).toNat from Nat.pow_pos (by decide))
    calc significand * 10 ^ (exponent + dropped).toNat * unitsPerOne * 10 ^ (-exponent).toNat
        = significand * (10 ^ (exponent + dropped).toNat * 10 ^ (-exponent).toNat) * unitsPerOne := by
          simp only [Nat.mul_assoc, Nat.mul_left_comm, Nat.mul_comm]
      _ = significand * 10 ^ dropped * 10 ^ exponent.toNat * unitsPerOne := by rw [powers, ← Nat.mul_assoc]
      _ ≤ digits * 10 ^ exponent.toNat * unitsPerOne := Nat.mul_le_mul_right _ (Nat.mul_le_mul_right _ below)
      _ ≤ units (decimalRank digits exponent + 1) * 10 ^ (-exponent).toNat := le_units_decimalRank_succ digits exponent
      _ ≤ units (rankCount - 1 - 2) * 10 ^ (-exponent).toNat :=
          Nat.mul_le_mul_right _ (units_strictMono.monotone low)
  rw [same, ofScaled]
  split
  · rfl
  · rename_i some
    exact isFinite_ofRank (scaledRank_lt (Nat.pos_of_ne_zero some) (kept.fits whole) room)

end Conform.Json.Numeral
