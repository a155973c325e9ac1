import Conform.Proofs.Rounding
import Mathlib.Data.Nat.Dist

/-!
# Nearest numbers

Rounding is told by distances: no magnitude lies nearer to the quotient than the one that `nearestRank` finds, and of
two that lie equally near it is the one of even rank (`isNearest_iff`). Ranks go on beyond those of finite numbers, so a
quotient that is too great has no nearest finite number (`nearest_iff`).
-/

namespace Conform.Binary64

/-- No magnitude lies nearer to a quotient of units, and the rank is even if another lies equally near. -/
def IsNearest (rank num den : Nat) : Prop :=
  ∀ other, other ≠ rank →
    Nat.dist (units rank * den) num < Nat.dist (units other * den) num ∨
    Nat.dist (units rank * den) num = Nat.dist (units other * den) num ∧ rank % 2 = 0

/-- A finite number is the nearest one to a quotient, taken with a sign. -/
def Nearest (negative : Bool) (num den : Nat) (x : Binary64) : Prop :=
  ∃ rank : Fin rankCount, x = .finite negative rank ∧ IsNearest rank (num * unitsPerOne) den

variable {rank num den : Nat} {negative : Bool} {x : Binary64}

theorem isNearest_nearestRank (pos : 0 < den) : IsNearest (nearestRank num den) num den := by
  obtain ⟨low, high, strict⟩ := roundsTo_iff.mp (@roundsTo_nearestRank num den pos)
  generalize nearestRank num den = rank at low high strict
  rw [Nat.add_mul] at low high strict
  rw [Nat.add_mul] at strict
  have above := Nat.mul_lt_mul_of_pos_right (units_lt_succ rank) pos
  intro other differs
  unfold Nat.dist
  rcases Nat.lt_or_gt_of_ne differs with less | more
  · have below : units (rank - 1) * den < units rank * den :=
      Nat.mul_lt_mul_of_pos_right (units_strictMono (by omega)) pos
    have lower : units other * den ≤ units (rank - 1) * den :=
      Nat.mul_le_mul_right den (units_strictMono.monotone (by omega))
    omega
  · have upper : units (rank + 1) * den ≤ units other * den :=
      Nat.mul_le_mul_right den (units_strictMono.monotone more)
    omega

/-- Two ranks that are nearest would be equally near and even, and so have a nearer one between them. -/
theorem IsNearest.unique {first last : Nat} (pos : 0 < den) (nearest : IsNearest first num den)
    (nearest' : IsNearest last num den) : first = last := by
  have apart : ∀ {low high : Nat}, IsNearest low num den → IsNearest high num den → ¬ low < high := by
    intro low high nearest nearest' less
    have down := nearest high (by omega)
    have up := nearest' low (by omega)
    have between := nearest (low + 1) (by omega)
    have left := Nat.mul_lt_mul_of_pos_right (units_lt_succ low) pos
    have right : units (low + 1) * den < units high * den :=
      Nat.mul_lt_mul_of_pos_right (units_strictMono (by omega)) pos
    unfold Nat.dist at down up between
    omega
  exact Nat.le_antisymm (Nat.le_of_not_lt (apart nearest' nearest)) (Nat.le_of_not_lt (apart nearest nearest'))

theorem isNearest_iff (pos : 0 < den) : IsNearest rank num den ↔ nearestRank num den = rank := by
  constructor
  · intro nearest
    exact (isNearest_nearestRank pos).unique pos nearest
  · rintro rfl
    exact isNearest_nearestRank pos

/-- Rounding finds the nearest number if it is finite. -/
theorem nearest_iff (pos : 0 < den) :
    Nearest negative num den x ↔ ofRatio negative num den = x ∧ x.isFinite = true := by
  unfold Nearest ofRatio
  constructor
  · rintro ⟨⟨rank, low⟩, rfl, nearest⟩
    rw [(isNearest_iff pos).mp nearest]
    exact ⟨ofRank_of_lt low, rfl⟩
  · rintro ⟨rfl, finite⟩
    by_cases low : nearestRank (num * unitsPerOne) den < rankCount
    · exact ⟨⟨_, low⟩, ofRank_of_lt low, isNearest_nearestRank pos⟩
    · rw [ofRank, dif_neg low] at finite
      cases finite

end Conform.Binary64
