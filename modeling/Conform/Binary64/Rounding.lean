import Conform.Binary64.Basic

/-!
# Rounding to nearest

`nearestRank` takes the exact quotient of two natural numbers to the rank whose magnitude is nearest, of
two equally near to the even one. Beyond the last rank lies infinity, so overflow needs no rule of its own.
-/

namespace Conform.Binary64

/-- The greatest rank whose magnitude is at most `q` units. -/
def floorRank (q : Nat) : Nat :=
  let shift := q.log2 - 52
  shift * binade + q >>> shift

/-- The rank nearest to `num / den` units, of two equally near the even one. -/
def nearestRank (num den : Nat) : Nat :=
  let below := floorRank (num / den)
  let middle := (units below + units (below + 1)) * den
  if 2 * num < middle ∨ (2 * num = middle ∧ below % 2 = 0) then below else below + 1

def ofRatio (negative : Bool) (num den : Nat) : Binary64 :=
  ofRank negative (nearestRank (num * unitsPerOne) den)

def ofInt (n : Int) : Binary64 := ofRatio (decide (n < 0)) n.natAbs 1

def ofNat (n : Nat) : Binary64 := ofRatio false n 1

/-- The number nearest to `digits * 10 ^ exponent`, with a sign. Exponents so far out that the answer is
infinite or zero whatever the digits are settled at once. -/
def ofDecimal (negative : Bool) (digits : Nat) (exponent : Int) : Binary64 :=
  if digits = 0 then zero negative
  else if 400 < exponent then .infinite negative
  else if exponent < -(400 + digits.log2 : Int) then zero negative
  else ofRatio negative (digits * Nat.pow 10 exponent.toNat) (Nat.pow 10 (-exponent).toNat)

end Conform.Binary64
