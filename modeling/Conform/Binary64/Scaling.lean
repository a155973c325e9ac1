import Conform.Binary64.Rounding

/-!
# Scaling by powers of ten

`ofScaled` reads a decimal the quick way: it rounds the significand, rounds the power of ten, and rounds the
product or quotient of the two. Where the first two are exact the answer is the nearest number, as `ofDecimal`
gives it. Otherwise it may be a neighbour of that, or overflow a little early. No power above `maxPower` is
a finite number, so a smaller scale takes two divisions, and a still smaller one has no positive answer.
-/

namespace Conform.Binary64

def maxPower : Nat := 308

def rankOfNat (n : Nat) : Nat := nearestRank (n * unitsPerOne) 1

def productRank (a b : Nat) : Nat := nearestRank (units a * units b) unitsPerOne

def quotientRank (a b : Nat) : Nat := nearestRank (units a * unitsPerOne) (units b)

def multiplyByPower (rank power : Nat) : Nat := productRank rank (rankOfNat (Nat.pow 10 power))

def divideByPower (rank power : Nat) : Nat := quotientRank rank (rankOfNat (Nat.pow 10 power))

/-- The rank of a positive significand below `2 ^ 64`, multiplied by a power of ten or divided by one or two. -/
def scaledRank (significand : Nat) (exponent : Int) : Nat :=
  let start := rankOfNat significand
  let down := (-exponent).toNat
  if maxPower < exponent then rankCount
  else if 0 ≤ exponent then multiplyByPower start exponent.toNat
  else if down ≤ maxPower then divideByPower start down
  else if down ≤ 2 * maxPower then divideByPower (divideByPower start maxPower) (down - maxPower)
  else 0

/-- The number `significand * 10 ^ exponent` with a sign, by rounded steps. -/
def ofScaled (negative : Bool) (significand : Nat) (exponent : Int) : Binary64 :=
  if significand = 0 then zero negative else ofRank negative (scaledRank significand exponent)

end Conform.Binary64
