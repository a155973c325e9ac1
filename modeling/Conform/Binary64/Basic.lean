/-!
# Binary floating point numbers of 64 bits

A finite magnitude is named by its rank, its place among all finite magnitudes in ascending order. `units`
gives its exact value as a multiple of the smallest positive one, `2 ^ -1074`, and is strictly monotone, so
rounding and printing are arithmetic on natural numbers. There is one value that is not a number.
-/

namespace Conform

abbrev Binary64.binade : Nat := 1 <<< 52

/-- The count of finite magnitudes. -/
abbrev Binary64.rankCount : Nat := 2047 * binade

inductive Binary64 where
  | nan
  | infinite (negative : Bool)
  | finite (negative : Bool) (rank : Fin Binary64.rankCount)
deriving DecidableEq

namespace Binary64

/-- The magnitude of a rank, in units of `2 ^ -1074`. -/
def units (rank : Nat) : Nat :=
  if rank < binade then rank else (binade + rank % binade) <<< (rank / binade - 1)

/-- One, in units of `2 ^ -1074`. -/
def unitsPerOne : Nat := 1 <<< 1074

def zero (negative : Bool) : Binary64 := .finite negative ⟨0, by decide⟩

/-- The number with a sign and a rank, infinite from `rankCount` on. -/
def ofRank (negative : Bool) (rank : Nat) : Binary64 :=
  if h : rank < rankCount then .finite negative ⟨rank, h⟩ else .infinite negative

def isFinite : Binary64 → Bool
  | finite _ _ => true
  | _ => false

def isZero : Binary64 → Bool
  | finite _ rank => rank.val == 0
  | _ => false

/-- Equality of numbers: the zeros are equal, and what is not a number equals nothing. -/
def equal : Binary64 → Binary64 → Bool
  | nan, _ => false
  | _, nan => false
  | x, y => (x.isZero && y.isZero) || decide (x = y)

def signed (negative : Bool) (magnitude : Nat) : Int := if negative then -magnitude else magnitude

def truncate? : Binary64 → Option Int
  | finite negative rank => some (signed negative (units rank / unitsPerOne))
  | _ => none

def integer? : Binary64 → Option Int
  | finite negative rank =>
    if units rank % unitsPerOne = 0 then some (signed negative (units rank / unitsPerOne)) else none
  | _ => none

def maxExactInteger : Nat := 2 * binade - 1

/-- The integer that a number is, if no other integer is near enough to be mistaken for it. -/
def exactInteger? (x : Binary64) : Option Int :=
  match x.integer? with
  | some n => if n.natAbs ≤ maxExactInteger then some n else none
  | none => none

def signBit : Nat := 1 <<< 63

/-- The interchange format: a sign bit above the rank. -/
def toBits : Binary64 → Nat
  | nan => rankCount + binade / 2
  | infinite negative => rankCount + if negative then signBit else 0
  | finite negative rank => rank.val + if negative then signBit else 0

def ofBits (word : Nat) : Binary64 :=
  let magnitude := word % signBit
  let negative := decide (signBit ≤ word)
  if magnitude ≤ rankCount then ofRank negative magnitude else nan

theorem equal_self {x : Binary64} (h : x ≠ nan) : x.equal x = true := by
  cases x <;> simp_all [equal]

theorem ofRank_of_lt {negative : Bool} {rank : Nat} (h : rank < rankCount) :
    ofRank negative rank = .finite negative ⟨rank, h⟩ := by simp [ofRank, h]

end Binary64

end Conform
