import Conform.Binary64.Basic

/-!
# Shortest decimals

`shortest` finds the decimal with the fewest digits that rounds back to a magnitude, and of those the
nearest. The numbers that round to a magnitude lie between the midpoints to its neighbours, midpoints
included when its rank is even. A grid of multiples of a power of ten meets that interval if and only if
one of the two grid points around the magnitude lies in it, so `onGrid?` looks at those two, and the search
walks from coarse grids to fine ones.
-/

namespace Conform.Binary64

structure Decimal where
  digits : Nat
  exponent : Int
deriving DecidableEq

inductive Tie where
  | up
  | even
deriving DecidableEq

def powerOfTen (exponent : Int) : Nat × Nat := (Nat.pow 10 exponent.toNat, Nat.pow 10 (-exponent).toNat)

def roundsTo (rank num den : Nat) : Bool :=
  let below := (units (rank - 1) + units rank) * den
  let above := (units rank + units (rank + 1)) * den
  if rank % 2 = 0 then decide (below ≤ 2 * num ∧ 2 * num ≤ above)
  else decide (below < 2 * num ∧ 2 * num < above)

/-- The multiple of `10 ^ exponent` that rounds to a positive rank and lies nearest to its magnitude. -/
def onGrid? (tie : Tie) (rank : Nat) (exponent : Int) : Option Nat :=
  let (up, down) := powerOfTen exponent
  let num := units rank * down
  let step := unitsPerOne * up
  let low := num / step
  let rest := num % step
  let hits := fun (candidate : Nat) => roundsTo rank (candidate * step) down
  if rest = 0 then some low
  else if hits low then
    if hits (low + 1) then
      if 2 * rest < step then some low
      else if step < 2 * rest then some (low + 1)
      else match tie with
        | .up => some (low + 1)
        | .even => some (if low % 2 = 0 then low else low + 1)
    else some low
  else if hits (low + 1) then some (low + 1)
  else none

/-- The first decimal on the grids from `10 ^ exponent` down. On the grid of `10 ^ -1074` every magnitude
lies exactly. -/
def searchGrids (tie : Tie) (rank : Nat) (exponent : Int) : Nat → Decimal
  | 0 => ⟨units rank * Nat.pow 5 1074, -1074⟩
  | steps + 1 =>
    match onGrid? tie rank exponent with
    | some digits => ⟨digits, exponent⟩
    | none => searchGrids tie rank (exponent - 1) steps

def coarsestGrid (rank : Nat) : Int := ((units rank).log2 + 2 - 1074 : Int) * 30103 / 100000 + 2

/-- The decimal with the fewest digits that rounds to a rank, the nearest one of those. -/
def shortest (tie : Tie) (rank : Nat) : Decimal :=
  if rank = 0 then ⟨0, 0⟩
  else
    let start := coarsestGrid rank
    searchGrids tie rank start (start + 1074).toNat

end Conform.Binary64
