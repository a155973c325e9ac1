import Conform.Binary64.Scaling
import Conform.Text.Digits

/-!
# Numerals

A number as a document writes it. `nearest` gives the number nearest to it. `scaled` keeps the digits that
fit a word, counts the others as zeros, and scales by a power of ten in rounded steps.
-/

namespace Conform.Json

open Conform.Text

/-- A number as it is written: its digits, those after the point apart, and the power of ten. -/
structure Numeral where
  negative : Bool
  whole : List Char
  fraction : List Char
  power : Int
deriving DecidableEq

namespace Numeral

def nearest (n : Numeral) : Binary64 :=
  Binary64.ofDecimal n.negative (decimal (n.whole ++ n.fraction)) (n.power - n.fraction.length)

def pushDigit (significand : Nat) (c : Char) : Nat := Nat.ofDigitChars 10 [c] significand

/-- A significand with the digits after it that leave it below `2 ^ 64`, and how many digits are left over. -/
def extend (significand : Nat) : List Char → Nat × Nat
  | [] => (significand, 0)
  | c :: digits =>
    let longer := pushDigit significand c
    if longer < 1 <<< 64 then extend longer digits else (significand, digits.length + 1)

def scaled (n : Numeral) : Binary64 :=
  let (significand, skipped) := extend 0 n.whole
  let (significand, dropped) := extend significand n.fraction
  let fractionKept : Int := n.fraction.length - dropped
  Binary64.ofScaled n.negative significand (n.power + skipped - fractionKept)

end Numeral

end Conform.Json
