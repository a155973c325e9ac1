import Conform.Binary64.Shortest
import Conform.Text.Digits

/-!
# Layout of decimals

A style says how the shortest decimal of a number is laid out: with the point in its place, or as one
digit, a fraction and a power of ten.
-/

namespace Conform.Binary64

structure Style where
  tie : Tie
  /-- Whether the point stays in its place, by the count of digits in front of it. -/
  positional : Int → Bool
  wholePoint : Bool

def Decimal.positional (d : Decimal) (wholePoint : Bool) : List Char :=
  let digits := Nat.toDigits 10 d.digits
  let point : Int := digits.length + d.exponent
  if 0 ≤ d.exponent then
    digits ++ List.replicate d.exponent.toNat '0' ++ if wholePoint then ['.', '0'] else []
  else if 0 < point then digits.take point.toNat ++ '.' :: digits.drop point.toNat
  else '0' :: '.' :: List.replicate (-point).toNat '0' ++ digits

/-- One digit of a decimal, the others as a fraction, and the power of ten. -/
def Decimal.scientific (d : Decimal) : List Char :=
  let digits := Nat.toDigits 10 d.digits
  let power : Int := digits.length + d.exponent - 1
  let fraction := digits.drop 1
  digits.take 1 ++ (if fraction.isEmpty then [] else '.' :: fraction) ++
    'e' :: (if power < 0 then ['-'] else []) ++ Nat.toDigits 10 power.natAbs

def Style.layout (style : Style) (d : Decimal) : List Char :=
  if style.positional ((Nat.toDigits 10 d.digits).length + d.exponent) then d.positional style.wholePoint
  else d.scientific

def Style.write (style : Style) (negative : Bool) (rank : Nat) : List Char :=
  (if negative then ['-'] else []) ++ style.layout (shortest style.tie rank)

end Conform.Binary64
