import Conform.Binary64.Rounding
import Conform.Text.Digits

/-!
# Numbers from text

A decimal literal is digits with an optional point, at least one digit in all, and an optional power of ten.
A number is an optional sign before a literal or before one of the words for what is not finite. Literals
take the nearest number.
-/

namespace Conform.Binary64

open Conform.Text

/-- A decimal literal without a sign: `digits * 10 ^ exponent`. -/
structure Literal where
  digits : Nat
  exponent : Int
deriving DecidableEq

/-- A sign at the start of a text, and what follows. -/
def takeSign : List Char → Bool × List Char
  | '-' :: t => (true, t)
  | '+' :: t => (false, t)
  | t => (false, t)

/-- The power of ten that ends a literal, nothing standing for none. -/
def exponent? : List Char → Option Int
  | [] => some 0
  | c :: t =>
    if c = 'e' ∨ c = 'E' then
      let (negative, digits) := takeSign t
      if digits.isEmpty ∨ !digits.all Char.isDigit then none
      else some (if negative then -(decimal digits : Int) else decimal digits)
    else none

/-- The fraction digits after an optional point, and what follows them. -/
def takeFraction : List Char → List Char × List Char
  | '.' :: t => (leadingDigits t, afterDigits t)
  | t => ([], t)

def Literal.ofText? (t : List Char) : Option Literal :=
  let whole := leadingDigits t
  let (fraction, rest) := takeFraction (afterDigits t)
  if whole.isEmpty && fraction.isEmpty then none
  else (exponent? rest).map fun e => ⟨decimal (whole ++ fraction), e - fraction.length⟩

def ofLiteral (negative : Bool) (l : Literal) : Binary64 := ofDecimal negative l.digits l.exponent

/-- The number that a text is. The words are read in either case. -/
def ofText? (t : List Char) : Option Binary64 :=
  let (negative, t) := takeSign t
  let word := String.ofList (t.map Char.toLower)
  if word = "inf" ∨ word = "infinity" then some (.infinite negative)
  else if word = "nan" then some .nan
  else (Literal.ofText? t).map (ofLiteral negative)

end Conform.Binary64
