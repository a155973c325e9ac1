/-!
# Digits

Runs of decimal digits at the start of a text, and whole numbers written in a base up to sixteen.
Decimal digits of a number are `Nat.toDigits 10`, and `Nat.ofDigitChars 10` reads them.
-/

namespace Conform.Text

def leadingDigits (t : List Char) : List Char := t.takeWhile Char.isDigit

def afterDigits (t : List Char) : List Char := t.dropWhile Char.isDigit

theorem leadingDigits_append_afterDigits (t : List Char) : leadingDigits t ++ afterDigits t = t :=
  List.takeWhile_append_dropWhile

def decimal (digits : List Char) : Nat := Nat.ofDigitChars 10 digits 0

/-- The value of a digit, letters of either case counting from ten. -/
def digitValue? (c : Char) : Option Nat :=
  if c.isDigit then some (c.toNat - '0'.toNat)
  else if 'a' ≤ c ∧ c ≤ 'z' then some (c.toNat - 'a'.toNat + 10)
  else if 'A' ≤ c ∧ c ≤ 'Z' then some (c.toNat - 'A'.toNat + 10)
  else none

def pushDigit? (base n : Nat) (c : Char) : Option Nat :=
  match digitValue? c with
  | some d => if d < base then some (n * base + d) else none
  | none => none

/-- The number that a text of one or more digits of the base writes. -/
def natInBase? (base : Nat) (t : List Char) : Option Nat :=
  if t.isEmpty then none else t.foldlM (pushDigit? base) 0

/-- The decimal digits of a number, with zeros in front up to a width. -/
def padded (width n : Nat) : List Char :=
  let digits := Nat.toDigits 10 n
  List.replicate (width - digits.length) '0' ++ digits

end Conform.Text
