import Conform.Instant
import Conform.Text.Digits

/-!
# Instants as text

Date, `T`, time and a name for the zone. The fraction has as few digits as are exact out of none, three, six
and nine. A year outside 0 to 9999 bears a sign.
-/

namespace Conform.Instant

open Conform.Text

def yearText (year : Int) : List Char :=
  if year < 0 then '-' :: padded 4 year.natAbs
  else if 9999 < year then '+' :: padded 4 year.natAbs
  else padded 4 year.natAbs

def fractionText (nanos : Nat) : List Char :=
  if nanos = 0 then []
  else if nanos % 1000000 = 0 then '.' :: padded 3 (nanos / 1000000)
  else if nanos % 1000 = 0 then '.' :: padded 6 (nanos / 1000)
  else '.' :: padded 9 nanos

def Fields.text (f : Fields) : List Char :=
  yearText f.date.year ++ '-' :: padded 2 f.date.month ++ '-' :: padded 2 f.date.day ++
    'T' :: padded 2 f.hour ++ ':' :: padded 2 f.minute ++ ':' :: padded 2 f.second ++ fractionText f.nanos

def text (d : Instant) : List Char := d.fields.text ++ ['+', '0', '0', ':', '0', '0']

def textZ (d : Instant) : List Char := d.fields.text ++ ['Z']

end Conform.Instant
