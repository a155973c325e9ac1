/-!
# The calendar

Days of the Gregorian calendar, carried on without end in both directions, and their count from the first of
January 1970. The year zero precedes the year one.
-/

namespace Conform.Calendar

structure Date where
  year : Int
  month : Nat
  day : Nat
deriving DecidableEq

def isLeapYear (year : Int) : Bool := year % 4 == 0 && (year % 100 != 0 || year % 400 == 0)

def monthLengths (leapYear : Bool) : List Nat :=
  [31, if leapYear then 29 else 28, 31, 30, 31, 30, 31, 31, 30, 31, 30, 31]

/-- The days in a month, none if the year has no such month. -/
def daysInMonth (year : Int) (month : Nat) : Nat :=
  if month = 0 then 0 else (monthLengths (isLeapYear year)).getD (month - 1) 0

def Date.Exists (d : Date) : Prop := 1 ≤ d.day ∧ d.day ≤ daysInMonth d.year d.month

instance (d : Date) : Decidable d.Exists := inferInstanceAs (Decidable (_ ∧ _))

/-- The days from the first of January of the year one to that of `year`. -/
def daysBeforeYear (year : Int) : Int :=
  let past := year - 1
  365 * past + past / 4 - past / 100 + past / 400

def daysBeforeMonth (year : Int) (month : Nat) : Nat :=
  ((monthLengths (isLeapYear year)).take (month - 1)).foldl (· + ·) 0

/-- The days from the first of January of the year one to that of 1970. -/
def epoch : Int := daysBeforeYear 1970

def Date.toDays (d : Date) : Int :=
  daysBeforeYear d.year + daysBeforeMonth d.year d.month + (d.day - 1) - epoch

/-- The month and day that follow a count of days, the months from `month` on having these lengths. -/
def monthAndDay (month days : Nat) : List Nat → Nat × Nat
  | [] => (month, days + 1)
  | length :: lengths =>
    if days < length then (month, days + 1) else monthAndDay (month + 1) (days - length) lengths

/-- The date a count of days after the first of January 1970. A cycle of four centuries has 146097 days,
each of its first three centuries 36524, and four years 1461 save the last of a century. -/
def Date.ofDays (days : Int) : Date :=
  let days := days + epoch
  let cycle := days / 146097
  let inCycle := (days % 146097).toNat
  let century := min 3 (inCycle / 36524)
  let inCentury := inCycle - 36524 * century
  let four := inCentury / 1461
  let inFour := inCentury - 1461 * four
  let one := min 3 (inFour / 365)
  let year : Int := 400 * cycle + 100 * century + 4 * four + one + 1
  let (month, day) := monthAndDay 1 (inFour - 365 * one) (monthLengths (isLeapYear year))
  ⟨year, month, day⟩

end Conform.Calendar
