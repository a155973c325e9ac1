import Conform.Calendar

/-!
# Instants

An instant is a count of seconds since the first of January 1970, a fraction in nanoseconds, and a mark for
leap seconds. A leap second carries the count of the second before it, so it stays distinct from the second
after it. Its milliseconds since the epoch are those of the second after it. Any second may have a leap second
after it, though texts name only those at the end of a minute.
-/

namespace Conform

def Instant.firstYear : Int := -262143

def Instant.lastYear : Int := 262142

def Instant.secondsBeforeYear (year : Int) : Int :=
  (Calendar.daysBeforeYear year - Calendar.epoch) * 86400

def Instant.InReach (seconds : Int) : Prop :=
  Instant.secondsBeforeYear Instant.firstYear ≤ seconds ∧
    seconds < Instant.secondsBeforeYear (Instant.lastYear + 1)

instance (seconds : Int) : Decidable (Instant.InReach seconds) := inferInstanceAs (Decidable (_ ∧ _))

theorem Instant.inReach_iff_bounds {seconds : Int} :
    Instant.InReach seconds ↔ -8334601228800 ≤ seconds ∧ seconds < 8210266876800 := by
  have ends : Instant.secondsBeforeYear Instant.firstYear = -8334601228800 ∧
      Instant.secondsBeforeYear (Instant.lastYear + 1) = 8210266876800 := ⟨rfl, rfl⟩
  rw [Instant.InReach, ends.1, ends.2]

structure Instant where
  seconds : Int
  nanos : Nat
  /-- Whether the second is the leap second that follows `seconds`. -/
  leap : Bool
  nanos_lt : nanos < 1000000000
  inReach : Instant.InReach seconds
deriving DecidableEq

namespace Instant

def ofParts? (seconds : Int) (nanos : Nat) (leap : Bool) : Option Instant :=
  if h : nanos < 1000000000 ∧ InReach seconds then
    some ⟨seconds, nanos, leap, h.1, h.2⟩
  else none

def millis (d : Instant) : Int := (d.seconds + if d.leap then 1 else 0) * 1000 + (d.nanos / 1000000 : Nat)

def ofMillis? (millis : Int) : Option Instant :=
  ofParts? (millis / 1000) ((millis % 1000).toNat * 1000000) false

structure Fields where
  date : Calendar.Date
  hour : Nat
  minute : Nat
  second : Nat
  nanos : Nat
deriving DecidableEq

/-- The fields name a day of the calendar and a time of day. Any minute may have a second 60. -/
def Fields.Valid (f : Fields) : Prop :=
  f.date.Exists ∧ f.hour ≤ 23 ∧ f.minute ≤ 59 ∧ f.second ≤ 60

instance (f : Fields) : Decidable f.Valid := inferInstanceAs (Decidable (_ ∧ _ ∧ _ ∧ _))

def ofFields? (f : Fields) (offset : Int) : Option Instant :=
  if f.Valid then
    let time : Int := f.hour * 3600 + f.minute * 60 + min 59 f.second
    ofParts? (f.date.toDays * 86400 + time - offset) f.nanos (f.second == 60)
  else none

def fields (d : Instant) : Fields :=
  let time := (d.seconds % 86400).toNat
  { date := Calendar.Date.ofDays (d.seconds / 86400)
    hour := time / 3600
    minute := time / 60 % 60
    second := time % 60 + if d.leap then 1 else 0
    nanos := d.nanos }

end Instant

end Conform
