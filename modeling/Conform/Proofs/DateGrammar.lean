import Conform.Instant.Reader
import Conform.Proofs.Blanks
import Conform.Proofs.Calendar

/-!
# Texts that are dates

`ZonedText`, `UnzonedText` and `DayText` say without a reader which texts are dates, and in which fields. Each reader
takes a text of its form (`ofZonedText?_zoned`, `unzoned_append`, `looseDate_append`), and what it takes has the form
(`zonedText_of_read`, `unzonedText_of_unzoned`, `dayText_of_looseDate`).
-/

namespace Conform.Instant

open Conform.Text

/-! ### Fields -/

/-- So many digits. -/
structure FixedText (width : Nat) (t : List Char) (n : Nat) : Prop where
  length : t.length = width
  digits : ∀ c ∈ t, c.isDigit
  value : n = decimal t

/-- Blanks, and then some digits, no more than so many. -/
inductive LooseText (width : Nat) : List Char → Nat → Prop
  | intro {blanks digits : List Char} (blank : ∀ c ∈ blanks, isBlank c) (nonempty : digits ≠ [])
      (few : digits.length ≤ width) (all : ∀ c ∈ digits, c.isDigit) : LooseText width (blanks ++ digits) (decimal digits)

/-- Up to four digits, or a sign and any number of them, after blanks. -/
inductive LooseYearText : List Char → Int → Prop
  | plain {t : List Char} {n : Nat} (written : LooseText 4 t n) : LooseYearText t n
  | signed {blanks digits : List Char} {sign : Char} (blank : ∀ c ∈ blanks, isBlank c) (signed : sign = '+' ∨ sign = '-')
      (nonempty : digits ≠ []) (all : ∀ c ∈ digits, c.isDigit) :
      LooseYearText (blanks ++ sign :: digits) (if sign = '-' then -(decimal digits : Int) else decimal digits)

/-- An optional point with one or more digits after it. -/
inductive PointText : List Char → Option (List Char) → Prop
  | none : PointText [] none
  | point {digits : List Char} (nonempty : digits ≠ []) (all : ∀ c ∈ digits, c.isDigit) :
      PointText ('.' :: digits) (some digits)

/-- A zone and its offset in seconds: a letter for none, or a sign with hours and minutes. -/
inductive ZoneText : List Char → Int → Prop
  | utc {letter : Char} (named : letter = 'Z' ∨ letter = 'z') : ZoneText [letter] 0
  | offset {sign : Char} {hours minutes : List Char} {h m : Nat} (signed : sign = '+' ∨ sign = '-' ∨ sign = '\u2212')
      (hour : FixedText 2 hours h) (minute : FixedText 2 minutes m) (day : h ≤ 23) (within : m ≤ 59) :
      ZoneText (sign :: (hours ++ ':' :: minutes))
        (if sign = '+' then (h * 3600 + m * 60 : Int) else -(h * 3600 + m * 60 : Int))

/-! ### Forms -/

/-- What a text writes: a date, a time of day, and the digits of a fraction of a second. -/
structure Stamp where
  date : Calendar.Date
  hour : Nat
  minute : Nat
  second : Nat
  fraction : Option (List Char)

namespace Stamp

def nanos (fraction : Option (List Char)) : Nat := (fraction.map nanosOfDigits).getD 0

def fields (s : Stamp) : Fields := ⟨s.date, s.hour, s.minute, s.second, nanos s.fraction⟩

/-- A day stands for the midnight that it starts with. -/
def midnight (date : Calendar.Date) : Stamp := ⟨date, 0, 0, 0, none⟩

def point (fraction : Option (List Char)) : List Char := fraction.elim [] ('.' :: ·)

/-- A stamp with zeros in front of its numbers, the digits of its fraction as they are, and no zone. -/
def inFull (s : Stamp) : List Char :=
  padded 4 s.date.year.natAbs ++ '-' :: padded 2 s.date.month ++ '-' :: padded 2 s.date.day ++
    'T' :: padded 2 s.hour ++ ':' :: padded 2 s.minute ++ ':' :: padded 2 s.second ++ point s.fraction

end Stamp

/-- Fields of fixed width with a zone. -/
inductive ZonedText : List Char → Stamp → Int → Prop
  | intro {year month day hour minute second point zone : List Char} {separator : Char} {y mo d h mi s : Nat}
      {fraction : Option (List Char)} {shift : Int} (years : FixedText 4 year y) (months : FixedText 2 month mo)
      (days : FixedText 2 day d) (separates : separator = 'T' ∨ separator = 't' ∨ separator = ' ')
      (hours : FixedText 2 hour h) (minutes : FixedText 2 minute mi) (seconds : FixedText 2 second s)
      (fractions : PointText point fraction) (zones : ZoneText zone shift) :
      ZonedText (year ++ '-' :: (month ++ '-' :: (day ++ separator ::
        (hour ++ ':' :: (minute ++ ':' :: (second ++ (point ++ zone))))))) ⟨⟨y, mo, d⟩, h, mi, s, fraction⟩ shift

/-- Year, month and day in loose fields. -/
inductive DayText : List Char → Calendar.Date → Prop
  | intro {year month day : List Char} {y : Int} {m d : Nat} (years : LooseYearText year y)
      (months : LooseText 2 month m) (days : LooseText 2 day d) :
      DayText (year ++ '-' :: (month ++ '-' :: day)) ⟨y, m, d⟩

/-- Date and time in loose fields, with no zone. -/
inductive UnzonedText : List Char → Stamp → Prop
  | intro {date hour minute second point : List Char} {day : Calendar.Date} {h m s : Nat}
      {fraction : Option (List Char)} (days : DayText date day) (hours : LooseText 2 hour h)
      (minutes : LooseText 2 minute m) (seconds : LooseText 2 second s) (fractions : PointText point fraction) :
      UnzonedText (date ++ 'T' :: (hour ++ ':' :: (minute ++ ':' :: (second ++ point)))) ⟨day, h, m, s, fraction⟩

/-! ### Readers of fields -/

variable {width n : Nat} {t rest : List Char}

theorem fixed_append (written : FixedText width t n) (rest : List Char) : fixed width (t ++ rest) = some (n, rest) := by
  obtain ⟨rfl, digits, rfl⟩ := written
  have all : t.all Char.isDigit = true := List.all_eq_true.mpr digits
  simp only [fixed, List.take_left, List.drop_left]
  rw [if_pos ⟨trivial, all⟩]

theorem fixedText_of_fixed (read : fixed width t = some (n, rest)) : ∃ s, t = s ++ rest ∧ FixedText width s n := by
  simp only [fixed] at read
  split at read
  · rename_i right
    cases read
    exact ⟨t.take width, (List.take_append_drop width t).symm, right.1, List.all_eq_true.mp right.2, rfl⟩
  · cases read

theorem upTo_append {digits : List Char} (nonempty : digits ≠ []) (few : digits.length ≤ width)
    (all : ∀ c ∈ digits, c.isDigit) (ends : ∀ c ∈ rest.head?, c.isDigit = false) :
    upTo width (digits ++ rest) = some (decimal digits, rest) := by
  have taken : ((digits ++ rest).take width).takeWhile Char.isDigit = digits := by
    rw [List.take_append, List.take_of_length_le few]
    apply leadingDigits_append all
    intro c first
    cases more : width - digits.length with
    | zero => simp [more] at first
    | succ k =>
      rw [more, List.head?_take] at first
      exact ends c first
  have present : digits.isEmpty = false := by simpa using nonempty
  simp [upTo, taken, present]

theorem of_upTo (read : upTo width t = some (n, rest)) : ∃ digits, t = digits ++ rest ∧ digits ≠ [] ∧
    digits.length ≤ width ∧ (∀ c ∈ digits, c.isDigit) ∧ n = decimal digits := by
  simp only [upTo] at read
  have front : (t.take width).takeWhile Char.isDigit <+: t :=
    (List.takeWhile_prefix _).trans (List.take_prefix width t)
  have short := (List.takeWhile_prefix (l := t.take width) Char.isDigit).length_le
  have digits : ∀ c ∈ (t.take width).takeWhile Char.isDigit, c.isDigit := fun _ member => List.mem_takeWhile_imp member
  generalize (t.take width).takeWhile Char.isDigit = taken at read front short digits
  split at read
  · cases read
  · rename_i nonempty
    obtain ⟨after, rfl⟩ := front
    cases read
    rw [List.length_take] at short
    exact ⟨taken, by rw [List.drop_left], by simpa using nonempty, by omega, digits, rfl⟩

/-- A number ends where no digit follows. -/
def EndsDigits (rest : List Char) : Prop := ∀ c ∈ rest.head?, c.isDigit = false

theorem endsDigits_cons {c : Char} (other : c.isDigit = false) (rest : List Char) : EndsDigits (c :: rest) := by
  rintro _ ⟨⟩
  exact other

theorem skipBlanks_digits {digits : List Char} (nonempty : digits ≠ []) (all : ∀ c ∈ digits, c.isDigit)
    (rest : List Char) : skipBlanks (digits ++ rest) = digits ++ rest := by
  apply skipBlanks_eq_self
  cases digits with
  | nil => exact absurd rfl nonempty
  | cons d digits =>
    rintro _ ⟨⟩
    exact isBlank_of_isDigit (all d List.mem_cons_self)

theorem loose_append (written : LooseText 2 t n) (ends : EndsDigits rest) : loose (t ++ rest) = some (n, rest) := by
  obtain ⟨blank, nonempty, few, all⟩ := written
  rw [loose, List.append_assoc, skipBlanks_append blank, skipBlanks_digits nonempty all]
  exact upTo_append nonempty few all ends

theorem looseText_of_upTo (read : upTo width (skipBlanks t) = some (n, rest)) :
    ∃ s, t = s ++ rest ∧ LooseText width s n := by
  obtain ⟨digits, same, nonempty, few, all, rfl⟩ := of_upTo read
  refine ⟨t.takeWhile isBlank ++ digits, ?_, .intro (fun _ member => List.mem_takeWhile_imp member) nonempty few all⟩
  rw [List.append_assoc, ← same]
  exact List.takeWhile_append_dropWhile.symm

theorem unbounded_append {digits : List Char} (nonempty : digits ≠ []) (all : ∀ c ∈ digits, c.isDigit)
    (ends : EndsDigits rest) : unbounded (digits ++ rest) = some (decimal digits, rest) := by
  have present : digits.isEmpty = false := by simpa using nonempty
  simp [unbounded, leadingDigits_append all ends, afterDigits_append all ends, present]

theorem of_unbounded (read : unbounded t = some (n, rest)) : ∃ digits, t = digits ++ rest ∧ digits ≠ [] ∧
    (∀ c ∈ digits, c.isDigit) ∧ n = decimal digits := by
  simp only [unbounded] at read
  split at read
  · cases read
  · rename_i nonempty
    cases read
    exact ⟨leadingDigits t, (leadingDigits_append_afterDigits t).symm, by simpa using nonempty,
      isDigit_leadingDigits t, rfl⟩

theorem looseYear_append {year : Int} (written : LooseYearText t year) (ends : EndsDigits rest) :
    looseYear (t ++ rest) = some (year, rest) := by
  cases written with
  | plain written =>
    obtain ⟨blank, nonempty, few, all⟩ := written
    rename_i blanks digits
    have unsigned : ∀ c ∈ (digits ++ rest).head?, c ≠ '+' ∧ c ≠ '-' := by
      intro c first
      apply unsigned_of_digits all c
      cases digits with
      | nil => exact absurd rfl nonempty
      | cons d digits => exact first
    rw [looseYear, List.append_assoc, skipBlanks_append blank, skipBlanks_digits nonempty all]
    split
    · rename_i same
      exact absurd rfl (unsigned '-' (by rw [same]; rfl)).2
    · rename_i same
      exact absurd rfl (unsigned '+' (by rw [same]; rfl)).1
    · rw [upTo_append nonempty few all ends]
      rfl
  | signed blank signed nonempty all =>
    rw [looseYear, List.append_assoc, skipBlanks_append blank, List.cons_append]
    rcases signed with rfl | rfl
    · rw [skipBlanks_eq_self (by simp [isBlank])]
      simp [unbounded_append nonempty all ends]
    · rw [skipBlanks_eq_self (by simp [isBlank])]
      simp [unbounded_append nonempty all ends]

theorem looseYearText_of_looseYear {year : Int} (read : looseYear t = some (year, rest)) :
    ∃ s, t = s ++ rest ∧ LooseYearText s year := by
  have blank : ∀ c ∈ t.takeWhile isBlank, isBlank c := fun _ member => List.mem_takeWhile_imp member
  have whole : t.takeWhile isBlank ++ skipBlanks t = t := List.takeWhile_append_dropWhile
  unfold looseYear at read
  split at read
  · rename_i u same
    obtain ⟨⟨n, after⟩, number, back⟩ := Option.map_eq_some_iff.mp read
    cases back
    obtain ⟨digits, rfl, nonempty, all, rfl⟩ := of_unbounded number
    refine ⟨t.takeWhile isBlank ++ '-' :: digits, ?_, .signed blank (.inr rfl) nonempty all⟩
    rw [List.append_assoc, List.cons_append, ← same, whole]
  · rename_i u same
    obtain ⟨⟨n, after⟩, number, back⟩ := Option.map_eq_some_iff.mp read
    cases back
    obtain ⟨digits, rfl, nonempty, all, rfl⟩ := of_unbounded number
    refine ⟨t.takeWhile isBlank ++ '+' :: digits, ?_, .signed blank (.inl rfl) nonempty all⟩
    rw [List.append_assoc, List.cons_append, ← same, whole]
  · obtain ⟨⟨n, after⟩, number, back⟩ := Option.map_eq_some_iff.mp read
    cases back
    obtain ⟨s, split, written⟩ := looseText_of_upTo number
    exact ⟨s, split, .plain written⟩

theorem expect_eq_some_iff {c : Char} : expect c t = some rest ↔ t = c :: rest := by
  unfold expect
  split
  · simp
  · split <;> simp_all

/-- A zone is no part of a fraction. -/
def EndsFraction (zone : List Char) : Prop := ∀ c ∈ zone.head?, c.isDigit = false ∧ c ≠ '.'

variable {fractionDigits : Option (List Char)} {shift : Int}

theorem fraction_append (written : PointText t fractionDigits) (ends : EndsFraction rest) :
    fraction (t ++ rest) = some (Stamp.nanos fractionDigits, rest) := by
  cases written with
  | none =>
    rw [List.nil_append, fraction]
    · rfl
    · rintro u rfl
      exact (ends '.' rfl).2 rfl
  | point nonempty all =>
    have ends : EndsDigits rest := fun c first => (ends c first).1
    rw [List.cons_append, fraction]
    simp [leadingDigits_append all ends, afterDigits_append all ends, nonempty, Stamp.nanos]

theorem pointText_of_fraction {nanos : Nat} (read : fraction t = some (nanos, rest)) :
    ∃ s digits, t = s ++ rest ∧ PointText s digits ∧ nanos = Stamp.nanos digits := by
  unfold fraction at read
  split at read
  · rename_i u
    dsimp only at read
    split at read
    · cases read
    · rename_i nonempty
      cases read
      refine ⟨'.' :: leadingDigits u, some (leadingDigits u), ?_, .point (by simpa using nonempty) ?_, rfl⟩
      · rw [List.cons_append, leadingDigits_append_afterDigits]
      · exact isDigit_leadingDigits u
  · cases read
    exact ⟨[], none, rfl, .none, rfl⟩

theorem offset_zone (written : ZoneText t shift) : offset t = some (shift, []) := by
  cases written with
  | utc named => rcases named with rfl | rfl <;> rfl
  | @offset sign hours minutes h m signed hour minute day within =>
    have letter : ¬ (sign = 'Z' ∨ sign = 'z') := by rcases signed with rfl | rfl | rfl <;> decide
    have last := fixed_append minute []
    rw [List.append_nil] at last
    simp only [offset, letter, signed, if_true, if_false, fixed_append hour, expect, last, bind, Option.bind, day, within,
      and_self]

theorem zoneText_of_offset (read : offset t = some (shift, rest)) : ∃ zone, t = zone ++ rest ∧ ZoneText zone shift := by
  unfold offset at read
  split at read
  · cases read
  · rename_i c u
    split at read
    · rename_i named
      cases read
      exact ⟨[c], rfl, .utc named⟩
    · split at read
      · rename_i signed
        simp only [bind, Option.bind_eq_some_iff, Prod.exists, expect_eq_some_iff] at read
        obtain ⟨h, afterHours, hours, afterColon, rfl, m, afterMinutes, minutes, read⟩ := read
        obtain ⟨hourText, rfl, hour⟩ := fixedText_of_fixed hours
        obtain ⟨minuteText, rfl, minute⟩ := fixedText_of_fixed minutes
        split at read
        · rename_i bounds
          cases read
          refine ⟨c :: (hourText ++ ':' :: minuteText), ?_, .offset signed hour minute bounds.1 bounds.2⟩
          simp
        · cases read
      · cases read

theorem endsFraction_zone (written : ZoneText t shift) : t ≠ [] ∧ EndsFraction t := by
  cases written with
  | utc named => rcases named with rfl | rfl <;> simp [EndsFraction]
  | offset signed => rcases signed with rfl | rfl | rfl <;> simp [EndsFraction]

/-! ### Readers of forms -/

theorem separator_eq_some_iff : separator t = some rest ↔
    ∃ c, (c = 'T' ∨ c = 't' ∨ c = ' ') ∧ t = c :: rest := by
  unfold separator
  split
  · simp
  · rename_i c u
    split <;> grind

theorem ofZonedText?_zoned {stamp : Stamp} (written : ZonedText t stamp shift) :
    ofZonedText? t = ofFields? stamp.fields shift := by
  obtain ⟨years, months, days, separates, hours, minutes, seconds, fractions, zones⟩ := written
  have ends := (endsFraction_zone zones).2
  unfold ofZonedText?
  simp only [bind, Option.bind, fixed_append years, fixed_append months, fixed_append days, fixed_append hours,
    fixed_append minutes, fixed_append seconds, expect, separator, separates, if_true, fraction_append fractions ends,
    offset_zone zones]
  rfl

theorem zonedText_of_read {d : Instant} (read : ofZonedText? t = some d) : ∃ stamp shift, ZonedText t stamp shift := by
  unfold ofZonedText? at read
  obtain ⟨⟨y, _⟩, year, read⟩ := Option.bind_eq_some_iff.mp read
  obtain ⟨_, firstDash, read⟩ := Option.bind_eq_some_iff.mp read
  obtain ⟨⟨mo, _⟩, month, read⟩ := Option.bind_eq_some_iff.mp read
  obtain ⟨_, secondDash, read⟩ := Option.bind_eq_some_iff.mp read
  obtain ⟨⟨dd, _⟩, day, read⟩ := Option.bind_eq_some_iff.mp read
  obtain ⟨_, between, read⟩ := Option.bind_eq_some_iff.mp read
  obtain ⟨⟨h, _⟩, hour, read⟩ := Option.bind_eq_some_iff.mp read
  obtain ⟨_, firstColon, read⟩ := Option.bind_eq_some_iff.mp read
  obtain ⟨⟨mi, _⟩, minute, read⟩ := Option.bind_eq_some_iff.mp read
  obtain ⟨_, secondColon, read⟩ := Option.bind_eq_some_iff.mp read
  obtain ⟨⟨s, _⟩, second, read⟩ := Option.bind_eq_some_iff.mp read
  obtain ⟨⟨nanos, _⟩, part, read⟩ := Option.bind_eq_some_iff.mp read
  obtain ⟨⟨shift, last⟩, zone, whole⟩ := Option.bind_eq_some_iff.mp read
  obtain ⟨_, rfl, years⟩ := fixedText_of_fixed year
  obtain rfl := expect_eq_some_iff.mp firstDash
  obtain ⟨_, rfl, months⟩ := fixedText_of_fixed month
  obtain rfl := expect_eq_some_iff.mp secondDash
  obtain ⟨_, rfl, days⟩ := fixedText_of_fixed day
  obtain ⟨c, separates, rfl⟩ := separator_eq_some_iff.mp between
  obtain ⟨_, rfl, hours⟩ := fixedText_of_fixed hour
  obtain rfl := expect_eq_some_iff.mp firstColon
  obtain ⟨_, rfl, minutes⟩ := fixedText_of_fixed minute
  obtain rfl := expect_eq_some_iff.mp secondColon
  obtain ⟨_, rfl, seconds⟩ := fixedText_of_fixed second
  obtain ⟨_, digits, rfl, fractions, rfl⟩ := pointText_of_fraction part
  obtain ⟨_, rfl, zones⟩ := zoneText_of_offset zone
  dsimp only at whole
  split at whole
  · rename_i ended
    rw [List.isEmpty_iff.mp ended, List.append_nil]
    exact ⟨_, _, .intro years months days separates hours minutes seconds fractions zones⟩
  · cases whole

theorem EndsFraction.digits (ends : EndsFraction rest) : EndsDigits rest := fun c first => (ends c first).1

theorem looseDate_append {date : Calendar.Date} (written : DayText t date) (ends : EndsDigits rest) :
    looseDate (t ++ rest) = some (date, rest) := by
  obtain ⟨years, months, days⟩ := written
  have dash : ∀ u, EndsDigits ('-' :: u) := endsDigits_cons rfl
  simp only [looseDate, bind, Option.bind, List.append_assoc, List.cons_append, looseYear_append years (dash _),
    loose_append months (dash _), loose_append days ends, expect, if_true]

theorem dayText_of_looseDate {date : Calendar.Date} (read : looseDate t = some (date, rest)) :
    ∃ s, t = s ++ rest ∧ DayText s date := by
  simp only [looseDate, bind, Option.bind_eq_some_iff, Prod.exists, expect_eq_some_iff] at read
  obtain ⟨y, _, year, _, rfl, m, _, month, _, rfl, d, _, day, read⟩ := read
  obtain ⟨yearText, rfl, years⟩ := looseYearText_of_looseYear year
  obtain ⟨monthText, rfl, months⟩ := looseText_of_upTo month
  obtain ⟨dayText, rfl, days⟩ := looseText_of_upTo day
  cases read
  exact ⟨_, by simp, .intro years months days⟩

/-- The date and time in loose fields at the start of a text. -/
def unzoned : Reader Fields := fun t => do
  let (date, t) ← looseDate t
  let t ← expect 'T' t
  let (hour, t) ← loose t
  let t ← expect ':' t
  let (minute, t) ← loose t
  let t ← expect ':' t
  let (second, t) ← loose t
  let (nanos, t) ← fraction t
  some (⟨date, hour, minute, second, nanos⟩, t)

theorem ofLocalText?_eq (t : List Char) :
    ofLocalText? t = (unzoned t).bind fun (f, rest) => if rest.isEmpty then ofFields? f 0 else none := by
  simp only [ofLocalText?, unzoned, bind, Option.bind_assoc, Option.bind_some]

theorem unzoned_append {stamp : Stamp} (written : UnzonedText t stamp) (ends : EndsFraction rest) :
    unzoned (t ++ rest) = some (stamp.fields, rest) := by
  obtain ⟨days, hours, minutes, seconds, fractions⟩ := written
  have letter : ∀ u, EndsDigits ('T' :: u) := endsDigits_cons rfl
  have colon : ∀ u, EndsDigits (':' :: u) := endsDigits_cons rfl
  have point : ∀ {u digits}, PointText u digits → EndsDigits (u ++ rest) := by
    rintro u digits (_ | _)
    · exact ends.digits
    · exact endsDigits_cons rfl _
  simp only [unzoned, bind, Option.bind, List.append_assoc, List.cons_append,
    looseDate_append days (letter _), loose_append hours (colon _), loose_append minutes (colon _),
    loose_append seconds (point fractions), fraction_append fractions ends, expect, if_true]
  rfl

theorem unzonedText_of_unzoned {f : Fields} (read : unzoned t = some (f, rest)) :
    ∃ s stamp, t = s ++ rest ∧ UnzonedText s stamp := by
  simp only [unzoned, bind, Option.bind_eq_some_iff, Prod.exists, expect_eq_some_iff] at read
  obtain ⟨date, _, day, _, rfl, h, _, hour, _, rfl, m, _, minute, _, rfl, s, _, second, nanos, _, part, read⟩ := read
  obtain ⟨_, rfl, days⟩ := dayText_of_looseDate day
  obtain ⟨_, rfl, hours⟩ := looseText_of_upTo hour
  obtain ⟨_, rfl, minutes⟩ := looseText_of_upTo minute
  obtain ⟨_, rfl, seconds⟩ := looseText_of_upTo second
  obtain ⟨_, digits, rfl, fractions, rfl⟩ := pointText_of_fraction part
  cases read
  exact ⟨_, _, by simp, .intro days hours minutes seconds fractions⟩

theorem ofLocalText?_unzoned {stamp : Stamp} (written : UnzonedText t stamp) :
    ofLocalText? t = ofFields? stamp.fields 0 := by
  have read := unzoned_append written (show EndsFraction [] from nofun)
  rw [List.append_nil] at read
  rw [ofLocalText?_eq, read]
  rfl

theorem ofDateText?_day {date : Calendar.Date} (written : DayText t date) :
    ofDateText? t = ofFields? (Stamp.midnight date).fields 0 := by
  have read := looseDate_append written (show EndsDigits [] from nofun)
  rw [List.append_nil] at read
  simp only [ofDateText?, read, bind, Option.bind]
  rfl

end Conform.Instant
