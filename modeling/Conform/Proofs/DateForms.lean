import Conform.Proofs.DateGrammar
import Mathlib.Data.List.Basic

/-!
# One form for a date

No text has two of the forms of dates, so the order in which they are tried does not matter, and loose fields mean what
they mean in full (`forms_never_conflict`). As offsets are whole minutes, a leap second that a text names ends a minute
(`leapEndsMinute_ofText?`).
-/

namespace Conform.Instant

open Conform.Text

variable {width n : Nat} {t : List Char} {fractionDigits : Option (List Char)} {shift : Int}

/-! ### One form at most -/

theorem FixedText.loose (written : FixedText width t n) (nonempty : t ≠ []) : LooseText width t n := by
  obtain ⟨length, digits, rfl⟩ := written
  have noBlanks : LooseText width ([] ++ t) (decimal t) := .intro nofun nonempty (by omega) digits
  exact noBlanks

theorem FixedText.ne_nil (written : FixedText width t n) (pos : 0 < width) : t ≠ [] := by
  rw [← List.length_pos_iff, written.length]
  exact pos

theorem endsDigits_separator {c : Char} (separates : c = 'T' ∨ c = 't' ∨ c = ' ') (rest : List Char) :
    EndsDigits (c :: rest) := by
  rcases separates with rfl | rfl | rfl <;> exact endsDigits_cons rfl rest

/-- The parts of a text with a zone. With `T` between them its day and its time of day are a text without one. -/
theorem ZonedText.parts {stamp : Stamp} (written : ZonedText t stamp shift) : ∃ date c clock zone,
    t = date ++ c :: (clock ++ zone) ∧ DayText date stamp.date ∧ (c = 'T' ∨ c = 't' ∨ c = ' ') ∧ ZoneText zone shift ∧
      (c = 'T' → UnzonedText (date ++ c :: clock) stamp) := by
  obtain @⟨_, _, _, hour, minute, second, point, zone, c, _, _, _, _, _, _, _, _, years, months, days, separates, hours,
    minutes, seconds, fractions, zones⟩ := written
  have two : ∀ {u n}, FixedText 2 u n → LooseText 2 u n := fun field => field.loose (field.ne_nil (by decide))
  have day := DayText.intro (.plain (years.loose (years.ne_nil (by decide)))) (two months) (two days)
  refine ⟨_, c, hour ++ ':' :: (minute ++ ':' :: (second ++ point)), zone, ?_, day, separates, zones, ?_⟩
  · simp only [List.append_assoc, List.cons_append]
  · rintro rfl
    exact .intro day (two hours) (two minutes) (two seconds) fractions

theorem ZonedText.not_day {stamp : Stamp} (written : ZonedText t stamp shift) {date : Calendar.Date} :
    ¬ DayText t date := by
  intro day
  -- The reader of days would stop at the separator and at the end.
  obtain ⟨front, c, clock, zone, rfl, start, separates, -, -⟩ := written.parts
  have ends := looseDate_append day (show EndsDigits [] from nofun)
  rw [List.append_nil, looseDate_append start (endsDigits_separator separates _)] at ends
  cases ends

theorem UnzonedText.not_day_append {stamp : Stamp} (written : UnzonedText t stamp) (rest : List Char)
    {date : Calendar.Date} : ¬ DayText (t ++ rest) date := by
  intro day
  obtain ⟨start, -, -, -, -⟩ := written
  have ends := looseDate_append day (show EndsDigits [] from nofun)
  rw [List.append_nil, List.append_assoc, List.cons_append, looseDate_append start (endsDigits_cons (c := 'T') rfl _)] at ends
  cases ends

theorem UnzonedText.not_day {stamp : Stamp} (written : UnzonedText t stamp) {date : Calendar.Date} :
    ¬ DayText t date := by
  have longer := @UnzonedText.not_day_append _ _ written [] date
  rwa [List.append_nil] at longer

/-- With a zone after it, a date and time in loose fields is none any more. -/
theorem UnzonedText.not_unzoned_append {front zone : List Char} {stamp other : Stamp}
    (written : UnzonedText front stamp) (nonempty : zone ≠ []) (ends : EndsFraction zone) :
    ¬ UnzonedText (front ++ zone) other := by
  intro whole
  have stops := unzoned_append written ends
  have done := unzoned_append whole (show EndsFraction [] from nofun)
  rw [List.append_nil, stops, Option.some_inj, Prod.mk.injEq] at done
  exact nonempty done.2

theorem ZonedText.not_unzoned {stamp other : Stamp} (written : ZonedText t stamp shift) : ¬ UnzonedText t other := by
  intro unzoned
  obtain ⟨front, c, clock, zone, same, start, separates, zones, local_⟩ := written.parts
  by_cases letter : c = 'T'
  · have ends := endsFraction_zone zones
    apply (local_ letter).not_unzoned_append ends.1 ends.2
    rw [List.append_assoc, List.cons_append, ← same]
    exact unzoned
  · have stops := looseDate_append start (endsDigits_separator separates (clock ++ zone))
    obtain ⟨date, -, -, -, -⟩ := unzoned
    rw [← same, looseDate_append date (endsDigits_cons (c := 'T') rfl _), Option.some_inj, Prod.mk.injEq,
      List.cons.injEq] at stops
    exact letter stops.2.1.symm

/-- The forms of dates. -/
inductive Form where
  | zoned
  | unzoned
  | day
deriving DecidableEq

namespace Form

/-- A text has a form. -/
def Matches : Form → List Char → Prop
  | zoned, t => ∃ stamp shift, ZonedText t stamp shift
  | unzoned, t => ∃ stamp, UnzonedText t stamp
  | day, t => ∃ date, DayText t date

def read : Form → List Char → Option Instant
  | zoned => ofZonedText?
  | unzoned => ofLocalText?
  | day => ofDateText?

theorem eq_of_matches {a b : Form} (first : a.Matches t) (second : b.Matches t) : a = b := by
  match a, b, first, second with
  | zoned, zoned, _, _ | unzoned, unzoned, _, _ | day, day, _, _ => rfl
  | zoned, unzoned, ⟨_, _, one⟩, ⟨_, other⟩ | unzoned, zoned, ⟨_, other⟩, ⟨_, _, one⟩ =>
    exact absurd other one.not_unzoned
  | zoned, day, ⟨_, _, one⟩, ⟨_, other⟩ | day, zoned, ⟨_, other⟩, ⟨_, _, one⟩ => exact absurd other one.not_day
  | unzoned, day, ⟨_, one⟩, ⟨_, other⟩ | day, unzoned, ⟨_, other⟩, ⟨_, one⟩ => exact absurd other one.not_day

theorem matches_of_read {form : Form} {d : Instant} (read : form.read t = some d) : form.Matches t := by
  cases form with
  | zoned => exact zonedText_of_read read
  | unzoned =>
    simp only [Form.read, ofLocalText?_eq, Option.bind_eq_some_iff, Prod.exists] at read
    obtain ⟨f, rest, parts, read⟩ := read
    obtain ⟨s, stamp, rfl, written⟩ := unzonedText_of_unzoned parts
    split at read
    · rename_i ended
      rw [List.isEmpty_iff.mp ended, List.append_nil]
      exact ⟨stamp, written⟩
    · cases read
  | day =>
    simp only [Form.read, ofDateText?, bind, Option.bind_eq_some_iff, Prod.exists] at read
    obtain ⟨date, rest, parts, read⟩ := read
    obtain ⟨s, rfl, written⟩ := dayText_of_looseDate parts
    split at read
    · rename_i ended
      rw [List.isEmpty_iff.mp ended, List.append_nil]
      exact ⟨date, written⟩
    · cases read

def all : List Form := [zoned, unzoned, day]

theorem mem_all (form : Form) : form ∈ all := by
  cases form <;> decide

/-- Whatever else is tried before or after it, the form of a text decides. -/
theorem findSome?_of_matches {form : Form} {forms : List Form} (member : form ∈ forms) (matched : form.Matches t) :
    forms.findSome? (·.read t) = form.read t := by
  have only : ∀ {other d}, Form.read other t = some d → other = form :=
    fun read => eq_of_matches (matches_of_read read) matched
  cases found : forms.findSome? (·.read t) with
  | none => exact (List.findSome?_eq_none_iff.mp found form member).symm
  | some d =>
    obtain ⟨other, -, read⟩ := List.exists_of_findSome?_eq_some found
    rw [← only read, read]

theorem findSome?_of_no_match {forms : List Form} (unmatched : ∀ form : Form, ¬ form.Matches t) :
    forms.findSome? (·.read t) = none := by
  apply List.findSome?_eq_none_iff.mpr
  intro form _
  cases read : form.read t with
  | none => rfl
  | some d => exact absurd (matches_of_read read) (unmatched form)

end Form

theorem ofText?_eq_findSome? (s : List Char) : ofText? s = Form.all.findSome? (·.read (trim s)) := by
  simp only [ofText?, Form.all, Form.read, List.findSome?_cons, List.findSome?_nil]
  cases ofZonedText? (trim s) <;> cases ofLocalText? (trim s) <;> cases ofDateText? (trim s) <;> rfl

theorem ofText?_of_matches {s : List Char} {form : Form} (matched : form.Matches (trim s)) :
    ofText? s = form.read (trim s) := by
  rw [ofText?_eq_findSome?, Form.findSome?_of_matches form.mem_all matched]

theorem ofText?_zoned {s : List Char} {stamp : Stamp} (written : ZonedText (trim s) stamp shift) :
    ofText? s = ofFields? stamp.fields shift :=
  (ofText?_of_matches (show Form.Matches .zoned (trim s) from ⟨stamp, shift, written⟩)).trans (ofZonedText?_zoned written)

theorem ofText?_unzoned {s : List Char} {stamp : Stamp} (written : UnzonedText (trim s) stamp) :
    ofText? s = ofFields? stamp.fields 0 :=
  (ofText?_of_matches (show Form.Matches .unzoned (trim s) from ⟨stamp, written⟩)).trans (ofLocalText?_unzoned written)

theorem ofText?_day {s : List Char} {date : Calendar.Date} (written : DayText (trim s) date) :
    ofText? s = ofFields? (Stamp.midnight date).fields 0 :=
  (ofText?_of_matches (show Form.Matches .day (trim s) from ⟨date, written⟩)).trans (ofDateText?_day written)

/-- In whatever order the forms are tried, a text is read alike. -/
theorem findSome?_read_eq {order : List Form} (complete : ∀ form : Form, form ∈ order) (s : List Char) :
    order.findSome? (·.read (trim s)) = ofText? s := by
  by_cases found : ∃ form : Form, form.Matches (trim s)
  · obtain ⟨form, matched⟩ := found
    rw [Form.findSome?_of_matches (complete form) matched, ofText?_of_matches matched]
  · have unmatched : ∀ form : Form, ¬ form.Matches (trim s) := fun form matched => found ⟨form, matched⟩
    rw [ofText?_eq_findSome?, Form.findSome?_of_no_match unmatched, Form.findSome?_of_no_match unmatched]

/-! ### Loose fields in full -/

theorem LooseText.lt (written : LooseText 2 t n) : n < 100 := by
  obtain ⟨-, nonempty, few, all⟩ := written
  exact Nat.lt_of_lt_of_le (decimal_lt all) (Nat.pow_le_pow_right (by decide) few)

theorem DayText.lt {date : Calendar.Date} (written : DayText t date) : date.month < 100 ∧ date.day < 100 := by
  obtain ⟨-, months, days⟩ := written
  exact ⟨months.lt, days.lt⟩

theorem PointText.eq_point (written : PointText t fractionDigits) : t = Stamp.point fractionDigits := by
  cases written <;> rfl

theorem PointText.nanos_lt (written : PointText t fractionDigits) : Stamp.nanos fractionDigits < 1000000000 := by
  cases written with
  | none => decide
  | @point digits _ all =>
    have kept : ∀ c ∈ digits.take 9, c.isDigit := fun c member => all c (List.mem_of_mem_take member)
    have length : (digits.take 9).length ≤ 9 := List.length_take_le 9 digits
    calc decimal (digits.take 9) * 10 ^ (9 - (digits.take 9).length)
        < 10 ^ (digits.take 9).length * 10 ^ (9 - (digits.take 9).length) :=
          Nat.mul_lt_mul_of_pos_right (decimal_lt kept) (Nat.pow_pos (by decide))
      _ = 1000000000 := by rw [← Nat.pow_add, Nat.add_sub_cancel' length]

theorem ZoneText.shift_bounds {zone : List Char} (written : ZoneText zone shift) :
    shift.natAbs < 86400 ∧ shift % 60 = 0 := by
  cases written with
  | utc => decide
  | offset _ _ _ day within =>
    split <;> omega

theorem ZoneText.last {zone : List Char} (written : ZoneText zone shift) :
    ∀ c ∈ zone.getLast?, isBlank c = false := by
  cases written with
  | utc named => rcases named with rfl | rfl <;> simp [isBlank]
  | @offset sign hours minutes h m signed hour minute day within =>
    have nonempty := minute.ne_nil (by decide)
    have ending : (sign :: (hours ++ ':' :: minutes)).getLast? = minutes.getLast? := by
      rw [show sign :: (hours ++ ':' :: minutes) = (sign :: hours ++ [':']) ++ minutes by simp,
        List.getLast?_append_of_ne_nil _ nonempty]
    intro c last
    rw [ending] at last
    exact isBlank_of_isDigit (minute.digits c (List.mem_of_getLast? last))

/-- What ends in a zone ends in no blank. -/
theorem trim_append_zone {zone : List Char} (first : ∀ c ∈ t.head?, isBlank c = false) (nonempty : t ≠ [])
    (written : ZoneText zone shift) : trim (t ++ zone) = t ++ zone := by
  apply trim_eq_self
  · rwa [List.head?_append_of_ne_nil _ nonempty]
  · rw [List.getLast?_append_of_ne_nil _ (endsFraction_zone written).1]
    exact written.last

theorem ZonedText.head {stamp : Stamp} (written : ZonedText t stamp shift) : ∀ c ∈ t.head?, c.isDigit := by
  obtain ⟨years, -, -, -, -, -, -, -, -⟩ := written
  intro c first
  rw [List.head?_append_of_ne_nil _ (years.ne_nil (by decide))] at first
  exact years.digits c (List.mem_of_head? first)

/-- A text with a zone has no blanks at its ends. -/
theorem ZonedText.trim_eq {stamp : Stamp} (written : ZonedText t stamp shift) : trim t = t := by
  have first : ∀ c ∈ t.head?, isBlank c = false := fun c first => isBlank_of_isDigit (written.head c first)
  obtain ⟨date, c, clock, zone, same, -, -, zones, -⟩ := written.parts
  have split : t = (date ++ c :: clock) ++ zone := by rw [same, List.append_assoc, List.cons_append]
  have nonempty : date ++ c :: clock ≠ [] := by simp
  rw [split, List.head?_append_of_ne_nil _ nonempty] at first
  have trimmed := trim_append_zone first nonempty zones
  rwa [← split] at trimmed

theorem fixedText_padded (pos : 0 < width) (fits : n < 10 ^ width) : FixedText width (padded width n) n :=
  ⟨length_padded pos fits, isDigit_padded width n, (decimal_padded width n).symm⟩

/-- A stamp in full is the text of its fields with any zone. -/
theorem zonedText_inFull {stamp : Stamp} (low : 0 ≤ stamp.date.year) (high : stamp.date.year ≤ 9999)
    (month : stamp.date.month < 100) (day : stamp.date.day < 100) (hour : stamp.hour < 100) (minute : stamp.minute < 100)
    (second : stamp.second < 100) (fractions : PointText (Stamp.point stamp.fraction) stamp.fraction) {zone : List Char}
    (zones : ZoneText zone shift) : ZonedText (stamp.inFull ++ zone) stamp shift := by
  obtain ⟨⟨year, mo, d⟩, h, mi, s, fraction⟩ := stamp
  obtain ⟨y, rfl⟩ := Int.eq_ofNat_of_zero_le low
  dsimp only at high month day hour minute second fractions
  have years : FixedText 4 (padded 4 y) y := fixedText_padded (by decide) (by omega)
  have written := ZonedText.intro years
    (fixedText_padded (by decide) month) (fixedText_padded (by decide) day) (.inl rfl) (fixedText_padded (by decide) hour)
    (fixedText_padded (by decide) minute) (fixedText_padded (by decide) second) fractions zones
  simpa [Stamp.inFull] using written

theorem UnzonedText.inFull {stamp : Stamp} (written : UnzonedText t stamp) (low : 0 ≤ stamp.date.year)
    (high : stamp.date.year ≤ 9999) : ZonedText (stamp.inFull ++ ['Z']) stamp 0 := by
  obtain ⟨days, hours, minutes, seconds, fractions⟩ := written
  have point := fractions.eq_point
  subst point
  exact zonedText_inFull low high days.lt.1 days.lt.2 hours.lt minutes.lt seconds.lt fractions (.utc (.inl rfl))

theorem DayText.inFull {date : Calendar.Date} (written : DayText t date) (low : 0 ≤ date.year) (high : date.year ≤ 9999) :
    ZonedText ((Stamp.midnight date).inFull ++ ['Z']) (.midnight date) 0 :=
  zonedText_inFull low high written.lt.1 written.lt.2 (show 0 < 100 by decide) (show 0 < 100 by decide)
    (show 0 < 100 by decide) (show PointText (Stamp.point none) none from .none) (.utc (.inl rfl))

/-! ### Offsets -/

theorem FixedText.lt (written : FixedText width t n) : n < 10 ^ width := by
  obtain ⟨rfl, digits, rfl⟩ := written
  exact decimal_lt digits

theorem ZonedText.year {stamp : Stamp} (written : ZonedText t stamp shift) :
    0 ≤ stamp.date.year ∧ stamp.date.year ≤ 9999 := by
  obtain ⟨years, -, -, -, -, -, -, -, -⟩ := written
  have small := years.lt
  dsimp only
  omega

/-- A text with a zone names the instant of its fields less the offset, if its fields are valid. -/
theorem ofFields?_of_zoned {stamp : Stamp} (written : ZonedText t stamp shift) (valid : stamp.fields.Valid) :
    ∃ clock d : Instant, clock.fields = stamp.fields ∧ ofFields? stamp.fields shift = some d ∧
      d.seconds = clock.seconds - shift ∧ d.nanos = clock.nanos ∧ d.leap = clock.leap := by
  have year := written.year
  obtain ⟨-, -, -, -, -, -, -, fractions, zones⟩ := written
  have named : ∀ {shift : Int}, shift.natAbs < 86400 → ∃ d, ofFields? _ shift = some d :=
    fun small => exists_ofFields? valid year.1 year.2 fractions.nanos_lt small
  obtain ⟨clock, here⟩ := named (show (0 : Int).natAbs < 86400 by decide)
  obtain ⟨d, there⟩ := named zones.shift_bounds.1
  obtain ⟨-, seconds, nanos, leap⟩ := ofFields?_eq_some_iff.mp here
  obtain ⟨-, shifted, sameNanos, sameLeap⟩ := ofFields?_eq_some_iff.mp there
  refine ⟨clock, d, fields_ofFields? here, there, ?_, sameNanos.trans nanos.symm, sameLeap.trans leap.symm⟩
  rw [shifted, seconds, Int.sub_zero]

theorem Form.leapEndsMinute_of_read {form : Form} {d : Instant} (read : form.read t = some d) : d.LeapEndsMinute := by
  cases form with
  | zoned =>
    obtain ⟨stamp, shift, written⟩ := matches_of_read read
    have named := (ofZonedText?_zoned written).symm.trans read
    obtain ⟨-, -, -, -, -, -, -, -, zones⟩ := written
    exact leapEndsMinute_ofFields? named zones.shift_bounds.2
  | unzoned =>
    obtain ⟨stamp, written⟩ := matches_of_read read
    exact leapEndsMinute_ofFields? ((ofLocalText?_unzoned written).symm.trans read) rfl
  | day =>
    obtain ⟨date, written⟩ := matches_of_read read
    exact leapEndsMinute_ofFields? ((ofDateText?_day written).symm.trans read) rfl

theorem leapEndsMinute_ofText? {s : List Char} {d : Instant} (read : ofText? s = some d) : d.LeapEndsMinute := by
  rw [ofText?_eq_findSome?] at read
  obtain ⟨form, -, read⟩ := List.exists_of_findSome?_eq_some read
  exact form.leapEndsMinute_of_read read

/-- A text has one form at most, and what reads it is the reader of its form, in whatever order they are tried. Loose
fields in the years 0 to 9999 are read as they are in full at offset zero, and a day as its midnight. A text with a zone
names the instant of its fields less the offset. -/
theorem forms_never_conflict (s : String) :
    (∀ a b : Form, a.Matches (trim s.toList) → b.Matches (trim s.toList) → a = b) ∧
    (∀ (form : Form) (d : Instant), form.read (trim s.toList) = some d → form.Matches (trim s.toList)) ∧
    (∀ order : List Form, (∀ form, form ∈ order) → order.findSome? (·.read (trim s.toList)) = ofText? s.toList) ∧
    (∀ stamp : Stamp, UnzonedText (trim s.toList) stamp → 0 ≤ stamp.date.year → stamp.date.year ≤ 9999 →
      ZonedText (stamp.inFull ++ ['Z']) stamp 0 ∧ ofText? s.toList = ofText? (stamp.inFull ++ ['Z'])) ∧
    (∀ date : Calendar.Date, DayText (trim s.toList) date → 0 ≤ date.year → date.year ≤ 9999 →
      ZonedText ((Stamp.midnight date).inFull ++ ['Z']) (.midnight date) 0 ∧
        ofText? s.toList = ofText? ((Stamp.midnight date).inFull ++ ['Z'])) ∧
    ∀ (stamp : Stamp) (shift : Int), ZonedText (trim s.toList) stamp shift →
      (stamp.fields.Valid → ∃ clock d : Instant, clock.fields = stamp.fields ∧ ofText? s.toList = some d ∧
        d.seconds = clock.seconds - shift ∧ d.nanos = clock.nanos ∧ d.leap = clock.leap) ∧
      (¬ stamp.fields.Valid → ofText? s.toList = none) := by
  refine ⟨fun a b => Form.eq_of_matches, fun form d => Form.matches_of_read, ?_, ?_, ?_, ?_⟩
  · exact fun order complete => findSome?_read_eq complete s.toList
  · intro stamp written low high
    have full := written.inFull low high
    refine ⟨full, ?_⟩
    rw [ofText?_unzoned written, ofText?_zoned (full.trim_eq.symm ▸ full)]
  · intro date written low high
    have full := written.inFull low high
    refine ⟨full, ?_⟩
    rw [ofText?_day written, ofText?_zoned (full.trim_eq.symm ▸ full)]
  · intro stamp shift written
    rw [ofText?_zoned written]
    refine ⟨ofFields?_of_zoned written, ?_⟩
    intro invalid
    rw [ofFields?, if_neg invalid]

/-- A leap second in loose fields, with a signed year, and blanks inside. -/
theorem loose_leap_second : ∃ d : Instant, ofText? "+02016-12- 31T 23:59:60.50".toList = some d ∧
    ofText? "2016-12-31T23:59:60.50Z".toList = some d := by
  have year : LooseYearText ([] ++ '+' :: ['0', '2', '0', '1', '6']) 2016 :=
    .signed (by simp) (.inl rfl) (by simp) (by simp)
  have month : LooseText 2 ([] ++ ['1', '2']) 12 := .intro (by simp) (by simp) (by decide) (by simp)
  have day : LooseText 2 ([' '] ++ ['3', '1']) 31 := .intro (by simp [isBlank]) (by simp) (by decide) (by simp)
  have hour : LooseText 2 ([' '] ++ ['2', '3']) 23 := .intro (by simp [isBlank]) (by simp) (by decide) (by simp)
  have minute : LooseText 2 ([] ++ ['5', '9']) 59 := .intro (by simp) (by simp) (by decide) (by simp)
  have second : LooseText 2 ([] ++ ['6', '0']) 60 := .intro (by simp) (by simp) (by decide) (by simp)
  have point : PointText ('.' :: ['5', '0']) (some ['5', '0']) := .point (by simp) (by simp)
  have written := UnzonedText.intro (.intro year month day) hour minute second point
  obtain ⟨full, same⟩ :=
    (forms_never_conflict "+02016-12- 31T 23:59:60.50").2.2.2.1 _ written (by decide) (by decide)
  obtain ⟨named, -⟩ := (forms_never_conflict "2016-12-31T23:59:60.50Z").2.2.2.2.2 _ 0 full
  obtain ⟨clock, d, -, read, -⟩ := named (by decide)
  exact ⟨d, same.trans read, read⟩

end Conform.Instant
