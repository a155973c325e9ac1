import Conform.Instant
import Mathlib.Algebra.GroupWithZero.Nat
import Mathlib.Data.List.GetD

/-!
# Days and dates

Every count of days is that of one date that exists (`exists_ofDays`, `toDays_ofDays`, `ofDays_toDays`). So an instant
is found again from its date and time of day (`ofFields?_fields`), and these from the instant that they name
(`fields_ofFields?`). Only a leap second within a minute is not: it has the date and time of day of the second after it
(`Follows.fields_eq`).
-/

namespace Conform

namespace Calendar

/-! ### Months -/

theorem monthAndDay_cases (month days : Nat) {lengths : List Nat} (fits : days < lengths.sum) :
    ∃ i, ∃ bound : i < lengths.length, ∃ day, monthAndDay month days lengths = (month + i, day + 1) ∧
      day < lengths[i] ∧ (lengths.take i).sum + day = days := by
  induction lengths generalizing month days with
  | nil => simp at fits
  | cons length lengths ih =>
    rw [List.sum_cons] at fits
    unfold monthAndDay
    split
    · rename_i inside
      exact ⟨0, by simp, days, rfl, inside, by simp⟩
    · rename_i beyond
      obtain ⟨i, bound, day, found, inside, total⟩ := ih (month + 1) (days - length) (by omega)
      refine ⟨i + 1, by simpa using bound, day, ?_, by simpa using inside, ?_⟩
      · rw [found, Nat.add_assoc, Nat.add_comm 1]
      · rw [List.take_succ_cons, List.sum_cons]
        omega

/-- A day is found from the days before its month and in it. -/
theorem monthAndDay_sum (month : Nat) {lengths : List Nat} {i day : Nat} (bound : i < lengths.length)
    (inside : day < lengths[i]) : monthAndDay month ((lengths.take i).sum + day) lengths = (month + i, day + 1) := by
  induction lengths generalizing month i with
  | nil => simp at bound
  | cons length lengths ih =>
    cases i with
    | zero =>
      rw [List.getElem_cons_zero] at inside
      rw [List.take_zero, List.sum_nil, Nat.zero_add, monthAndDay, if_pos inside]
      rfl
    | succ i =>
      rw [List.getElem_cons_succ] at inside
      have later := ih (month + 1) (Nat.lt_of_succ_lt_succ bound) inside
      rw [List.take_succ_cons, List.sum_cons, monthAndDay, if_neg (by omega), Nat.add_assoc, Nat.add_sub_cancel_left,
        later, Nat.add_assoc, Nat.add_comm 1]

theorem sum_take_add_lt {lengths : List Nat} {i day : Nat} (bound : i < lengths.length) (inside : day < lengths[i]) :
    (lengths.take i).sum + day < lengths.sum := by
  have split : (lengths.take (i + 1)).sum + (lengths.drop (i + 1)).sum = lengths.sum := by
    rw [← List.sum_append, List.take_append_drop]
  rw [List.take_succ_eq_append_getElem bound, List.sum_append, List.sum_singleton] at split
  omega

theorem sum_monthLengths (leapYear : Bool) : (monthLengths leapYear).sum = if leapYear then 366 else 365 := by
  cases leapYear <;> rfl

theorem length_monthLengths (leapYear : Bool) : (monthLengths leapYear).length = 12 := rfl

theorem monthLengths_le (leapYear : Bool) : ∀ length ∈ monthLengths leapYear, length ≤ 31 := by
  cases leapYear <;> decide

theorem Date.Exists.bounds {d : Date} (real : d.Exists) : 1 ≤ d.month ∧ d.month ≤ 12 ∧ d.day ≤ 31 := by
  obtain ⟨first, last⟩ := real
  unfold daysInMonth at last
  split at last
  · omega
  · rename_i month
    by_cases bound : d.month - 1 < (monthLengths (isLeapYear d.year)).length
    · rw [List.getD_eq_getElem _ _ bound] at last
      have longest := monthLengths_le (isLeapYear d.year) _ (List.getElem_mem bound)
      rw [length_monthLengths] at bound
      omega
    · rw [List.getD_eq_default _ _ (by omega)] at last
      omega

/-! ### Years -/

theorem daysBeforeYear_succ (year : Int) :
    daysBeforeYear (year + 1) = daysBeforeYear year + (monthLengths (isLeapYear year)).sum := by
  rw [sum_monthLengths]
  simp only [daysBeforeYear, isLeapYear, Bool.and_eq_true, Bool.or_eq_true, beq_iff_eq, bne_iff_ne]
  split <;> omega

theorem daysBeforeYear_mono {first last : Int} (le : first ≤ last) : daysBeforeYear first ≤ daysBeforeYear last := by
  obtain ⟨years, rfl⟩ := Int.le.dest le
  induction years with
  | zero => simp
  | succ years ih =>
    have next := daysBeforeYear_succ (first + years)
    have earlier := ih (by omega)
    rw [Int.natCast_succ, ← Int.add_assoc]
    omega

/-- A day in its cycle of four centuries, its century, its four years and its year. Only the last of four years has a
day 365, and that only if it ends no century, or the last one. -/
structure Parts (days : Int) (cycle : Int) (century four one rest : Nat) : Prop where
  century_le : century ≤ 3
  four_le : four ≤ 24
  one_le : one ≤ 3
  rest_le : rest ≤ 365
  last : rest = 365 → one = 3 ∧ (four = 24 → century = 3)
  total : days + epoch = 146097 * cycle + 36524 * century + 1461 * four + 365 * one + rest

def yearOf (cycle : Int) (century four one : Nat) : Int := 400 * cycle + 100 * century + 4 * four + one + 1

theorem ofDays_parts (days : Int) : ∃ cycle century four one rest, Parts days cycle century four one rest ∧
    Date.ofDays days = ⟨yearOf cycle century four one,
      (monthAndDay 1 rest (monthLengths (isLeapYear (yearOf cycle century four one)))).1,
      (monthAndDay 1 rest (monthLengths (isLeapYear (yearOf cycle century four one)))).2⟩ := by
  refine ⟨_, _, _, _, _, ?_, rfl⟩
  constructor <;> omega

variable {days cycle : Int} {century four one rest : Nat}

theorem Parts.daysBeforeYear (parts : Parts days cycle century four one rest) :
    daysBeforeYear (yearOf cycle century four one) = 146097 * cycle + 36524 * century + 1461 * four + 365 * one := by
  obtain ⟨century_le, four_le, one_le, -, -, -⟩ := parts
  simp only [Calendar.daysBeforeYear, yearOf]
  omega

theorem Parts.rest_lt (parts : Parts days cycle century four one rest) :
    rest < (monthLengths (isLeapYear (yearOf cycle century four one))).sum := by
  obtain ⟨century_le, four_le, one_le, rest_le, last, -⟩ := parts
  rw [sum_monthLengths]
  by_cases long : rest = 365
  · obtain ⟨rfl, lastCentury⟩ := last long
    have leapYear : isLeapYear (yearOf cycle century four 3) = true := by
      simp only [isLeapYear, yearOf, Bool.and_eq_true, Bool.or_eq_true, beq_iff_eq, bne_iff_ne]
      omega
    rw [if_pos leapYear]
    omega
  · split <;> omega

theorem ofDays_cases (days : Int) : ∃ year : Int, ∃ i, ∃ bound : i < (monthLengths (isLeapYear year)).length, ∃ day,
    Date.ofDays days = ⟨year, 1 + i, day + 1⟩ ∧ day < (monthLengths (isLeapYear year))[i] ∧
      daysBeforeYear year + ((monthLengths (isLeapYear year)).take i).sum + day = days + epoch := by
  obtain ⟨cycle, century, four, one, rest, parts, date⟩ := ofDays_parts days
  obtain ⟨i, bound, day, found, inside, total⟩ := monthAndDay_cases 1 rest parts.rest_lt
  refine ⟨_, i, bound, day, ?_, inside, ?_⟩
  · rw [date, found]
  · rw [parts.daysBeforeYear, parts.total]
    omega

theorem exists_ofDays (days : Int) : (Date.ofDays days).Exists := by
  obtain ⟨year, i, bound, day, date, inside, _⟩ := ofDays_cases days
  rw [date]
  have within : daysInMonth year (1 + i) = (monthLengths (isLeapYear year))[i] := by
    rw [daysInMonth, if_neg (by omega), Nat.add_sub_cancel_left, List.getD_eq_getElem _ _ bound]
  exact ⟨Nat.le_add_left 1 day, by rw [within]; exact inside⟩

theorem toDays_ofDays (days : Int) : (Date.ofDays days).toDays = days := by
  obtain ⟨year, i, bound, day, date, _, total⟩ := ofDays_cases days
  rw [date]
  simp only [Date.toDays, daysBeforeMonth, Nat.add_sub_cancel_left, ← List.sum_eq_foldl]
  omega

/-- The year of a day is the last one that starts no later. -/
theorem le_year_ofDays_iff {year days : Int} :
    year ≤ (Date.ofDays days).year ↔ daysBeforeYear year - epoch ≤ days := by
  obtain ⟨found, i, bound, day, date, inside, total⟩ := ofDays_cases days
  have last := sum_take_add_lt bound inside
  have next := daysBeforeYear_succ found
  simp only [date]
  constructor
  · intro early
    have mono := daysBeforeYear_mono early
    omega
  · intro started
    apply Int.not_lt.mp
    intro late
    have mono := daysBeforeYear_mono (show found + 1 ≤ year from late)
    omega

theorem Date.Exists.cases {d : Date} (real : d.Exists) :
    ∃ i, ∃ bound : i < (monthLengths (isLeapYear d.year)).length, ∃ day, d.month = 1 + i ∧ d.day = day + 1 ∧
      day < (monthLengths (isLeapYear d.year))[i] ∧
      daysBeforeYear d.year + ((monthLengths (isLeapYear d.year)).take i).sum + day = d.toDays + epoch := by
  have month := real.bounds
  obtain ⟨first, last⟩ := real
  have bound : d.month - 1 < (monthLengths (isLeapYear d.year)).length := by
    rw [length_monthLengths]
    omega
  rw [daysInMonth, if_neg (by omega), List.getD_eq_getElem _ _ bound] at last
  refine ⟨d.month - 1, bound, d.day - 1, by omega, by omega, by omega, ?_⟩
  rw [Date.toDays, daysBeforeMonth, ← List.sum_eq_foldl]
  omega

theorem Date.Exists.toDays_bounds {d : Date} (real : d.Exists) :
    daysBeforeYear d.year - epoch ≤ d.toDays ∧ d.toDays < daysBeforeYear (d.year + 1) - epoch := by
  obtain ⟨i, bound, day, -, -, inside, total⟩ := real.cases
  have short := sum_take_add_lt bound inside
  have next := daysBeforeYear_succ d.year
  omega

theorem year_ofDays_toDays {d : Date} (real : d.Exists) : (Date.ofDays d.toDays).year = d.year := by
  obtain ⟨low, high⟩ := real.toDays_bounds
  have first : d.year ≤ (Date.ofDays d.toDays).year := le_year_ofDays_iff.mpr low
  have last : ¬ d.year + 1 ≤ (Date.ofDays d.toDays).year := by
    rw [le_year_ofDays_iff]
    omega
  omega

/-- A date that exists is the one that its days lead to. -/
theorem ofDays_toDays {d : Date} (real : d.Exists) : Date.ofDays d.toDays = d := by
  obtain ⟨i, bound, day, month, dayOfMonth, inside, total⟩ := real.cases
  obtain ⟨year, j, boundFound, other, date, insideFound, totalFound⟩ := ofDays_cases d.toDays
  have same := year_ofDays_toDays real
  rw [date] at same
  obtain rfl : year = d.year := same
  have rest : ((monthLengths (isLeapYear d.year)).take j).sum + other =
      ((monthLengths (isLeapYear d.year)).take i).sum + day := by omega
  have found := monthAndDay_sum 1 boundFound insideFound
  rw [rest, monthAndDay_sum 1 bound inside, Prod.mk.injEq] at found
  rw [date, ← found.1, ← found.2, ← month, ← dayOfMonth]

end Calendar

/-! ### Instants -/

namespace Instant

theorem eq_of_parts {d e : Instant} (seconds : d.seconds = e.seconds) (nanos : d.nanos = e.nanos)
    (leap : d.leap = e.leap) : d = e := by
  cases d
  cases e
  simp_all

theorem ofParts?_eq_some_iff {seconds : Int} {nanos : Nat} {leap : Bool} {d : Instant} :
    ofParts? seconds nanos leap = some d ↔ d.seconds = seconds ∧ d.nanos = nanos ∧ d.leap = leap := by
  unfold ofParts?
  constructor
  · intro made
    split at made <;> cases made
    exact ⟨rfl, rfl, rfl⟩
  · rintro ⟨rfl, rfl, rfl⟩
    exact dif_pos ⟨d.nanos_lt, d.inReach⟩

theorem valid_fields (d : Instant) : d.fields.Valid := by
  refine ⟨Calendar.exists_ofDays _, ?_⟩
  simp only [fields]
  split <;> omega

/-- The seconds from the epoch to a date and time of day, a second 60 counted as the one before it. -/
def Fields.seconds (f : Fields) : Int :=
  f.date.toDays * 86400 + (f.hour * 3600 + f.minute * 60 + min 59 f.second : Nat)

theorem ofFields?_eq_some_iff {f : Fields} {shift : Int} {d : Instant} : ofFields? f shift = some d ↔
    f.Valid ∧ d.seconds = f.seconds - shift ∧ d.nanos = f.nanos ∧ d.leap = (f.second == 60) := by
  have seconds : f.date.toDays * 86400 + (f.hour * 3600 + f.minute * 60 + min 59 f.second : Int) - shift =
      f.seconds - shift := by
    simp only [Fields.seconds]
    omega
  unfold ofFields?
  dsimp only
  rw [seconds]
  split
  · rename_i valid
    simp only [ofParts?_eq_some_iff, valid, true_and]
  · rename_i invalid
    simp [invalid]

/-- An instant is in no leap second, or in one at the end of a minute. -/
def LeapEndsMinute (d : Instant) : Prop := d.leap = true → d.seconds % 60 = 59

instance (d : Instant) : Decidable d.LeapEndsMinute := inferInstanceAs (Decidable (_ → _))

theorem leapEndsMinute_of_plain {d : Instant} (plain : d.leap = false) : d.LeapEndsMinute := by
  intro leap
  rw [plain] at leap
  cases leap

/-- What fields name has its leap second at the end of a minute, in any zone that is whole minutes off. -/
theorem leapEndsMinute_ofFields? {f : Fields} {shift : Int} {d : Instant} (named : ofFields? f shift = some d)
    (whole : shift % 60 = 0) : d.LeapEndsMinute := by
  obtain ⟨-, seconds, -, leap⟩ := ofFields?_eq_some_iff.mp named
  intro mark
  rw [mark] at leap
  have last : f.second = 60 := beq_iff_eq.mp leap.symm
  simp only [seconds, Fields.seconds, last]
  omega

/-- An instant is the one that its own date and time of day name. -/
theorem ofFields?_fields {d : Instant} (ends : d.LeapEndsMinute) : ofFields? d.fields 0 = some d := by
  rw [ofFields?_eq_some_iff]
  refine ⟨d.valid_fields, ?_, rfl, ?_⟩
  · simp only [Fields.seconds, fields, Calendar.toDays_ofDays]
    cases mark : d.leap <;> simp [LeapEndsMinute, mark] at ends ⊢ <;> omega
  · simp only [fields, beq_eq_decide]
    cases mark : d.leap <;> simp [LeapEndsMinute, mark] at ends ⊢ <;> omega

/-- An instant has the fraction of another in the second after it, and is in no leap second. -/
structure Follows (e d : Instant) : Prop where
  seconds : e.seconds = d.seconds + 1
  nanos : e.nanos = d.nanos
  plain : e.leap = false

theorem exists_follows {d : Instant} (within : ¬ d.LeapEndsMinute) : ∃ e : Instant, e.Follows d := by
  obtain ⟨-, early⟩ := Classical.not_imp.mp within
  -- The last second of all ends a minute, so this is not the last.
  have bounds := inReach_iff_bounds.mp d.inReach
  have reach : InReach (d.seconds + 1) := inReach_iff_bounds.mpr (by omega)
  exact ⟨⟨d.seconds + 1, d.nanos, false, d.nanos_lt, reach⟩, rfl, rfl, rfl⟩

/-- A leap second within a minute has the date and time of day of the second after it. -/
theorem Follows.fields_eq {e d : Instant} (follows : e.Follows d) (within : ¬ d.LeapEndsMinute) : e.fields = d.fields := by
  obtain ⟨leap, early⟩ := Classical.not_imp.mp within
  have day : (d.seconds + 1) / 86400 = d.seconds / 86400 := by omega
  simp only [fields, follows.seconds, follows.nanos, follows.plain, leap, day, Fields.mk.injEq, true_and, and_true]
  simp only [Bool.false_eq_true, if_true, if_false]
  omega

/-- The fields that name an instant are its own. -/
theorem fields_ofFields? {f : Fields} {d : Instant} (named : ofFields? f 0 = some d) : d.fields = f := by
  obtain ⟨valid, seconds, nanos, leap⟩ := ofFields?_eq_some_iff.mp named
  obtain ⟨real, hour, minute, second⟩ := valid
  obtain ⟨date, h, m, s, n⟩ := f
  simp only [Fields.seconds] at seconds real hour minute second nanos leap
  have day : d.seconds / 86400 = date.toDays := by omega
  simp only [fields, day, Calendar.ofDays_toDays real, nanos, leap, Fields.mk.injEq, true_and, and_true]
  refine ⟨by omega, by omega, ?_⟩
  by_cases last : s = 60
  · simp [last]
    omega
  · simp [last]
    omega

/-- Valid fields in the years 0 to 9999 name an instant, whatever the zone. -/
theorem exists_ofFields? {f : Fields} (valid : f.Valid) (low : 0 ≤ f.date.year) (high : f.date.year ≤ 9999)
    (fits : f.nanos < 1000000000) {shift : Int} (small : shift.natAbs < 86400) : ∃ d, ofFields? f shift = some d := by
  obtain ⟨first, last⟩ := valid.1.toDays_bounds
  have hour := valid.2.1
  have minute := valid.2.2.1
  have start := Calendar.daysBeforeYear_mono low
  have stop := Calendar.daysBeforeYear_mono (show f.date.year + 1 ≤ 10000 by omega)
  have reach : InReach (f.seconds - shift) := by
    have days : Calendar.daysBeforeYear 0 = -366 ∧ Calendar.daysBeforeYear 10000 = 3652059 ∧ Calendar.epoch = 719162 :=
      ⟨rfl, rfl, rfl⟩
    simp only [inReach_iff_bounds, Fields.seconds]
    omega
  exact ⟨⟨f.seconds - shift, f.nanos, f.second == 60, fits, reach⟩,
    ofFields?_eq_some_iff.mpr ⟨valid, rfl, rfl, rfl⟩⟩

/-- The instants within reach are those of the years from the first to the last. -/
theorem inReach_iff {seconds : Int} : InReach seconds ↔
    firstYear ≤ (Calendar.Date.ofDays (seconds / 86400)).year ∧
      (Calendar.Date.ofDays (seconds / 86400)).year ≤ lastYear := by
  have first := @Calendar.le_year_ofDays_iff firstYear (seconds / 86400)
  have beyond := @Calendar.le_year_ofDays_iff (lastYear + 1) (seconds / 86400)
  simp only [InReach, secondsBeforeYear]
  omega

end Instant

end Conform
