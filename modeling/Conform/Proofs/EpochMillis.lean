import Conform.Proofs.Calendar
import Conform.Proofs.Coercion

/-!
# Dates and milliseconds

A number is taken for the date so many milliseconds from the epoch, its fraction dropped, if the year of that date is one
that dates can have. A date is taken for its milliseconds, rounded down, and no date is so far off that they are not a
number (`millis_convert_exactly`).
-/

namespace Conform

namespace Instant

/-- The nanoseconds from the epoch to an instant, one in a leap second counted as one in the second after it. -/
def epochNanos (d : Instant) : Int := (d.seconds + if d.leap then 1 else 0) * 1000000000 + d.nanos

/-- The day so many milliseconds from the epoch lies in a year that dates can have. -/
def DatesMillis (millis : Int) : Prop :=
  -262143 ≤ (Calendar.Date.ofDays (millis / 86400000)).year ∧ (Calendar.Date.ofDays (millis / 86400000)).year ≤ 262142

theorem inReach_millis_iff {millis : Int} : InReach (millis / 1000) ↔ DatesMillis millis := by
  have day : millis / 1000 / 86400 = millis / 86400000 := by omega
  rw [inReach_iff, day]
  rfl

theorem millis_eq (d : Instant) : d.millis = d.epochNanos / 1000000 := by
  simp only [millis, epochNanos]
  omega

/-- But for leap seconds, an instant is named by its nanoseconds. -/
theorem eq_of_epochNanos {d e : Instant} (first : d.leap = false) (second : e.leap = false)
    (same : d.epochNanos = e.epochNanos) : d = e := by
  have fraction := d.nanos_lt
  have other := e.nanos_lt
  simp only [epochNanos, first, second, Bool.false_eq_true, if_false] at same
  exact eq_of_parts (by omega) (by omega) (first.trans second.symm)

/-- The instants that milliseconds name are those in no leap second and with no finer fraction. -/
theorem ofMillis?_eq_some_iff {millis : Int} {d : Instant} :
    ofMillis? millis = some d ↔ d.leap = false ∧ d.epochNanos = millis * 1000000 := by
  rw [ofMillis?, ofParts?_eq_some_iff]
  have fraction := d.nanos_lt
  constructor
  · rintro ⟨seconds, nanos, leap⟩
    refine ⟨leap, ?_⟩
    simp only [epochNanos, leap, Bool.false_eq_true, if_false]
    omega
  · rintro ⟨leap, same⟩
    simp only [epochNanos, leap, Bool.false_eq_true, if_false] at same
    exact ⟨by omega, by omega, leap⟩

theorem exists_ofMillis? {millis : Int} (dated : DatesMillis millis) : ∃ d, ofMillis? millis = some d := by
  have found := (ofMillis?_isSome_iff millis).mpr (inReach_millis_iff.mpr dated)
  exact Option.isSome_iff_exists.mp found

theorem ofMillis?_eq_none {millis : Int} (undated : ¬ DatesMillis millis) : ofMillis? millis = none := by
  rw [← Option.not_isSome_iff_eq_none, ofMillis?_isSome_iff, inReach_millis_iff]
  exact undated

/-- The milliseconds of an instant in no leap second lie in the same year. -/
theorem datesMillis_millis {d : Instant} (plain : d.leap = false) : DatesMillis d.millis := by
  have fraction := d.nanos_lt
  have second : d.millis / 1000 = d.seconds := by
    simp only [millis, plain, Bool.false_eq_true, if_false]
    omega
  rw [← inReach_millis_iff, second]
  exact d.inReach

end Instant

namespace LeafType

theorem takes_millis {x : Binary64} {millis : Int} {d : Instant} (value : x.truncate? = some millis)
    (named : Instant.ofMillis? millis = some d) : date.Takes (.number x) (.date d) := by
  apply takes_of_coerce
  simp [coerce?, dateOf?, Value.dateOfMillis?, value, named]

theorem takes_date (d : Instant) : ∃ x, number.Takes (.date d) (.number x) ∧ x.integer? = some d.millis := by
  have whole : (Binary64.ofInt d.millis).isFinite := Binary64.isFinite_ofInt d.millis_small
  exact ⟨_, takes_of_numberOf rfl whole, Binary64.integer?_ofInt d.millis_lt⟩

theorem refuses_millis {x : Binary64} (undated : ∀ millis, x.truncate? = some millis → ¬ Instant.DatesMillis millis) :
    date.Refuses "Not a date" (.number x) := by
  apply refuses_of_coerce
  cases value : x.truncate? with
  | none => simp [coerce?, dateOf?, Value.dateOfMillis?, value]
  | some millis => simp [coerce?, dateOf?, Value.dateOfMillis?, value, Instant.ofMillis?_eq_none (undated millis value)]

/-- A number stands for the date at its milliseconds, its fraction dropped, and that date for just these; a number whose
milliseconds lie in no year of dates, or that has none, is no date. A date stands for its milliseconds rounded down, and
these, but in a leap second, for the date without what was rounded off. -/
theorem millis_convert_exactly :
    (∀ (n : Binary64) (millis : Int), n.truncate? = some millis → Instant.DatesMillis millis →
      ∃ d x, date.Takes (.number n) (.date d) ∧ d.leap = false ∧ d.epochNanos = millis * 1000000 ∧
        number.Takes (.date d) (.number x) ∧ x.integer? = some millis) ∧
    (∀ n : Binary64, (∀ millis, n.truncate? = some millis → ¬ Instant.DatesMillis millis) →
      date.Refuses "Not a date" (.number n)) ∧
    ∀ d : Instant, ∃ x, number.Takes (.date d) (.number x) ∧ x.integer? = some (d.epochNanos / 1000000) ∧
      (d.leap = false → ∃ e, date.Takes (.number x) (.date e) ∧ e.leap = false ∧
        e.epochNanos = d.epochNanos / 1000000 * 1000000 ∧ (d.nanos % 1000000 = 0 → e = d)) := by
  refine ⟨?_, fun n => refuses_millis, ?_⟩
  · intro n millis given dated
    obtain ⟨d, named⟩ := Instant.exists_ofMillis? dated
    obtain ⟨x, taken, value⟩ := takes_date d
    obtain ⟨plain, same⟩ := Instant.ofMillis?_eq_some_iff.mp named
    refine ⟨d, x, takes_millis given named, plain, same, taken, ?_⟩
    rw [value, Instant.millis_eq, same, Int.mul_ediv_cancel _ (by decide)]
  · intro d
    obtain ⟨x, taken, value⟩ := takes_date d
    refine ⟨x, taken, by rw [value, Instant.millis_eq], ?_⟩
    intro plain
    obtain ⟨e, named⟩ := Instant.exists_ofMillis? (Instant.datesMillis_millis plain)
    obtain ⟨plainFound, same⟩ := Instant.ofMillis?_eq_some_iff.mp named
    rw [Instant.millis_eq] at same
    refine ⟨e, takes_millis (Binary64.truncate?_of_integer? value) named, plainFound, same, ?_⟩
    intro whole
    apply Instant.eq_of_epochNanos plainFound plain
    rw [same]
    simp only [Instant.epochNanos]
    omega

/-- One and a half milliseconds before the epoch, what is not a number, and the last instant of 1969. -/
theorem converted_before_epoch : ∃ n last : Binary64, n = .ofDecimal true 15 (-1) ∧
    (∃ d x, date.Takes (.number n) (.date d) ∧ number.Takes (.date d) (.number x) ∧ x.integer? = some (-1)) ∧
    date.Refuses "Not a date" (.number .nan) ∧
    number.Takes (.date ⟨-1, 999999999, false, by decide, by decide⟩) (.number last) ∧
    last.integer? = some (-1) ∧ ∃ e, date.Takes (.number last) (.date e) ∧ e.epochNanos = -1000000 := by
  obtain ⟨dated, undated, exactly⟩ := millis_convert_exactly
  have value : (Binary64.ofDecimal true 15 (-1)).truncate? = some (-1) := by decide +kernel
  obtain ⟨d, x, taken, -, -, back, integer⟩ := dated _ (-1) value (by unfold Instant.DatesMillis; decide)
  obtain ⟨last, number, milliseconds, rounded⟩ :=
    exactly ⟨-1, 999999999, false, by decide, by decide⟩
  obtain ⟨e, floor, -, same, -⟩ := rounded rfl
  exact ⟨_, last, rfl, ⟨d, x, taken, back, integer⟩, undated .nan nofun, number, milliseconds, e, floor, same⟩

end LeafType

end Conform
