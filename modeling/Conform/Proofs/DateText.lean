import Conform.Instant.Printer
import Conform.Proofs.DateForms

/-!
# Dates read back

The text of an instant is a date and time in loose fields with a zone after it, and in the years 0 to 9999 its fields
have fixed widths. So in these years it is read as that instant, its fraction and a leap second at the end of a minute
included (`ofText?_fields`), and in others it is not read at all (`ofText?_fields_eq_none`). A leap second within a minute
has the text of the second after it and is read as that (`ofText?_fields_of_follows`).
-/

namespace Conform.Instant

open Conform.Text

variable {zone : List Char}

/-! ### Fractions -/

/-- The digits that are written for a fraction of a second. -/
def fractionDigits (nanos : Nat) : Option (List Char) :=
  if nanos = 0 then none
  else if nanos % 1000000 = 0 then some (padded 3 (nanos / 1000000))
  else if nanos % 1000 = 0 then some (padded 6 (nanos / 1000))
  else some (padded 9 nanos)

theorem point_fractionDigits (nanos : Nat) : Stamp.point (fractionDigits nanos) = fractionText nanos := by
  unfold fractionDigits fractionText
  grind [Stamp.point]

theorem pointText_padded {width n : Nat} (pos : 0 < width) (most : width ≤ 9) (fits : n < 10 ^ width) :
    PointText ('.' :: padded width n) (some (padded width n)) ∧
      Stamp.nanos (some (padded width n)) = n * 10 ^ (9 - width) := by
  have length := length_padded pos fits
  have nonempty : padded width n ≠ [] := List.ne_nil_of_length_pos (by omega)
  have kept : (padded width n).take 9 = padded width n := List.take_of_length_le (by omega)
  refine ⟨.point nonempty (isDigit_padded width n), ?_⟩
  simp only [Stamp.nanos, Option.map_some, Option.getD_some, nanosOfDigits, kept, length, decimal_padded]
  rfl

theorem pointText_fraction {nanos : Nat} (fits : nanos < 1000000000) :
    PointText (Stamp.point (fractionDigits nanos)) (fractionDigits nanos) ∧
      Stamp.nanos (fractionDigits nanos) = nanos := by
  unfold fractionDigits
  split
  · rename_i zero
    exact ⟨.none, zero.symm⟩
  · split
    · obtain ⟨text, value⟩ := pointText_padded (show 0 < 3 by decide) (by decide) (show nanos / 1000000 < 10 ^ 3 by omega)
      exact ⟨text, value.trans (by omega)⟩
    · split
      · obtain ⟨text, value⟩ := pointText_padded (show 0 < 6 by decide) (by decide) (show nanos / 1000 < 10 ^ 6 by omega)
        exact ⟨text, value.trans (by omega)⟩
      · obtain ⟨text, value⟩ := pointText_padded (show 0 < 9 by decide) (by decide) (show nanos < 10 ^ 9 by omega)
        exact ⟨text, value.trans (by omega)⟩

/-! ### Fields -/

/-- What the text of fields writes. -/
def Fields.stamp (f : Fields) : Stamp := ⟨f.date, f.hour, f.minute, f.second, fractionDigits f.nanos⟩

theorem Fields.fields_stamp {f : Fields} (fits : f.nanos < 1000000000) : f.stamp.fields = f := by
  rw [stamp, Stamp.fields, (pointText_fraction fits).2]

theorem looseText_padded {n : Nat} (fits : n < 100) : LooseText 2 (padded 2 n) n := by
  have written : FixedText 2 (padded 2 n) n := fixedText_padded (by decide) fits
  exact written.loose (written.ne_nil (by decide))

theorem looseYearText_yearText (year : Int) : LooseYearText (yearText year) year := by
  have digits := isDigit_padded 4 year.natAbs
  have nonempty := padded_ne_nil 4 year.natAbs
  unfold yearText
  split
  · rename_i before
    have written : LooseYearText ([] ++ '-' :: padded 4 year.natAbs) (-(decimal (padded 4 year.natAbs) : Int)) :=
      .signed nofun (.inr rfl) nonempty digits
    rw [decimal_padded, show -(year.natAbs : Int) = year by omega] at written
    exact written
  · split
    · have written : LooseYearText ([] ++ '+' :: padded 4 year.natAbs) (decimal (padded 4 year.natAbs) : Int) :=
        .signed nofun (.inl rfl) nonempty digits
      rw [decimal_padded, show (year.natAbs : Int) = year by omega] at written
      exact written
    · have written : FixedText 4 (padded 4 year.natAbs) year.natAbs := fixedText_padded (by decide) (by omega)
      have loose := LooseYearText.plain (written.loose nonempty)
      rwa [show (year.natAbs : Int) = year by omega] at loose

theorem Fields.Valid.bounds {f : Fields} (valid : f.Valid) :
    f.date.month < 100 ∧ f.date.day < 100 ∧ f.hour < 100 ∧ f.minute < 100 ∧ f.second < 100 := by
  obtain ⟨real, hour, minute, second⟩ := valid
  have bounds := real.bounds
  omega

theorem unzonedText_fields {f : Fields} (valid : f.Valid) (fits : f.nanos < 1000000000) :
    UnzonedText f.text f.stamp := by
  obtain ⟨month, day, hour, minute, second⟩ := valid.bounds
  have written := UnzonedText.intro
    (.intro (looseYearText_yearText f.date.year) (looseText_padded month) (looseText_padded day)) (looseText_padded hour)
    (looseText_padded minute) (looseText_padded second) (pointText_fraction fits).1
  rw [point_fractionDigits] at written
  unfold Fields.text
  simp only [List.append_assoc, List.cons_append] at written ⊢
  exact written

theorem Fields.text_eq_inFull {f : Fields} (low : 0 ≤ f.date.year) (high : f.date.year ≤ 9999) :
    f.text = f.stamp.inFull := by
  rw [text, Stamp.inFull, stamp, point_fractionDigits, yearText, if_neg (by omega), if_neg (by omega)]

/-! ### Whole texts -/

/-- The year of an instant has four digits and no sign. -/
def InCommonYears (d : Instant) : Prop := 0 ≤ d.fields.date.year ∧ d.fields.date.year ≤ 9999

instance (d : Instant) : Decidable d.InCommonYears := inferInstanceAs (Decidable (_ ∧ _))

/-- The text of an instant in the common years is read as it, with whatever zone is at offset zero. -/
theorem ofText?_fields {d : Instant} (common : d.InCommonYears) (ends : d.LeapEndsMinute) (utc : ZoneText zone 0) :
    ofText? (d.fields.text ++ zone) = some d := by
  obtain ⟨low, high⟩ := common
  obtain ⟨month, day, hour, minute, second⟩ := d.valid_fields.bounds
  have fits : d.fields.nanos < 1000000000 := d.nanos_lt
  have written : ZonedText (d.fields.text ++ zone) d.fields.stamp 0 := by
    rw [Fields.text_eq_inFull low high]
    exact zonedText_inFull low high month day hour minute second (pointText_fraction fits).1 utc
  rw [ofText?_zoned (written.trim_eq.symm ▸ written), Fields.fields_stamp fits, ofFields?_fields ends]

theorem ofText?_textZ {d : Instant} (common : d.InCommonYears) (ends : d.LeapEndsMinute) : ofText? d.textZ = some d :=
  ofText?_fields common ends (.utc (.inl rfl))

/-- The text of a leap second within a minute is read as the second after it. -/
theorem ofText?_fields_of_follows {d e : Instant} (common : d.InCommonYears) (within : ¬ d.LeapEndsMinute)
    (follows : e.Follows d) (utc : ZoneText zone 0) : ofText? (d.fields.text ++ zone) = some e := by
  have same := follows.fields_eq within
  have commonToo : e.InCommonYears := by rwa [InCommonYears, same]
  rw [← same]
  exact ofText?_fields commonToo (leapEndsMinute_of_plain follows.plain) utc

/-- The sign of a year outside the common ones. -/
theorem head_text {f : Fields} (other : ¬ (0 ≤ f.date.year ∧ f.date.year ≤ 9999)) :
    ∃ c t, f.text = c :: t ∧ (c = '+' ∨ c = '-') := by
  unfold Fields.text yearText
  by_cases before : f.date.year < 0
  · rw [if_pos before]
    exact ⟨_, _, rfl, .inr rfl⟩
  · rw [if_neg before, if_pos (by omega)]
    exact ⟨_, _, rfl, .inl rfl⟩

/-- The text of an instant outside the common years is not read: its year has a sign, which no text with a zone has, and
a zone, which no other has. -/
theorem ofText?_fields_eq_none {d : Instant} (other : ¬ d.InCommonYears) (utc : ZoneText zone 0) :
    ofText? (d.fields.text ++ zone) = none := by
  obtain ⟨c, t, text, sign⟩ := head_text other
  obtain ⟨some, ends⟩ := endsFraction_zone utc
  have written := unzonedText_fields d.valid_fields d.nanos_lt
  have trimmed : trim (d.fields.text ++ zone) = d.fields.text ++ zone := by
    apply trim_append_zone _ _ utc
    · rw [text]
      rcases sign with rfl | rfl <;> simp [isBlank]
    · simp [text]
  rw [ofText?_eq_findSome?, Form.findSome?_of_no_match]
  rw [trimmed]
  rintro (_ | _ | _)
  · rintro ⟨stamp, shift, zoned⟩
    have digit := zoned.head c (by rw [text]; rfl)
    rcases sign with rfl | rfl <;> simp at digit
  · rintro ⟨stamp, unzoned⟩
    exact written.not_unzoned_append some ends unzoned
  · rintro ⟨date, day⟩
    exact written.not_day_append zone day

end Conform.Instant
