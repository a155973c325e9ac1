import Conform.Proofs.DateText
import Conform.Proofs.NumberText
import Conform.Proofs.RoundTrip

/-!
# Scalars from their text

The text that the type `string` gives a boolean, a finite number or a date is taken by the type of the scalar as that
scalar again (`text_coercion_restores`). Only a date outside the years 0 to 9999 is refused, and only a leap second within
a minute becomes another date, the one after it, whose text it has (`leap_within_minute_moves`).
-/

namespace Conform

namespace Binary64

open Conform.Json Conform.Text

/-! ### Numbers with the point in place -/

theorem positional_chars (d : Decimal) : ∀ c ∈ d.positional false, c.isDigit ∨ c = '.' := by
  have digits := isDigit_toDigits d.digits
  have zeros : ∀ {n c}, c ∈ List.replicate n '0' → c.isDigit := fun member => List.eq_of_mem_replicate member ▸ rfl
  unfold Decimal.positional
  intro c member
  dsimp only at member
  split at member
  · rw [if_neg (by simp), List.append_nil, List.mem_append] at member
    exact .inl (member.elim (digits c) zeros)
  · split at member
    · rw [List.mem_append, List.mem_cons] at member
      rcases member with front | rfl | back
      · exact .inl (digits c (List.mem_of_mem_take front))
      · exact .inr rfl
      · exact .inl (digits c (List.mem_of_mem_drop back))
    · simp only [List.cons_append, List.mem_cons, List.mem_append] at member
      rcases member with rfl | rfl | zero | digit
      · exact .inl rfl
      · exact .inr rfl
      · exact .inl (zeros zero)
      · exact .inl (digits c digit)

theorem literalText_point {whole fraction : List Char} (all : ∀ c ∈ whole, c.isDigit) (part : ∀ c ∈ fraction, c.isDigit)
    (nonempty : whole ++ fraction ≠ []) :
    LiteralText (whole ++ '.' :: fraction) ⟨decimal (whole ++ fraction), -fraction.length⟩ := by
  have literal := LiteralText.intro all (.point part) nonempty .none
  rwa [List.append_nil, Int.zero_sub] at literal

/-- A decimal with its point in place is a literal for it, but for zeros after its digits. -/
theorem literalText_positional (d : Decimal) :
    ∃ zeros : Nat, LiteralText (d.positional false) ⟨d.digits * 10 ^ zeros, d.exponent - zeros⟩ := by
  have digits := isDigit_toDigits d.digits
  have nonempty : Nat.toDigits 10 d.digits ≠ [] := Nat.toDigits_ne_nil
  have value : decimal (Nat.toDigits 10 d.digits) = d.digits := Nat.ofDigitChars_ten_toDigits
  have zeros : ∀ n, ∀ c ∈ List.replicate n '0', c.isDigit := fun n c member => List.eq_of_mem_replicate member ▸ rfl
  unfold Decimal.positional
  dsimp only
  split
  · have all : ∀ c ∈ Nat.toDigits 10 d.digits ++ List.replicate d.exponent.toNat '0', c.isDigit :=
      fun c member => (List.mem_append.mp member).elim (digits c) (zeros _ c)
    have literal := LiteralText.intro all .none (by simp [nonempty]) .none
    refine ⟨d.exponent.toNat, ?_⟩
    rw [show d.exponent - (d.exponent.toNat : Int) = 0 by omega]
    simpa [decimal_append_zeros, value] using literal
  · refine ⟨0, ?_⟩
    rw [Nat.pow_zero, Nat.mul_one, Int.natCast_zero, Int.sub_zero]
    split
    · rename_i scaled inside
      generalize point : ((Nat.toDigits 10 d.digits).length + d.exponent : Int).toNat = place
      have literal := literalText_point (fun c member => digits c (List.mem_of_mem_take member))
        (fun c member => digits c (List.mem_of_mem_drop member))
        (by rwa [List.take_append_drop (i := place)])
      rw [List.take_append_drop, value, List.length_drop] at literal
      rwa [show -(((Nat.toDigits 10 d.digits).length - place : Nat) : Int) = d.exponent by omega] at literal
    · generalize many : (-((Nat.toDigits 10 d.digits).length + d.exponent) : Int).toNat = count
      have part : ∀ c ∈ List.replicate count '0' ++ Nat.toDigits 10 d.digits, c.isDigit :=
        fun c member => (List.mem_append.mp member).elim (zeros _ c) (digits c)
      have literal := literalText_point (zeros 1) part (by simp)
      rw [← List.append_assoc, ← List.replicate_add, decimal_zeros_append, value, List.length_append,
        List.length_replicate] at literal
      rwa [show -((count + (Nat.toDigits 10 d.digits).length : Nat) : Int) = d.exponent by omega] at literal

/-! ### Texts of numbers -/

theorem numberStyle_write (negative : Bool) (rank : Nat) : Value.numberStyle.write negative rank =
    (if negative then ['-'] else []) ++ (shortest .up rank).positional false := rfl

theorem write_chars (negative : Bool) (rank : Nat) :
    ∀ c ∈ Value.numberStyle.write negative rank, c.isDigit ∨ c = '.' ∨ c = '-' := by
  intro c member
  rw [numberStyle_write, List.mem_append] at member
  rcases member with sign | digit
  · cases negative with
    | false => cases sign
    | true => exact .inr (.inr (List.mem_singleton.mp sign))
  · rcases positional_chars _ c digit with digit | point
    · exact .inl digit
    · exact .inr (.inl point)

/-- The text of a finite number is a decimal for it, and no integer in a base. -/
theorem numberText_write (negative : Bool) (rank : Fin rankCount) :
    LeafType.NumberText (Value.numberStyle.write negative rank) (finite negative rank) := by
  obtain ⟨zeros, literal⟩ := literalText_positional (shortest .up rank)
  have signed : SignText (if negative then ['-'] else []) negative := by
    cases negative
    · exact .none
    · exact .minus
  have rounded : ofLiteral negative ⟨(shortest .up rank).digits * 10 ^ zeros, (shortest .up rank).exponent - zeros⟩ =
      finite negative rank := by
    rw [ofLiteral, ofDecimal_eq, decimalRank_mul_pow, decimalRank_shortest, ofRank_of_lt rank.isLt]
  refine .decimal ?_ (.intro signed literal) (nearestDecimal_iff.mpr ⟨rounded, rfl⟩)
  intro mark base digits marked same
  have inside : mark ∈ Value.numberStyle.write negative rank := by
    rw [same]
    simp
  have char := write_chars negative rank mark inside
  simp only [LeafType.marks, List.mem_cons, Prod.mk.injEq, List.not_mem_nil, or_false] at marked
  rcases marked with ⟨rfl, -⟩ | ⟨rfl, -⟩ | ⟨rfl, -⟩ | ⟨rfl, -⟩ | ⟨rfl, -⟩ | ⟨rfl, -⟩ <;> simp at char

theorem trim_write (negative : Bool) (rank : Nat) :
    trim (Value.numberStyle.write negative rank) = Value.numberStyle.write negative rank := by
  have blank : ∀ c ∈ Value.numberStyle.write negative rank, isBlank c = false := by
    intro c member
    rcases write_chars negative rank c member with digit | rfl | rfl
    · exact isBlank_of_isDigit digit
    · rfl
    · rfl
  exact trim_eq_self (fun c first => blank c (List.mem_of_head? first)) fun c last => blank c (List.mem_of_getLast? last)

end Binary64

namespace LeafType

open Conform.Text

theorem takes_numberText {x : Binary64} (whole : x.isFinite) :
    number.Takes (.string (Value.numberText x)) (.number x) := by
  cases x with
  | finite negative rank =>
    apply takes_of_numberText
    rw [Value.numberText, String.toList_ofList, Binary64.trim_write]
    exact Binary64.numberText_write negative rank
  | _ => cases whole

/-! ### Texts of dates -/

theorem takes_dateText {t : List Char} {d : Instant} (read : Instant.ofText? t = some d) :
    date.Takes (.string (String.ofList t)) (.date d) := by
  apply takes_of_coerce
  simp [coerce?, dateOf?, read]

theorem refuses_dateText {d : Instant} (other : ¬ d.InCommonYears) {zone : List Char} (utc : Instant.ZoneText zone 0) :
    date.Refuses "Not a date" (.string (String.ofList (d.fields.text ++ zone))) := by
  apply refuses_of_coerce
  simp [coerce?, dateOf?, Instant.ofText?_fields_eq_none other utc]

theorem zoneText_zero : Instant.ZoneText ['+', '0', '0', ':', '0', '0'] 0 := by
  have zeros : Instant.FixedText 2 ['0', '0'] 0 := ⟨rfl, by simp, rfl⟩
  exact .offset (.inl rfl) zeros zeros (by decide) (by decide)

/-- What the type `date` makes of a text that stands for a date: that date, or the one after it for a leap second within a
minute, but none outside the years 0 to 9999. -/
structure Restores (s : String) (d : Instant) : Prop where
  same : d.InCommonYears → d.LeapEndsMinute → date.Takes (.string s) (.date d)
  next : d.InCommonYears → ¬ d.LeapEndsMinute → ∃ e : Instant, e.Follows d ∧ date.Takes (.string s) (.date e)
  none : ¬ d.InCommonYears → date.Refuses "Not a date" (.string s)

theorem restores_text (d : Instant) {zone : List Char} (utc : Instant.ZoneText zone 0) :
    Restores (String.ofList (d.fields.text ++ zone)) d := by
  refine ⟨?_, ?_, fun other => refuses_dateText other utc⟩
  · exact fun common ends => takes_dateText (Instant.ofText?_fields common ends utc)
  · intro common within
    obtain ⟨e, follows⟩ := Instant.exists_follows within
    exact ⟨e, follows, takes_dateText (Instant.ofText?_fields_of_follows common within follows utc)⟩

theorem ofJsonText_write_date (d : Instant) {layout : Json.Layout}
    (known : layout = Json.compact ∨ layout = Json.indented) :
    Value.ofJsonText (Json.write layout 0 (.date d)) = .ok (.string (String.ofList d.textZ)) :=
  Value.ofJsonText_write (show (Value.date d).Distinct from True.intro) (by simp [Value.depth])
    (Value.spaced_of_known known)

/-- A boolean or a finite number that was made a string is itself again as a boolean or a number. So is a date in the
years 0 to 9999, whether the type `string` or a document made it a string, but that a leap second within a minute becomes
the second after it. Any other date is then none. -/
theorem text_coercion_restores :
    (∀ b : Bool, ∃ s, string.Takes (.bool b) (.string s) ∧ boolean.Takes (.string s) (.bool b)) ∧
    (∀ x : Binary64, x.isFinite → ∃ s, string.Takes (.number x) (.string s) ∧ number.Takes (.string s) (.number x)) ∧
    (∀ d : Instant, ∃ s, string.Takes (.date d) (.string s) ∧ Restores s d) ∧
    ∀ (d : Instant) (layout : Json.Layout), layout = Json.compact ∨ layout = Json.indented →
      ∃ s, Value.ofJsonText (Json.write layout 0 (.date d)) = .ok (.string s) ∧ Restores s d := by
  refine ⟨?_, ?_, ?_, ?_⟩
  · intro b
    refine ⟨(Value.bool b).text, takes_of_coerce rfl, takes_of_coerce ?_⟩
    cases b <;> rfl
  · intro x whole
    exact ⟨Value.numberText x, takes_of_coerce rfl, takes_numberText whole⟩
  · exact fun d => ⟨String.ofList d.text, takes_of_coerce rfl, restores_text d zoneText_zero⟩
  · exact fun d layout known => ⟨_, ofJsonText_write_date d known, restores_text d (.utc (.inl rfl))⟩

/-- In the first second of the year 10000. -/
def farSecond : Instant := ⟨253402300800, 250000000, false, by decide, by decide⟩

/-- A leap second with a fraction. -/
def leapSecond : Instant := ⟨1483228799, 120000000, true, by decide, by decide⟩

/-- A quarter into a leap second after the first second of an afternoon. -/
def noonLeap : Instant := ⟨1709294400, 250000000, true, by decide, by decide⟩

/-- A zero keeps its sign and a leap second at the end of a year its fraction, one after noon becomes the second after it,
and a date with a year of five digits is none. -/
theorem signs_and_seconds_kept :
    (∃ s, string.Takes (.number (.zero true)) (.string s) ∧ number.Takes (.string s) (.number (.zero true))) ∧
    (∃ s, string.Takes (.date leapSecond) (.string s) ∧ date.Takes (.string s) (.date leapSecond)) ∧
    (∃ s e, string.Takes (.date noonLeap) (.string s) ∧ date.Takes (.string s) (.date e) ∧ e.seconds = 1709294401 ∧
      e.nanos = 250000000 ∧ e.leap = false) ∧
    ∃ s, Value.ofJsonText (Json.write Json.compact 0 (.date farSecond)) = .ok (.string s) ∧
      date.Refuses "Not a date" (.string s) := by
  obtain ⟨-, numbers, dates, documents⟩ := text_coercion_restores
  refine ⟨numbers (.zero true) rfl, ?_, ?_, ?_⟩
  · obtain ⟨s, written, restores⟩ := dates leapSecond
    exact ⟨s, written, restores.same (by decide) (by decide)⟩
  · obtain ⟨s, written, restores⟩ := dates noonLeap
    obtain ⟨e, follows, read⟩ := restores.next (by decide) (by decide)
    exact ⟨s, e, written, read, follows.seconds, follows.nanos, follows.plain⟩
  · obtain ⟨s, written, restores⟩ := documents farSecond Json.compact (.inl rfl)
    exact ⟨s, written, restores.none (by decide)⟩

/-- A second and a quarter after noon, in no leap second. -/
def afterNoon : Instant := ⟨1709294401, 250000000, false, by decide, by decide⟩

/-- A leap second within a minute has the text of the second after it, and is that when it is a date again. -/
theorem leap_within_minute_moves : noonLeap.InCommonYears ∧ afterNoon ≠ noonLeap ∧
    string.Takes (.date noonLeap) (.string "2024-03-01T12:00:01.250+00:00") ∧
    date.Takes (.string "2024-03-01T12:00:01.250+00:00") (.date afterNoon) ∧
    ¬ date.Takes (.string "2024-03-01T12:00:01.250+00:00") (.date noonLeap) ∧
    Value.ofJsonText (Json.write Json.compact 0 (.date noonLeap)) = .ok (.string "2024-03-01T12:00:01.250Z") ∧
    date.Takes (.string "2024-03-01T12:00:01.250Z") (.date afterNoon) ∧
    ¬ date.Takes (.string "2024-03-01T12:00:01.250Z") (.date noonLeap) := by
  have common : noonLeap.InCommonYears := by decide
  have other : afterNoon ≠ noonLeap := by decide
  have follows : afterNoon.Follows noonLeap := ⟨rfl, rfl, rfl⟩
  have text : String.ofList noonLeap.text = "2024-03-01T12:00:01.250+00:00" := by decide +kernel
  have textZ : String.ofList noonLeap.textZ = "2024-03-01T12:00:01.250Z" := by decide +kernel
  have read : ∀ {zone}, Instant.ZoneText zone 0 →
      date.Takes (.string (String.ofList (noonLeap.fields.text ++ zone))) (.date afterNoon) :=
    fun utc => takes_dateText (Instant.ofText?_fields_of_follows common (by decide) follows utc)
  have moved : ∀ {s}, date.Takes (.string s) (.date afterNoon) → ¬ date.Takes (.string s) (.date noonLeap) :=
    fun taken takenToo => other (Value.date.inj (taken.unique takenToo))
  have first := text ▸ read zoneText_zero
  have second := textZ ▸ read (.utc (.inl rfl))
  exact ⟨common, other, text ▸ takes_of_coerce rfl, first, moved first,
    textZ ▸ ofJsonText_write_date noonLeap (.inl rfl), second, moved second⟩

end LeafType

end Conform
