import Conform.LeafType
import Conform.Proofs.Scaling

/-!
# What stands for a value of a type

`Stands` says by the sort of value alone what each type takes, and `coerce?` finds a value exactly there
(`coerce?_isSome_iff`). What it finds has the kind of the type, is not null, is finite if it is a number, and
stands for itself (`coerce?_of_hasType`).
-/

namespace Conform

/-- The milliseconds of an instant have at most 53 binary digits. -/
theorem Instant.millis_lt (d : Instant) : d.millis.natAbs < 2 * Binary64.binade := by
  have reach := inReach_iff_bounds.mp d.inReach
  have nanos := d.nanos_lt
  simp only [millis, Binary64.binade]
  split <;> omega

theorem Instant.millis_small (d : Instant) : d.millis.natAbs < 1 <<< 64 := Nat.lt_trans d.millis_lt (by decide)

theorem Instant.ofMillis?_isSome_iff (millis : Int) :
    (ofMillis? millis).isSome ↔ InReach (millis / 1000) := by
  have fraction : (millis % 1000).toNat * 1000000 < 1000000000 := by omega
  unfold ofMillis? ofParts?
  by_cases reach : InReach (millis / 1000)
  · rw [dif_pos ⟨fraction, reach⟩]
    simp [reach]
  · rw [dif_neg fun parts => reach parts.2]
    simp [reach]

/-! ### Refusals -/

/-- The journal after one more error at a path. -/
def Journal.refusal (j : Journal) (message path : String) : Journal :=
  ⟨j.errors ++ [⟨message, path, []⟩], j.events ++ [.recorded path message]⟩

theorem Check.run_refuse (message path : String) (policy : Policy) (j : Journal) :
    (Check.refuse message path).run policy j =
      (match policy with | .collectAll => .done .null | .failFast => .halted, j.refusal message path) := by
  have error : (ValidationError.ofMessage message).under path = ⟨message, path, []⟩ := by
    simp [ValidationError.under, ValidationError.ofMessage]
  rw [Check.refuse, error]
  cases policy <;> rfl

/-! ### What a type takes -/

namespace LeafType

open Conform.Text

/-- A value stands for a number: a boolean, a finite number, a date or a text that reads as a finite number. -/
def StandsForNumber : Value → Prop
  | .bool _ | .date _ => True
  | .number n => n.isFinite
  | .string s => ∃ n, numberOfText? s.toList = some n ∧ n.isFinite
  | _ => False

/-- A value stands for a date: a date, a number whose integral part counts milliseconds within reach, or a text in one
of the three forms. -/
def StandsForDate : Value → Prop
  | .date _ => True
  | .number n => ∃ millis, n.truncate? = some millis ∧ Instant.InReach (millis / 1000)
  | .string s => (Instant.ofZonedText? (trim s.toList)).isSome ∨ (Instant.ofLocalText? (trim s.toList)).isSome ∨
      (Instant.ofDateText? (trim s.toList)).isSome
  | _ => False

def Stands : LeafType → Value → Prop
  | string, _ => True
  | number, v => StandsForNumber v
  | date, v => StandsForDate v
  | object, v => v.kind = .object
  | array, v => v.kind = .array
  | boolean, v => v.kind = .bool ∨ v = .string "true" ∨ v = .string "false"

theorem number_isSome_of_numberOf {v : Value} {n : Binary64} (read : numberOf? v = some n) :
    (number.coerce? v).isSome ↔ n.isFinite := by
  simp only [coerce?, read, Option.bind_some]
  split <;> simp [*]

theorem number_isSome_iff (v : Value) : (number.coerce? v).isSome ↔ StandsForNumber v := by
  cases v with
  | number n => exact number_isSome_of_numberOf rfl
  | bool b =>
    have small : (if b then 1 else 0) < 1 <<< 64 := by cases b <;> decide
    rw [number_isSome_of_numberOf rfl]
    simp only [StandsForNumber, iff_true]
    exact Binary64.isFinite_ofNat small
  | date d =>
    rw [number_isSome_of_numberOf rfl]
    simp only [StandsForNumber, iff_true]
    exact Binary64.isFinite_ofInt d.millis_small
  | string s =>
    cases read : numberOfText? s.toList with
    | none => simp [coerce?, numberOf?, StandsForNumber, read]
    | some n =>
      rw [number_isSome_of_numberOf (show numberOf? (.string s) = some n from read)]
      simp [StandsForNumber, read]
  | _ => simp [coerce?, numberOf?, StandsForNumber]

theorem date_isSome_iff (v : Value) : (date.coerce? v).isSome ↔ StandsForDate v := by
  cases v with
  | number n =>
    simp only [coerce?, dateOf?, Value.dateOfMillis?, StandsForDate]
    cases n.truncate? <;> simp [Instant.ofMillis?_isSome_iff]
  | string s =>
    simp only [coerce?, dateOf?, Instant.ofText?, StandsForDate, Option.isSome_map]
    cases Instant.ofZonedText? (trim s.toList) <;> cases Instant.ofLocalText? (trim s.toList) <;> simp
  | _ => simp [coerce?, dateOf?, StandsForDate]

theorem boolean_isSome_iff (v : Value) : (boolean.coerce? v).isSome ↔ Stands boolean v := by
  cases v with
  | string s =>
    simp only [coerce?, booleanOf?, Stands, Value.kind, Option.isSome_map]
    split <;> simp [*]
  | _ => simp [coerce?, booleanOf?, Stands, Value.kind]

theorem coerce?_isSome_iff (type : LeafType) (v : Value) : (type.coerce? v).isSome ↔ type.Stands v := by
  cases type with
  | string => simp [coerce?, Stands]
  | number => exact number_isSome_iff v
  | date => exact date_isSome_iff v
  | object => cases v <;> simp [coerce?, Stands, Value.kind]
  | array => cases v <;> simp [coerce?, Stands, Value.kind]
  | boolean => exact boolean_isSome_iff v

/-! ### What coercion gives -/

/-- A value of a type, finite if it is a number. -/
structure HasType (type : LeafType) (v : Value) : Prop where
  kind : v.kind = type.kind
  finite : ∀ n, v = .number n → n.isFinite

theorem HasType.isNull {type : LeafType} {w : Value} (typed : type.HasType w) : w.isNull = false := by
  have kind := typed.kind
  cases w <;> cases type <;> simp [Value.kind, LeafType.kind, Value.isNull] at kind ⊢

theorem date_of_dateOf {v w : Value} (read : dateOf? v = some w) : ∃ d, w = .date d := by
  cases v with
  | date d => cases read; exact ⟨d, rfl⟩
  | number n =>
    simp only [dateOf?, Value.dateOfMillis?] at read
    split at read
    · obtain ⟨d, _, rfl⟩ := Option.map_eq_some_iff.mp read
      exact ⟨d, rfl⟩
    · cases read
  | string s =>
    obtain ⟨d, _, rfl⟩ := Option.map_eq_some_iff.mp read
    exact ⟨d, rfl⟩
  | _ => cases read

theorem hasType_coerce {type : LeafType} {v w : Value} (coerced : type.coerce? v = some w) : type.HasType w := by
  cases type with
  | string => cases coerced; exact ⟨rfl, by simp⟩
  | number =>
    obtain ⟨n, _, kept⟩ := Option.bind_eq_some_iff.mp coerced
    split at kept <;> cases kept
    exact ⟨rfl, by simpa⟩
  | date =>
    obtain ⟨d, rfl⟩ := date_of_dateOf coerced
    exact ⟨rfl, by simp⟩
  | object => cases v <;> cases coerced; exact ⟨rfl, by simp⟩
  | array => cases v <;> cases coerced; exact ⟨rfl, by simp⟩
  | boolean =>
    obtain ⟨b, _, rfl⟩ := Option.map_eq_some_iff.mp coerced
    exact ⟨rfl, by simp⟩

theorem coerce?_of_hasType {type : LeafType} {w : Value} (typed : type.HasType w) : type.coerce? w = some w := by
  obtain ⟨kind, finite⟩ := typed
  cases type <;> cases w <;> cases kind
  · rfl
  · simp [coerce?, numberOf?, finite _ rfl]
  · rfl
  · rfl
  · rfl
  · rfl

/-! ### Checks of a type -/

/-- Checking a value against a type gives a value, and leaves the log alone. -/
def Takes (type : LeafType) (v w : Value) : Prop :=
  ∀ policy path j, (type.check v path).run policy j = (.done w, j)

/-- Checking a value against a type records one error, at its path and with this message. -/
def Refuses (type : LeafType) (message : String) (v : Value) : Prop :=
  ∀ path j, (type.check v path).run .collectAll j = (.done .null, j.refusal message path) ∧
    (type.check v path).run .failFast j = (.halted, j.refusal message path)

theorem takes_of_coerce {type : LeafType} {v w : Value} (coerced : type.coerce? v = some w) : type.Takes v w := by
  intro policy path j
  rw [check, coerced]
  rfl

/-- A check gives one value. -/
theorem Takes.unique {type : LeafType} {v w u : Value} (taken : type.Takes v w) (takenToo : type.Takes v u) : w = u := by
  have same := (taken .collectAll "" .empty).symm.trans (takenToo .collectAll "" .empty)
  exact Outcome.done.inj (Prod.mk.inj same).1

theorem takes_of_numberOf {v : Value} {x : Binary64} (read : numberOf? v = some x) (whole : x.isFinite) :
    number.Takes v (.number x) := by
  apply takes_of_coerce
  simp [coerce?, read, whole]

theorem refuses_of_coerce {type : LeafType} {v : Value} (none : type.coerce? v = none) :
    type.Refuses type.message v := by
  intro path j
  rw [check, none]
  exact ⟨Check.run_refuse _ path .collectAll j, Check.run_refuse _ path .failFast j⟩

end LeafType

end Conform
