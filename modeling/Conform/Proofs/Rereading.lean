import Conform.Proofs.Declaration
import Conform.Proofs.Reading
import Conform.Proofs.Relaxation

/-!
# Specs written and read again

A spec is written as an object, so entries of one name fall together and an entry under a reserved key is taken for a
setting. `ofValue_toValue` says what is read back of any spec. It is the spec itself exactly if its names are distinct
and none is reserved (`reading_undoes_writing_iff`).
-/

namespace Conform.Spec

/-- Specs that are made by parts, from the empty one or from one that is read. -/
inductive Built : Spec → Prop
  | empty : Built empty
  | read {v : Value} {s : Spec} (read : ofValue v = .ok s) : Built s
  | withEntry {s : Spec} (built : Built s) (validator : String) (argument : Value) :
      Built (s.withEntry validator argument)
  | withType {s : Spec} (built : Built s) (name : String) : Built (s.withType name)
  | withRequired {s : Spec} (built : Built s) : Built s.withRequired
  | withNullable {s : Spec} (built : Built s) (nullable : Bool) : Built (s.withNullable nullable)
  | withDefault {s : Spec} (built : Built s) (value : Value) : Built (s.withDefault value)

theorem not_null_of_present {v d : Value} (present : v.present? = some d) : d.isNull = false := by
  unfold Value.present? at present
  split at present
  · cases present
  · rename_i some
    cases present
    simpa using some

theorem default_of_read {v : Value} {s : Spec} (read : ofValue v = .ok s) {d : Value} (default : s.default = some d) :
    d.isNull = false := by
  cases v with
  | object fields =>
    rw [(ofValue_object_iff.mp read).2.2] at default
    obtain ⟨argument, -, present⟩ := Option.bind_eq_some_iff.mp default
    exact not_null_of_present present
  | _ => cases read

/-- No part makes null the stand-in for null. -/
theorem Built.default {s : Spec} (built : s.Built) {d : Value} (default : s.default = some d) : d.isNull = false := by
  induction built with
  | empty => cases default
  | read read => exact default_of_read read default
  | withEntry _ _ _ ih => exact ih default
  | withType _ _ ih => exact ih default
  | withRequired _ ih => exact ih default
  | withNullable _ _ ih => exact ih default
  | withDefault => exact not_null_of_present default

/-! ### What is read back -/

/-- The settings are written over entries under their keys, and leave the other entries as they are. -/
theorem toValue_object (s : Spec) : ∃ fields, s.toValue = .object fields ∧
    Table.get? fields nullableKey =
      (if s.nullable then some (.bool true) else Table.get? (Table.ofList s.entries) nullableKey) ∧
    Table.get? fields defaultKey = s.default.or (Table.get? (Table.ofList s.entries) defaultKey) ∧
    fields.filter (fun e => !isReserved e.1) = (Table.ofList s.entries).filter fun e => !isReserved e.1 := by
  obtain ⟨entries, nullable, default⟩ := s
  have skips : ∀ (t : Table Value) (key : String) (a : Value), isReserved key →
      (Table.insert t key a).filter (fun e => !isReserved e.1) = t.filter fun e => !isReserved e.1 := by
    intro t key a reserved
    have filtered := @Table.filter_insert Value t key a fun k => !isReserved k
    rwa [if_neg (by simp [reserved])] at filtered
  have apart : nullableKey ≠ defaultKey := by decide
  refine ⟨_, rfl, ?_, ?_, ?_⟩
  · cases nullable <;> cases default <;> simp [Table.get?_insert_same, Table.get?_insert_other _ _ apart]
  · cases nullable <;> cases default <;> simp [Table.get?_insert_same, Table.get?_insert_other _ _ apart.symm]
  · cases nullable <;> cases default <;> simp [skips _ nullableKey _ rfl, skips _ defaultKey _ rfl]

/-- What is read back of a spec: of a repeated name the first place and the last argument, no entry under a reserved
key, and as a setting the argument of such an entry where the spec leaves the setting off. -/
theorem ofValue_toValue (s : Spec) (settled : ∀ d, s.default = some d → d.isNull = false) :
    ofValue s.toValue =
      (nullableSetting (if s.nullable then some (.bool true) else Table.get? (Table.ofList s.entries) nullableKey)).map
        fun nullable => ⟨(Table.ofList s.entries).filter fun e => !isReserved e.1, nullable,
          s.default.or ((Table.get? (Table.ofList s.entries) defaultKey).bind Value.present?)⟩ := by
  obtain ⟨fields, written, nullable, default, entries⟩ := toValue_object s
  have stands : (Table.get? fields defaultKey).bind Value.present? =
      s.default.or ((Table.get? (Table.ofList s.entries) defaultKey).bind Value.present?) := by
    rw [default]
    cases given : s.default with
    | none => rfl
    | some d => simp [Value.present?, settled d given]
  rw [written, ofValue, ofFields, nullable, stands, entries]
  rcases nullableSetting _ with e | setting <;> rfl

/-- An entry under the key of a setting is taken for the setting. -/
example : ofValue (empty.withEntry "nullable" (.string "yes")).toValue = .error (.nullableNotBoolean .string) := rfl

/-- A spec can be told from what it is written as if its names are distinct and none is reserved. -/
def Representable (s : Spec) : Prop :=
  Table.Distinct s.entries ∧ "nullable" ∉ Table.keys s.entries ∧ "def" ∉ Table.keys s.entries

theorem representable_iff {s : Spec} :
    s.Representable ↔ Table.Distinct s.entries ∧ ∀ e ∈ s.entries, isReserved e.1 = false := by
  have free : (∀ e ∈ s.entries, isReserved e.1 = false) ↔
      "nullable" ∉ Table.keys s.entries ∧ "def" ∉ Table.keys s.entries := by
    simp only [isReserved, nullableKey, defaultKey, Bool.or_eq_false_iff, beq_eq_false_iff_ne, Table.keys, List.mem_map]
    grind
  rw [free, Representable]

theorem representable_of_read {v : Value} {s : Spec} (distinct : v.Distinct) (read : ofValue v = .ok s) :
    s.Representable := by
  cases v with
  | object fields =>
    have entries := (ofValue_object_iff.mp read).2.1
    refine representable_iff.mpr ⟨(wellFormed_ofValue distinct read).keys, fun e member => ?_⟩
    rw [entries] at member
    simpa using (List.mem_filter.mp member).2
  | _ => cases read

theorem ofValue_toValue_iff {s : Spec} (settled : ∀ d, s.default = some d → d.isNull = false) :
    ofValue s.toValue = .ok s ↔ s.Representable := by
  rw [representable_iff]
  constructor
  · intro back
    obtain ⟨fields, written, -, -, kept⟩ := toValue_object s
    rw [written] at back
    have entries := (ofValue_object_iff.mp back).2.1.trans kept
    constructor
    · rw [entries]
      exact (Table.distinct_ofList s.entries).sublist (List.filter_sublist.map _)
    · intro e member
      rw [entries] at member
      simpa using (List.mem_filter.mp member).2
  · rintro ⟨distinct, free⟩
    have absent : ∀ key, isReserved key → Table.get? s.entries key = none := by
      intro key reserved
      rw [Table.get?_eq_none_iff]
      intro member
      obtain ⟨e, entry, rfl⟩ := List.mem_map.mp member
      simp [free e entry] at reserved
    have all : s.entries.filter (fun e => !isReserved e.1) = s.entries :=
      List.filter_eq_self.mpr fun e member => by simp [free e member]
    rw [ofValue_toValue s settled, Table.ofList_of_distinct distinct, all, absent nullableKey rfl, absent defaultKey rfl]
    obtain ⟨entries, nullable, default⟩ := s
    cases nullable <;> cases default <;> rfl

/-- Data for a spec, with its keys in the order in which specs are written. -/
def normalized (v : Value) : Except SpecError Value := (ofValue v).map toValue

/-- Reading undoes writing exactly on the specs that can be told from what they are written as. What is read is of this
sort, so to read and write again changes nothing. -/
theorem reading_undoes_writing_iff :
    (∀ s : Spec, s.Built → (ofValue s.toValue = .ok s ↔
      (Table.keys s.entries).Nodup ∧ "nullable" ∉ Table.keys s.entries ∧ "def" ∉ Table.keys s.entries)) ∧
    ∀ v : Value, v.Distinct →
      (∀ s, ofValue v = .ok s → ofValue s.toValue = .ok s) ∧
      ∀ w, normalized v = .ok w → normalized w = .ok w := by
  refine ⟨fun s built => ofValue_toValue_iff fun d => built.default, fun v distinct => ?_⟩
  have back : ∀ s, ofValue v = .ok s → ofValue s.toValue = .ok s := fun s read =>
    (ofValue_toValue_iff fun d => default_of_read read).mpr (representable_of_read distinct read)
  refine ⟨back, fun w normal => ?_⟩
  unfold normalized at normal ⊢
  rcases read : ofValue v with e | s <;> rw [read] at normal
  · cases normal
  · cases normal
    rw [back s read]
    rfl

/-- Data for a label, its settings before and between the entries. -/
def labelData : Value :=
  .object [("def", .string "plain"), ("type", .string "string"), ("nullable", .null), ("required", .bool true)]

/-- What is read of the label is written with the settings last and read back. A spec with two types is not. -/
theorem label_read_back :
    (∃ s, ofValue labelData = .ok s ∧ ofValue s.toValue = .ok s ∧ s.toValue =
      .object [("type", .string "string"), ("required", .bool true), ("def", .string "plain")]) ∧
    ofValue ((empty.withType "string").withRequired.withType "number").toValue ≠
      .ok ((empty.withType "string").withRequired.withType "number") := by
  constructor
  · refine ⟨_, rfl, ?_, rfl⟩
    have distinct : labelData.Distinct := by
      simp [labelData, Value.Distinct, Value.DistinctFields, Table.Distinct]
    exact (reading_undoes_writing_iff.2 labelData distinct).1 _ rfl
  · rw [Ne, reading_undoes_writing_iff.1 _ (((Built.empty.withType "string").withRequired).withType "number")]
    decide

end Conform.Spec
