import Conform.LeafType
import Conform.Spec

/-!
# What a spec declares

The built-in validators of a spec as data: the type it asks for, the fields of its schema with their specs, and
which of the two comes last. A declared field has a spec of lesser depth (`depth_field_lt`), so what holds
of specs can be shown by induction on the depth.
-/

namespace Conform

theorem LeafType.ofName?_name (type : LeafType) : ofName? type.name = some type := by
  cases type <;> decide

namespace Value

theorem distinctFields_iff {fields : List (String × Value)} :
    DistinctFields fields ↔ ∀ e ∈ fields, Distinct e.2 := by
  induction fields with
  | nil => simp [DistinctFields]
  | cons e fields ih => simp [DistinctFields, ih]

end Value

namespace Spec

def type? (s : Spec) : Option LeafType := ((s.argument? "type").bind Value.string?).bind LeafType.ofName?

def readAll (entries : Table Value) : Table Spec :=
  entries.filterMap fun e => (ofValue e.2).toOption.map fun s => (e.1, s)

def fields? (s : Spec) : Option (Table Spec) := ((s.argument? "schema").bind Value.object?).map readAll

def typeComesLast (s : Spec) : Bool :=
  ((Table.keys s.entries).filter fun key => key == "type" || key == "schema").getLast? == some "type"

/-- What holds of a spec that is read from data: no object in it names a field twice, and null stands in for nothing. -/
structure WellFormed (s : Spec) : Prop where
  keys : Table.Distinct s.entries
  arguments : Value.DistinctFields s.entries
  default : ∀ d, s.default = some d → d.isNull = false

theorem wellFormed_ofValue {v : Value} {s : Spec} (distinct : v.Distinct) (read : ofValue v = .ok s) :
    s.WellFormed := by
  cases v with
  | object fields =>
    obtain ⟨keys, arguments⟩ := distinct
    simp only [ofValue, ofFields] at read
    split at read
    · cases read
    · cases read
      refine ⟨?_, ?_, ?_⟩
      · exact List.Nodup.sublist (List.filter_sublist.map _) keys
      · rw [Value.distinctFields_iff] at arguments ⊢
        intro e member
        exact arguments e (List.mem_filter.mp member).1
      · intro d default
        obtain ⟨w, _, present⟩ := Option.bind_eq_some_iff.mp default
        cases null : w.isNull <;> simp only [Value.present?, null] at present
        · cases present
          exact null
        · cases present
  | _ => cases read

/-! ### Declared fields -/

theorem readAll_cons {name : String} {v : Value} {entries : Table Value} {s : Spec} (read : ofValue v = .ok s) :
    readAll ((name, v) :: entries) = (name, s) :: readAll entries := by
  simp [readAll, read, Except.toOption]

theorem readAll_cons_of_error {name : String} {v : Value} {entries : Table Value} {e : SpecError}
    (read : ofValue v = .error e) : readAll ((name, v) :: entries) = readAll entries := by
  simp [readAll, read, Except.toOption]

theorem mem_readAll {entries : Table Value} {name : String} {s : Spec} (member : (name, s) ∈ readAll entries) :
    ∃ v, (name, v) ∈ entries ∧ ofValue v = .ok s := by
  obtain ⟨⟨key, v⟩, present, found⟩ := List.mem_filterMap.mp member
  cases read : ofValue v with
  | error e => simp [read, Except.toOption] at found
  | ok t =>
    simp only [read, Except.toOption, Option.map_some, Option.some.injEq, Prod.mk.injEq] at found
    obtain ⟨rfl, rfl⟩ := found
    exact ⟨v, present, read⟩

theorem keys_readAll_sublist (entries : Table Value) :
    (Table.keys (readAll entries)).Sublist (Table.keys entries) := by
  induction entries with
  | nil => exact List.Sublist.slnil
  | cons e entries ih =>
    obtain ⟨name, v⟩ := e
    cases read : ofValue v with
    | error e =>
      rw [readAll_cons_of_error read]
      exact ih.cons name
    | ok s =>
      rw [readAll_cons read]
      exact ih.cons_cons name

theorem schema_of_fields {s : Spec} {fields : Table Spec} (declared : s.fields? = some fields) :
    ∃ entries, ("schema", .object entries) ∈ s.entries ∧ fields = readAll entries := by
  obtain ⟨entries, found, rfl⟩ := Option.map_eq_some_iff.mp declared
  obtain ⟨argument, present, object⟩ := Option.bind_eq_some_iff.mp found
  cases argument <;> cases object
  exact ⟨entries, Table.mem_of_get? present, rfl⟩

/-- A spec and the specs of its declared fields, at any depth. -/
inductive Within : Spec → Spec → Prop
  | self (s : Spec) : Within s s
  | field {s t u : Spec} {fields : Table Spec} {name : String} (declared : s.fields? = some fields)
      (member : (name, t) ∈ fields) (inner : Within t u) : Within s u

theorem depth_field_lt {s t : Spec} {fields : Table Spec} {name : String} (declared : s.fields? = some fields)
    (member : (name, t) ∈ fields) : t.depth < s.depth := by
  obtain ⟨entries, schema, rfl⟩ := schema_of_fields declared
  obtain ⟨v, present, read⟩ := mem_readAll member
  have nested := depth_ofValue_le read
  have field := Value.depth_field_lt present
  have argument := depth_argument_lt schema
  omega

theorem WellFormed.fields {s : Spec} {fields : Table Spec} (formed : s.WellFormed)
    (declared : s.fields? = some fields) : Table.Distinct fields := by
  obtain ⟨entries, schema, rfl⟩ := schema_of_fields declared
  have object := Value.distinctFields_iff.mp formed.arguments _ schema
  exact object.1.sublist (keys_readAll_sublist entries)

theorem WellFormed.field {s t : Spec} {fields : Table Spec} {name : String} (formed : s.WellFormed)
    (declared : s.fields? = some fields) (member : (name, t) ∈ fields) : t.WellFormed := by
  obtain ⟨entries, schema, rfl⟩ := schema_of_fields declared
  obtain ⟨v, present, read⟩ := mem_readAll member
  have object := Value.distinctFields_iff.mp formed.arguments _ schema
  exact wellFormed_ofValue (Value.distinctFields_iff.mp object.2 _ present) read

end Spec

end Conform
