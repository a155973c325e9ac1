import Conform.Proofs.DateForms
import Conform.Proofs.Documents
import Conform.Proofs.Entries

/-!
# What comes out of files can go into files

A spec that a file holds makes of a storable value a storable one (`Spec.storable_of_answer`). What it puts in beside
the value is a default, which lies deeper in the spec than it does in the answer.
-/

namespace Conform

theorem Value.Storable.mono {room more : Nat} {v : Value} (stored : v.Storable room) (le : room ≤ more) :
    v.Storable more := ⟨stored.distinct, Nat.le_trans stored.shallow le, stored.whole, stored.timely⟩

/-- A number stands for no leap second, and a text for none within a minute. -/
theorem LeafType.leapEndsMinute_of_dateOf {v : Value} {d : Instant} (timely : ∀ e ∈ v.dates, e.LeapEndsMinute)
    (read : dateOf? v = some (.date d)) : d.LeapEndsMinute := by
  cases v with
  | date e =>
    cases read
    exact timely d List.mem_cons_self
  | number n =>
    simp only [dateOf?, Value.dateOfMillis?] at read
    split at read
    · obtain ⟨e, named, same⟩ := Option.map_eq_some_iff.mp read
      cases same
      exact Instant.leapEndsMinute_of_plain (Instant.ofParts?_eq_some_iff.mp named).2.2
    · cases read
  | string s =>
    obtain ⟨e, named, same⟩ := Option.map_eq_some_iff.mp read
    cases same
    exact Instant.leapEndsMinute_ofText? named
  | _ => cases read

theorem LeafType.storable_coerce {type : LeafType} {room : Nat} {v w : Value} (stored : v.Storable room)
    (coerced : type.coerce? v = some w) : w.Storable room := by
  obtain ⟨kind, finite⟩ := hasType_coerce coerced
  cases w with
  | number x => exact Value.storable_number (finite x rfl)
  | date d =>
    cases type <;> cases kind
    exact Value.storable_date (leapEndsMinute_of_dateOf stored.timely coerced)
  | array items =>
    cases type <;> cases kind
    cases v <;> cases coerced
    exact stored
  | object fields =>
    cases type <;> cases kind
    cases v <;> cases coerced
    exact stored
  | _ => exact Value.storable_plain rfl trivial rfl rfl

namespace Spec

/-- A spec is read from a value that a file may hold, with room for one container more than the values to be checked. -/
def Stored (room : Nat) (s : Spec) : Prop := ∃ u : Value, ofValue u = .ok s ∧ u.Storable (room + 1)

variable {room : Nat} {s t : Spec}

theorem Stored.wellFormed (stored : s.Stored room) : s.WellFormed := by
  obtain ⟨u, read, storable⟩ := stored
  exact wellFormed_ofValue storable.distinct read

theorem Stored.parts (stored : s.Stored room) :
    (∀ e ∈ s.entries, e.2.Storable room) ∧ ∀ d, s.default = some d → d.Storable room := by
  obtain ⟨u, read, storable⟩ := stored
  cases u with
  | object fields =>
    obtain ⟨_, each⟩ := Value.storable_object_iff.mp storable
    simp only [ofValue, ofFields] at read
    split at read <;> cases read
    refine ⟨fun e member => each e (List.mem_filter.mp member).1, fun d default => ?_⟩
    obtain ⟨w, found, present⟩ := Option.bind_eq_some_iff.mp default
    unfold Value.present? at present
    split at present <;> cases present
    exact each _ (Table.mem_of_get? found)
  | _ => cases read

theorem Stored.field (stored : s.Stored room) {declared : Table Spec} (nested : s.fields? = some declared)
    {name : String} (member : (name, t) ∈ declared) : ∃ less, room = less + 1 ∧ t.Stored less := by
  obtain ⟨entries, schema, rfl⟩ := schema_of_fields nested
  have object := stored.parts.1 _ schema
  obtain ⟨v, present, read⟩ := mem_readAll member
  cases room with
  | zero => exact absurd object.shallow (by simp [Value.depth])
  | succ less =>
    obtain ⟨_, each⟩ := Value.storable_object_iff.mp object
    exact ⟨less, rfl, v, read, (each _ present).mono (Nat.le_succ less)⟩

theorem distinct_entries {declared : Table Spec} {fields : List Field}
    (compiles : List.Forall₂ Field.Compiles declared fields) (distinct : Table.Distinct declared) {input : Table Value}
    (clean : ∀ f ∈ fields, (f.report input).2 = []) :
    Table.Distinct (Schema.entries (Schema.ordered fields) input) := by
  rw [Table.Distinct, Schema.keys_entries fun f member => clean f (Schema.mem_ordered.mp member)]
  refine List.Nodup.sublist (List.filter_sublist.map _) ?_
  rw [((Schema.ordered_perm fields).map _).nodup_iff, names_of_compiles compiles]
  exact distinct

/-- Answers are storable. The induction is on the depth of the spec. -/
theorem storable_of_answer (s : Spec) {room : Nat} (stored : s.Stored room) {check : Check}
    (compiled : (Registry.builtin.compile s).result = .ok check) (v w : Value) (given : v.Storable room)
    (answered : check.answer? v = some w) : w.Storable room := by
  have formed := stored.wellFormed
  obtain ⟨fields, compiles, answers⟩ := answer?_of_compile formed compiled
  have regular := Field.regular_of_compiles compiles
  rw [answers] at answered
  split at answered
  · split at answered
    · cases answered
      exact Value.storable_plain rfl trivial rfl rfl
    · exact stored.parts.2 w answered
  · cases nested : s.fields? with
    | none =>
      rw [answer?_plain nested] at answered
      cases asked : s.type? <;> simp only [asked] at answered
      · cases answered
        exact given
      · exact LeafType.storable_coerce given answered
    | some declared =>
      rw [nested, Option.getD_some] at compiles
      obtain ⟨_, u, schema, rfl⟩ := (answer?_nested_iff regular nested).mp answered
      obtain ⟨input, rfl, clean, rfl⟩ := (Schema.answer?_eq_some_iff regular).mp schema
      split
      · exact Value.storable_plain rfl trivial rfl rfl
      · cases room with
        | zero => exact absurd given.shallow (by simp [Value.depth])
        | succ less =>
          obtain ⟨_, each⟩ := Value.storable_object_iff.mp given
          refine Value.storable_object_iff.mpr ⟨distinct_entries compiles (formed.fields nested) clean, ?_⟩
          rintro ⟨name, x⟩ member
          obtain ⟨f, inOrder, rfl, value⟩ := Schema.mem_entries.mp member
          have there := Schema.mem_ordered.mp inOrder
          obtain ⟨⟨name, t⟩, present, inner, compiledInner, rfl⟩ := forall₂_mem_right compiles there
          have lower := depth_field_lt nested present
          obtain ⟨same, equal, storedInner⟩ := stored.field nested present
          cases equal
          rcases Field.value_ofSpec (clean _ there) value with ⟨_, default, _⟩ | ⟨y, found, first, _⟩
          · exact storedInner.parts.2 x default
          · exact storable_of_answer t storedInner compiledInner y x (each _ (Table.mem_of_get? found)) first
termination_by s.depth

end Spec

end Conform
