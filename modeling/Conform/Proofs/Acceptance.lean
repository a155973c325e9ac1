import Conform.Proofs.Answer
import Conform.Proofs.Coercion

/-!
# Acceptance

`Spec.Accepts` says what a spec accepts by recursion on the spec alone: no log, no order of execution and no value
on the way. A compiled check passes a value exactly if its spec accepts it (`answer?_isSome_iff_accepts`).
-/

namespace Conform

/-- What a declared field accepts: absence unless it is required, null if it has a default, and what its spec accepts. -/
def Spec.FieldAccepts (t : Spec) (accepts : Value → Prop) (given : Option Value) : Prop :=
  if t.isRequired then ∃ w, given = some w ∧ w.isNull = false ∧ accepts w
  else ∀ w, given = some w → (t.default.isSome ∧ w.isNull) ∨ accepts w

/-- A spec accepts null by its settings, and another value by its type, or by the specs of its declared fields. -/
def Spec.Accepts (s : Spec) (v : Value) : Prop :=
  if v.isNull then s.nullable ∨ s.default.isSome
  else match _declared : s.fields? with
    | none => ∀ type, s.type? = some type → type.Stands v
    | some fields =>
      (∀ type, s.type? = some type → type = .object ∨ type = .string ∧ s.typeComesLast) ∧
      ∃ input, v = .object input ∧ ∀ name t, (_member : (name, t) ∈ fields) →
        t.FieldAccepts (fun w => t.Accepts w) (Table.get? input name)
termination_by s.depth
decreasing_by
  all_goals exact Spec.depth_field_lt _declared _member

/-! ### Declared fields -/

theorem forall₂_forall_iff {α β : Type} {related : α → β → Prop} {P : α → Prop} {Q : β → Prop}
    {xs : List α} {ys : List β} (all : List.Forall₂ related xs ys)
    (same : ∀ x ∈ xs, ∀ y, related x y → (P x ↔ Q y)) : (∀ x ∈ xs, P x) ↔ ∀ y ∈ ys, Q y := by
  constructor
  · intro held y member
    obtain ⟨x, present, pair⟩ := forall₂_mem_right all member
    exact (same x present y pair).mp (held x present)
  · intro held x member
    obtain ⟨y, present, pair⟩ := forall₂_mem_left all member
    exact (same x member y pair).mpr (held y present)

/-- The three rules for a field that is absent or null. -/
theorem Field.clean_ofSpec_iff (name : String) (t : Spec) (check : Check) (input : Table Value) :
    ((Field.ofSpec name t check).report input).2 = [] ↔
      t.FieldAccepts (fun w => (check.answer? w).isSome) (Table.get? input name) := by
  rw [Field.clean_iff, Spec.FieldAccepts]
  simp only [ofSpec, given?, FieldKind.ofSpec]
  cases t.isRequired with
  | true =>
    simp only [if_true, FieldKind.isRequired]
    cases Table.get? input name with
    | none => simp
    | some w => cases null : w.isNull <;> simp [Value.present?, null]
  | false =>
    simp only [Bool.false_eq_true, if_false]
    cases t.default with
    | none => cases Table.get? input name <;> simp [FieldKind.isRequired]
    | some d =>
      simp only [FieldKind.isRequired]
      cases Table.get? input name with
      | none => simp
      | some w => cases null : w.isNull <;> simp [Value.present?, null]

/-! ### Acceptance by induction on specs -/

namespace Spec

theorem schema_accepts_iff {declared : Table Spec} {fields : List Field}
    (compiles : List.Forall₂ Field.Compiles declared fields)
    (accepts : ∀ name t, (name, t) ∈ declared → ∀ check, (Registry.builtin.compile t).result = .ok check →
      ∀ v, (check.answer? v).isSome ↔ t.Accepts v) (v : Value) :
    (∃ u, (Schema.check fields).answer? v = some u) ↔
      ∃ input, v = .object input ∧ ∀ name t, (name, t) ∈ declared →
        t.FieldAccepts (fun w => t.Accepts w) (Table.get? input name) := by
  have regular := Field.regular_of_compiles compiles
  have clean : ∀ input : Table Value, (∀ f ∈ fields, (f.report input).2 = []) ↔
      ∀ e ∈ declared, e.2.FieldAccepts (fun w => e.2.Accepts w) (Table.get? input e.1) := by
    intro input
    refine (forall₂_forall_iff compiles ?_).symm
    rintro ⟨name, t⟩ member f ⟨check, compiled, rfl⟩
    rw [Field.clean_ofSpec_iff]
    simp only [accepts name t member check compiled]
  simp only [Schema.answer?_eq_some_iff regular, clean, Prod.forall]
  constructor
  · rintro ⟨_, input, rfl, held, _⟩
    exact ⟨input, rfl, held⟩
  · rintro ⟨input, rfl, held⟩
    exact ⟨_, input, rfl, held, rfl⟩

/-- A check passes what its spec accepts. The induction is on the depth of the spec, for all values at once. -/
theorem answer?_isSome_iff_accepts (s : Spec) (formed : s.WellFormed) {check : Check}
    (compiled : (Registry.builtin.compile s).result = .ok check) (v : Value) :
    (check.answer? v).isSome ↔ s.Accepts v := by
  obtain ⟨fields, compiles, answers⟩ := answer?_of_compile formed compiled
  rw [answers, Accepts]
  by_cases null : v.isNull
  · rw [if_pos null, if_pos null]
    cases s.nullable <;> simp
  · rw [if_neg null, if_neg null]
    split
    · rename_i plain
      rw [answer?_plain plain]
      cases s.type? <;> simp [LeafType.coerce?_isSome_iff]
    · rename_i declared nested
      rw [nested, Option.getD_some] at compiles
      have accepts : ∀ name t, (name, t) ∈ declared → ∀ check,
          (Registry.builtin.compile t).result = .ok check → ∀ v, (check.answer? v).isSome ↔ t.Accepts v := by
        intro name t member inner compiledInner u
        have lower := depth_field_lt nested member
        exact answer?_isSome_iff_accepts t (formed.field nested member) compiledInner u
      have regular := Field.regular_of_compiles compiles
      rw [Option.isSome_iff_exists, ← schema_accepts_iff compiles accepts]
      simp only [answer?_nested_iff regular nested]
      constructor
      · rintro ⟨w, beside, u, answered, _⟩
        exact ⟨beside, u, answered⟩
      · rintro ⟨beside, u, answered⟩
        exact ⟨_, beside, u, answered, rfl⟩
termination_by s.depth

end Spec

namespace Validate

/-- Collecting validation passes exactly the values that the spec accepts. -/
theorem all_passes_iff_accepts {spec : Value} (distinct : spec.Distinct) {check : Check}
    (compiled : (Registry.builtin.compileValue spec).result = .ok check) :
    ∃ s, Spec.ofValue spec = .ok s ∧ ∀ v, (∃ w, all check v = .ok w) ↔ s.Accepts v := by
  obtain ⟨s, read, compiledSpec⟩ := Registry.compileValue_ok_iff.mp compiled
  refine ⟨s, read, fun v => ?_⟩
  rw [← Spec.answer?_isSome_iff_accepts s (Spec.wellFormed_ofValue distinct read) compiledSpec,
    Option.isSome_iff_exists]
  simp only [(hereditary_regular.compile_builtin s compiledSpec).all_ok_iff]

/-- A parcel, taken as a text once its fields are checked. -/
def parcelSpec : Value := .object [
  ("schema", .object [
    ("to", .object [("type", .string "string"), ("required", .bool true)]),
    ("express", .object [("def", .string "no"), ("type", .string "boolean")]),
    ("sender", .object [("nullable", .bool true), ("schema", .object [
      ("name", .object [("required", .bool true)])])])]),
  ("type", .string "string")]

theorem parcel_accepted : parcelSpec.Distinct ∧
    ∃ check s, (Registry.builtin.compileValue parcelSpec).result = .ok check ∧
      Spec.ofValue parcelSpec = .ok s ∧
      s.Accepts (.object [("sender", .null), ("express", .null), ("to", .string "Oslo")]) ∧
      ¬ s.Accepts (.object [("sender", .object [("name", .null)]), ("to", .string "Oslo")]) := by
  have distinct : parcelSpec.Distinct := by
    simp [parcelSpec, Value.Distinct, Value.DistinctFields, Table.Distinct, Table.keys]
  obtain ⟨s, read, accepts⟩ := all_passes_iff_accepts distinct rfl
  refine ⟨distinct, _, s, rfl, read, ?_, ?_⟩
  · exact (accepts _).mp ⟨_, rfl⟩
  · intro accepted
    obtain ⟨w, passed⟩ := (accepts _).mpr accepted
    cases passed

end Validate

end Conform
