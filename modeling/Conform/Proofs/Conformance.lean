import Conform.Proofs.Entries

/-!
# Conformance

`Spec.Conforms` says what a spec promises of a value that takes the place of another: its kind, and for an object
which keys it has, in which order and with which values. Whatever a compiled check answers conforms to its spec
(`conforms_of_answer`).
-/

namespace Conform

/-- What a declared field promises of its value: the default for what is absent or null, null for a null that may
stand, and else what its spec promises. The three exclude each other, and only the second has null. -/
def Spec.FieldConforms (t : Spec) (conforms : Value → Value → Prop) (given : Option Value) (x : Value) : Prop :=
  (t.isRequired = false ∧ t.default = some x ∧ x.isNull = false ∧ ∀ u, given = some u → u.isNull) ∨
  (t.isRequired = false ∧ t.default = none ∧ t.nullable ∧ given = some .null ∧ x = .null) ∨
  ∃ u, given = some u ∧ u.isNull = false ∧ conforms u x

/-- What a spec promises of the value `w` that takes the place of `v`. -/
def Spec.Conforms (s : Spec) (v w : Value) : Prop :=
  w.isNull = false ∧
  (s.type? = none → s.fields? = none → w = v) ∧
  (∀ type, s.type? = some type → s.fields? = none ∨ s.typeComesLast → type.HasType w) ∧
  ∀ fields, (_declared : s.fields? = some fields) → ∀ output, w = .object output →
    ∃ input, v = .object input ∧ Table.keys output = answerKeys fields input ∧
      ∀ name t, (_member : (name, t) ∈ fields) → ∀ x, Table.get? output name = some x →
        t.FieldConforms (fun u x => t.Conforms u x) (Table.get? input name) x
termination_by s.depth
decreasing_by exact Spec.depth_field_lt _declared _member

namespace Spec

theorem schema_conforms {declared : Table Spec} {fields : List Field} {v : Value} {output : Table Value}
    (compiles : List.Forall₂ Field.Compiles declared fields) (distinct : Table.Distinct declared)
    (formed : ∀ name t, (name, t) ∈ declared → t.WellFormed)
    (conforms : ∀ name t, (name, t) ∈ declared → ∀ check, (Registry.builtin.compile t).result = .ok check →
      ∀ u x, u.isNull = false → check.answer? u = some x → t.Conforms u x)
    (answered : (Schema.check fields).answer? v = some (.object output)) :
    ∃ input, v = .object input ∧ Table.keys output = answerKeys declared input ∧
      ∀ name t, (name, t) ∈ declared → ∀ x, Table.get? output name = some x →
        t.FieldConforms (fun u x => t.Conforms u x) (Table.get? input name) x := by
  have regular := Field.regular_of_compiles compiles
  obtain ⟨input, rfl, clean, same⟩ := (Schema.answer?_eq_some_iff regular).mp answered
  cases same
  refine ⟨input, rfl, keys_answer compiles clean, ?_⟩
  intro name t member x found
  obtain ⟨f, present, check, compiled, rfl⟩ := forall₂_mem_left compiles member
  have value := get?_answer compiles distinct input present
  rw [show (Field.ofSpec (name, t).1 (name, t).2 check).name = name from rfl, found] at value
  rcases Field.value_ofSpec (clean _ present) value.symm with ⟨optional, default, absent⟩ | ⟨u, given, answer, kind⟩
  · exact .inl ⟨optional, default, (formed name t member).default x default, absent⟩
  · cases null : u.isNull with
    | false => exact .inr (.inr ⟨u, given, null, conforms name t member check compiled u x null answer⟩)
    | true =>
      obtain ⟨optional, default⟩ := kind null
      rw [Value.eq_null_of_isNull null] at given answer
      rw [answer?_null (formed name t member) compiled, default] at answer
      cases nullable : t.nullable <;> simp only [nullable] at answer
      · cases answer
      · cases answer
        exact .inr (.inl ⟨optional, default, nullable, given, rfl⟩)

/-- A type that comes last is the type of the answer. -/
theorem hasType_of_answer {s : Spec} {fields : List Field} {v w : Value} {type : LeafType}
    (answered : s.answer? fields v = some w) (asked : s.type? = some type)
    (last : s.fields? = none ∨ s.typeComesLast) : type.HasType w := by
  cases nested : s.fields? with
  | none =>
    rw [answer?_plain nested, asked] at answered
    exact LeafType.hasType_coerce answered
  | some declared =>
    have comesLast : s.typeComesLast := last.resolve_left (by simp [nested])
    simp only [answer?, asked, nested, comesLast, if_true] at answered
    obtain ⟨u, _, coerced⟩ := Option.bind_eq_some_iff.mp answered
    exact LeafType.hasType_coerce coerced

/-- The induction is on the depth of the spec: declared fields have specs of lesser depth. -/
theorem conforms_of_answer (s : Spec) (formed : s.WellFormed) {check : Check}
    (compiled : (Registry.builtin.compile s).result = .ok check) (v w : Value) (present : v.isNull = false)
    (answered : check.answer? v = some w) : s.Conforms v w := by
  obtain ⟨fields, compiles, answers⟩ := answer?_of_compile formed compiled
  have regular := Field.regular_of_compiles compiles
  rw [answers, if_neg (by simp [present])] at answered
  rw [Conforms]
  refine ⟨answer?_not_null regular present answered, ?_, fun type => hasType_of_answer answered, ?_⟩
  · intro untyped plain
    rw [answer?_plain plain, untyped] at answered
    exact (Option.some.inj answered).symm
  · intro declared nested output object
    rw [nested, Option.getD_some] at compiles
    obtain ⟨_, u, schema, same⟩ := (answer?_nested_iff regular nested).mp answered
    have kept : u = .object output := by
      rw [object] at same
      split at same
      · cases same
      · exact same.symm
    rw [kept] at schema
    refine schema_conforms compiles (formed.fields nested) (fun name t => formed.field nested) ?_ schema
    intro name t member inner compiledInner
    have lower := depth_field_lt nested member
    exact conforms_of_answer t (formed.field nested member) compiledInner
termination_by s.depth

end Spec

namespace Validate

/-- What either policy answers for a value that is not null conforms to the spec. -/
theorem answer_conforms {spec : Value} (distinct : spec.Distinct) {check : Check}
    (compiled : (Registry.builtin.compileValue spec).result = .ok check) :
    ∃ s, Spec.ofValue spec = .ok s ∧ ∀ v w, v.isNull = false → (ok check v = .ok w ∨ all check v = .ok w) →
      s.Conforms v w := by
  obtain ⟨s, read, compiledSpec⟩ := Registry.compileValue_ok_iff.mp compiled
  have formed := Spec.wellFormed_ofValue distinct read
  have regular := hereditary_regular.compile_builtin s compiledSpec
  refine ⟨s, read, fun v w present passed => ?_⟩
  rcases passed with first | every
  · exact Spec.conforms_of_answer s formed compiledSpec v w present (regular.ok_ok_iff.mp first)
  · exact Spec.conforms_of_answer s formed compiledSpec v w present (regular.all_ok_iff.mp every)

/-- A member of a club. -/
def memberSpec : Value := .object [
  ("type", .string "object"),
  ("schema", .object [
    ("note", .object [("nullable", .bool true)]),
    ("role", .object [("def", .string "guest"), ("type", .string "string")]),
    ("name", .object [("required", .bool true), ("type", .string "string")])])]

def memberInput : Value :=
  .object [("note", .null), ("role", .null), ("age", .string "40"), ("name", .bool true)]

def memberOutput : Value :=
  .object [("name", .string "true"), ("role", .string "guest"), ("note", .null)]

theorem member_conforms : memberSpec.Distinct ∧ memberInput.isNull = false ∧
    ∃ check s, (Registry.builtin.compileValue memberSpec).result = .ok check ∧
      Spec.ofValue memberSpec = .ok s ∧ ok check memberInput = .ok memberOutput ∧
      s.Conforms memberInput memberOutput := by
  have distinct : memberSpec.Distinct := by
    simp [memberSpec, Value.Distinct, Value.DistinctFields, Table.Distinct, Table.keys]
  obtain ⟨s, read, conforms⟩ := answer_conforms distinct rfl
  exact ⟨distinct, rfl, _, s, rfl, read, rfl, conforms memberInput memberOutput rfl (.inl rfl)⟩

end Validate

end Conform
