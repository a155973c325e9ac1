import Conform.Proofs.Entries

/-!
# Validating twice

An answer passes again and is not changed. In the second run each field is there: a default is checked, a coerced
value meets its type again, and the keys come in another order. So defaults must pass their own specs, and no
schema may be read as a string (`Spec.Steady`).
-/

namespace Conform

namespace Spec

/-- At every depth, defaults pass unchanged and no type string comes after a schema. -/
structure Steady (s : Spec) : Prop where
  default : ∀ t, s.Within t → ∀ d, t.default = some d →
    ∀ check, (Registry.builtin.compile t).result = .ok check → Validate.ok check d = .ok d
  schema : ∀ t, s.Within t → t.type? = some .string → t.fields?.isSome → t.typeComesLast = false

theorem Steady.field {s t : Spec} {fields : Table Spec} {name : String} (steady : s.Steady)
    (declared : s.fields? = some fields) (member : (name, t) ∈ fields) : t.Steady where
  default := fun u inner => steady.default u (.field declared member inner)
  schema := fun u inner => steady.schema u (.field declared member inner)

/-- A spec is steady if its own default and type are, and the specs of its fields. -/
theorem Steady.intro {s : Spec}
    (default : ∀ d, s.default = some d →
      ∀ check, (Registry.builtin.compile s).result = .ok check → Validate.ok check d = .ok d)
    (schema : s.type? = some .string → s.fields?.isSome → s.typeComesLast = false)
    (fields : ∀ fields, s.fields? = some fields → ∀ name t, (name, t) ∈ fields → t.Steady) : s.Steady := by
  constructor
  · intro t within
    cases within with
    | self => exact default
    | field declared member inner => exact (fields _ declared _ _ member).default t inner
  · intro t within
    cases within with
    | self => exact schema
    | field declared member inner => exact (fields _ declared _ _ member).schema t inner

theorem Steady.answer?_default {s : Spec} (steady : s.Steady) {check : Check}
    (compiled : (Registry.builtin.compile s).result = .ok check) {d : Value} (default : s.default = some d) :
    check.answer? d = some d := by
  have regular := hereditary_regular.compile_builtin s compiled
  exact regular.ok_ok_iff.mp (steady.default s (.self s) d default check compiled)

end Spec

/-! ### The second run of a field and of a schema -/

/-- A field that finds its own value in the answer gives it once more. -/
theorem Field.report_again {name : String} {t : Spec} {check : Check} {input output : Table Value}
    (formed : t.WellFormed) (steady : t.Steady) (compiled : (Registry.builtin.compile t).result = .ok check)
    (again : ∀ u x, check.answer? u = some x → check.answer? x = some x)
    (clean : ((ofSpec name t check).report input).2 = [])
    (found : Table.get? output name = ((ofSpec name t check).report input).1) :
    (ofSpec name t check).report output = (((ofSpec name t check).report input).1, []) := by
  cases value : ((ofSpec name t check).report input).1 with
  | some x =>
    rw [value] at found
    have source := value_ofSpec clean value
    have optional : x.isNull → (ofSpec name t check).kind.isOptional := by
      intro null
      rcases source with ⟨_, default, _⟩ | ⟨u, _, first, kind⟩
      · rw [formed.default x default] at null
        cases null
      · cases present : u.isNull with
        | true => simp [ofSpec, FieldKind.isOptional_ofSpec, kind present]
        | false =>
          rw [Spec.not_null_of_answer formed compiled present first] at null
          cases null
    have answer : check.answer? x = some x := by
      rcases source with ⟨_, default, _⟩ | ⟨u, _, first, _⟩
      · exact steady.answer?_default compiled default
      · exact again u x first
    have given := given?_eq_some_iff.mpr ⟨found, optional⟩
    refine Prod.ext (value_of_given given answer) ?_
    rw [clean_iff, given]
    exact Option.isSome_of_eq_some answer
  | none =>
    rw [value] at found
    have absent : (ofSpec name t check).given? output = none := by
      rw [given?_eq_none_iff]
      intro u present
      rw [show (ofSpec name t check).name = name from rfl, found] at present
      cases present
    have optional := value_isSome clean
    rw [value] at optional
    rw [report, absent]
    cases kind : (ofSpec name t check).kind with
    | optional => rfl
    | _ => simp [kind, FieldKind.isOptional] at optional

namespace Spec

theorem schema_again {declared : Table Spec} {fields : List Field} {v w : Value}
    (compiles : List.Forall₂ Field.Compiles declared fields) (distinct : Table.Distinct declared)
    (formed : ∀ name t, (name, t) ∈ declared → t.WellFormed)
    (steady : ∀ name t, (name, t) ∈ declared → t.Steady)
    (again : ∀ name t, (name, t) ∈ declared → ∀ check, (Registry.builtin.compile t).result = .ok check →
      ∀ u x, check.answer? u = some x → check.answer? x = some x)
    (answered : (Schema.check fields).answer? v = some w) : (Schema.check fields).answer? w = some w := by
  have regular := Field.regular_of_compiles compiles
  obtain ⟨input, rfl, clean, rfl⟩ := (Schema.answer?_eq_some_iff regular).mp answered
  have same : ∀ f ∈ fields, f.report (Schema.entries (Schema.ordered fields) input) =
      ((f.report input).1, []) := by
    intro f member
    obtain ⟨⟨name, t⟩, present, check, compiled, rfl⟩ := forall₂_mem_right compiles member
    refine Field.report_again (formed name t present) (steady name t present) compiled
      (again name t present check compiled) (clean _ member) ?_
    exact get?_answer compiles distinct input member
  refine (Schema.answer?_eq_some_iff regular).mpr ⟨_, rfl, ?_, ?_⟩
  · intro f member
    rw [same f member]
  · refine congrArg Value.object (List.flatMap_congr ?_)
    intro f member
    rw [same f (Schema.mem_ordered.mp member)]

/-- An answer is its own answer. The induction is on the depth of the spec. -/
theorem answer?_again (s : Spec) (formed : s.WellFormed) (steady : s.Steady) {check : Check}
    (compiled : (Registry.builtin.compile s).result = .ok check) (v w : Value)
    (answered : check.answer? v = some w) : check.answer? w = some w := by
  obtain ⟨fields, compiles, answers⟩ := answer?_of_compile formed compiled
  have regular := Field.regular_of_compiles compiles
  by_cases null : v.isNull
  · rw [Value.eq_null_of_isNull null] at answered
    rw [answer?_null formed compiled] at answered
    cases nullable : s.nullable <;> simp only [nullable] at answered
    · exact steady.answer?_default compiled answered
    · cases answered
      rw [answer?_null formed compiled, nullable]
      rfl
  · have present := not_null_of_answer formed compiled (by simpa using null) answered
    rw [answers, if_neg null] at answered
    rw [answers, if_neg (by simp [present])]
    cases nested : s.fields? with
    | none =>
      rw [answer?_plain nested] at answered ⊢
      cases asked : s.type? <;> simp only [asked] at answered ⊢
      exact LeafType.coerce?_of_hasType (LeafType.hasType_coerce answered)
    | some declared =>
      rw [nested, Option.getD_some] at compiles
      obtain ⟨beside, u, schema, same⟩ := (answer?_nested_iff regular nested).mp answered
      have kept : s.type? ≠ some .string := by
        intro asked
        have last := steady.schema s (.self s) asked (by simp [nested])
        rcases beside .string asked with other | ⟨_, comesLast⟩
        · cases other
        · rw [last] at comesLast
          cases comesLast
      rw [if_neg kept] at same
      subst same
      refine (answer?_nested_iff regular nested).mpr ⟨beside, w, ?_, (if_neg kept).symm⟩
      refine schema_again compiles (formed.fields nested) (fun name t => formed.field nested)
        (fun name t => steady.field nested) ?_ schema
      intro name t member inner compiledInner
      have lower := depth_field_lt nested member
      exact answer?_again t (formed.field nested member) (steady.field nested member) compiledInner
termination_by s.depth

end Spec

namespace Validate

/-- A second run of the same policy passes the answer of the first and changes nothing. -/
theorem sanitize_idempotent {spec : Value} (distinct : spec.Distinct) {check : Check}
    (compiled : (Registry.builtin.compileValue spec).result = .ok check) :
    ∃ s, Spec.ofValue spec = .ok s ∧ (s.Steady → ∀ v w,
      (ok check v = .ok w → ok check w = .ok w) ∧ (all check v = .ok w → all check w = .ok w)) := by
  obtain ⟨s, read, compiledSpec⟩ := Registry.compileValue_ok_iff.mp compiled
  have formed := Spec.wellFormed_ofValue distinct read
  have regular := hereditary_regular.compile_builtin s compiledSpec
  refine ⟨s, read, fun steady v w => ?_⟩
  have again := Spec.answer?_again s formed steady compiledSpec v w
  rw [regular.ok_ok_iff, regular.ok_ok_iff, regular.all_ok_iff, regular.all_ok_iff]
  exact ⟨again, again⟩

/-- An order of an item, as a gift or not. -/
def orderSpec : Value := .object [
  ("schema", .object [
    ("gift", .object [("type", .string "boolean"), ("def", .bool false)]),
    ("item", .object [("required", .bool true), ("schema", .object [
      ("size", .object [("nullable", .bool true), ("type", .string "string")])])])])]

def orderInput : Value :=
  .object [("note", .null), ("item", .object [("size", .bool true), ("colour", .string "red")])]

def orderOutput : Value :=
  .object [("item", .object [("size", .string "true")]), ("gift", .bool false)]

theorem order_idempotent : orderSpec.Distinct ∧
    ∃ check s, (Registry.builtin.compileValue orderSpec).result = .ok check ∧
      Spec.ofValue orderSpec = .ok s ∧ s.Steady ∧
      ok check orderInput = .ok orderOutput ∧ all check orderInput = .ok orderOutput ∧
      ok check orderOutput = .ok orderOutput ∧ all check orderOutput = .ok orderOutput := by
  have distinct : orderSpec.Distinct := by
    simp [orderSpec, Value.Distinct, Value.DistinctFields, Table.Distinct, Table.keys]
  obtain ⟨s, read, again⟩ := sanitize_idempotent distinct rfl
  have steady : s.Steady := by
    cases read
    refine .intro (fun d none => by cases none) (fun asked => by cases asked) ?_
    intro fields declared name t member
    cases declared
    rcases List.mem_cons.mp member with gift | member
    · cases gift
      refine .intro ?_ (fun asked => by cases asked) (fun fields none => by cases none)
      intro d default check compiled
      cases default
      cases compiled
      rfl
    · rcases List.mem_cons.mp member with item | member
      · cases item
        refine .intro (fun d none => by cases none) (fun asked => by cases asked) ?_
        intro fields declared name t member
        cases declared
        rcases List.mem_cons.mp member with size | member
        · cases size
          exact .intro (fun d none => by cases none) (fun _ plain => by cases plain)
            (fun fields none => by cases none)
        · cases member
      · cases member
  refine ⟨distinct, _, s, rfl, read, steady, rfl, rfl, ?_, ?_⟩
  · exact (again steady orderInput orderOutput).1 rfl
  · exact (again steady orderInput orderOutput).2 rfl

end Validate

end Conform
