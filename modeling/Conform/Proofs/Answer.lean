import Conform.Proofs.Coercion
import Conform.Proofs.Declaration
import Conform.Proofs.Report

/-!
# What built-in specs answer

A spec whose entries are distinct has at most one `type` and one `schema`, so its chain has one of five shapes.
`report_of_compile` gives the report of the compiled check, and `answer?_of_compile` its answer, from what the spec
declares: the only order that is left is whether the type comes after the schema.
-/

namespace Conform

theorem Value.eq_null_of_isNull {v : Value} (null : v.isNull) : v = .null := by
  cases v <;> simp [isNull] at null ⊢

theorem forall₂_mem_left {α β : Type} {related : α → β → Prop} {xs : List α} {ys : List β}
    (all : List.Forall₂ related xs ys) {x : α} (member : x ∈ xs) : ∃ y ∈ ys, related x y :=
  forall₂_mem_right (List.Forall₂.flip all) member

/-- A table without names beyond two has at most one entry for each. -/
theorem Table.shape {α : Type} {t : Table α} {a b : String} (distinct : t.Distinct)
    (known : ∀ k ∈ t.keys, k = a ∨ k = b) :
    t = [] ∨ (∃ x, t = [(a, x)]) ∨ (∃ y, t = [(b, y)]) ∨ (∃ x y, t = [(a, x), (b, y)]) ∨
      ∃ x y, t = [(b, y), (a, x)] := by
  match t, distinct, known with
  | [], _, _ => exact .inl rfl
  | [(k, x)], _, known =>
    rcases known k (by simp) with rfl | rfl
    · exact .inr (.inl ⟨x, rfl⟩)
    · exact .inr (.inr (.inl ⟨x, rfl⟩))
  | [(k, x), (l, y)], distinct, known =>
    have different : k ≠ l := by simpa [Distinct] using distinct
    rcases known k (by simp) with rfl | rfl <;> rcases known l (by simp) with rfl | rfl
    · exact absurd rfl different
    · exact .inr (.inr (.inr (.inl ⟨x, y, rfl⟩)))
    · exact .inr (.inr (.inr (.inr ⟨y, x, rfl⟩)))
    · exact absurd rfl different
  | (k, x) :: (l, y) :: (m, z) :: t, distinct, known =>
    have three : k ≠ l ∧ k ≠ m ∧ l ≠ m := by
      simp only [Distinct, keys_cons, List.nodup_cons, List.mem_cons, not_or] at distinct
      exact ⟨distinct.1.1, distinct.1.2.1, distinct.2.1.1⟩
    have first := known k (by simp)
    have second := known l (by simp)
    have third := known m (by simp)
    grind

/-! ### The steps of a built-in spec -/

def Field.Compiles (declared : String × Spec) (f : Field) : Prop :=
  ∃ check, (Registry.builtin.compile declared.2).result = .ok check ∧
    f = ofSpec declared.1 declared.2 check

theorem Field.Compiles.regular {declared : String × Spec} {f : Field} (compiles : Compiles declared f) :
    f.check.Regular := by
  obtain ⟨check, compiled, rfl⟩ := compiles
  exact hereditary_regular.compile_builtin declared.2 compiled

theorem Field.regular_of_compiles {declared : Table Spec} {fields : List Field}
    (compiles : List.Forall₂ Compiles declared fields) : ∀ f ∈ fields, f.check.Regular := by
  intro f member
  obtain ⟨e, _, compiled⟩ := forall₂_mem_right compiles member
  exact compiled.regular

theorem Field.compiles_readAll {argument : Value} {entries : Table Value} {fields : List Field}
    (declares : List.Forall₂ (Registry.builtin.context argument).Declares entries fields) :
    List.Forall₂ Compiles (Spec.readAll entries) fields := by
  induction declares with
  | nil => exact .nil
  | cons first _ ih =>
    obtain ⟨s, _, check, read, compiled, rfl⟩ := first
    rw [Spec.readAll_cons read]
    exact .cons ⟨check, compiled, rfl⟩ ih

namespace Registry

theorem makes_name {e : String × Value} {step : Check.Step} (made : builtin.Makes e step) :
    e.1 = "type" ∨ e.1 = "schema" ∨ e.1 = "required" := by
  obtain ⟨factory, found, _⟩ := made
  rcases factory?_builtin found with ⟨name, _⟩ | ⟨name, _⟩ | ⟨name, _⟩
  · exact .inl name
  · exact .inr (.inl name)
  · exact .inr (.inr name)

theorem makes_type {argument : Value} {step : Check.Step} (made : builtin.Makes ("type", argument) step) :
    ∃ type : LeafType, argument = .string type.name ∧ step.check = type.check := by
  obtain ⟨factory, found, _, result⟩ := made
  cases found
  obtain ⟨name, rfl, lent⟩ := typeFactory_ok result
  obtain ⟨type, rfl, same⟩ := type?_builtin lent
  exact ⟨type, rfl, same⟩

theorem makes_schema {argument : Value} {step : Check.Step} (made : builtin.Makes ("schema", argument) step) :
    ∃ entries fields, argument = .object entries ∧
      List.Forall₂ Field.Compiles (Spec.readAll entries) fields ∧ step.check = Schema.check fields := by
  obtain ⟨factory, found, _, result⟩ := made
  cases found
  obtain ⟨entries, fields, rfl, declares, same⟩ := schemaFactory_ok result
  exact ⟨entries, fields, rfl, Field.compiles_readAll declares, same⟩

theorem makes_required {argument : Value} {step : Check.Step}
    (made : builtin.Makes ("required", argument) step) : step.check = Check.identity := by
  obtain ⟨factory, found, _, result⟩ := made
  cases found
  exact (Except.ok.inj result).symm

theorem regular_of_makes {entries : Table Value} {steps : List Check.Step}
    (made : List.Forall₂ builtin.Makes entries steps) : ∀ step ∈ steps, step.check.Regular := by
  intro step member
  obtain ⟨e, _, makes⟩ := forall₂_mem_right made member
  exact hereditary_regular.makes_builtin makes

theorem report_makes_cons {e : String × Value} {step : Check.Step} {entries : Table Value}
    {steps : List Check.Step} (first : builtin.Makes e step) (rest : List.Forall₂ builtin.Makes entries steps)
    (v : Value) :
    (Check.chain (step :: steps)).report v = (step.check.report v).andThen (Check.chain steps).report :=
  Check.report_chain_cons (regular_of_makes (.cons first rest)) v

theorem report_makes_one {e : String × Value} {step : Check.Step} (made : builtin.Makes e step) :
    (Check.chain [step]).report = step.check.report := by
  funext v
  rw [report_makes_cons made .nil]
  exact Report.andThen_pass _

/-- The step of `required` changes nothing, and the chain without it reports the same. -/
theorem erase_required {entries : Table Value} {steps : List Check.Step}
    (made : List.Forall₂ builtin.Makes entries steps) :
    ∃ kept, List.Forall₂ builtin.Makes (Table.erase entries "required") kept ∧
      ∀ v, (Check.chain steps).report v = (Check.chain kept).report v := by
  induction made with
  | nil => exact ⟨[], .nil, fun _ => rfl⟩
  | @cons e step entries steps first rest ih =>
    obtain ⟨name, argument⟩ := e
    obtain ⟨kept, made, same⟩ := ih
    by_cases marker : name = "required"
    · subst marker
      refine ⟨kept, made, fun v => ?_⟩
      rw [report_makes_cons first rest, makes_required first]
      exact same v
    · have stays : Table.erase ((name, argument) :: entries) "required" =
          (name, argument) :: Table.erase entries "required" := by
        simp [Table.erase, marker]
      rw [stays]
      refine ⟨step :: kept, .cons first made, fun v => ?_⟩
      rw [report_makes_cons first rest, report_makes_cons first made, funext same]

end Registry

/-! ### The report of a built-in spec, and its answer -/

namespace Spec

/-- What is found in a value that is not null, by the fields that are compiled for the schema. -/
def report (s : Spec) (fields : List Field) (v : Value) : Report :=
  match s.type?, s.fields? with
  | none, none => .pass v
  | some type, none => type.report v
  | none, some _ => Schema.report fields v
  | some type, some _ =>
    if s.typeComesLast then (Schema.report fields v).andThen type.report
    else (type.report v).andThen (Schema.report fields)

/-- What is made of a value that is not null, by the fields that are compiled for the schema. -/
def answer? (s : Spec) (fields : List Field) (v : Value) : Option Value :=
  match s.type?, s.fields? with
  | none, none => some v
  | some type, none => type.coerce? v
  | none, some _ => (Schema.check fields).answer? v
  | some type, some _ =>
    if s.typeComesLast then ((Schema.check fields).answer? v).bind type.coerce?
    else (type.coerce? v).bind (Schema.check fields).answer?

theorem answer?_report {fields : List Field} (regular : ∀ f ∈ fields, f.check.Regular) (s : Spec) (v : Value) :
    (s.report fields v).answer? = s.answer? fields v := by
  have schema : (fun u => (Schema.report fields u).answer?) = (Schema.check fields).answer? :=
    funext fun u => (Schema.tells_check regular u).answer?.symm
  unfold report answer?
  cases s.type? <;> cases s.fields?
  · rfl
  · exact congrFun schema v
  · exact LeafType.answer?_report _ v
  · dsimp only
    split
    · rw [Report.answer?_andThen, congrFun schema v, funext (LeafType.answer?_report _)]
    · rw [Report.answer?_andThen, LeafType.answer?_report, schema]

/-- The spec without its mark for the schema around it. -/
def unmarked (s : Spec) : Spec := { s with entries := Table.erase s.entries "required" }

theorem type?_unmarked (s : Spec) : s.unmarked.type? = s.type? := by
  rw [type?, argument?, unmarked, Table.get?_erase_other _ (by decide)]
  rfl

theorem fields?_unmarked (s : Spec) : s.unmarked.fields? = s.fields? := by
  rw [fields?, argument?, unmarked, Table.get?_erase_other _ (by decide)]
  rfl

theorem typeComesLast_unmarked (s : Spec) : s.unmarked.typeComesLast = s.typeComesLast := by
  have asked : (fun key : String => (key == "type" || key == "schema") && key != "required") =
      fun key => key == "type" || key == "schema" := by
    funext key
    grind
  simp only [typeComesLast, unmarked, Table.keys_erase, List.filter_filter, asked]

theorem report_unmarked (s : Spec) : s.unmarked.report = s.report := by
  funext fields v
  simp only [report, type?_unmarked, fields?_unmarked, typeComesLast_unmarked]

theorem type?_eq_some {s : Spec} {type : LeafType} (asked : s.argument? "type" = some (.string type.name)) :
    s.type? = some type := by
  rw [type?, asked]
  exact LeafType.ofName?_name type

theorem type?_eq_none {s : Spec} (absent : s.argument? "type" = none) : s.type? = none := by
  rw [type?, absent]
  rfl

theorem fields?_eq_some {s : Spec} {entries : Table Value} (present : s.argument? "schema" = some (.object entries)) :
    s.fields? = some (readAll entries) := by
  rw [fields?, present]
  rfl

theorem fields?_eq_none {s : Spec} (absent : s.argument? "schema" = none) : s.fields? = none := by
  rw [fields?, absent]
  rfl

theorem report_schema {check : Check} {fields : List Field} (regular : ∀ f ∈ fields, f.check.Regular)
    (schema : check = Schema.check fields) : check.report = Schema.report fields := by
  subst schema
  exact funext fun v => (Schema.tells_check regular v).report

theorem report_leaf {check : Check} {type : LeafType} (leaf : check = type.check) :
    check.report = type.report := by
  subst leaf
  exact funext fun v => (Check.tells_leaf type v).report

open Registry in
/-- The five shapes of a chain, one after the other. -/
theorem report_chain {s : Spec} {steps : List Check.Step}
    (made : List.Forall₂ builtin.Makes s.entries steps) (distinct : Table.Distinct s.entries)
    (known : ∀ k ∈ Table.keys s.entries, k = "type" ∨ k = "schema") :
    ∃ fields, List.Forall₂ Field.Compiles (s.fields?.getD []) fields ∧
      ∀ v, (Check.chain steps).report v = s.report fields v := by
  rcases Table.shape distinct known with shape | ⟨x, shape⟩ | ⟨y, shape⟩ | ⟨x, y, shape⟩ | ⟨x, y, shape⟩ <;>
    rw [shape] at made
  · cases made
    have untyped : s.type? = none := type?_eq_none (by rw [argument?, shape]; rfl)
    have plain : s.fields? = none := fields?_eq_none (by rw [argument?, shape]; rfl)
    rw [plain]
    refine ⟨[], .nil, fun v => ?_⟩
    simp only [report, untyped, plain]
    rfl
  · cases made with | cons first rest
    cases rest
    obtain ⟨type, rfl, leaf⟩ := makes_type first
    have asked : s.type? = some type := type?_eq_some (by rw [argument?, shape]; rfl)
    have plain : s.fields? = none := fields?_eq_none (by rw [argument?, shape]; rfl)
    rw [plain]
    refine ⟨[], .nil, fun v => ?_⟩
    rw [report_makes_one first, report_leaf leaf]
    simp only [report, asked, plain]
  · cases made with | cons first rest
    cases rest
    obtain ⟨entries, fields, rfl, compiles, schema⟩ := makes_schema first
    have untyped : s.type? = none := type?_eq_none (by rw [argument?, shape]; rfl)
    have nested : s.fields? = some (readAll entries) := fields?_eq_some (by rw [argument?, shape]; rfl)
    rw [nested]
    refine ⟨fields, compiles, fun v => ?_⟩
    rw [report_makes_one first, report_schema (Field.regular_of_compiles compiles) schema]
    simp only [report, untyped, nested]
  · cases made with | cons first rest
    cases rest with | cons second rest
    cases rest
    obtain ⟨type, rfl, leaf⟩ := makes_type first
    obtain ⟨entries, fields, rfl, compiles, schema⟩ := makes_schema second
    have asked : s.type? = some type := type?_eq_some (by rw [argument?, shape]; rfl)
    have nested : s.fields? = some (readAll entries) := fields?_eq_some (by rw [argument?, shape]; rfl)
    have last : s.typeComesLast = false := by rw [typeComesLast, shape]; rfl
    rw [nested]
    refine ⟨fields, compiles, fun v => ?_⟩
    rw [report_makes_cons first (.cons second .nil), report_makes_one second, report_leaf leaf,
      report_schema (Field.regular_of_compiles compiles) schema]
    simp only [report, asked, nested, last, Bool.false_eq_true, if_false]
  · cases made with | cons first rest
    cases rest with | cons second rest
    cases rest
    obtain ⟨entries, fields, rfl, compiles, schema⟩ := makes_schema first
    obtain ⟨type, rfl, leaf⟩ := makes_type second
    have asked : s.type? = some type := type?_eq_some (by rw [argument?, shape]; rfl)
    have nested : s.fields? = some (readAll entries) := fields?_eq_some (by rw [argument?, shape]; rfl)
    have last : s.typeComesLast = true := by rw [typeComesLast, shape]; rfl
    rw [nested]
    refine ⟨fields, compiles, fun v => ?_⟩
    rw [report_makes_cons first (.cons second .nil), report_makes_one second, report_leaf leaf,
      report_schema (Field.regular_of_compiles compiles) schema]
    simp only [report, asked, nested, last, if_true]

/-- A compiled check reports on null by the settings of its spec, and otherwise by what the spec declares. -/
theorem report_of_compile {s : Spec} (formed : s.WellFormed) {check : Check}
    (compiled : (Registry.builtin.compile s).result = .ok check) :
    ∃ fields, List.Forall₂ Field.Compiles (s.fields?.getD []) fields ∧ ∀ v, check.report v =
      if v.isNull then Check.nullReport s.nullable s.default else s.report fields v := by
  obtain ⟨steps, made, rfl⟩ := Registry.compile_ok_iff.mp compiled
  obtain ⟨kept, madeKept, same⟩ := Registry.erase_required made
  have known : ∀ k ∈ Table.keys s.unmarked.entries, k = "type" ∨ k = "schema" := by
    intro k member
    obtain ⟨e, entry, rfl⟩ := List.mem_map.mp member
    obtain ⟨step, _, makes⟩ := forall₂_mem_left madeKept entry
    have other : e.1 ≠ "required" := by simpa using (List.mem_filter.mp entry).2
    have name := Registry.makes_name makes
    grind
  obtain ⟨fields, compiles, reports⟩ :=
    report_chain (s := s.unmarked) madeKept (Table.distinct_erase _ formed.keys) known
  rw [fields?_unmarked] at compiles
  refine ⟨fields, compiles, fun v => ?_⟩
  have regular := Check.regular_of_tells (Check.tells_chain (Registry.regular_of_makes made))
  rw [(Check.tells_guarded _ _ regular v).report, same, reports, report_unmarked]

/-- A compiled check answers for null by the settings of its spec, and otherwise by what the spec declares. -/
theorem answer?_of_compile {s : Spec} (formed : s.WellFormed) {check : Check}
    (compiled : (Registry.builtin.compile s).result = .ok check) :
    ∃ fields, List.Forall₂ Field.Compiles (s.fields?.getD []) fields ∧ ∀ v, check.answer? v =
      if v.isNull then (if s.nullable then some .null else s.default) else s.answer? fields v := by
  obtain ⟨fields, compiles, reports⟩ := report_of_compile formed compiled
  refine ⟨fields, compiles, fun v => ?_⟩
  rw [Check.answer?, reports, apply_ite Report.answer?, Check.answer?_nullReport,
    answer?_report (Field.regular_of_compiles compiles)]

theorem answer?_null {s : Spec} (formed : s.WellFormed) {check : Check}
    (compiled : (Registry.builtin.compile s).result = .ok check) :
    check.answer? .null = if s.nullable then some .null else s.default := by
  obtain ⟨_, _, answers⟩ := answer?_of_compile formed compiled
  exact answers .null

/-! ### A type beside a schema -/

section TypeAndSchema

variable {fields : List Field} {type : LeafType} {v w : Value}

theorem coerce?_object_iff (input : Table Value) :
    type.coerce? (.object input) = some w ↔
      (type = .object ∧ w = .object input) ∨ (type = .string ∧ w = .string "[object Object]") := by
  cases type <;> simp [LeafType.coerce?, LeafType.numberOf?, LeafType.dateOf?, LeafType.booleanOf?, Value.text,
    eq_comm (a := w)]

/-- Before a schema, a type other than object leaves nothing that the schema takes. -/
theorem type_before_schema_iff (regular : ∀ f ∈ fields, f.check.Regular) :
    (type.coerce? v).bind (Schema.check fields).answer? = some w ↔
      type = .object ∧ (Schema.check fields).answer? v = some w := by
  rw [Option.bind_eq_some_iff]
  constructor
  · rintro ⟨u, coerced, answered⟩
    obtain ⟨input, rfl, _⟩ := (Schema.answer?_eq_some_iff regular).mp answered
    have kind : Kind.object = type.kind := (LeafType.hasType_coerce coerced).kind
    obtain rfl : type = .object := by cases type <;> simp [LeafType.kind] at kind ⊢
    cases v <;> cases coerced
    exact ⟨rfl, answered⟩
  · rintro ⟨rfl, answered⟩
    obtain ⟨input, rfl, _⟩ := (Schema.answer?_eq_some_iff regular).mp answered
    exact ⟨_, rfl, answered⟩

/-- After a schema, a type other than object and string takes nothing. -/
theorem type_after_schema_iff (regular : ∀ f ∈ fields, f.check.Regular) :
    ((Schema.check fields).answer? v).bind type.coerce? = some w ↔
      ∃ u, (Schema.check fields).answer? v = some u ∧
        ((type = .object ∧ w = u) ∨ (type = .string ∧ w = .string "[object Object]")) := by
  rw [Option.bind_eq_some_iff]
  refine exists_congr fun u => and_congr_right fun answered => ?_
  obtain ⟨input, rfl, _, rfl⟩ := (Schema.answer?_eq_some_iff regular).mp answered
  exact coerce?_object_iff _

/-- A spec with a schema: only object can stand beside it, and string after it, which loses what the schema made. -/
theorem answer?_nested_iff {s : Spec} {declared : Table Spec} (regular : ∀ f ∈ fields, f.check.Regular)
    (nested : s.fields? = some declared) :
    s.answer? fields v = some w ↔
      (∀ type, s.type? = some type → type = .object ∨ type = .string ∧ s.typeComesLast) ∧
      ∃ u, (Schema.check fields).answer? v = some u ∧
        w = if s.type? = some .string then .string "[object Object]" else u := by
  unfold answer?
  rw [nested]
  cases asked : s.type? with
  | none => simp
  | some type =>
    cases last : s.typeComesLast
    · simp only [Bool.false_eq_true, if_false, type_before_schema_iff regular]
      cases type <;> simp
    · simp only [if_true, type_after_schema_iff regular]
      cases type <;> simp

theorem answer?_plain {s : Spec} (plain : s.fields? = none) :
    s.answer? fields v = match s.type? with
      | none => some v
      | some type => type.coerce? v := by
  unfold answer?
  rw [plain]
  cases s.type? <;> rfl

theorem answer?_not_null {s : Spec} (regular : ∀ f ∈ fields, f.check.Regular) (present : v.isNull = false)
    (answered : s.answer? fields v = some w) : w.isNull = false := by
  cases nested : s.fields? with
  | none =>
    rw [answer?_plain nested] at answered
    cases asked : s.type? <;> simp only [asked] at answered
    · cases answered
      exact present
    · exact (LeafType.hasType_coerce answered).isNull
  | some declared =>
    obtain ⟨_, u, schema, rfl⟩ := (answer?_nested_iff regular nested).mp answered
    obtain ⟨input, _, _, rfl⟩ := (Schema.answer?_eq_some_iff regular).mp schema
    split <;> rfl

theorem not_null_of_answer {s : Spec} (formed : s.WellFormed) {check : Check}
    (compiled : (Registry.builtin.compile s).result = .ok check) (present : v.isNull = false)
    (answered : check.answer? v = some w) : w.isNull = false := by
  obtain ⟨fields, compiles, answers⟩ := answer?_of_compile formed compiled
  rw [answers, if_neg (by simp [present])] at answered
  exact answer?_not_null (Field.regular_of_compiles compiles) present answered

end TypeAndSchema

end Spec

end Conform
