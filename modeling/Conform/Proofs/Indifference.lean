import Conform.Proofs.Entries
import Conform.Proofs.Likeness
import Mathlib.Logic.Relation

/-!
# What validation does not mind

The order of keys, keys that a schema does not declare, and null in the place of a field that is required or has a
default: `Spec.Edit` makes one such change somewhere in a value. A compiled check reports the same errors before and
after it, and values that are alike (`report_edit`), so it does after any number of them.
-/

namespace Conform

/-- A change that the validation of a spec does not mind: other values under undeclared keys or in another order, null
for an absent field that is required or has a default, or such a change in a declared field. -/
inductive Spec.Edit : Spec → Value → Value → Prop
  | reorder {s : Spec} {v w : Value} (alike : v.Alike w) : Edit s v w
  | undeclared {s : Spec} {declared : Table Spec} {fields : Table Value} {key : String} (x : Value)
      (nested : s.fields? = some declared) (unknown : key ∉ Table.keys declared) :
      Edit s (.object fields) (.object (Table.insert fields key x))
  | null {s t : Spec} {declared : Table Spec} {fields : Table Value} {name : String}
      (nested : s.fields? = some declared) (member : (name, t) ∈ declared) (filled : t.isRequired ∨ t.default.isSome)
      (absent : Table.get? fields name = none) :
      Edit s (.object fields) (.object (Table.insert fields name .null))
  | field {s t : Spec} {declared : Table Spec} {fields : Table Value} {name : String} {v w : Value}
      (nested : s.fields? = some declared) (member : (name, t) ∈ declared)
      (given : Table.get? fields name = some v) (inner : Edit t v w) :
      Edit s (.object fields) (.object (Table.insert fields name w))

namespace Spec

/-- What a declared field is given before and after a change. -/
inductive FieldEdit (t : Spec) : Option Value → Option Value → Prop
  | absent : FieldEdit t none none
  | given {v w : Value} (edit : t.Edit v w) : FieldEdit t (some v) (some w)
  | filled {x y : Option Value} (filled : t.isRequired ∨ t.default.isSome) (before : ∀ v, x = some v → v.isNull)
      (after : ∀ w, y = some w → w.isNull) : FieldEdit t x y

theorem FieldEdit.refl (t : Spec) (x : Option Value) : t.FieldEdit x x := by
  cases x with
  | none => exact .absent
  | some v => exact .given (.reorder (.refl v))

theorem Edit.isNull_eq {s : Spec} {v w : Value} (edit : s.Edit v w) : v.isNull = w.isNull := by
  cases edit with
  | reorder alike => exact alike.isNull_eq
  | _ => rfl

/-- A change is one of order alone, or one between objects that shows in the declared fields. -/
theorem Edit.cases {s : Spec} {v w : Value} (edit : s.Edit v w) :
    v.Alike w ∨ ∃ a b declared, v = .object a ∧ w = .object b ∧ s.fields? = some declared := by
  cases edit with
  | reorder alike => exact .inl alike
  | undeclared _ nested => exact .inr ⟨_, _, _, rfl, rfl, nested⟩
  | null nested => exact .inr ⟨_, _, _, rfl, rfl, nested⟩
  | field nested => exact .inr ⟨_, _, _, rfl, rfl, nested⟩

theorem eq_of_mem {declared : Table Spec} (distinct : Table.Distinct declared) {name : String} {t u : Spec}
    (first : (name, t) ∈ declared) (second : (name, u) ∈ declared) : t = u :=
  congrArg Prod.snd (List.inj_on_of_nodup_map distinct first second rfl)

theorem Edit.fieldEdit {s : Spec} {a b : Table Value} (edit : s.Edit (.object a) (.object b)) {declared : Table Spec}
    (nested : s.fields? = some declared) (distinct : Table.Distinct declared) {name : String} {t : Spec}
    (member : (name, t) ∈ declared) : t.FieldEdit (Table.get? a name) (Table.get? b name) := by
  cases edit with
  | reorder alike =>
    rcases alike.get? name with ⟨left, right⟩ | ⟨x, y, left, right, same⟩
    · rw [left, right]
      exact .absent
    · rw [left, right]
      exact .given (.reorder same)
  | @undeclared _ _ _ key x other unknown =>
    obtain rfl := Option.some.inj (nested.symm.trans other)
    have elsewhere : name ≠ key := by
      rintro rfl
      exact unknown (List.mem_map_of_mem member)
    rw [Table.get?_insert_other _ _ elsewhere]
    exact .refl t _
  | @null _ u _ _ key other there filled absent =>
    obtain rfl := Option.some.inj (nested.symm.trans other)
    by_cases here : name = key
    · subst here
      obtain rfl := eq_of_mem distinct member there
      rw [absent, Table.get?_insert_same]
      refine .filled filled nofun ?_
      rintro _ ⟨⟩
      rfl
    · rw [Table.get?_insert_other _ _ here]
      exact .refl t _
  | @field _ u _ _ key v w other there given inner =>
    obtain rfl := Option.some.inj (nested.symm.trans other)
    by_cases here : name = key
    · subst here
      obtain rfl := eq_of_mem distinct member there
      rw [given, Table.get?_insert_same]
      exact .given inner
    · rw [Table.get?_insert_other _ _ here]
      exact .refl t _

end Spec

/-! ### Fields and schemas -/

/-- A check whose reports are alike before and after changes that a spec does not mind. -/
def Check.Indifferent (check : Check) (s : Spec) : Prop :=
  ∀ v w, s.Edit v w → (check.report v).Alike (check.report w)

namespace Field

variable {name : String} {t : Spec} {check : Check} {a b : Table Value}

/-- What a field has to check before and after a change. -/
theorem given?_fieldEdit (edit : t.FieldEdit (Table.get? a name) (Table.get? b name)) :
    ((ofSpec name t check).given? a = none ∧ (ofSpec name t check).given? b = none) ∨
      ∃ v w, (ofSpec name t check).given? a = some v ∧ (ofSpec name t check).given? b = some w ∧ t.Edit v w := by
  rw [given?_eq_none_iff, given?_eq_none_iff]
  simp only [given?_eq_some_iff, show (ofSpec name t check).name = name from rfl]
  generalize Table.get? a name = x at edit
  generalize Table.get? b name = y at edit
  cases edit with
  | absent => exact .inl ⟨nofun, nofun⟩
  | @given v w edit =>
    have null := edit.isNull_eq
    by_cases runs : v.isNull → (ofSpec name t check).kind.isOptional
    · exact .inr ⟨v, w, ⟨rfl, runs⟩, ⟨rfl, null ▸ runs⟩, edit⟩
    · rw [Classical.not_imp, Bool.not_eq_true] at runs
      refine .inl ⟨?_, ?_⟩
      · rintro _ ⟨⟩
        exact runs
      · rintro _ ⟨⟩
        exact null ▸ runs
  | filled filled before after =>
    have kind : (ofSpec name t check).kind.isOptional = false := by
      rw [ofSpec, FieldKind.isOptional_ofSpec]
      rcases filled with required | default
      · simp [required]
      · simp [Option.isNone_eq_false_iff.mpr default]
    exact .inl ⟨fun u found => ⟨before u found, kind⟩, fun u found => ⟨after u found, kind⟩⟩

theorem report_fieldEdit (indifferent : check.Indifferent t)
    (edit : t.FieldEdit (Table.get? a name) (Table.get? b name)) :
    ((ofSpec name t check).report a).2 = ((ofSpec name t check).report b).2 ∧
    List.Forall₂ (fun e f => e.1 = f.1 ∧ e.2.Alike f.2)
      ((ofSpec name t check).entry ((ofSpec name t check).report a).1)
      ((ofSpec name t check).entry ((ofSpec name t check).report b).1) := by
  rcases @given?_fieldEdit name t check a b edit with ⟨left, right⟩ | ⟨v, w, left, right, edit⟩
  · rw [report_of_not_given rfl rfl left right]
    exact ⟨rfl, List.forall₂_same.mpr fun e _ => ⟨rfl, .refl e.2⟩⟩
  · have alike := indifferent v w edit
    rw [report, report, left, right]
    exact ⟨congrArg (List.map _) alike.errors, .cons ⟨rfl, alike.value⟩ .nil⟩

end Field

namespace Schema

theorem report_fields {fields : List Field} {a b : Table Value}
    (same : ∀ f ∈ fields, (f.report a).2 = (f.report b).2 ∧
      List.Forall₂ (fun e f => e.1 = f.1 ∧ e.2.Alike f.2) (f.entry (f.report a).1) (f.entry (f.report b).1)) :
    (report fields (.object a)).Alike (report fields (.object b)) := by
  constructor
  · exact List.flatMap_congr fun f member => (same f (mem_ordered.mp member)).1
  · have pairs : List.Forall₂ (fun f g => f = g ∧ f ∈ fields) (ordered fields) (ordered fields) :=
      List.forall₂_same.mpr fun f member => ⟨rfl, mem_ordered.mp member⟩
    refine .of_forall₂ (List.rel_flatMap pairs ?_)
    rintro f _ ⟨rfl, member⟩
    exact (same f member).2

end Schema

namespace Spec

theorem report_schema_edit {s : Spec} {declared : Table Spec} {fields : List Field}
    (compiles : List.Forall₂ Field.Compiles declared fields) (distinct : Table.Distinct declared)
    (nested : s.fields? = some declared)
    (indifferent : ∀ name t, (name, t) ∈ declared → ∀ check, (Registry.builtin.compile t).result = .ok check →
      check.Indifferent t) {v w : Value} (edit : s.Edit v w) :
    (Schema.report fields v).Alike (Schema.report fields w) := by
  have objects : ∀ a b, s.Edit (.object a) (.object b) →
      (Schema.report fields (.object a)).Alike (Schema.report fields (.object b)) := by
    intro a b edit
    refine Schema.report_fields fun f present => ?_
    obtain ⟨⟨name, t⟩, member, check, compiled, rfl⟩ := forall₂_mem_right compiles present
    exact Field.report_fieldEdit (indifferent name t member check compiled) (edit.fieldEdit nested distinct member)
  rcases edit.cases with alike | ⟨a, b, _, rfl, rfl, _⟩
  · cases alike with
    | refl => exact .refl _
    | array => exact .refl _
    | object keys inner => exact objects _ _ edit
  · exact objects a b edit

/-- Before a schema, a type passes both objects on as they are, or makes the same of both. -/
theorem type_before_schema_edit {type : LeafType} {a b : Table Value} :
    (type.report (.object a) = .pass (.object a) ∧ type.report (.object b) = .pass (.object b)) ∨
      type.report (.object a) = type.report (.object b) := by
  cases type
  case object => exact .inl ⟨rfl, rfl⟩
  all_goals exact .inr rfl

theorem report_nested_edit {s : Spec} {declared : Table Spec} {fields : List Field}
    (nested : s.fields? = some declared)
    (schema : ∀ {v w}, s.Edit v w → (Schema.report fields v).Alike (Schema.report fields w)) {v w : Value}
    (edit : s.Edit v w) : (s.report fields v).Alike (s.report fields w) := by
  unfold report
  rw [nested]
  cases s.type? with
  | none => exact schema edit
  | some type =>
    dsimp only
    split
    · exact (schema edit).andThen fun _ _ => type.report_alike
    · rcases edit.cases with alike | ⟨a, b, _, rfl, rfl, _⟩
      · exact (type.report_alike alike).andThen fun _ _ same => schema (.reorder same)
      · rcases @type_before_schema_edit type a b with ⟨left, right⟩ | same
        · rw [left, right]
          exact schema edit
        · rw [same]
          exact .refl _

/-- The induction is on the depth of the spec: a change in a declared field is one for a spec of lesser depth. -/
theorem report_edit (s : Spec) (formed : s.WellFormed) {check : Check}
    (compiled : (Registry.builtin.compile s).result = .ok check) : check.Indifferent s := by
  obtain ⟨fields, compiles, reports⟩ := report_of_compile formed compiled
  intro v w edit
  rw [reports, reports, edit.isNull_eq]
  split
  · exact .refl _
  · cases nested : s.fields? with
    | none =>
      have alike : v.Alike w := by
        rcases edit.cases with alike | ⟨_, _, declared, _, _, other⟩
        · exact alike
        · rw [nested] at other
          cases other
      unfold report
      rw [nested]
      cases s.type? with
      | none => exact ⟨rfl, alike⟩
      | some type => exact type.report_alike alike
    | some declared =>
      rw [nested, Option.getD_some] at compiles
      have inner : ∀ name t, (name, t) ∈ declared → ∀ check, (Registry.builtin.compile t).result = .ok check →
          check.Indifferent t := by
        intro name t member check compiledInner
        have lower := depth_field_lt nested member
        exact report_edit t (formed.field nested member) compiledInner
      refine report_nested_edit nested (fun edit => ?_) edit
      exact report_schema_edit compiles (formed.fields nested) nested inner edit
termination_by s.depth

end Spec

namespace Validate

/-- The same errors, or values that are alike. -/
def SameAnswer {ε : Type} : Except ε Value → Except ε Value → Prop
  | .error e, .error f => e = f
  | .ok v, .ok w => v.Alike w
  | _, _ => False

theorem sameAnswers_of_report {check : Check} (regular : check.Regular) {v w : Value}
    (alike : (check.report v).Alike (check.report w)) :
    SameAnswer (all check v) (all check w) ∧ SameAnswer (ok check v) (ok check w) := by
  rw [all_of_yields (regular v "" []), all_of_yields (regular w "" []), ok_of_yields (regular v "" []),
    ok_of_yields (regular w "" [])]
  simp only [Report.seenFrom, alike.errors]
  cases (check.report w).errors with
  | nil => exact ⟨alike.value, alike.value⟩
  | cons e rest => exact ⟨rfl, rfl⟩

/-- Validation answers alike before and after any number of changes, made or undone, that its spec does not mind. -/
theorem answers_indifferent {spec : Value} (distinct : spec.Distinct) {check : Check}
    (compiled : (Registry.builtin.compileValue spec).result = .ok check) :
    ∃ s, Spec.ofValue spec = .ok s ∧ ∀ v w, Relation.EqvGen s.Edit v w →
      SameAnswer (all check v) (all check w) ∧ SameAnswer (ok check v) (ok check w) := by
  obtain ⟨s, read, compiledSpec⟩ := Registry.compileValue_ok_iff.mp compiled
  have formed := Spec.wellFormed_ofValue distinct read
  refine ⟨s, read, fun v w changed => ?_⟩
  refine sameAnswers_of_report (hereditary_regular.compile_builtin s compiledSpec) ?_
  induction changed with
  | rel v w edit => exact Spec.report_edit s formed compiledSpec v w edit
  | refl v => exact .refl _
  | symm v w _ ih => exact ih.symm
  | trans u v w _ _ first second => exact first.trans second

/-- A visit with a place, and marks that no schema looks into. -/
def visitSpec : Spec := ⟨[("schema", .object [
  ("who", .object [("required", .bool true), ("type", .string "string")]),
  ("marks", .object [("type", .string "object")]),
  ("place", .object [("schema", .object [
    ("floor", .object [("type", .string "number"), ("def", .string "ground")])])])])], false, none⟩

def visitFields : Table Value :=
  [("place", .object []), ("marks", .object [("first", .bool true), ("late", .bool false)])]

def editedFields : Table Value := [
  ("place", .object [("floor", .null)]),
  ("marks", .object [("late", .bool false), ("first", .bool true)]),
  ("note", .string "by bus"),
  ("who", .null)]

theorem visitFields_edited : Relation.EqvGen visitSpec.Edit (.object visitFields) (.object editedFields) := by
  have marks : (Value.object [("first", .bool true), ("late", .bool false)]).Alike
      (.object [("late", .bool false), ("first", .bool true)]) := by
    refine .object (by decide) fun key x y left right => ?_
    have same : x = y := by grind [Table.get?]
    exact same ▸ .refl x
  have order : visitSpec.Edit (.object visitFields)
      (.object (Table.insert visitFields "marks" (.object [("late", .bool false), ("first", .bool true)]))) :=
    .field rfl (.tail _ (.head _)) rfl (.reorder marks)
  have note : ∀ fields, visitSpec.Edit (.object fields)
      (.object (Table.insert fields "note" (.string "by bus"))) :=
    fun _ => .undeclared _ rfl (by decide)
  have floor : ∀ fields, Table.get? fields "place" = some (.object []) →
      visitSpec.Edit (.object fields) (.object (Table.insert fields "place" (.object [("floor", .null)]))) :=
    fun _ given => .field rfl (.tail _ (.tail _ (.head _))) given (.null rfl (.head _) (.inr rfl) rfl)
  have who : ∀ fields, Table.get? fields "who" = none →
      visitSpec.Edit (.object fields) (.object (Table.insert fields "who" .null)) :=
    fun _ absent => .null rfl (.head _) (.inl rfl) absent
  refine .trans _ _ _ (.rel _ _ order) (.trans _ _ _ (.rel _ _ (note _)) ?_)
  exact .trans _ _ _ (.rel _ _ (floor _ rfl)) (.rel _ _ (who _ rfl))

theorem visit_indifferent : visitSpec.toValue.Distinct ∧
    ∃ check, (Registry.builtin.compileValue visitSpec.toValue).result = .ok check ∧
      Relation.EqvGen visitSpec.Edit (.object visitFields) (.object editedFields) ∧
      all check (.object visitFields) = .error ⟨[⟨"required, but not given", ".who", []⟩]⟩ ∧
      SameAnswer (all check (.object visitFields)) (all check (.object editedFields)) ∧
      SameAnswer (ok check (.object visitFields)) (ok check (.object editedFields)) := by
  have distinct : visitSpec.toValue.Distinct := by
    simp [visitSpec, Spec.toValue, Value.Distinct, Value.DistinctFields, Table.Distinct, Table.keys, Table.ofList,
      Table.insertAll, Table.insert]
  obtain ⟨s, read, indifferent⟩ := answers_indifferent distinct rfl
  obtain rfl : visitSpec = s := Except.ok.inj read
  exact ⟨distinct, _, rfl, visitFields_edited, rfl, indifferent _ _ visitFields_edited⟩

end Validate

end Conform
