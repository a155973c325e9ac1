import Conform.Proofs.Answer
import Mathlib.Data.List.Nodup

/-!
# The entries of an answer

What a schema puts into its answer when no field has an error: which names in which order (`keys_answer`), and
which value under each (`get?_answer`, `value_ofSpec`).
-/

namespace Conform

/-! ### One field -/

namespace FieldKind

theorem isRequired_ofSpec (t : Spec) : (ofSpec t).isRequired = t.isRequired := by
  unfold ofSpec
  cases t.isRequired <;> cases t.default <;> rfl

theorem hasDefault_ofSpec (t : Spec) : (ofSpec t).hasDefault = (!t.isRequired && t.default.isSome) := by
  unfold ofSpec
  cases t.isRequired <;> cases t.default <;> rfl

theorem isOptional_ofSpec (t : Spec) : (ofSpec t).isOptional = (!t.isRequired && t.default.isNone) := by
  unfold ofSpec
  cases t.isRequired <;> cases t.default <;> rfl

end FieldKind

namespace Field

theorem given?_eq_some_iff {f : Field} {input : Table Value} {u : Value} :
    f.given? input = some u ↔ Table.get? input f.name = some u ∧ (u.isNull → f.kind.isOptional) := by
  unfold given?
  cases f.kind <;> cases Table.get? input f.name <;>
    simp [FieldKind.isOptional, Value.present?, and_comm] <;> grind

theorem given?_eq_none_iff {f : Field} {input : Table Value} :
    f.given? input = none ↔
      ∀ u, Table.get? input f.name = some u → u.isNull ∧ f.kind.isOptional = false := by
  unfold given?
  cases f.kind <;> cases Table.get? input f.name <;> simp [FieldKind.isOptional, Value.present?]

/-- Where no value is given, the name and the kind of a field tell what it reports. -/
theorem report_of_not_given {f g : Field} {a b : Table Value} (name : f.name = g.name) (kind : f.kind = g.kind)
    (left : f.given? a = none) (right : g.given? b = none) : f.report a = g.report b := by
  rw [report, report, left, right, kind, step, step, name]
  cases g.kind <;> rfl

theorem keys_entry (f : Field) (value : Option Value) :
    Table.keys (f.entry value) = if value.isSome then [f.name] else [] := by
  cases value <;> rfl

/-- Only an optional field that the input does not have adds nothing. -/
theorem value_isSome {f : Field} {input : Table Value} (clean : (f.report input).2 = []) :
    (f.report input).1.isSome = (!f.kind.isOptional || Table.contains input f.name) := by
  obtain ⟨name, kind, check⟩ := f
  cases kind with
  | required =>
    simp only [report, given?] at clean ⊢
    cases given : (Table.get? input name).bind Value.present? with
    | none => simp [given] at clean
    | some v => simp [FieldKind.isOptional]
  | withDefault d =>
    simp only [report, given?]
    cases (Table.get? input name).bind Value.present? <;> simp [FieldKind.isOptional]
  | optional =>
    simp only [report, given?, Table.contains]
    cases Table.get? input name <;> simp [FieldKind.isOptional]

theorem answered_of_given {f : Field} {input : Table Value} {v x : Value} (clean : (f.report input).2 = [])
    (given : f.given? input = some v) (value : (f.report input).1 = some x) : f.check.answer? v = some x := by
  rw [clean_iff, given] at clean
  obtain ⟨w, answered⟩ := Option.isSome_iff_exists.mp clean
  rw [value_of_given given answered] at value
  rw [answered, value]

/-- The value of a field: its default for what is absent or null, else what its check makes of its own value, which
may be null only if the field is optional. -/
theorem value_ofSpec {name : String} {t : Spec} {check : Check} {input : Table Value} {x : Value}
    (clean : ((ofSpec name t check).report input).2 = [])
    (value : ((ofSpec name t check).report input).1 = some x) :
    (t.isRequired = false ∧ t.default = some x ∧ ∀ u, Table.get? input name = some u → u.isNull) ∨
    ∃ u, Table.get? input name = some u ∧ check.answer? u = some x ∧
      (u.isNull → t.isRequired = false ∧ t.default = none) := by
  cases given : (ofSpec name t check).given? input with
  | some u =>
    obtain ⟨found, optional⟩ := given?_eq_some_iff.mp given
    refine .inr ⟨u, found, answered_of_given clean given value, fun null => ?_⟩
    have kind := optional null
    rw [ofSpec, FieldKind.isOptional_ofSpec] at kind
    simpa using kind
  | none =>
    have absent := given?_eq_none_iff.mp given
    rw [report, given] at clean value
    simp only [ofSpec, FieldKind.ofSpec] at clean value
    cases required : t.isRequired with
    | true => simp [required] at clean
    | false =>
      cases default : t.default with
      | none => simp [required, default] at value
      | some d =>
        have same : d = x := by simpa [required, default] using value
        exact .inl ⟨rfl, congrArg some same, fun u found => (absent u found).1⟩

end Field

/-! ### All fields -/

namespace Schema

theorem ordered_perm (fields : List Field) : (ordered fields).Perm fields := by
  induction fields with
  | nil => exact .nil
  | cons f fields ih =>
    simp only [ordered, List.filter_cons, List.append_assoc] at ih ⊢
    cases kind : f.kind <;>
      simp only [FieldKind.isRequired, FieldKind.hasDefault, FieldKind.isOptional, if_true, Bool.false_eq_true,
        if_false, List.cons_append]
    · exact ih.cons f
    · exact List.perm_middle.trans (ih.cons f)
    · rw [← List.append_assoc] at ih ⊢
      exact List.perm_middle.trans (ih.cons f)

theorem mem_entries {fields : List Field} {input : Table Value} {name : String} {x : Value} :
    (name, x) ∈ entries fields input ↔ ∃ f ∈ fields, f.name = name ∧ (f.report input).1 = some x := by
  unfold entries
  rw [List.mem_flatMap]
  refine exists_congr fun f => and_congr_right fun _ => ?_
  cases (f.report input).1 <;> simp [Field.entry, eq_comm (a := name), eq_comm (a := x)]

theorem keys_entries {fields : List Field} {input : Table Value}
    (clean : ∀ f ∈ fields, (f.report input).2 = []) :
    Table.keys (entries fields input) =
      (fields.filter fun f => !f.kind.isOptional || Table.contains input f.name).map (·.name) := by
  induction fields with
  | nil => rfl
  | cons f fields ih =>
    have first := Field.value_isSome (clean f List.mem_cons_self)
    have rest := ih fun other member => clean other (List.mem_cons_of_mem _ member)
    have split : Table.keys (entries (f :: fields) input) =
        Table.keys (f.entry (f.report input).1) ++ Table.keys (entries fields input) := by
      simp [entries, Table.keys]
    rw [split, rest, Field.keys_entry, first, List.filter_cons]
    split <;> rfl

theorem get?_entries {fields : List Field} {input : Table Value}
    (apart : ∀ f ∈ fields, ∀ g ∈ fields, f.name = g.name → f = g) {f : Field} (member : f ∈ fields) :
    Table.get? (entries fields input) f.name = (f.report input).1 := by
  have owned : ∀ x, Table.get? (entries fields input) f.name = some x → (f.report input).1 = some x := by
    intro x found
    obtain ⟨g, other, name, value⟩ := mem_entries.mp (Table.mem_of_get? found)
    rw [apart f member g other name.symm]
    exact value
  cases found : Table.get? (entries fields input) f.name with
  | some x => exact (owned x found).symm
  | none =>
    cases value : (f.report input).1 with
    | none => rfl
    | some x =>
      have entry : (f.name, x) ∈ entries fields input := mem_entries.mpr ⟨f, member, rfl, value⟩
      exact absurd (List.mem_map_of_mem entry) (Table.get?_eq_none_iff.mp found)

end Schema

/-! ### The fields of a spec -/

namespace Spec

variable {declared : Table Spec} {fields : List Field}

/-- The keys of an answer in order: required fields, those with a default, and of the others those that are there. -/
def answerKeys (declared : Table Spec) (input : Table Value) : List String :=
  Table.keys (declared.filter fun e => e.2.isRequired) ++
    Table.keys (declared.filter fun e => !e.2.isRequired && e.2.default.isSome) ++
    Table.keys (declared.filter fun e =>
      !e.2.isRequired && e.2.default.isNone && Table.contains input e.1)

theorem names_filter (compiles : List.Forall₂ Field.Compiles declared fields) {p : Field → Bool}
    {q : String × Spec → Bool} (same : ∀ name t check, p (.ofSpec name t check) = q (name, t)) :
    (fields.filter p).map (·.name) = Table.keys (declared.filter q) := by
  induction compiles with
  | nil => rfl
  | @cons e f declared fields first _ ih =>
    obtain ⟨check, _, rfl⟩ := first
    rw [List.filter_cons, List.filter_cons, same]
    split
    · rw [List.map_cons, ih]
      rfl
    · exact ih

theorem names_of_compiles (compiles : List.Forall₂ Field.Compiles declared fields) :
    fields.map (·.name) = Table.keys declared := by
  have names := names_filter compiles (p := fun _ => true) (q := fun _ => true) fun _ _ _ => rfl
  rwa [List.filter_true, List.filter_true] at names

theorem get?_answer (compiles : List.Forall₂ Field.Compiles declared fields) (distinct : Table.Distinct declared)
    (input : Table Value) {f : Field} (member : f ∈ fields) :
    Table.get? (Schema.entries (Schema.ordered fields) input) f.name = (f.report input).1 := by
  have nodup : (fields.map (·.name)).Nodup := by
    rw [names_of_compiles compiles]
    exact distinct
  apply Schema.get?_entries
  · intro f left g right same
    exact List.inj_on_of_nodup_map nodup (Schema.mem_ordered.mp left) (Schema.mem_ordered.mp right) same
  · exact Schema.mem_ordered.mpr member

theorem keys_answer (compiles : List.Forall₂ Field.Compiles declared fields) {input : Table Value}
    (clean : ∀ f ∈ fields, (f.report input).2 = []) :
    Table.keys (Schema.entries (Schema.ordered fields) input) = answerKeys declared input := by
  have ordered : ∀ f ∈ Schema.ordered fields, (f.report input).2 = [] :=
    fun f member => clean f (Schema.mem_ordered.mp member)
  rw [Schema.keys_entries ordered, Schema.ordered, List.filter_append, List.filter_append,
    List.map_append, List.map_append]
  simp only [List.filter_filter]
  rw [names_filter compiles (q := fun e => e.2.isRequired) ?_,
    names_filter compiles (q := fun e => !e.2.isRequired && e.2.default.isSome) ?_,
    names_filter compiles
      (q := fun e => !e.2.isRequired && e.2.default.isNone && Table.contains input e.1) ?_]
  · rfl
  all_goals
    intro name t check
    simp only [Field.ofSpec, FieldKind.isRequired_ofSpec, FieldKind.hasDefault_ofSpec,
      FieldKind.isOptional_ofSpec]
    cases t.isRequired <;> cases t.default <;> simp

end Spec

end Conform
