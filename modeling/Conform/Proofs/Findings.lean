import Conform.Proofs.Acceptance
import Conform.Proofs.Entries
import Conform.Proofs.Paths

/-!
# Where errors are and what they say

`Spec.Leads` follows names through the declared fields of nested specs and the objects of a value, and `Spec.Blames`
gives the message for what stands where it ends. The errors that a check finds are just these
(`explains_of_compile`), so each is where it belongs.
-/

namespace Conform

open ValidationError (pathOf)

namespace Spec

/-- A type that stands before the schema of a spec takes objects, so that the schema is run on them. -/
def OpensObjects (s : Spec) : Prop := ∀ type, s.type? = some type → type = .object ∨ s.typeComesLast

/-- What the schema of a spec accepts. -/
def SchemaAccepts (s : Spec) (v : Value) : Prop :=
  ∃ declared, s.fields? = some declared ∧ ∃ input, v = .object input ∧ ∀ name t, (name, t) ∈ declared →
    t.FieldAccepts t.Accepts (Table.get? input name)

/-- The message of the entry that refuses a value which is not null: the type, unless a schema before it has found
errors, or the schema, unless a type before it has. -/
inductive Rejects (s : Spec) (v : Value) : String → Prop
  | type {type : LeafType} (asked : s.type? = some type) (refused : ¬ type.Stands v)
      (reached : s.fields? = none ∨ s.typeComesLast = false ∨ s.SchemaAccepts v) : Rejects s v type.message
  | schema {declared : Table Spec} (nested : s.fields? = some declared)
      (refused : v.kind ≠ .object ∨ ¬ s.OpensObjects)
      (reached : ∀ type, s.type? = some type → s.typeComesLast ∨ type.Stands v) : Rejects s v "Not an object"

/-- From a spec and a value, or absence, through objects on which schemas are run, names lead to the spec of a field and
its value, or absence. -/
inductive Leads : Spec → Option Value → List String → Spec → Option Value → Prop
  | here (s : Spec) (x : Option Value) : Leads s x [] s x
  | field {s t u : Spec} {declared : Table Spec} {input : Table Value} {name : String} {names : List String}
      {x : Option Value} (opens : s.OpensObjects) (nested : s.fields? = some declared)
      (member : (name, t) ∈ declared) (rest : Leads t (Table.get? input name) names u x) :
      Leads s (some (.object input)) (name :: names) u x

/-- The message for what stands in the place of a spec, which may be a field or the whole. -/
inductive Blames (s : Spec) (isField : Bool) : Option Value → String → Prop
  | required {x : Option Value} (marked : isField ∧ s.isRequired) (absent : ∀ w, x = some w → w.isNull) :
      Blames s isField x Field.requiredMessage
  | null (unmarked : ¬ (isField ∧ s.isRequired)) (nullable : s.nullable = false) (default : s.default = none) :
      Blames s isField (some .null) Check.nullMessage
  | rejected {w : Value} {message : String} (present : w.isNull = false) (rejects : s.Rejects w message) :
      Blames s isField (some w) message

/-- There is something to say about the place to which names lead. -/
def Finds (s : Spec) (isField : Bool) (x : Option Value) (names : List String) (message : String) : Prop :=
  ∃ t y, s.Leads x names t y ∧ t.Blames (isField || !names.isEmpty) y message

/-! ### Ways and messages -/

theorem Leads.trans {s t u : Spec} {x y z : Option Value} {names more : List String}
    (first : s.Leads x names t y) (second : t.Leads y more u z) : s.Leads x (names ++ more) u z := by
  induction first with
  | here => exact second
  | field opens nested member _ ih => exact .field opens nested member (ih second)

theorem leads_iff_of_not_object {s t : Spec} {x y : Option Value} {names : List String}
    (flat : ∀ input, x ≠ some (.object input)) : s.Leads x names t y ↔ names = [] ∧ t = s ∧ y = x := by
  constructor
  · intro leads
    cases leads with
    | here => exact ⟨rfl, rfl, rfl⟩
    | field => exact absurd rfl (flat _)
  · rintro ⟨rfl, rfl, rfl⟩
    exact .here _ _

theorem Rejects.message_mem {s : Spec} {v : Value} {message : String} (rejects : s.Rejects v message) :
    message ∈ LeafType.all.map LeafType.message := by
  cases rejects with
  | @type type => cases type <;> decide
  | schema => decide

theorem Blames.required_iff {s : Spec} {isField : Bool} {x : Option Value} {message : String}
    (blames : s.Blames isField x message) :
    message = Field.requiredMessage ↔ (isField ∧ s.isRequired) ∧ ∀ w, x = some w → w.isNull := by
  cases blames with
  | required marked absent => exact ⟨fun _ => ⟨marked, absent⟩, fun _ => rfl⟩
  | null unmarked => exact ⟨fun same => absurd same (by decide), fun marked => absurd marked.1 unmarked⟩
  | rejected present rejects =>
    constructor
    · rintro rfl
      exact absurd rejects.message_mem (by decide)
    · rintro ⟨_, absent⟩
      rw [absent _ rfl] at present
      cases present

theorem Blames.null_iff {s : Spec} {isField : Bool} {x : Option Value} {message : String}
    (blames : s.Blames isField x message) :
    message = Check.nullMessage ↔
      x = some .null ∧ s.nullable = false ∧ s.default = none ∧ ¬ (isField ∧ s.isRequired) := by
  cases blames with
  | required marked _ => exact ⟨fun same => absurd same (by decide), fun unmarked => absurd marked unmarked.2.2.2⟩
  | null unmarked nullable default => exact ⟨fun _ => ⟨rfl, nullable, default, unmarked⟩, fun _ => rfl⟩
  | rejected present rejects =>
    constructor
    · rintro rfl
      exact absurd rejects.message_mem (by decide)
    · rintro ⟨null, _⟩
      cases null
      cases present

theorem Blames.rejects {s : Spec} {isField : Bool} {x : Option Value} {message : String}
    (blames : s.Blames isField x message) (given : message ≠ Field.requiredMessage)
    (present : message ≠ Check.nullMessage) : ∃ w, x = some w ∧ w.isNull = false ∧ s.Rejects w message := by
  cases blames with
  | required => exact absurd rfl given
  | null => exact absurd rfl present
  | rejected present rejects => exact ⟨_, rfl, present, rejects⟩

/-- It makes no difference that a value stands in a field, unless it is a null where a value is required. -/
theorem finds_field_iff {s : Spec} {w : Value} {names : List String} {message : String}
    (given : w.isNull → s.isRequired = false) :
    s.Finds true (some w) names message ↔ s.Finds false (some w) names message := by
  cases names with
  | cons name names => exact Iff.rfl
  | nil =>
    refine exists_congr fun t => exists_congr fun y => and_congr_right fun leads => ?_
    cases leads
    constructor <;> intro blames <;> cases blames with
    | required marked absent => simp [given (absent w rfl)] at marked
    | null _ nullable default => exact .null (by simp [given rfl]) nullable default
    | rejected present rejects => exact .rejected present rejects

theorem finds_field_cons_iff {s : Spec} {input : Table Value} {name : String} {names : List String}
    {message : String} {isField : Bool} :
    s.Finds isField (some (.object input)) (name :: names) message ↔
      s.OpensObjects ∧ ∃ declared t, s.fields? = some declared ∧ (name, t) ∈ declared ∧
        t.Finds true (Table.get? input name) names message := by
  constructor
  · rintro ⟨u, y, leads, blames⟩
    cases leads with
    | field opens nested member rest =>
      exact ⟨opens, _, _, nested, member, u, y, rest, by simpa using blames⟩
  · rintro ⟨opens, declared, t, nested, member, u, y, rest, blames⟩
    exact ⟨u, y, .field opens nested member rest, by simpa using blames⟩

theorem finds_iff_of_not_object {s : Spec} {isField : Bool} {x : Option Value} {names : List String}
    {message : String} (flat : ∀ input, x ≠ some (.object input)) :
    s.Finds isField x names message ↔ names = [] ∧ s.Blames isField x message := by
  simp only [Finds, leads_iff_of_not_object flat]
  constructor
  · rintro ⟨t, y, ⟨rfl, rfl, rfl⟩, blames⟩
    exact ⟨rfl, by simpa using blames⟩
  · rintro ⟨rfl, blames⟩
    exact ⟨s, x, ⟨rfl, rfl, rfl⟩, by simpa using blames⟩

theorem finds_nil_iff {s : Spec} {isField : Bool} {x : Option Value} {message : String} :
    s.Finds isField x [] message ↔ s.Blames isField x message := by
  constructor
  · rintro ⟨t, y, leads, blames⟩
    cases leads
    simpa using blames
  · intro blames
    exact ⟨s, x, .here s x, by simpa using blames⟩

theorem blames_present_iff {s : Spec} {isField : Bool} {w : Value} {message : String} (present : w.isNull = false) :
    s.Blames isField (some w) message ↔ s.Rejects w message := by
  constructor
  · intro blames
    cases blames with
    | required _ absent => rw [absent w rfl] at present; cases present
    | null => cases present
    | rejected _ rejects => exact rejects
  · exact .rejected present

/-- What is found in a value is found at its own place by the entries of its spec, or in a declared field. -/
theorem finds_present_iff {s : Spec} {isField : Bool} {v : Value} {names : List String} {message : String}
    (present : v.isNull = false) :
    s.Finds isField (some v) names message ↔ names = [] ∧ s.Rejects v message ∨
      s.OpensObjects ∧ ∃ input, v = .object input ∧ ∃ declared name t rest, s.fields? = some declared ∧
        (name, t) ∈ declared ∧ names = name :: rest ∧ t.Finds true (Table.get? input name) rest message := by
  cases names with
  | nil => simp [finds_nil_iff, blames_present_iff present]
  | cons name rest =>
    by_cases object : ∃ input, v = .object input
    · obtain ⟨input, rfl⟩ := object
      simp only [finds_field_cons_iff, Value.object.injEq, exists_eq_left', List.cons.injEq, reduceCtorEq, false_and,
        false_or]
      grind
    · have flat : ∀ input, some v ≠ some (.object input) := by
        rintro input same
        exact object ⟨input, Option.some.inj same⟩
      rw [finds_iff_of_not_object flat]
      simp only [reduceCtorEq, false_and, false_or, false_iff]
      rintro ⟨_, input, same, _⟩
      exact object ⟨input, same⟩

theorem blames_root_null_iff {s : Spec} {message : String} :
    s.Blames false (some .null) message ↔
      s.nullable = false ∧ s.default = none ∧ message = Check.nullMessage := by
  constructor
  · intro blames
    cases blames with
    | required marked => simp at marked
    | null _ nullable default => exact ⟨nullable, default, rfl⟩
    | rejected present => cases present
  · rintro ⟨nullable, default, rfl⟩
    exact .null (by simp) nullable default

end Spec

/-! ### The errors of a field and of a schema -/

def ValidationError.finding (names : List String) (message : String) : ValidationError :=
  ⟨message, pathOf names, []⟩

open ValidationError (finding)

/-- The errors that a check finds in a value are those that its spec has it find. -/
def Spec.Explains (s : Spec) (check : Check) : Prop :=
  ∀ w e, e ∈ (check.report w).errors ↔ ∃ names message, s.Finds false (some w) names message ∧ e = finding names message

namespace Field

variable {name : String} {t : Spec} {check : Check} {input : Table Value}

theorem mem_report_of_given {w : Value} (explains : t.Explains check)
    (given : (ofSpec name t check).given? input = some w) (e : ValidationError) :
    e ∈ ((ofSpec name t check).report input).2 ↔
      ∃ names message, t.Finds true (Table.get? input name) names message ∧ e = finding (name :: names) message := by
  obtain ⟨found, optional⟩ := given?_eq_some_iff.mp given
  have unmarked : w.isNull → t.isRequired = false := by
    intro null
    have kind := optional null
    rw [ofSpec, FieldKind.isOptional_ofSpec] at kind
    simp only [Bool.and_eq_true, Bool.not_eq_true'] at kind
    exact kind.1
  rw [show Table.get? input name = some w from found]
  simp only [report, given, Report.seenFrom, List.mem_map, Spec.finds_field_iff unmarked]
  constructor
  · rintro ⟨inner, member, rfl⟩
    obtain ⟨names, message, finds, rfl⟩ := (explains w inner).mp member
    exact ⟨names, message, finds, rfl⟩
  · rintro ⟨names, message, finds, rfl⟩
    exact ⟨finding names message, (explains w _).mpr ⟨names, message, finds, rfl⟩, rfl⟩

/-- Where no value is given, there is something to say only if one is required. -/
theorem finds_of_not_given (given : (ofSpec name t check).given? input = none) {names : List String}
    {message : String} :
    t.Finds true (Table.get? input name) names message ↔
      names = [] ∧ t.isRequired ∧ message = requiredMessage := by
  have absent := given?_eq_none_iff.mp given
  have null : ∀ w, Table.get? input name = some w → w.isNull := fun w found => (absent w found).1
  have flat : ∀ fields, Table.get? input name ≠ some (.object fields) := by
    intro fields found
    cases null _ found
  rw [Spec.finds_iff_of_not_object flat]
  refine and_congr_right fun _ => ⟨fun blames => ?_, ?_⟩
  · generalize asked : Table.get? input name = x at blames
    cases blames with
    | required marked => exact ⟨marked.2, rfl⟩
    | null unmarked _ default =>
      have kind := (absent .null asked).2
      rw [ofSpec, FieldKind.isOptional_ofSpec, default] at kind
      exact absurd ⟨rfl, by simpa using kind⟩ unmarked
    | rejected present => simp [null _ asked] at present
  · rintro ⟨marked, rfl⟩
    exact .required (by simp [marked]) null

theorem mem_report_iff (explains : t.Explains check) (input : Table Value) (e : ValidationError) :
    e ∈ ((ofSpec name t check).report input).2 ↔
      ∃ names message, t.Finds true (Table.get? input name) names message ∧ e = finding (name :: names) message := by
  cases given : (ofSpec name t check).given? input with
  | some w => exact mem_report_of_given explains given e
  | none =>
    simp only [finds_of_not_given given]
    cases marked : t.isRequired with
    | true =>
      have kind : (ofSpec name t check).kind = .required := by simp [ofSpec, FieldKind.ofSpec, marked]
      have missing : ((ofSpec name t check).report input).2 = [finding [name] requiredMessage] := by
        rw [report, given, kind, finding, show pathOf [name] = "." ++ name from String.append_empty]
        rfl
      rw [missing, List.mem_singleton]
      simp
    | false =>
      have clean : ((ofSpec name t check).report input).2 = [] := by
        rw [clean_iff, given]
        exact (FieldKind.isRequired_ofSpec t).trans marked
      rw [clean]
      simp

end Field

namespace Spec

theorem mem_schema_errors_iff {declared : Table Spec} {fields : List Field}
    (compiles : List.Forall₂ Field.Compiles declared fields)
    (explains : ∀ name t, (name, t) ∈ declared → ∀ check, (Registry.builtin.compile t).result = .ok check →
      t.Explains check) (input : Table Value) (e : ValidationError) :
    e ∈ Schema.errors (Schema.ordered fields) input ↔ ∃ name t, (name, t) ∈ declared ∧
      ∃ names message, t.Finds true (Table.get? input name) names message ∧ e = finding (name :: names) message := by
  simp only [Schema.errors, List.mem_flatMap, Schema.mem_ordered]
  constructor
  · rintro ⟨f, member, found⟩
    obtain ⟨⟨name, t⟩, present, check, compiled, rfl⟩ := forall₂_mem_right compiles member
    exact ⟨name, t, present, (Field.mem_report_iff (explains name t present check compiled) input e).mp found⟩
  · rintro ⟨name, t, present, found⟩
    obtain ⟨f, member, check, compiled, rfl⟩ := forall₂_mem_left compiles present
    exact ⟨_, member, (Field.mem_report_iff (explains name t present check compiled) input e).mpr found⟩

/-! ### The errors of a spec -/

theorem mem_refusal_iff {message : String} {e : ValidationError} :
    e ∈ (Report.refusal message).errors ↔ e = finding [] message := List.mem_singleton

theorem stands_object_iff (type : LeafType) (a b : Table Value) :
    type.Stands (.object a) ↔ type.Stands (.object b) := by
  cases type <;> simp [LeafType.Stands, LeafType.StandsForNumber, LeafType.StandsForDate, Value.kind]

theorem mem_leaf_iff {type : LeafType} {v : Value} {e : ValidationError} :
    e ∈ (type.report v).errors ↔ ¬ type.Stands v ∧ e = finding [] type.message := by
  rw [← LeafType.coerce?_isSome_iff, LeafType.report]
  cases type.coerce? v with
  | some w => simp [Report.pass]
  | none => simp [mem_refusal_iff]

section Nested

variable {s : Spec} {declared : Table Spec} {fields : List Field} {v : Value} {e : ValidationError}

theorem mem_plain_iff (plain : s.fields? = none) :
    e ∈ (s.report fields v).errors ↔ ∃ message, s.Rejects v message ∧ e = finding [] message := by
  have rejects : ∀ message, s.Rejects v message ↔
      ∃ type, s.type? = some type ∧ ¬ type.Stands v ∧ message = type.message := by
    intro message
    constructor
    · intro rejects
      cases rejects with
      | type asked refused => exact ⟨_, asked, refused, rfl⟩
      | schema nested => rw [plain] at nested; cases nested
    · rintro ⟨type, asked, refused, rfl⟩
      exact .type asked refused (.inl plain)
  simp only [rejects, report, plain]
  cases s.type? with
  | none => simp [Report.pass]
  | some type => simp [mem_leaf_iff]

theorem rejects_nested_iff (nested : s.fields? = some declared) {message : String} :
    s.Rejects v message ↔
      (∃ type, s.type? = some type ∧ ¬ type.Stands v ∧ (s.typeComesLast = false ∨ s.SchemaAccepts v) ∧
        message = type.message) ∨
      (v.kind ≠ .object ∨ ¬ s.OpensObjects) ∧ (∀ type, s.type? = some type → s.typeComesLast ∨ type.Stands v) ∧
        message = "Not an object" := by
  constructor
  · intro rejects
    cases rejects with
    | type asked refused reached => exact .inl ⟨_, asked, refused, reached.resolve_left (by simp [nested]), rfl⟩
    | schema _ refused reached => exact .inr ⟨refused, reached, rfl⟩
  · rintro (⟨type, asked, refused, reached, rfl⟩ | ⟨refused, reached, rfl⟩)
    · exact .type asked refused (.inr reached)
    · exact .schema nested refused reached

theorem mem_schema_report_iff :
    e ∈ (Schema.report fields v).errors ↔ v.kind ≠ .object ∧ e = finding [] "Not an object" ∨
      ∃ input, v = .object input ∧ e ∈ Schema.errors (Schema.ordered fields) input := by
  cases v <;> simp [Schema.report, mem_refusal_iff, Value.kind]

/-- A type after a schema is asked if the schema finds nothing, and what it refuses then is an object before and after. -/
theorem mem_type_last_iff {type : LeafType} :
    e ∈ ((Schema.report fields v).andThen type.report).errors ↔ e ∈ (Schema.report fields v).errors ∨
      (Schema.report fields v).errors = [] ∧ ¬ type.Stands v ∧ e = finding [] type.message := by
  rw [Report.errors_andThen]
  by_cases clean : (Schema.report fields v).errors = []
  · cases v with
    | object input =>
      have output := stands_object_iff type (Schema.entries (Schema.ordered fields) input) input
      rw [if_pos clean, mem_leaf_iff, clean]
      simp [Schema.report, output]
    | _ => cases clean
  · simp [clean]

/-- A type before a schema keeps from it what is no object. -/
theorem mem_type_first_iff {type : LeafType} :
    e ∈ ((type.report v).andThen (Schema.report fields)).errors ↔
      ¬ type.Stands v ∧ e = finding [] type.message ∨
      type.Stands v ∧ (type = .object ∧ e ∈ (Schema.report fields v).errors ∨
        type ≠ .object ∧ e = finding [] "Not an object") := by
  rw [Report.errors_andThen, LeafType.report]
  cases coerced : type.coerce? v with
  | none =>
    have refused : ¬ type.Stands v := by simp [← type.coerce?_isSome_iff, coerced]
    have failed : (Report.refusal type.message).errors ≠ [] := List.cons_ne_nil _ _
    simp [refused, failed, mem_refusal_iff]
  | some w =>
    have stands : type.Stands v := by simp [← type.coerce?_isSome_iff, coerced]
    have kind := (LeafType.hasType_coerce coerced).kind
    by_cases object : type = .object
    · subst object
      cases v <;> cases coerced
      simp [Report.pass, stands]
    · have flat : w.kind ≠ .object := by
        rw [kind]
        cases type <;> simp [LeafType.kind] at object ⊢
      have other : ∀ input, w ≠ .object input := by
        rintro input rfl
        exact flat rfl
      simp [Report.pass, mem_schema_report_iff, flat, other, object, stands]

theorem mem_nested_iff (nested : s.fields? = some declared)
    (accepts : (Schema.report fields v).errors = [] ↔ s.SchemaAccepts v) :
    e ∈ (s.report fields v).errors ↔ (∃ message, s.Rejects v message ∧ e = finding [] message) ∨
      s.OpensObjects ∧ ∃ input, v = .object input ∧ e ∈ Schema.errors (Schema.ordered fields) input := by
  simp only [rejects_nested_iff nested, report, nested]
  cases asked : s.type? with
  | none =>
    have opens : s.OpensObjects := by simp [OpensObjects, asked]
    simp [mem_schema_report_iff, opens]
  | some type =>
    cases last : s.typeComesLast with
    | true =>
      have opens : s.OpensObjects := fun _ _ => .inr last
      simp only [if_true, mem_type_last_iff, accepts, mem_schema_report_iff, opens]
      grind
    | false =>
      have opens : s.OpensObjects ↔ type = .object := by simp [OpensObjects, asked, last]
      have object : ∀ input, v = .object input → LeafType.object.Stands v := by
        rintro input rfl
        rfl
      simp only [Bool.false_eq_true, if_false, mem_type_first_iff, mem_schema_report_iff, opens]
      grind

end Nested

theorem mem_nullReport_iff {nullable : Bool} {default : Option Value} {e : ValidationError} :
    e ∈ (Check.nullReport nullable default).errors ↔
      nullable = false ∧ default = none ∧ e = finding [] Check.nullMessage := by
  unfold Check.nullReport
  cases nullable <;> cases default <;> simp [Report.pass, mem_refusal_iff]

theorem schema_silent_iff {s : Spec} {declared : Table Spec} {fields : List Field} (formed : s.WellFormed)
    (nested : s.fields? = some declared) (compiles : List.Forall₂ Field.Compiles declared fields) (v : Value) :
    (Schema.report fields v).errors = [] ↔ s.SchemaAccepts v := by
  have answers : (Schema.report fields v).errors = [] ↔ ∃ u, (Schema.check fields).answer? v = some u := by
    rw [(Schema.tells_check (Field.regular_of_compiles compiles) v).answer?]
    simp [Report.answer?_eq_some_iff]
  have accepted : ∀ name t, (name, t) ∈ declared → ∀ check, (Registry.builtin.compile t).result = .ok check →
      ∀ w, (check.answer? w).isSome ↔ t.Accepts w :=
    fun name t member check compiled => answer?_isSome_iff_accepts t (formed.field nested member) compiled
  rw [answers, schema_accepts_iff compiles accepted]
  simp [SchemaAccepts, nested]

/-- A check finds what its spec has it find. -/
theorem explains_of_compile (s : Spec) (formed : s.WellFormed) {check : Check}
    (compiled : (Registry.builtin.compile s).result = .ok check) : s.Explains check := by
  intro v e
  obtain ⟨fields, compiles, reports⟩ := report_of_compile formed compiled
  rw [reports]
  cases null : v.isNull with
  | true =>
    obtain rfl := Value.eq_null_of_isNull null
    have flat : ∀ input, some Value.null ≠ some (.object input) := by simp
    simp only [if_true, mem_nullReport_iff, finds_iff_of_not_object flat, blames_root_null_iff]
    grind
  | false =>
    simp only [Bool.false_eq_true, if_false, finds_present_iff null]
    cases nested : s.fields? with
    | none =>
      rw [mem_plain_iff nested]
      simp
    | some declared =>
      rw [nested, Option.getD_some] at compiles
      have explains : ∀ name t, (name, t) ∈ declared → ∀ check,
          (Registry.builtin.compile t).result = .ok check → t.Explains check := by
        -- The induction is on the depth of the spec, for all values at once.
        intro name t member inner compiledInner
        have lower := depth_field_lt nested member
        exact explains_of_compile t (formed.field nested member) compiledInner
      rw [mem_nested_iff nested (schema_silent_iff formed nested compiles v)]
      simp only [mem_schema_errors_iff compiles explains]
      constructor
      · rintro (⟨message, rejects, rfl⟩ | ⟨opens, input, object, name, t, member, rest, message, finds, rfl⟩)
        · exact ⟨[], message, .inl ⟨rfl, rejects⟩, rfl⟩
        · exact ⟨_, message, .inr ⟨opens, input, object, declared, name, t, rest, rfl, member, rfl, finds⟩, rfl⟩
      · rintro ⟨_, message, ⟨rfl, rejects⟩ | ⟨opens, input, object, _, name, t, rest, same, member, rfl, finds⟩, rfl⟩
        · exact .inl ⟨message, rejects, rfl⟩
        · cases same
          exact .inr ⟨opens, input, object, name, t, member, rest, message, finds, rfl⟩
termination_by s.depth

end Spec

end Conform
