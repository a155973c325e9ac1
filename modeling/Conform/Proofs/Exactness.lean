import Conform.Proofs.Findings

/-!
# Collected errors are exact

The errors that are collected for a value are those that its spec has to say of it, each once, no two of them at one
place or one inside the place of another (`apart_of_compile`), and none is missing for what is not accepted
(`finds_of_not_accepted`).
-/

namespace Conform

open ValidationError (pathOf finding Apart Undotted)

/-! ### No error twice, and none inside another -/

theorem Field.pairwise_report {f : Field} (input : Table Value)
    (inner : ∀ w, ((f.check.report w).errors.map (·.path)).Pairwise Apart) :
    ((f.report input).2.map (·.path)).Pairwise Apart := by
  unfold report
  cases f.given? input with
  | some w =>
    have paths : ((f.check.report w).seenFrom f.step).map (·.path) =
        ((f.check.report w).errors.map (·.path)).map (f.step ++ ·) := by
      simp [Report.seenFrom, ValidationError.under, Function.comp_def]
    rw [show ((some (f.check.report w).value, (f.check.report w).seenFrom f.step) : Option Value × _).2 =
      (f.check.report w).seenFrom f.step from rfl, paths, List.pairwise_map]
    exact (inner w).imp fun apart => apart.append_left f.step
  | none => cases f.kind <;> simp

namespace Spec

/-- No field that is declared at any depth has a name with a dot. -/
def NamesUndotted (s : Spec) : Prop :=
  ∀ t, s.Within t → ∀ declared, t.fields? = some declared → ∀ name ∈ Table.keys declared, Undotted name

theorem NamesUndotted.intro {s : Spec} (names : ∀ declared, s.fields? = some declared →
    (∀ name ∈ Table.keys declared, Undotted name) ∧ ∀ name t, (name, t) ∈ declared → t.NamesUndotted) :
    s.NamesUndotted := by
  intro t within
  cases within with
  | self => exact fun declared nested => (names declared nested).1
  | field nested member inner => exact (names _ nested).2 _ _ member _ inner

theorem NamesUndotted.plain {s : Spec} (plain : s.fields? = none) : s.NamesUndotted := by
  refine .intro fun declared nested => ?_
  rw [plain] at nested
  cases nested

theorem NamesUndotted.field {s t : Spec} {declared : Table Spec} {name : String} (undotted : s.NamesUndotted)
    (nested : s.fields? = some declared) (member : (name, t) ∈ declared) : t.NamesUndotted :=
  fun u inner => undotted u (.field nested member inner)

/-- There is at most one error, or the errors are those of the schema. -/
theorem errors_report_cases (s : Spec) (fields : List Field) (v : Value) :
    (s.report fields v).errors.length ≤ 1 ∨
      s.fields?.isSome ∧ ∃ input, (s.report fields v).errors = Schema.errors (Schema.ordered fields) input := by
  have leaf : ∀ (type : LeafType) u, (type.report u).errors.length ≤ 1 := by
    intro type u
    unfold LeafType.report
    cases type.coerce? u <;> simp [Report.pass, Report.refusal]
  have schema : ∀ u, (Schema.report fields u).errors.length ≤ 1 ∨
      ∃ input, (Schema.report fields u).errors = Schema.errors (Schema.ordered fields) input := by
    intro u
    cases u with
    | object input => exact .inr ⟨input, rfl⟩
    | _ => exact .inl (by simp [Schema.report, Report.refusal])
  unfold report
  cases s.type? <;> cases s.fields?
  · exact .inl (Nat.zero_le 1)
  · simpa using schema v
  · exact .inl (leaf _ v)
  · dsimp only
    split <;> rw [Report.errors_andThen] <;> split
    · exact .inl (leaf _ _)
    · simpa using schema v
    · simpa using schema _
    · exact .inl (leaf _ v)

theorem pairwise_schema {declared : Table Spec} {fields : List Field}
    (compiles : List.Forall₂ Field.Compiles declared fields) (distinct : Table.Distinct declared)
    (undotted : ∀ name ∈ Table.keys declared, Undotted name)
    (explains : ∀ name t, (name, t) ∈ declared → ∀ check, (Registry.builtin.compile t).result = .ok check →
      t.Explains check)
    (inner : ∀ name t, (name, t) ∈ declared → ∀ check, (Registry.builtin.compile t).result = .ok check →
      ∀ w, ((check.report w).errors.map (·.path)).Pairwise Apart) (input : Table Value) :
    ((Schema.errors (Schema.ordered fields) input).map (·.path)).Pairwise Apart := by
  have names : ((Schema.ordered fields).map (·.name)).Nodup := by
    rw [((Schema.ordered_perm fields).map _).nodup_iff, names_of_compiles compiles]
    exact distinct
  -- Every error of a field starts with the name of the field.
  have started : ∀ f ∈ Schema.ordered fields, Undotted f.name ∧
      ∀ p ∈ (f.report input).2.map (·.path), ∃ rest, p = "." ++ f.name ++ pathOf rest := by
    intro f ordered
    obtain ⟨⟨name, t⟩, member, check, compiled, rfl⟩ := forall₂_mem_right compiles (Schema.mem_ordered.mp ordered)
    refine ⟨undotted name (List.mem_map_of_mem member), fun p present => ?_⟩
    obtain ⟨e, found, rfl⟩ := List.mem_map.mp present
    obtain ⟨rest, message, _, rfl⟩ := (Field.mem_report_iff (explains name t member check compiled) input e).mp found
    exact ⟨rest, rfl⟩
  rw [Schema.errors, List.map_flatMap, List.pairwise_flatMap]
  constructor
  · intro f ordered
    obtain ⟨⟨name, t⟩, member, check, compiled, rfl⟩ := forall₂_mem_right compiles (Schema.mem_ordered.mp ordered)
    exact Field.pairwise_report input (inner name t member check compiled)
  · refine (List.pairwise_map.mp names).imp_of_mem ?_
    intro f g first second different p left q right
    obtain ⟨undottedFirst, startsFirst⟩ := started f first
    obtain ⟨undottedSecond, startsSecond⟩ := started g second
    obtain ⟨rest, rfl⟩ := startsFirst p left
    obtain ⟨other, rfl⟩ := startsSecond q right
    exact ValidationError.apart_of_ne undottedFirst undottedSecond different
      (ValidationError.rooted_pathOf rest) (ValidationError.rooted_pathOf other)

theorem apart_of_compile (s : Spec) (formed : s.WellFormed) (undotted : s.NamesUndotted) {check : Check}
    (compiled : (Registry.builtin.compile s).result = .ok check) (v : Value) :
    ((check.report v).errors.map (·.path)).Pairwise Apart := by
  obtain ⟨fields, compiles, reports⟩ := report_of_compile formed compiled
  have single : ∀ errors : List ValidationError, errors.length ≤ 1 → (errors.map (·.path)).Pairwise Apart := by
    intro errors short
    match errors, short with
    | [], _ => exact .nil
    | [e], _ => exact List.pairwise_singleton _ _
  rw [reports]
  split
  · apply single
    unfold Check.nullReport
    cases s.nullable <;> cases s.default <;> simp [Report.pass, Report.refusal]
  · rcases errors_report_cases s fields v with short | ⟨schema, input, same⟩
    · exact single _ short
    · obtain ⟨declared, nested⟩ := Option.isSome_iff_exists.mp schema
      rw [nested, Option.getD_some] at compiles
      rw [same]
      refine pairwise_schema compiles (formed.fields nested) (undotted s (.self s) declared nested) ?_ ?_ input
      · intro name t member
        exact fun check => explains_of_compile t (formed.field nested member)
      · -- The induction is on the depth of the spec.
        intro name t member inner compiledInner
        have lower := depth_field_lt nested member
        exact apart_of_compile t (formed.field nested member) (undotted.field nested member) compiledInner
termination_by s.depth

/-! ### No error missing -/

/-- A spec that is well formed and compiles. -/
def Compiles (s : Spec) : Prop := s.WellFormed ∧ ∃ check, (Registry.builtin.compile s).result = .ok check

theorem Compiles.field {s t : Spec} {declared : Table Spec} {name : String} (compiles : s.Compiles)
    (nested : s.fields? = some declared) (member : (name, t) ∈ declared) : t.Compiles := by
  obtain ⟨formed, check, compiled⟩ := compiles
  obtain ⟨fields, inner, _⟩ := report_of_compile formed compiled
  rw [nested, Option.getD_some] at inner
  obtain ⟨_, _, check, compiledInner, _⟩ := forall₂_mem_left inner member
  exact ⟨formed.field nested member, check, compiledInner⟩

theorem Leads.compiles {s t : Spec} {x y : Option Value} {names : List String} (leads : s.Leads x names t y)
    (compiles : s.Compiles) : t.Compiles := by
  induction leads with
  | here => exact compiles
  | field _ nested member _ ih => exact ih (compiles.field nested member)

theorem finds_of_not_accepted {s : Spec} (compiles : s.Compiles) {v : Value} (refused : ¬ s.Accepts v) :
    ∃ names message, s.Finds false (some v) names message := by
  obtain ⟨formed, check, compiled⟩ := compiles
  rw [← answer?_isSome_iff_accepts s formed compiled, Option.not_isSome_iff_eq_none] at refused
  obtain ⟨e, member⟩ := List.exists_mem_of_ne_nil _ (Report.answer?_eq_none_iff.mp refused)
  obtain ⟨names, message, finds, _⟩ := (explains_of_compile s formed compiled v e).mp member
  exact ⟨names, message, finds⟩

theorem finds_of_field_not_accepted {t : Spec} (compiles : t.Compiles) {given : Option Value}
    (refused : ¬ t.FieldAccepts t.Accepts given) : ∃ names message, t.Finds true given names message := by
  unfold FieldAccepts at refused
  cases marked : t.isRequired with
  | true =>
    rw [if_pos marked] at refused
    by_cases present : ∃ w, given = some w ∧ w.isNull = false
    · obtain ⟨w, rfl, present⟩ := present
      have rejected : ¬ t.Accepts w := fun accepted => refused ⟨w, rfl, present, accepted⟩
      obtain ⟨names, message, finds⟩ := finds_of_not_accepted compiles rejected
      exact ⟨names, message, (finds_field_iff (by simp [present])).mpr finds⟩
    · have absent : ∀ w, given = some w → w.isNull := by
        intro w same
        by_contra other
        exact present ⟨w, same, by simpa using other⟩
      exact ⟨[], Field.requiredMessage, finds_nil_iff.mpr (.required (by simp [marked]) absent)⟩
  | false =>
    simp only [marked, Bool.false_eq_true, if_false, not_forall, not_or] at refused
    obtain ⟨w, rfl, _, rejected⟩ := refused
    obtain ⟨names, message, finds⟩ := finds_of_not_accepted compiles rejected
    exact ⟨names, message, (finds_field_iff fun _ => marked).mpr finds⟩

end Spec

namespace Validate

/-- The errors that are collected for a value. -/
def errors (check : Check) (v : Value) : List ValidationError :=
  match all check v with
  | .ok _ => []
  | .error es => es.errors

theorem errors_eq {check : Check} (regular : check.Regular) (v : Value) :
    errors check v = (check.report v).errors := by
  rw [errors, all_of_yields (regular v "" [])]
  simp only [Report.seenFrom, ValidationError.under_empty, List.map_id']
  cases (check.report v).errors <;> rfl

/-- What a list of errors tells of a value and its spec. -/
structure Exact (s : Spec) (v : Value) (errors : List ValidationError) : Prop where
  /-- No path is there twice, and none leads to a place within another. -/
  apart : s.NamesUndotted → (errors.map (·.path)).Nodup ∧
    ∀ p ∈ errors.map (·.path), ∀ q ∈ errors.map (·.path), ∀ more, q ≠ p ++ "." ++ more
  /-- A path leads through declared fields to what the message is about. -/
  placed : ∀ e ∈ errors, ∃ names t x, s.Leads (some v) names t x ∧ e.path = pathOf names ∧ e.extra = [] ∧
    (e.message = "required, but not given" ↔ (names ≠ [] ∧ t.isRequired) ∧ ∀ w, x = some w → w.isNull) ∧
    (e.message = "Can't be null" ↔
      x = some .null ∧ t.nullable = false ∧ t.default = none ∧ ¬ (names ≠ [] ∧ t.isRequired)) ∧
    (e.message ≠ "required, but not given" → e.message ≠ "Can't be null" →
      ∃ w, x = some w ∧ w.isNull = false ∧ t.Rejects w e.message)
  /-- What can be said of a place is said of it. -/
  told : ∀ names t x message, s.Leads (some v) names t x → t.Blames (names ≠ []) x message →
    ⟨message, pathOf names, []⟩ ∈ errors
  /-- Of each object on which a schema is run, a declared field that is not acceptable has an error at its path or
  within. -/
  complete : ∀ names t input declared, s.Leads (some v) names t (some (.object input)) → t.OpensObjects →
    t.fields? = some declared → ∀ name u, (name, u) ∈ declared →
      ¬ u.FieldAccepts u.Accepts (Table.get? input name) → ∃ e ∈ errors, ∃ more, e.path = pathOf (names ++ name :: more)

/-- Collecting validation finds exact errors. -/
theorem errors_exact {spec : Value} (distinct : spec.Distinct) {check : Check}
    (compiled : (Registry.builtin.compileValue spec).result = .ok check) :
    ∃ s, Spec.ofValue spec = .ok s ∧ ∀ v, Exact s v (errors check v) := by
  obtain ⟨s, read, compiledSpec⟩ := Registry.compileValue_ok_iff.mp compiled
  have formed := Spec.wellFormed_ofValue distinct read
  have explains := Spec.explains_of_compile s formed compiledSpec
  refine ⟨s, read, fun v => ?_⟩
  rw [errors_eq (hereditary_regular.compile_builtin s compiledSpec)]
  have told : ∀ names message, s.Finds false (some v) names message →
      finding names message ∈ (check.report v).errors :=
    fun names message finds => (explains v _).mpr ⟨names, message, finds, rfl⟩
  have marks : ∀ names : List String, (false || !names.isEmpty) = decide (names ≠ []) := by
    intro names
    cases names <;> rfl
  constructor
  · intro undotted
    exact ValidationError.distinct_of_pairwise_apart (Spec.apart_of_compile s formed undotted compiledSpec v)
  · intro e member
    obtain ⟨names, message, ⟨t, x, leads, blames⟩, rfl⟩ := (explains v e).mp member
    rw [marks] at blames
    have required := blames.required_iff
    have null := blames.null_iff
    simp only [decide_eq_true_eq] at required null
    exact ⟨names, t, x, leads, rfl, rfl, required, null, blames.rejects⟩
  · intro names t x message leads blames
    exact told names message ⟨t, x, leads, by rw [marks]; exact blames⟩
  · intro names t input declared leads opens nested name u member refused
    have inner := (leads.compiles ⟨formed, check, compiledSpec⟩).field nested member
    obtain ⟨more, message, w, x, rest, blames⟩ := Spec.finds_of_field_not_accepted inner refused
    have way := leads.trans (.field opens nested member rest)
    have nonempty : (names ++ name :: more).isEmpty = false := by simp
    refine ⟨_, told (names ++ name :: more) message ⟨w, x, way, ?_⟩, more, rfl⟩
    rw [nonempty]
    exact blames

/-- A booking of a room for a guest. -/
def bookingSpec : Value := .object [
  ("type", .string "object"),
  ("schema", .object [
    ("room", .object [("type", .string "number")]),
    ("guest", .object [("required", .bool true), ("schema", .object [
      ("born", .object [("type", .string "date")]),
      ("name", .object [("required", .bool true)])])]),
    ("paid", .object [("required", .bool true), ("type", .string "boolean")])])]

def bookingInput : Value := .object [
  ("room", .null),
  ("guest", .object [("born", .bool true)]),
  ("paid", .string "true")]

theorem booking_exact : bookingSpec.Distinct ∧
    ∃ check s, (Registry.builtin.compileValue bookingSpec).result = .ok check ∧
      Spec.ofValue bookingSpec = .ok s ∧ s.NamesUndotted ∧
      errors check bookingInput = [
        finding ["guest", "name"] "required, but not given",
        finding ["guest", "born"] "Not a date",
        finding ["room"] "Can't be null"] ∧
      Exact s bookingInput (errors check bookingInput) := by
  have distinct : bookingSpec.Distinct := by
    simp [bookingSpec, Value.Distinct, Value.DistinctFields, Table.Distinct, Table.keys]
  obtain ⟨s, read, exact⟩ := errors_exact distinct rfl
  have undotted : s.NamesUndotted := by
    cases read
    refine .intro fun declared nested => ?_
    cases nested
    refine ⟨by decide, fun name t member => ?_⟩
    rcases List.mem_cons.mp member with room | member
    · cases room
      exact .plain rfl
    rcases List.mem_cons.mp member with guest | member
    · cases guest
      refine .intro fun declared nested => ?_
      cases nested
      refine ⟨by decide, fun name t member => ?_⟩
      rcases List.mem_pair.mp member with born | named
      · cases born
        exact .plain rfl
      · cases named
        exact .plain rfl
    · cases List.mem_singleton.mp member
      exact .plain rfl
  exact ⟨distinct, _, s, rfl, read, undotted, rfl, exact _⟩

end Validate

end Conform
