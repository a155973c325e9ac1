import Conform.Proofs.Agreement

/-!
# Reports

Built-in checks look at nothing but their value: in any log, at any path and under either policy such a check
adds the same errors, their paths put under its own (`hereditary_regular`). So a run of it is told by a report,
the value and the errors that it gives in a new log, and reports of chains and schemas are made of the reports
of their parts.
-/

namespace Conform

/-- The value that takes the place of another, and the errors found on the way, with paths from there. -/
structure Report where
  value : Value
  errors : List ValidationError

namespace Report

def pass (v : Value) : Report := ⟨v, []⟩

def refusal (message : String) : Report := ⟨.null, [ValidationError.ofMessage message]⟩

/-- The errors as seen from further out. -/
def seenFrom (r : Report) (path : String) : List ValidationError := r.errors.map (·.under path)

def answer? (r : Report) : Option Value := if r.errors.isEmpty then some r.value else none

theorem answer?_eq_some_iff {r : Report} {v : Value} : r.answer? = some v ↔ r.errors = [] ∧ r.value = v := by
  simp [answer?]

theorem answer?_eq_none_iff {r : Report} : r.answer? = none ↔ r.errors ≠ [] := by
  simp [answer?]

@[simp] theorem answer?_refusal (message : String) : (refusal message).answer? = none := rfl

/-- A report on a value, and then one on what took its place unless there are errors. -/
def andThen (r : Report) (next : Value → Report) : Report := if r.errors.isEmpty then next r.value else r

theorem andThen_pass (r : Report) : r.andThen pass = r := by
  obtain ⟨v, _ | ⟨e, errors⟩⟩ := r <;> rfl

theorem answer?_andThen (r : Report) (next : Value → Report) :
    (r.andThen next).answer? = r.answer?.bind fun v => (next v).answer? := by
  obtain ⟨v, _ | ⟨e, errors⟩⟩ := r <;> rfl

theorem errors_andThen {r : Report} (next : Value → Report) :
    (r.andThen next).errors = if r.errors = [] then (next r.value).errors else r.errors := by
  obtain ⟨v, _ | ⟨e, errors⟩⟩ := r <;> rfl

end Report

theorem Report.map_under_seenFrom (r : Report) (inner outer : String) :
    (r.seenFrom inner).map (·.under outer) = r.seenFrom (outer ++ inner) :=
  ValidationError.map_under_map_under r.errors inner outer

/-- A value of a type in the place of one that stands for it, and the refusal of any other. -/
def LeafType.report (type : LeafType) (v : Value) : Report :=
  match type.coerce? v with
  | some w => .pass w
  | none => .refusal type.message

theorem LeafType.answer?_report (type : LeafType) (v : Value) : (type.report v).answer? = type.coerce? v := by
  unfold LeafType.report
  cases type.coerce? v <;> rfl

/-! ### Regular checks -/

namespace Check

/-- What a check makes of a value in a new log. -/
def report (check : Check) (v : Value) : Report :=
  match (check v "").settle .collectAll [] with
  | (.done w, errors) => ⟨w, errors⟩
  | (.halted, errors) => ⟨.null, errors⟩

/-- Wherever it runs, an activity does what a report says. -/
def Tells (check : Check) (v : Value) (r : Report) : Prop :=
  ∀ path errors, (check v path).Yields errors r.value (r.seenFrom path)

/-- A check does the same with a value in every log, at every path and under both policies. -/
def Regular (check : Check) : Prop := ∀ v, check.Tells v (check.report v)

theorem Tells.report {check : Check} {v : Value} {r : Report} (tells : check.Tells v r) : check.report v = r := by
  have settled := (tells "" []).collecting
  simp only [Report.seenFrom, ValidationError.under_empty, List.map_id', List.nil_append] at settled
  rw [Check.report, settled]

theorem regular_of_tells {check : Check} {told : Value → Report} (tells : ∀ v, check.Tells v (told v)) :
    check.Regular := by
  intro v
  rw [(tells v).report]
  exact tells v

theorem tells_pass {check : Check} {v w : Value} (ends : ∀ path, check v path = .done w) :
    check.Tells v (.pass w) := by
  intro path errors
  rw [ends]
  exact Activity.yields_done w errors

theorem tells_refusal {check : Check} {v : Value} {message : String}
    (refuses : ∀ path, check v path = refuse message path) : check.Tells v (.refusal message) := by
  intro path errors
  rw [refuses]
  exact (Activity.yields_record _ errors).bind (Activity.yields_done _ _)

/-- What takes the place of a value that a check passes. -/
def answer? (check : Check) (v : Value) : Option Value := (check.report v).answer?

theorem Regular.all_ok_iff {check : Check} (regular : check.Regular) {v w : Value} :
    Validate.all check v = .ok w ↔ check.answer? v = some w := by
  rw [Validate.all_of_yields (regular v "" []), answer?]
  rcases check.report v with ⟨u, _ | ⟨e, rest⟩⟩ <;>
    simp [Report.seenFrom, Report.answer?, Validate.allAnswer]

theorem Regular.ok_ok_iff {check : Check} (regular : check.Regular) {v w : Value} :
    Validate.ok check v = .ok w ↔ check.answer? v = some w := by
  rw [Validate.ok_of_yields (regular v "" []), answer?]
  rcases check.report v with ⟨u, _ | ⟨e, rest⟩⟩ <;>
    simp [Report.seenFrom, Report.answer?, Validate.okAnswer]

theorem Tells.answer? {check : Check} {v : Value} {r : Report} (tells : check.Tells v r) :
    check.answer? v = r.answer? := congrArg Report.answer? tells.report

/-! ### Leaf types, guards and chains -/

theorem tells_leaf (type : LeafType) (v : Value) : Tells type.check v (type.report v) := by
  unfold LeafType.report
  cases coerced : type.coerce? v with
  | some w => exact tells_pass fun path => by rw [LeafType.check, coerced]
  | none => exact tells_refusal fun path => by rw [LeafType.check, coerced]

/-- What is made of null, which no step sees. -/
def nullReport (nullable : Bool) (default : Option Value) : Report :=
  if nullable then .pass .null
  else match default with
    | some v => .pass v
    | none => .refusal nullMessage

theorem tells_guarded {check : Check} (nullable : Bool) (default : Option Value) (regular : check.Regular)
    (v : Value) :
    Tells (guarded nullable default check) v
      (if v.isNull then nullReport nullable default else check.report v) := by
  unfold guarded onNull nullReport
  by_cases null : v.isNull
  · simp only [null, if_true]
    cases nullable <;> cases default
    · exact tells_refusal fun path => by simp [null]
    · exact tells_pass fun path => by simp [null]
    · exact tells_pass fun path => by simp [null]
    · exact tells_pass fun path => by simp [null]
  · intro path errors
    simp only [null]
    exact regular v path errors

theorem answer?_nullReport (nullable : Bool) (default : Option Value) :
    (nullReport nullable default).answer? = if nullable then some .null else default := by
  unfold nullReport
  cases nullable <;> cases default <;> rfl

/-- The report of each step on the value of the one before, up to the first with errors. -/
def chainReport : List Step → Value → Report
  | [], v => .pass v
  | step :: steps, v =>
    if (step.check.report v).errors.isEmpty then chainReport steps (step.check.report v).value
    else step.check.report v

theorem tells_chain {steps : List Step} (regular : ∀ step ∈ steps, step.check.Regular) (v : Value) :
    Tells (chain steps) v (chainReport steps v) := by
  induction steps generalizing v with
  | nil => exact tells_pass fun _ => rfl
  | cons step steps ih =>
    intro path errors
    have first := regular step List.mem_cons_self v path errors
    have rest := ih (fun other member => regular other (List.mem_cons_of_mem _ member))
    refine (Activity.yields_count errors).bind_silent ?_
    rw [chainReport]
    -- The count of errors is the same before and after the step exactly if its report has none.
    by_cases clean : (step.check.report v).errors = []
    · rw [if_pos (by simp [clean])]
      simp only [Report.seenFrom, clean, List.map_nil] at first
      refine first.bind_silent ((Activity.yields_count errors).bind_silent ?_)
      rw [if_neg (Nat.lt_irrefl _)]
      exact rest _ path errors
    · rw [if_neg (by simpa using clean)]
      refine first.bind_last ((Activity.yields_count _).bind_silent ?_)
      have grown : errors.length < (errors ++ (step.check.report v).seenFrom path).length := by
        have := List.length_pos_iff.mpr clean
        simpa [Report.seenFrom] using this
      rw [if_pos grown]
      exact (Activity.yields_note _ _).bind_silent (Activity.yields_done _ _)

theorem report_chain_cons {step : Step} {steps : List Step}
    (regular : ∀ other ∈ step :: steps, other.check.Regular) (v : Value) :
    (chain (step :: steps)).report v = (step.check.report v).andThen (chain steps).report := by
  have rest : (chain steps).report = chainReport steps :=
    funext fun w => (tells_chain (fun other member => regular other (List.mem_cons_of_mem _ member)) w).report
  rw [(tells_chain regular v).report, rest]
  rfl

end Check

/-! ### Fields and schemas -/

namespace Field

/-- What a field adds to the answer, and its errors with paths from the object. -/
def report (f : Field) (input : Table Value) : Option Value × List ValidationError :=
  match f.given? input, f.kind with
  | some v, _ => (some (f.check.report v).value, (f.check.report v).seenFrom f.step)
  | none, .required => (none, [(ValidationError.ofMessage requiredMessage).withPath f.step])
  | none, .withDefault v => (some v, [])
  | none, .optional => (none, [])

theorem yields_visit {f : Field} (regular : f.check.Regular) (input : Table Value) (path : String)
    (errors : List ValidationError) :
    (f.visit input path).Yields errors (f.report input).1 ((f.report input).2.map (·.under path)) := by
  unfold visit report
  cases f.given? input with
  | some v =>
    have checked := regular v (path ++ f.step) errors
    rw [← Report.map_under_seenFrom] at checked
    exact checked.bind_last (Activity.yields_done _ _)
  | none =>
    cases f.kind with
    | required => exact (Activity.yields_record _ errors).bind_last (Activity.yields_done _ _)
    | withDefault v => exact Activity.yields_done _ errors
    | optional => exact Activity.yields_done _ errors

/-- A field has no errors if its check passes the value that is given, or none is given and none is required. -/
theorem clean_iff {f : Field} {input : Table Value} :
    (f.report input).2 = [] ↔
      match f.given? input with
      | some v => (f.check.answer? v).isSome
      | none => f.kind.isRequired = false := by
  unfold report
  cases f.given? input with
  | some v => simp [Report.seenFrom, Check.answer?, Report.answer?]
  | none => cases f.kind <;> simp [FieldKind.isRequired]

theorem value_of_given {f : Field} {input : Table Value} {v w : Value} (given : f.given? input = some v)
    (answered : f.check.answer? v = some w) : (f.report input).1 = some w := by
  rw [report, given]
  exact congrArg some (Report.answer?_eq_some_iff.mp answered).2

end Field

namespace Schema

def entries (fields : List Field) (input : Table Value) : Table Value :=
  fields.flatMap fun f => f.entry (f.report input).1

def errors (fields : List Field) (input : Table Value) : List ValidationError :=
  fields.flatMap fun f => (f.report input).2

theorem yields_visitAll {fields : List Field} (regular : ∀ f ∈ fields, f.check.Regular)
    (input : Table Value) (path : String) (before : List ValidationError) :
    (visitAll fields input path).Yields before (entries fields input)
      ((errors fields input).map (·.under path)) := by
  induction fields generalizing before with
  | nil => exact Activity.yields_done _ before
  | cons f fields ih =>
    have first := Field.yields_visit (regular f List.mem_cons_self) input path before
    have rest := ih (fun other member => regular other (List.mem_cons_of_mem _ member))
    simp only [errors, List.flatMap_cons, List.map_append]
    exact first.bind ((rest _).bind_last (Activity.yields_done _ _))

/-- The declared fields of an object, or the refusal of what is no object. -/
def report (fields : List Field) : Value → Report
  | .object input => ⟨.object (entries (ordered fields) input), errors (ordered fields) input⟩
  | _ => .refusal "Not an object"

theorem tells_check {fields : List Field} (regular : ∀ f ∈ fields, f.check.Regular) (v : Value) :
    Check.Tells (check fields) v (report fields v) := by
  cases v with
  | object input =>
    intro path before
    have visited := yields_visitAll (fun f member => regular f (mem_ordered.mp member)) input path before
    have dropped : ∀ later, (noteDropped path (undeclared fields input)).Yields later () [] := by
      intro later
      unfold noteDropped
      split
      · exact Activity.yields_done _ later
      · exact Activity.yields_note _ later
    exact visited.bind_last ((dropped _).bind_silent (Activity.yields_done _ _))
  | _ => exact Check.tells_refusal fun _ => rfl

theorem answer?_eq_some_iff {fields : List Field} (regular : ∀ f ∈ fields, f.check.Regular) {v w : Value} :
    (check fields).answer? v = some w ↔
      ∃ input, v = .object input ∧ (∀ f ∈ fields, (f.report input).2 = []) ∧
        w = .object (entries (ordered fields) input) := by
  rw [(tells_check regular v).answer?]
  cases v with
  | object input =>
    simp only [report, Report.answer?_eq_some_iff, errors, List.flatMap_eq_nil_iff, mem_ordered,
      Value.object.injEq, exists_eq_left', eq_comm (a := w)]
  | _ => simp [report]

end Schema

/-! ### Built-in checks -/

theorem hereditary_regular : Check.Hereditary Check.Regular where
  leaf := fun type => Check.regular_of_tells (Check.tells_leaf type)
  identity := Check.regular_of_tells fun _ => Check.tells_pass fun _ => rfl
  chain := fun nullable default _ inner => Check.regular_of_tells
    (Check.tells_guarded nullable default (Check.regular_of_tells (Check.tells_chain inner)))
  schema := fun _ inner => Check.regular_of_tells (Schema.tells_check inner)

end Conform
