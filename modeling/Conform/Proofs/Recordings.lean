import Conform.Proofs.Context

/-!
# Recorded errors

What a run asks of its log, in order of time (`asked`), holds the errors that it records. A check may record at any
path, go on after a halt, or halt without a reason; as long as it takes no error out, the log ends with what was
there and then all that was recorded (`errors_run`), and validation answers by that list alone (`Validate.Faithful`).
-/

namespace Conform

def Query.recorded? : Query → Option ValidationError
  | .record e => some e
  | _ => none

namespace Activity

variable {α β : Type}

/-- The questions that a run puts to its log, in order of time. -/
def asked (policy : Policy) : Activity α → Journal → List Query
  | done _, _ => []
  | halted, _ => []
  | suspended rest, j => rest.asked policy j
  | ask q next, j => q :: (next (j.answer policy q).1).asked policy (j.answer policy q).2

/-- The errors that a run records, in order of time. -/
def recordings (policy : Policy) (m : Activity α) (j : Journal) : List ValidationError :=
  (m.asked policy j).filterMap Query.recorded?

/-- Under no policy and in no state of its log does an activity take errors out. -/
def NeverTakes (m : Activity α) : Prop := ∀ policy j, Query.take ∉ m.asked policy j

theorem asked_bind (policy : Policy) (m : Activity α) (k : α → Activity β) (j : Journal) :
    (m.bind k).asked policy j = m.asked policy j ++
      match m.run policy j with
      | (.done a, later) => (k a).asked policy later
      | (.halted, _) => [] := by
  induction m generalizing j with
  | done a => rfl
  | halted => rfl
  | suspended rest ih => exact ih j
  | ask q next ih => simp only [bind, asked, run, ih, List.cons_append]

theorem closed_neverTakes : Closed fun _ m => m.NeverTakes where
  done := fun _ _ _ => List.not_mem_nil
  bind := by
    intro α β m k first second policy j member
    rw [asked_bind, List.mem_append] at member
    rcases member with early | late
    · exact first policy j early
    · split at late
      · exact second _ policy _ late
      · exact absurd late List.not_mem_nil
  count := by simp [NeverTakes, query, asked]
  note := by simp [NeverTakes, note, query, asked]
  record := by
    intro e _ policy j
    cases policy <;> simp [record, query, bind, heed, asked, Journal.answer, Policy.signal]

/-- One question leaves the errors and adds the one that it records, unless it takes them. -/
theorem errors_answer (policy : Policy) (j : Journal) {q : Query} (kept : q ≠ .take) :
    (j.answer policy q).2.errors = j.errors ++ q.recorded?.toList := by
  cases q with
  | take => exact absurd rfl kept
  | _ => simp [Journal.answer, Journal.noted, Query.recorded?]

theorem errors_run (policy : Policy) {m : Activity α} {j : Journal} (kept : Query.take ∉ m.asked policy j) :
    (m.run policy j).2.errors = j.errors ++ m.recordings policy j := by
  induction m generalizing j with
  | done a => exact (List.append_nil _).symm
  | halted => exact (List.append_nil _).symm
  | suspended rest ih => exact ih kept
  | ask q next ih =>
    rw [asked, List.mem_cons, not_or] at kept
    have one := errors_answer policy j (Ne.symm kept.1)
    have rest := ih _ kept.2
    rw [one, List.append_assoc] at rest
    rw [run, rest, recordings, recordings, asked, List.filterMap_cons]
    cases q.recorded? <;> rfl

end Activity

namespace Check

def NeverTakes (check : Check) : Prop := ∀ v path, (check v path).NeverTakes

theorem hereditary_neverTakes : Hereditary NeverTakes := Activity.closed_neverTakes.hereditary

/-- Checks that chains and schemas make of custom ones, at any nesting. -/
inductive Composed (custom : Check → Prop) : Check → Prop
  | custom {check : Check} (given : custom check) : Composed custom check
  | chain (nullable : Bool) (default : Option Value) {steps : List Step}
      (inner : ∀ step ∈ steps, Composed custom step.check) :
      Composed custom (guarded nullable default (chain steps))
  | schema {fields : List Field} (inner : ∀ f ∈ fields, Composed custom f.check) :
      Composed custom (Schema.check fields)

theorem Composed.neverTakes {check : Check} (composed : Composed NeverTakes check) : check.NeverTakes := by
  induction composed with
  | custom given => exact given
  | chain nullable default _ ih => exact hereditary_neverTakes.chain nullable default _ ih
  | schema _ ih => exact hereditary_neverTakes.schema _ ih

def recordings (check : Check) (policy : Policy) (v : Value) : List ValidationError :=
  (check v "").recordings policy Journal.empty

theorem NeverTakes.errors_start {check : Check} (kept : check.NeverTakes) (policy : Policy) (v : Value) :
    (check.start policy v).2.errors = check.recordings policy v :=
  Activity.errors_run policy (kept v "" policy Journal.empty)

end Check

namespace Validate

/-- The answers for a value, by what is recorded in their runs and by how these end. -/
structure Faithful (check : Check) (v : Value) : Prop where
  all_passes : ∀ w, all check v = .ok w ↔
    check.recordings .collectAll v = [] ∧ (check.start .collectAll v).1 = .done w
  all_fails : ∀ es, all check v = .error es ↔ es.errors = check.recordings .collectAll v ∧
    (check.recordings .collectAll v ≠ [] ∨ (check.start .collectAll v).1 = .halted)
  ok_passes : ∀ w, ok check v = .ok w ↔
    check.recordings .failFast v = [] ∧ (check.start .failFast v).1 = .done w
  ok_fails : ∀ e, ok check v = .error e ↔ (check.recordings .failFast v).head? = some e ∨
    check.recordings .failFast v = [] ∧ (check.start .failFast v).1 = .halted ∧ e = ⟨"Validation error", "", []⟩

theorem okAnswer_ok_iff {outcome : Outcome Value} {errors : List ValidationError} {w : Value} :
    okAnswer outcome errors = .ok w ↔ errors = [] ∧ outcome = .done w := by
  cases outcome <;> cases errors <;> simp [okAnswer]

theorem okAnswer_error_iff {outcome : Outcome Value} {errors : List ValidationError} {e : ValidationError} :
    okAnswer outcome errors = .error e ↔ errors.head? = some e ∨
      errors = [] ∧ outcome = .halted ∧ e = ⟨"Validation error", "", []⟩ := by
  cases outcome <;> cases errors <;>
    simp [okAnswer, haltedMessage, ValidationError.ofMessage, eq_comm (a := e)]

theorem allAnswer_ok_iff {outcome : Outcome Value} {errors : List ValidationError} {w : Value} :
    allAnswer outcome errors = .ok w ↔ errors = [] ∧ outcome = .done w := by
  cases outcome <;> cases errors <;> simp [allAnswer]

theorem allAnswer_error_iff {outcome : Outcome Value} {errors : List ValidationError} {es : ValidationErrors} :
    allAnswer outcome errors = .error es ↔ es.errors = errors ∧ (errors ≠ [] ∨ outcome = .halted) := by
  obtain ⟨listed⟩ := es
  cases outcome <;> cases errors <;> simp [allAnswer] <;> exact eq_comm

theorem faithful_of_neverTakes {check : Check} (kept : check.NeverTakes) (v : Value) : Faithful check v where
  all_passes := fun w => by rw [← kept.errors_start]; exact allAnswer_ok_iff
  all_fails := fun es => by rw [← kept.errors_start]; exact allAnswer_error_iff
  ok_passes := fun w => by rw [← kept.errors_start]; exact okAnswer_ok_iff
  ok_fails := fun e => by rw [← kept.errors_start]; exact okAnswer_error_iff

/-- No recorded error is lost or reordered, whatever the custom checks in a spec do, as long as they take none out. -/
theorem answers_recordings :
    (∀ check : Check, check.Composed Check.NeverTakes → ∀ v, Faithful check v) ∧
    (∀ r : Registry, r.Keeps Check.NeverTakes →
      ∀ s check, (r.compile s).result = .ok check → ∀ v, Faithful check v) := by
  constructor
  · intro check composed
    exact faithful_of_neverTakes composed.neverTakes
  · intro r keeps s check compiled
    exact faithful_of_neverTakes (keeps.compile Check.hereditary_neverTakes.chain s compiled)

/-- A validator of its own: it suspends, and halts without a recorded error. -/
def abandonFactory : Factory := fun _ _ =>
  .done fun _ _ => (Activity.suspend 1).bind fun _ => .halted

def abandonRegistry : Registry := noticeRegistry.register "abandon" abandonFactory

theorem keeps_abandonRegistry : abandonRegistry.Keeps Check.NeverTakes := by
  have notice : noticeFactory.Keeps Check.NeverTakes := by
    intro argument context _ _ check made
    cases made
    intro v path policy j
    simp [Activity.query, Activity.bind, Activity.asked]
  have abandon : abandonFactory.Keeps Check.NeverTakes := by
    intro argument context _ _ check made
    cases made
    intro v path policy j
    simp [Activity.suspend, Activity.bind, Activity.asked]
  exact (Check.hereditary_neverTakes.keeps_builtin.register notice).register abandon

/-- A delivery, its date given up on. -/
def deliverySpec : Spec := ⟨[("schema", .object [
  ("city", .object [("notice", .string "City is unknown")]),
  ("date", .object [("abandon", .bool true)])])], false, none⟩

/-- The swallowed halt at the city lets the run go on to the date, where it halts: the city is reported all the same, and
without a city there is nothing to report. -/
theorem delivery_faithful : ∃ check, (abandonRegistry.compile deliverySpec).result = .ok check ∧
    all check (.object [("date", .bool true), ("city", .null)]) = .error ⟨[⟨"Can't be null", ".city", []⟩]⟩ ∧
    ok check (.object [("date", .bool true), ("city", .string "Ys")]) = .error ⟨"City is unknown", ".city", []⟩ ∧
    ok check (.object [("date", .bool true)]) = .error ⟨"Validation error", "", []⟩ ∧
    all check (.object [("date", .bool true)]) = .error ⟨[]⟩ := by
  have faithful := answers_recordings.2 abandonRegistry keeps_abandonRegistry deliverySpec _ rfl
  refine ⟨_, rfl, ?_, ?_, ?_, ?_⟩
  · exact ((faithful _).all_fails _).mpr ⟨rfl, .inl nofun⟩
  · exact ((faithful _).ok_fails _).mpr (.inl rfl)
  · exact ((faithful _).ok_fails _).mpr (.inr ⟨rfl, rfl, rfl⟩)
  · exact ((faithful _).all_fails _).mpr ⟨rfl, .inr rfl⟩

end Validate

end Conform
