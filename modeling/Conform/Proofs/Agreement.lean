import Conform.Proofs.Compiled
import Conform.Validate

/-!
# The two policies agree

A collecting run and a fail-fast run of one check go the same way up to the first error, where the second
halts. `Yields` says so of an activity at one state of the log, and is handed on by sequencing
(`Yields.bind`). So `ok` passes exactly where `all` does, and its error is the first of the list
(`Validate.Concur`).
-/

namespace Conform

/-! ### What a run does to the errors -/

namespace Activity

variable {α β : Type}

/-- How an activity ends and the errors after it, by the policy and the errors before it. -/
def settle (policy : Policy) (m : Activity α) (errors : List ValidationError) :
    Outcome α × List ValidationError :=
  let (outcome, journal) := m.run policy ⟨errors, []⟩
  (outcome, journal.errors)

/-- No question is about events, so they have no part in how an activity ends. -/
theorem settle_eq (policy : Policy) (m : Activity α) (j : Journal) :
    m.settle policy j.errors = ((m.run policy j).1, (m.run policy j).2.errors) := by
  have same : ∀ j j' : Journal, j.errors = j'.errors →
      ((m.run policy j).1, (m.run policy j).2.errors) = ((m.run policy j').1, (m.run policy j').2.errors) := by
    induction m with
    | done a => intro j j' equal; simp [run, equal]
    | halted => intro j j' equal; simp [run, equal]
    | suspended rest ih => exact ih
    | ask q next ih =>
      rintro ⟨errors, events⟩ ⟨_, events'⟩ rfl
      have answers : (Journal.answer policy ⟨errors, events⟩ q).1 =
          (Journal.answer policy ⟨errors, events'⟩ q).1 := by cases q <;> rfl
      have later : (Journal.answer policy ⟨errors, events⟩ q).2.errors =
          (Journal.answer policy ⟨errors, events'⟩ q).2.errors := by cases q <;> rfl
      simp only [run, answers]
      exact ih _ _ _ later
  exact same _ _ rfl

@[simp] theorem settle_done (policy : Policy) (a : α) (errors : List ValidationError) :
    (done a).settle policy errors = (.done a, errors) := rfl

@[simp] theorem settle_count (policy : Policy) (errors : List ValidationError) :
    (query .count).settle policy errors = (.done errors.length, errors) := rfl

@[simp] theorem settle_note (policy : Policy) (e : Event) (errors : List ValidationError) :
    (note e).settle policy errors = (.done (), errors) := rfl

theorem settle_bind (policy : Policy) (m : Activity α) (k : α → Activity β) (errors : List ValidationError) :
    (m.bind k).settle policy errors =
      match m.settle policy errors with
      | (.done a, later) => (k a).settle policy later
      | (.halted, later) => (.halted, later) := by
  rw [settle_eq policy m ⟨errors, []⟩, settle_eq policy (m.bind k) ⟨errors, []⟩, run_bind]
  rcases m.run policy ⟨errors, []⟩ with ⟨a | _, j⟩
  · exact (settle_eq policy (k a) j).symm
  · rfl

/-! ### One error list for both policies -/

/-- How a fail-fast log takes errors that a collecting log takes one by one. -/
def cut (a : α) (errors : List ValidationError) : List ValidationError → Outcome α × List ValidationError
  | [] => (.done a, errors)
  | e :: _ => (.halted, errors ++ [e])

/-- With these errors in the log, an activity ends with a result and adds errors if they are collected; under the
other policy it ends in the same way if there are none, and halts at the first if there are. -/
structure Yields (m : Activity α) (errors : List ValidationError) (a : α) (added : List ValidationError) :
    Prop where
  collecting : m.settle .collectAll errors = (.done a, errors ++ added)
  failFast : m.settle .failFast errors = cut a errors added

theorem yields_done (a : α) (errors : List ValidationError) : (done a).Yields errors a [] :=
  ⟨by simp, rfl⟩

theorem yields_count (errors : List ValidationError) :
    (query .count).Yields errors errors.length [] := ⟨by simp, rfl⟩

theorem yields_note (e : Event) (errors : List ValidationError) : (note e).Yields errors () [] :=
  ⟨by simp, rfl⟩

theorem yields_record (e : ValidationError) (errors : List ValidationError) :
    (record e).Yields errors () [e] := ⟨rfl, rfl⟩

theorem Yields.bind {m : Activity α} {k : α → Activity β} {errors added later : List ValidationError}
    {a : α} {b : β} (first : m.Yields errors a added) (second : (k a).Yields (errors ++ added) b later) :
    (m.bind k).Yields errors b (added ++ later) := by
  constructor
  · rw [settle_bind, first.collecting]
    simp only [second.collecting, List.append_assoc]
  · rw [settle_bind, first.failFast]
    cases added with
    | nil => simpa [cut] using second.failFast
    | cons e rest => simp [cut]

theorem Yields.bind_silent {m : Activity α} {k : α → Activity β} {errors later : List ValidationError}
    {a : α} {b : β} (first : m.Yields errors a []) (second : (k a).Yields errors b later) :
    (m.bind k).Yields errors b later :=
  first.bind (by rw [List.append_nil]; exact second)

theorem Yields.bind_last {m : Activity α} {k : α → Activity β} {errors added : List ValidationError}
    {a : α} {b : β} (first : m.Yields errors a added) (second : (k a).Yields (errors ++ added) b []) :
    (m.bind k).Yields errors b added := by
  rw [← List.append_nil added]
  exact first.bind second

/-- The two policies agree on an activity, whatever errors stand in the log. -/
def Agrees (m : Activity α) : Prop := ∀ errors, ∃ a added, m.Yields errors a added

theorem closed_agrees : Closed fun _ m => m.Agrees where
  done := fun a errors => ⟨a, [], yields_done a errors⟩
  bind := by
    intro α β m k first second errors
    obtain ⟨a, added, yields⟩ := first errors
    obtain ⟨b, later, rest⟩ := second a (errors ++ added)
    exact ⟨b, added ++ later, yields.bind rest⟩
  count := fun errors => ⟨errors.length, [], yields_count errors⟩
  note := fun e _ errors => ⟨(), [], yields_note e errors⟩
  record := fun e _ errors => ⟨(), [e], yields_record e errors⟩

def SpeaksBuiltin (m : Activity α) : Prop :=
  ∀ policy errors, ∀ e ∈ (m.settle policy errors).2, e ∈ errors ∨ e.message ∈ Check.messages

theorem closed_speaksBuiltin : Closed fun _ m => m.SpeaksBuiltin where
  done := fun _ _ _ _ member => Or.inl member
  bind := by
    intro α β m k first second policy errors e member
    rw [settle_bind] at member
    have before := first policy errors
    split at member <;> rename_i ended <;> rw [ended] at before
    · rcases second _ policy _ e member with early | known
      · exact before e early
      · exact Or.inr known
    · exact before e member
  count := fun _ _ _ member => Or.inl member
  note := fun _ _ _ _ _ member => Or.inl member
  record := by
    intro e known policy errors other member
    have recorded : other ∈ errors ++ [e] := by cases policy <;> exact member
    rcases List.mem_append.mp recorded with early | new
    · exact Or.inl early
    · rw [List.mem_singleton.mp new]
      exact Or.inr known

end Activity

/-! ### What the two policies answer -/

/-- From every state of the log, a check only adds errors, never halts if they are collected, and under the other
policy does the same up to its first error, where it halts. -/
def Check.Agrees (check : Check) : Prop := ∀ v path, (check v path).Agrees

theorem hereditary_agrees : Check.Hereditary Check.Agrees := Activity.closed_agrees.hereditary

namespace Validate

theorem ok_eq (check : Check) (v : Value) :
    ok check v = okAnswer ((check v "").settle .failFast []).1 ((check v "").settle .failFast []).2 := rfl

theorem all_eq (check : Check) (v : Value) :
    all check v = allAnswer ((check v "").settle .collectAll []).1 ((check v "").settle .collectAll []).2 :=
  rfl

theorem ok_of_yields {check : Check} {v w : Value} {added : List ValidationError}
    (yields : (check v "").Yields [] w added) :
    ok check v = okAnswer (.done w) added := by
  rw [ok_eq, yields.failFast]
  cases added <;> rfl

theorem all_of_yields {check : Check} {v w : Value} {added : List ValidationError}
    (yields : (check v "").Yields [] w added) :
    all check v = allAnswer (.done w) added := by
  rw [all_eq, yields.collecting]
  rfl

/-- The answers of the two policies for one value: the same value, or an error and a list that it heads. -/
structure Concur (check : Check) (v : Value) : Prop where
  passes : ∀ w, ok check v = .ok w ↔ all check v = .ok w
  fails : ∀ e, ok check v = .error e ↔ ∃ rest, all check v = .error ⟨e :: rest⟩
  never_empty : all check v ≠ .error ⟨[]⟩
  never_bare : ∀ journal, check.start .failFast v = (.halted, journal) → journal.errors ≠ []

theorem concur_of_agrees {check : Check} (agrees : check.Agrees) (v : Value) : Concur check v := by
  obtain ⟨w, added, yields⟩ := agrees v "" []
  have first := ok_of_yields yields
  have every := all_of_yields yields
  cases added with
  | nil =>
    refine ⟨?_, ?_, by simp [every, allAnswer], ?_⟩
    · intro w'
      simp [first, every, okAnswer, allAnswer]
    · intro e
      simp [first, every, okAnswer, allAnswer]
    · intro journal halted
      have ended : ((check v "").settle .failFast []).1 = .halted := congrArg Prod.fst halted
      rw [yields.failFast] at ended
      cases ended
  | cons e rest =>
    refine ⟨?_, ?_, by simp [every, allAnswer], ?_⟩
    · intro w'
      simp [first, every, okAnswer, allAnswer]
    · intro e'
      simp [first, every, okAnswer, allAnswer]
    · intro journal halted none
      have errors : ((check v "").settle .failFast []).2 = journal.errors :=
        congrArg (fun run : Outcome Value × Journal => run.2.errors) halted
      rw [yields.failFast, none] at errors
      cases errors

/-- A built-in check never gives the error that stands for a halt without one. -/
theorem message_of_builtin {s : Spec} {check : Check} (compiled : (Registry.builtin.compile s).result = .ok check)
    {v : Value} {e : ValidationError} (failed : ok check v = .error e) : e.message ∈ Check.messages := by
  obtain ⟨w, added, yields⟩ := hereditary_agrees.compile_builtin s compiled v "" []
  have speaks := Activity.closed_speaksBuiltin.hereditary.compile_builtin s compiled v "" .failFast []
  rw [ok_of_yields yields] at failed
  rw [yields.failFast] at speaks
  cases added with
  | nil => cases failed
  | cons first rest =>
    cases failed
    simpa [Activity.cut] using speaks

/-- Validation by the first error and by all errors agree: on every value for built-in specs, and for specs with
custom validators whose checks agree, which chains and schemas of such checks do as well. -/
theorem ok_concurs_all :
    (∀ s check, (Registry.builtin.compile s).result = .ok check →
      ∀ v, Concur check v ∧ ok check v ≠ .error (ValidationError.ofMessage haltedMessage)) ∧
    (∀ r : Registry, r.Keeps Check.Agrees →
      ∀ s check, (r.compile s).result = .ok check → ∀ v, Concur check v) ∧
    (∀ nullable default steps, (∀ step ∈ steps, (Check.Step.check step).Agrees) →
      (Check.chain steps).Agrees ∧ (Check.guarded nullable default (Check.chain steps)).Agrees) ∧
    (∀ fields, (∀ f ∈ fields, (Field.check f).Agrees) → (Schema.check fields).Agrees) := by
  have custom : ∀ r : Registry, r.Keeps Check.Agrees →
      ∀ s check, (r.compile s).result = .ok check → ∀ v, Concur check v :=
    fun r keeps s check compiled => concur_of_agrees (keeps.compile hereditary_agrees.chain s compiled)
  refine ⟨?_, custom, ?_, hereditary_agrees.schema⟩
  · intro s check compiled v
    refine ⟨custom Registry.builtin hereditary_agrees.keeps_builtin s check compiled v, ?_⟩
    intro failed
    have known := message_of_builtin compiled failed
    exact absurd known (by decide)
  · intro nullable default steps inner
    exact ⟨Activity.closed_agrees.chain inner, hereditary_agrees.chain nullable default steps inner⟩

def recordBlank : Value → String → Activity Unit
  | .string "", path => Activity.record ⟨"Blank", path, []⟩
  | _, _ => .done ()

/-- A validator of its own: it records an error for an empty string, and then has its argument, a spec, checked. -/
def notBlankFactory : Factory := fun argument context => do
  let inner ← context.compileValue argument (Nat.le_refl _)
  .done fun v path => (recordBlank v path).bind fun _ => inner v path

theorem keeps_notBlankFactory : notBlankFactory.Keeps Check.Agrees := by
  intro argument context _ lent check made
  simp only [notBlankFactory, Compilation.bind_eq, Compilation.result_bind_eq_ok_iff, Compilation.done,
    Except.ok.injEq] at made
  obtain ⟨inner, compiled, rfl⟩ := made
  have nested : inner.Agrees := by
    unfold Factory.Context.compileValue at compiled
    split at compiled
    · cases compiled
    · exact lent _ _ inner compiled
  intro v path
  refine Activity.closed_agrees.bind ?_ fun _ => nested v path
  unfold recordBlank
  split
  · exact fun errors => ⟨(), _, Activity.yields_record _ errors⟩
  · exact Activity.closed_agrees.done ()

def notBlankRegistry : Registry := Registry.builtin.register "notBlank" notBlankFactory

theorem keeps_notBlankRegistry : notBlankRegistry.Keeps Check.Agrees :=
  hereditary_agrees.keeps_builtin.register keeps_notBlankFactory

/-- A person with a name that is not blank and a number of years. -/
def personSpec : Spec := ⟨[("schema", .object [
  ("name", .object [("required", .bool true), ("notBlank", .object [("type", .string "object")])]),
  ("years", .object [("type", .string "number"), ("def", .string "unknown")])])], false, none⟩

/-- A blank name is found by both policies, and that it is no object besides by one of them. -/
theorem person_concurs : ∃ check, (notBlankRegistry.compile personSpec).result = .ok check ∧
    ok check (.object [("name", .string "")]) = .error ⟨"Blank", ".name", []⟩ ∧
    ∃ rest, all check (.object [("name", .string "")]) = .error ⟨⟨"Blank", ".name", []⟩ :: rest⟩ := by
  refine ⟨_, rfl, rfl, ?_⟩
  have concur := ok_concurs_all.2.1 notBlankRegistry keeps_notBlankRegistry personSpec _ rfl
    (.object [("name", .string "")])
  exact (concur.fails _).mp rfl

end Validate

end Conform
