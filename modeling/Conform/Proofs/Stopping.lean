import Conform.Proofs.Recordings

/-!
# Where a chain stops

A chain tells that a step has failed by two counts of the whole log. For steps that leave the errors before them in
place this is exact, whatever else they do: the chain runs the shortest prefix of its steps that fails, or all of them
(`Check.StopsAfter`). So a chain of two parts runs the first, and then the second if the first has not failed.
-/

namespace Conform

/-- Whatever stands in the log, an activity leaves the errors there and adds to them. -/
def Activity.KeepsErrors {α : Type} (m : Activity α) : Prop :=
  ∀ policy (j : Journal), j.errors <+: (m.run policy j).2.errors

theorem Activity.NeverTakes.keepsErrors {α : Type} {m : Activity α} (kept : m.NeverTakes) : m.KeepsErrors := by
  intro policy j
  rw [errors_run policy (kept policy j)]
  exact List.prefix_append _ _

namespace Check

open Activity

def KeepsErrors (check : Check) : Prop := ∀ v path, (check v path).KeepsErrors

/-- Steps one after the other, each on the value that the one before returned, whatever they record. -/
def inTurn : List Step → Check
  | [], value, _ => done value
  | step :: steps, value, path => (step.check value path).bind fun value => inTurn steps value path

/-- A run that halts, or adds at least one error to those it found. -/
def Fails (found : Journal) (ending : Outcome Value × Journal) : Prop :=
  ending.1 = .halted ∨ ∃ e added, ending.2.errors = found.errors ++ e :: added

variable {policy : Policy} {path : String} {step : Step} {steps : List Step} {v w : Value} {j later : Journal}

theorem not_fails_done (v : Value) (j : Journal) : ¬ Fails j (.done v, j) := by
  rintro (halted | ⟨e, added, same⟩)
  · cases halted
  · simp at same

/-- Errors that are kept have grown in number or are the same. -/
theorem fails_done_iff (kept : j.errors <+: later.errors) :
    Fails j (.done w, later) ↔ j.errors.length < later.errors.length := by
  obtain ⟨added, same⟩ := kept
  constructor
  · rintro (halted | ⟨e, more, grown⟩)
    · cases halted
    · rw [grown]
      simp
  · intro grown
    cases added with
    | nil => simp [← same] at grown
    | cons e added => exact .inr ⟨e, added, same.symm⟩

theorem errors_of_not_fails (kept : j.errors <+: later.errors) (clean : ¬ Fails j (.done w, later)) :
    later.errors = j.errors := by
  rw [fails_done_iff kept, Nat.not_lt] at clean
  exact (kept.eq_of_length_le clean).symm

/-! ### One step -/

theorem run_inTurn_cons (policy : Policy) (step : Step) (steps : List Step) (v : Value) (path : String) (j : Journal) :
    (inTurn (step :: steps) v path).run policy j =
      match (step.check v path).run policy j with
      | (.done w, later) => (inTurn steps w path).run policy later
      | (.halted, later) => (.halted, later) := by
  rw [inTurn, run_bind]
  rcases (step.check v path).run policy j with ⟨w | _, later⟩ <;> rfl

/-- The last of some steps runs on the value that the others returned, in the log as they left it. -/
theorem run_inTurn_concat (policy : Policy) (steps : List Step) (step : Step) (v : Value) (path : String)
    (j : Journal) :
    (inTurn (steps ++ [step]) v path).run policy j =
      match (inTurn steps v path).run policy j with
      | (.done w, later) => (step.check w path).run policy later
      | (.halted, later) => (.halted, later) := by
  induction steps generalizing v j with
  | nil =>
    rw [List.nil_append, run_inTurn_cons]
    change _ = (step.check v path).run policy j
    rcases (step.check v path).run policy j with ⟨w | _, later⟩ <;> rfl
  | cons first steps ih =>
    rw [List.cons_append, run_inTurn_cons, run_inTurn_cons]
    rcases (first.check v path).run policy j with ⟨w | _, later⟩
    · exact ih w later
    · rfl

theorem keepsErrors_inTurn {steps : List Step} (keeps : ∀ step ∈ steps, step.check.KeepsErrors) :
    (inTurn steps).KeepsErrors := by
  induction steps with
  | nil =>
    intro v path policy j
    exact List.prefix_refl _
  | cons step steps ih =>
    rw [List.forall_mem_cons] at keeps
    intro v path policy j
    have first := keeps.1 v path policy j
    rw [run_inTurn_cons]
    rcases ended : (step.check v path).run policy j with ⟨w | _, later⟩ <;> rw [ended] at first
    · exact first.trans (ih keeps.2 w path policy later)
    · exact first

/-- The ending of the steps that a chain has run, with the chain's own remark on the last of them if it has failed and
not halted. -/
def concluded (path : String) (found : Journal) (ran : List Step) : Outcome Value × Journal → Outcome Value × Journal
  | (.halted, later) => (.halted, later)
  | (.done w, later) =>
    if found.errors.length < later.errors.length then
      (.done w, ran.getLast?.elim later fun step => later.noted (.stepFailed step.name path))
    else (.done w, later)

/-- The first `n` steps are all that a chain runs: the shortest prefix that fails, or all steps if none fails. -/
structure StopsAfter (steps : List Step) (policy : Policy) (v : Value) (path : String) (j : Journal) (n : Nat) :
    Prop where
  within : n ≤ steps.length
  shortest : ∀ k < n, ¬ Fails j ((inTurn (steps.take k) v path).run policy j)
  fails : n < steps.length → Fails j ((inTurn (steps.take n) v path).run policy j)
  run : (chain steps v path).run policy j =
    concluded path j (steps.take n) ((inTurn (steps.take n) v path).run policy j)

theorem stopsAfter_nil (policy : Policy) (v : Value) (path : String) (j : Journal) :
    StopsAfter [] policy v path j 0 where
  within := Nat.le_refl 0
  shortest := nofun
  fails := nofun
  run := by simp [chain, inTurn, Activity.run, concluded]

theorem stopsAfter_one (fails : Fails j ((step.check v path).run policy j)) (kept : (step.check v path).KeepsErrors)
    (steps : List Step) : StopsAfter (step :: steps) policy v path j 1 := by
  have one : (inTurn ((step :: steps).take 1) v path).run policy j = (step.check v path).run policy j := by
    rw [List.take_succ_cons, List.take_zero, run_inTurn_cons]
    rcases (step.check v path).run policy j with ⟨w | _, later⟩ <;> rfl
  refine ⟨by simp, ?_, fun _ => one ▸ fails, ?_⟩
  · intro k before
    obtain rfl : k = 0 := by omega
    exact not_fails_done v j
  · have kept := kept policy j
    rw [one, run_chain_cons]
    rcases ended : (step.check v path).run policy j with ⟨w | _, later⟩
    · rw [ended] at fails kept
      have grown := (fails_done_iff kept).mp fails
      simp [concluded, grown]
    · rfl

/-- After a step that has not failed, the chain goes on as the chain of the other steps would begin. -/
theorem stopsAfter_succ {n : Nat} (ended : (step.check v path).run policy j = (.done w, later))
    (same : later.errors = j.errors) (rest : StopsAfter steps policy w path later n) :
    StopsAfter (step :: steps) policy v path j (n + 1) := by
  have onwards : ∀ k, (inTurn ((step :: steps).take (k + 1)) v path).run policy j =
      (inTurn (steps.take k) w path).run policy later := by
    intro k
    rw [List.take_succ_cons, run_inTurn_cons, ended]
  have alike : ∀ ending, Fails j ending ↔ Fails later ending := by simp [Fails, same]
  refine ⟨by simpa using rest.within, ?_, ?_, ?_⟩
  · intro k before
    cases k with
    | zero => exact not_fails_done v j
    | succ k =>
      rw [onwards, alike]
      exact rest.shortest k (by omega)
  · intro more
    rw [onwards, alike]
    exact rest.fails (by simpa using more)
  · have stays : ¬ j.errors.length < later.errors.length := by simp [same]
    rw [onwards, run_chain_cons, ended]
    simp only [if_neg stays, rest.run]
    rw [List.take_succ_cons]
    cases ran : steps.take n with
    | nil => simp [inTurn, Activity.run, concluded, same]
    | cons first others => simp only [concluded, same, List.getLast?_cons_cons]

theorem exists_stopsAfter (keeps : ∀ step ∈ steps, step.check.KeepsErrors) (policy : Policy) (v : Value)
    (path : String) (j : Journal) : ∃ n, StopsAfter steps policy v path j n := by
  induction steps generalizing v j with
  | nil => exact ⟨0, stopsAfter_nil policy v path j⟩
  | cons step steps ih =>
    rw [List.forall_mem_cons] at keeps
    have kept := keeps.1 v path
    by_cases fails : Fails j ((step.check v path).run policy j)
    · exact ⟨1, stopsAfter_one fails kept steps⟩
    · have kept := kept policy j
      rcases ended : (step.check v path).run policy j with ⟨w | _, later⟩ <;> rw [ended] at fails kept
      · obtain ⟨n, rest⟩ := ih keeps.2 w later
        exact ⟨n + 1, stopsAfter_succ ended (errors_of_not_fails kept fails) rest⟩
      · exact absurd (.inl rfl) fails

/-- Each of the first `n` steps runs on what the ones before it returned, in the log as they left it and with no error
added. -/
def TakesTurns (steps : List Step) (policy : Policy) (v : Value) (path : String) (j : Journal) (n : Nat) : Prop :=
  ∀ k < n, ∃ (inside : k < steps.length) (w : Value) (later : Journal),
    (inTurn (steps.take k) v path).run policy j = (.done w, later) ∧ later.errors = j.errors ∧
    (inTurn (steps.take (k + 1)) v path).run policy j = (steps[k].check w path).run policy later

theorem StopsAfter.takesTurns {n : Nat} (stops : StopsAfter steps policy v path j n)
    (keeps : ∀ step ∈ steps, step.check.KeepsErrors) : TakesTurns steps policy v path j n := by
  intro k before
  have inside : k < steps.length := Nat.lt_of_lt_of_le before stops.within
  have earlier : ∀ step ∈ steps.take k, step.check.KeepsErrors :=
    fun step member => keeps step (List.mem_of_mem_take member)
  have clean := stops.shortest k before
  have kept := keepsErrors_inTurn earlier v path policy j
  have next := run_inTurn_concat policy (steps.take k) steps[k] v path j
  rw [← List.take_succ_eq_append_getElem inside] at next
  rcases ended : (inTurn (steps.take k) v path).run policy j with ⟨w | _, later⟩ <;> rw [ended] at clean kept next
  · exact ⟨inside, w, later, rfl, errors_of_not_fails kept clean, next⟩
  · exact absurd (.inl rfl) clean

/-! ### Two parts of a chain -/

theorem run_chain_append {first : List Step} (keeps : ∀ step ∈ first, step.check.KeepsErrors) (second : List Step)
    (policy : Policy) (v : Value) (path : String) (j : Journal) :
    (chain (first ++ second) v path).run policy j =
      match (chain first v path).run policy j with
      | (.done w, later) =>
        if j.errors.length < later.errors.length then (.done w, later) else (chain second w path).run policy later
      | (.halted, later) => (.halted, later) := by
  induction first generalizing v j with
  | nil => simp [chain, Activity.run]
  | cons step first ih =>
    rw [List.forall_mem_cons] at keeps
    have kept := keeps.1 v path policy j
    rw [List.cons_append, run_chain_cons, run_chain_cons]
    rcases ended : (step.check v path).run policy j with ⟨w | _, later⟩
    · rw [ended] at kept
      dsimp only at kept ⊢
      by_cases grown : j.errors.length < later.errors.length
      · simp [grown, Journal.noted]
      · have same := kept.eq_of_length_le (Nat.le_of_not_lt grown)
        rw [if_neg grown, if_neg grown, ih keeps.2 w later, same]
    · rfl

/-- A chain of two parts ends as the first has failed, or goes on with the second on what the first returned. -/
structure Continues (first second : List Step) (policy : Policy) (v : Value) (path : String) (j : Journal) :
    Prop where
  fails : Fails j ((chain first v path).run policy j) →
    (chain (first ++ second) v path).run policy j = (chain first v path).run policy j
  passes : ∀ w later, (chain first v path).run policy j = (.done w, later) → later.errors = j.errors →
    (chain (first ++ second) v path).run policy j = (chain second w path).run policy later

theorem continues {first : List Step} (keeps : ∀ step ∈ first, step.check.KeepsErrors) (second : List Step)
    (policy : Policy) (v : Value) (path : String) (j : Journal) : Continues first second policy v path j where
  fails := by
    intro fails
    rw [run_chain_append keeps]
    rcases ended : (chain first v path).run policy j with ⟨w | _, later⟩
    · rw [ended] at fails
      obtain halted | ⟨e, added, grown⟩ := fails
      · cases halted
      · dsimp only at grown ⊢
        rw [if_pos (by simp [grown])]
    · rfl
  passes := by
    intro w later ended same
    rw [run_chain_append keeps, ended]
    dsimp only
    rw [if_neg (by simp [same])]

/-- A chain stops exactly at the first step that fails, and its parts run one after the other. -/
theorem chain_stops_at_failure {steps : List Step} (keeps : ∀ step ∈ steps, step.check.KeepsErrors) {v : Value}
    (present : v.isNull = false) (nullable : Bool) (default : Option Value) (policy : Policy) (path : String)
    (j : Journal) :
    guarded nullable default (chain steps) v path = chain steps v path ∧
    (∃ n, StopsAfter steps policy v path j n ∧ TakesTurns steps policy v path j n) ∧
    ∀ first second, steps = first ++ second → Continues first second policy v path j := by
  refine ⟨by simp [guarded, present], ?_, ?_⟩
  · obtain ⟨n, stops⟩ := exists_stopsAfter keeps policy v path j
    exact ⟨n, stops, stops.takesTurns keeps⟩
  · rintro first second rfl
    exact continues (fun step member => keeps step (List.mem_append_left _ member)) second policy v path j

/-- A step that suspends and leaves nothing of its value. -/
def blotStep : Step := ⟨"blot", fun _ _ => .suspended (done .null)⟩

/-- A step that remarks on a place below its own, and goes on whatever the log says. -/
def remarkStep : Step := ⟨"remark", fun v path =>
  (query (.record ((ValidationError.ofMessage "Smudged").under (path ++ ".line")))).bind fun _ => done v⟩

def inkSteps : List Step := [blotStep, remarkStep, ⟨"type", LeafType.number.check⟩]

theorem keepsErrors_inkSteps : ∀ step ∈ inkSteps, step.check.KeepsErrors := by
  simp only [inkSteps, List.forall_mem_cons, List.not_mem_nil, false_imp_iff, implies_true, and_true]
  refine ⟨?_, ?_, ?_⟩
  · intro v path policy j
    exact List.prefix_refl _
  · intro v path policy j
    exact List.prefix_append _ _
  · intro v path
    exact (hereditary_neverTakes.leaf .number v path).keepsErrors

/-- What is known before the page is looked at. -/
def inkFound : Journal := ⟨[⟨"Torn", ".cover", []⟩], []⟩

/-- The blot is handed on as it is, the remark ends the chain although the log asked for a halt, and that null is no
number is not found out. -/
theorem ink_stops_at_remark :
    (guarded false none (chain inkSteps) (.string "7") ".page").run .failFast inkFound =
      (.done .null, ⟨[⟨"Torn", ".cover", []⟩, ⟨"Smudged", ".page.line", []⟩],
        [.recorded ".page.line" "Smudged", .stepFailed "remark" ".page"]⟩) := by
  obtain ⟨present, ⟨n, stops, -⟩, -⟩ :=
    @chain_stops_at_failure inkSteps keepsErrors_inkSteps (.string "7") rfl false none .failFast ".page" inkFound
  have two : n = 2 := by
    by_contra other
    obtain early | late : n < 2 ∨ 2 < n := by omega
    · have fails := stops.fails (Nat.lt_trans early (by decide))
      obtain rfl | rfl : n = 0 ∨ n = 1 := by omega
      · exact not_fails_done (.string "7") inkFound fails
      · exact not_fails_done .null inkFound fails
    · exact stops.shortest 2 late (.inr ⟨_, [], rfl⟩)
  rw [present, stops.run, two]
  rfl

end Check

end Conform
