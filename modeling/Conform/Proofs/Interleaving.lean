import Conform.Proofs.Promptness

/-!
# Runs side by side do not interfere

What a run comes to is settled by what is left of it (`Run.ending`). One resumption takes events off the front of that
and changes no other run, so the same holds of any number of resumptions in any order (`ending_resumeAll`). A run that
has ended therefore shows what it shows alone and without suspensions (`runs_undisturbed`).
-/

namespace Conform

/-! ### Earlier events -/

/-- The journal with events before its own. -/
def Journal.after (events : List Event) (j : Journal) : Journal := ⟨j.errors, events ++ j.events⟩

theorem Journal.after_empty (errors : List ValidationError) (events : List Event) :
    Journal.after events ⟨errors, []⟩ = ⟨errors, events⟩ := by
  rw [after, List.append_nil]

theorem Journal.answer_after (policy : Policy) (events : List Event) (j : Journal) (q : Query) :
    (j.after events).answer policy q = ((j.answer policy q).1, (j.answer policy q).2.after events) := by
  cases q <;> simp [answer, after, noted]

namespace Activity

theorem run_after {α : Type} (policy : Policy) (m : Activity α) (events : List Event) (j : Journal) :
    m.run policy (j.after events) = ((m.run policy j).1, (m.run policy j).2.after events) := by
  induction m generalizing j with
  | done a => rfl
  | halted => rfl
  | suspended rest ih => exact ih j
  | ask q next ih =>
    simp only [run, Journal.answer_after]
    exact ih _ _

theorem advance_after (policy : Policy) (m : Activity Value) (events : List Event) (j : Journal) :
    m.advance policy (j.after events) = ((m.advance policy j).1, (m.advance policy j).2.after events) := by
  induction m generalizing j with
  | done a => rfl
  | halted => rfl
  | suspended rest _ => rfl
  | ask q next ih =>
    simp only [advance, Journal.answer_after]
    exact ih _ _

theorem suspensions_after (policy : Policy) (m : Activity Value) (events : List Event) (j : Journal) :
    Run.suspensions policy m (j.after events) = Run.suspensions policy m j := by
  induction m generalizing j with
  | done a => rfl
  | halted => rfl
  | suspended rest ih => simp only [Run.suspensions, ih]
  | ask q next ih =>
    simp only [Run.suspensions, Journal.answer_after]
    exact ih _ _

/-- An activity gets to its end or to a suspension, from where the rest of it ends the run. -/
theorem advance_cases (policy : Policy) (m : Activity Value) (j : Journal) :
    (∃ outcome later, m.advance policy j = (.ended outcome, later) ∧ m.run policy j = (outcome, later) ∧
      Run.suspensions policy m j = 0) ∨
    ∃ rest later, m.advance policy j = (.waiting rest, later) ∧ m.run policy j = rest.run policy later ∧
      Run.suspensions policy m j = Run.suspensions policy rest later + 1 := by
  induction m generalizing j with
  | done a => exact .inl ⟨_, _, rfl, rfl, rfl⟩
  | halted => exact .inl ⟨_, _, rfl, rfl, rfl⟩
  | suspended rest _ => exact .inr ⟨_, _, rfl, rfl, rfl⟩
  | ask q next ih => exact ih _ _

end Activity

/-! ### One run -/

/-- How a run ends: its outcome, the errors then in its log, and what happens until then. -/
structure Ending where
  outcome : Outcome Value
  errors : List ValidationError
  events : List Event

def Ending.after (events : List Event) (e : Ending) : Ending := { e with events := events ++ e.events }

namespace Run

/-- What is still to come of a run, if it is resumed at once whenever it suspends. -/
def ending (r : Run) : Ending :=
  match r.progress with
  | .ended outcome => ⟨outcome, r.errors, []⟩
  | .waiting rest =>
    let (outcome, journal) := rest.run r.policy ⟨r.errors, []⟩
    ⟨outcome, journal.errors, journal.events ++ Validate.closing r.policy outcome journal.errors⟩

theorem ending_ofCheck (check : Check) (policy : Policy) (v : Value) : (ofCheck check policy v).ending =
    ⟨(check.start policy v).1, (check.start policy v).2.errors, Validate.events policy check v⟩ := rfl

/-- What other runs did before is no concern of a run. -/
theorem resume_eq (r : Run) (events : List Event) : r.resume events = ((r.resume []).1, events ++ (r.resume []).2) := by
  obtain ⟨policy, errors, rest | outcome⟩ := r
  · simp only [resume]
    rw [← Journal.after_empty errors events, Activity.advance_after]
    simp only [Journal.after, List.append_assoc]
  · simp [resume]

/-- One resumption brings a run nearer to the end that it has anyhow. -/
theorem ending_resume (r : Run) : r.ending = (r.resume []).1.ending.after (r.resume []).2 := by
  obtain ⟨policy, errors, rest | outcome⟩ := r
  · rcases rest.advance_cases policy ⟨errors, []⟩ with ⟨outcome, later, goes, ends, _⟩ | ⟨more, later, goes, ends, _⟩
    · simp [resume, ending, goes, ends, Ending.after, closing]
    · obtain ⟨errors', events'⟩ := later
      rw [← Journal.after_empty errors' events', Activity.run_after] at ends
      simp [resume, ending, goes, ends, Journal.after, Ending.after, closing]
  · rfl

theorem resumptions_resume (r : Run) : (r.resume []).1.resumptions = r.resumptions - 1 := by
  obtain ⟨policy, errors, rest | outcome⟩ := r
  · rcases rest.advance_cases policy ⟨errors, []⟩ with ⟨outcome, later, goes, _, none⟩ | ⟨more, later, goes, _, some⟩
    · simp [resume, resumptions, goes, none]
    · obtain ⟨errors', events'⟩ := later
      rw [← Journal.after_empty errors' events', Activity.suspensions_after] at some
      simp [resume, resumptions, goes, some]
  · rfl

theorem ended_iff (r : Run) : r.outcome?.isSome ↔ r.resumptions = 0 := by
  obtain ⟨policy, errors, rest | outcome⟩ := r <;> simp [outcome?, resumptions]

end Run

/-! ### Orders of resumption -/

theorem Ending.after_after (events later : List Event) (e : Ending) :
    (e.after later).after events = e.after (events ++ later) := by
  simp only [after, List.append_assoc]

namespace Schedule

/-- What happens in an order of resumptions, each event with the position of its run. -/
def trace : (order : List Nat) → List Run → List (Nat × Event)
  | [], _ => []
  | position :: order, runs =>
    match runs[position]? with
    | none => trace order runs
    | some r => (r.resume []).2.map (position, ·) ++ trace order (runs.set position (r.resume []).1)

/-- The events of the run at a position. -/
def own (position : Nat) (trace : List (Nat × Event)) : List Event :=
  (trace.filter fun e => e.1 == position).map (·.2)

theorem own_append (position : Nat) (trace later : List (Nat × Event)) :
    own position (trace ++ later) = own position trace ++ own position later := by
  simp [own]

theorem own_map (position i : Nat) (events : List Event) :
    own i (events.map (position, ·)) = if position = i then events else [] := by
  by_cases same : position = i <;> simp [own, List.filter_map, Function.comp_def, same]

theorem resumeAll_cons {position : Nat} {runs : List Run} {r : Run} (there : runs[position]? = some r)
    (order : List Nat) (events : List Event) : resumeAll (position :: order) runs events =
      resumeAll order (runs.set position (r.resume []).1) (events ++ (r.resume []).2) := by
  simp only [resumeAll, resumeAt, there]
  rw [r.resume_eq events]

theorem resumeAll_cons_absent {position : Nat} {runs : List Run} (absent : runs[position]? = none) (order : List Nat)
    (events : List Event) : resumeAll (position :: order) runs events = resumeAll order runs events := by
  simp only [resumeAll, resumeAt, absent]

theorem resumeAll_append (order later : List Nat) (runs : List Run) (events : List Event) :
    resumeAll (order ++ later) runs events =
      resumeAll later (resumeAll order runs events).1 (resumeAll order runs events).2 := by
  induction order generalizing runs events with
  | nil => rfl
  | cons position order ih => exact ih _ _

theorem events_resumeAll (order : List Nat) (runs : List Run) (events : List Event) :
    (resumeAll order runs events).2 = events ++ (trace order runs).map (·.2) := by
  induction order generalizing runs events with
  | nil => exact (List.append_nil events).symm
  | cons position order ih =>
    cases there : runs[position]? with
    | none => rw [resumeAll_cons_absent there, ih, trace, there]
    | some r =>
      rw [resumeAll_cons there, ih, trace, there]
      simp [Function.comp_def]

theorem length_resumeAll (order : List Nat) (runs : List Run) (events : List Event) :
    (resumeAll order runs events).1.length = runs.length := by
  induction order generalizing runs events with
  | nil => rfl
  | cons position order ih =>
    cases there : runs[position]? with
    | none => rw [resumeAll_cons_absent there, ih]
    | some r => rw [resumeAll_cons there, ih, List.length_set]

/-- Whatever the order, a run comes nearer to its own end by its own resumptions, and by no others. -/
theorem ending_resumeAll (order : List Nat) {runs : List Run} (events : List Event) {i : Nat} {r : Run}
    (here : runs[i]? = some r) : ∃ r', (resumeAll order runs events).1[i]? = some r' ∧
      r.ending = r'.ending.after (own i (trace order runs)) ∧ r'.resumptions = r.resumptions - order.count i := by
  induction order generalizing runs events r with
  | nil => exact ⟨r, here, rfl, rfl⟩
  | cons position order ih =>
    cases there : runs[position]? with
    | none =>
      have other : position ≠ i := by
        rintro rfl
        rw [here] at there
        cases there
      rw [resumeAll_cons_absent there, trace, there, List.count_cons_of_ne other]
      exact ih events here
    | some resumed =>
      rw [resumeAll_cons there, trace, there]
      simp only [own_append, own_map]
      by_cases same : position = i
      · subst same
        cases here.symm.trans there
        have bound : position < runs.length := (List.getElem?_eq_some_iff.mp here).1
        have next : (runs.set position (r.resume []).1)[position]? = some (r.resume []).1 := by
          rw [List.getElem?_set_self bound]
        obtain ⟨r', last, ending, left⟩ := ih (events ++ (r.resume []).2) next
        refine ⟨r', last, ?_, ?_⟩
        · rw [r.ending_resume, ending, Ending.after_after, if_pos rfl]
        · rw [left, r.resumptions_resume, List.count_cons_self]
          omega
      · have next : (runs.set position (resumed.resume []).1)[i]? = some r := by
          rw [List.getElem?_set_ne same, here]
        obtain ⟨r', last, ending, left⟩ := ih (events ++ (resumed.resume []).2) next
        refine ⟨r', last, ?_, ?_⟩
        · rw [ending, if_neg same, List.nil_append]
        · rw [left, List.count_cons_of_ne same]

/-! ### Rounds -/

theorem round_eq (runs : List Run) (events : List Event) :
    round runs events = resumeAll (List.range runs.length) runs events := by
  have behind : ∀ (runs earlier : List Run) (events : List Event),
      resumeAll (List.range' earlier.length runs.length) (earlier ++ runs) events =
        (earlier ++ (round runs events).1, (round runs events).2) := by
    intro runs
    induction runs with
    | nil => intro earlier events; rfl
    | cons r runs ih =>
      intro earlier events
      have there : (earlier ++ r :: runs)[earlier.length]? = some r := by simp
      have moved : (earlier ++ r :: runs).set earlier.length (r.resume []).1 =
          (earlier ++ [(r.resume []).1]) ++ runs := by simp
      have next := ih (earlier ++ [(r.resume []).1]) (events ++ (r.resume []).2)
      rw [List.length_append, List.length_singleton] at next
      rw [List.length_cons, List.range'_succ, resumeAll_cons there, moved, next, round, r.resume_eq events]
      simp
  have all := behind runs [] events
  rw [List.nil_append, List.nil_append, List.length_nil, ← List.range_eq_range'] at all
  exact all.symm

theorem rounds_eq (n : Nat) (runs : List Run) (events : List Event) :
    rounds n runs events = resumeAll (List.replicate n (List.range runs.length)).flatten runs events := by
  induction n generalizing runs events with
  | zero => rfl
  | succ n ih =>
    have later := ih (round runs events).1 (round runs events).2
    rw [round_eq, length_resumeAll] at later
    simp only [rounds]
    rw [round_eq, later, List.replicate_succ, List.flatten_cons, resumeAll_append]

theorem le_foldl_max {ns : List Nat} {n start : Nat} (below : n ≤ start ∨ n ∈ ns) : n ≤ ns.foldl max start := by
  induction ns generalizing start with
  | nil => exact below.resolve_right List.not_mem_nil
  | cons m ns ih =>
    rw [List.mem_cons] at below
    refine ih ?_
    rcases below with low | rfl | later
    · exact .inl (Nat.le_trans low (Nat.le_max_left start m))
    · exact .inl (Nat.le_max_right start n)
    · exact .inr later

/-- The rounds of a join are enough for every run. -/
theorem ended_join (runs : List Run) (events : List Event) : ∀ r ∈ (join runs events).1, r.outcome?.isSome := by
  intro r' member
  rw [join, rounds_eq] at member
  obtain ⟨i, bound, last⟩ := List.mem_iff_getElem.mp member
  rw [length_resumeAll] at bound
  have here : runs[i]? = some runs[i] := List.getElem?_eq_getElem bound
  obtain ⟨r, found, -, left⟩ := ending_resumeAll
    (List.replicate ((runs.map Run.resumptions).foldl max 0) (List.range runs.length)).flatten events here
  have same : r = r' := by
    rw [List.getElem?_eq_getElem (by rw [length_resumeAll]; exact bound), last] at found
    exact (Option.some.inj found).symm
  subst same
  have enough : runs[i].resumptions ≤ (runs.map Run.resumptions).foldl max 0 :=
    le_foldl_max (.inr (List.mem_map_of_mem (List.getElem_mem bound)))
  rw [Run.ended_iff, left, List.count_flatten, List.map_replicate, List.count_range, if_pos bound,
    List.sum_replicate_nat]
  omega

/-- What a run that has ended shows of itself, and the events it gave rise to, as they are alone. -/
structure Undisturbed (r : Run) (own : List Event) (check : Check) (policy : Policy) (v : Value) : Prop where
  outcome : r.outcome? = some (check.start policy v).1
  errors : r.errors = (check.start policy v).2.errors
  events : own = Validate.events policy check v
  ok : policy = .failFast → r.outcome?.map (Validate.okAnswer · r.errors) = some (Validate.ok check v)
  all : policy = .collectAll → r.outcome?.map (Validate.allAnswer · r.errors) = some (Validate.all check v)

theorem start_eq_of_prompt_eq {check other : Check} (same : other.prompt = check.prompt) (policy : Policy) (v : Value) :
    other.start policy v = check.start policy v := by
  have activity : (other v "").prompt = (check v "").prompt := congrFun (congrFun same v) ""
  rw [Check.start, Check.start, ← Activity.run_prompt, activity, Activity.run_prompt]

theorem undisturbed_of_ending {r : Run} {own : List Event} {check : Check} {policy : Policy} {v : Value}
    (ended : r.outcome?.isSome) (ending : (Run.ofCheck check policy v).ending = r.ending.after own) :
    Undisturbed r own check policy v := by
  obtain ⟨_, errors, rest | outcome⟩ := r
  · cases ended
  · rw [Run.ending_ofCheck] at ending
    simp only [Run.ending, Ending.after, List.append_nil, Ending.mk.injEq] at ending
    obtain ⟨sameOutcome, sameErrors, sameEvents⟩ := ending
    have shown : (Run.mk policy errors (.ended outcome)).outcome? = some (check.start policy v).1 := by
      rw [sameOutcome]
      rfl
    refine ⟨shown, sameErrors.symm, sameEvents.symm, ?_, ?_⟩
    · rintro rfl
      simp only [Run.outcome?, Option.map_some, Validate.ok, sameOutcome, sameErrors]
    · rintro rfl
      simp only [Run.outcome?, Option.map_some, Validate.all, sameOutcome, sameErrors]

/-- Runs of one check on several values, in any order of resumption and under either policy, do not interfere with each
other, and no suspension of a part of the check shows. -/
theorem runs_undisturbed :
    (∀ check plain : Check, check.prompt = plain.prompt → ∀ (requests : List (Policy × Value)) order events,
      let runs := requests.map fun q => Run.ofCheck check q.1 q.2
      (∀ r ∈ (resumeAll order runs events).1, r.outcome?.isSome) →
      (resumeAll order runs events).2 = events ++ (trace order runs).map (·.2) ∧
      ∀ i policy v, requests[i]? = some (policy, v) → ∃ r, (resumeAll order runs events).1[i]? = some r ∧
        Undisturbed r (own i (trace order runs)) plain policy v) ∧
    (∀ check : Check, check.prompt.prompt = check.prompt ∧
      ∀ policy v, (Run.ofCheck check.prompt policy v).resumptions = 1) ∧
    (∀ r r' : Registry, r.Retimes r' → ∀ s check, (r.compile s).result = .ok check →
      ∃ plain, (r'.compile s).result = .ok plain ∧ check.prompt = plain.prompt) ∧
    (∀ runs events, ∃ order, join runs events = resumeAll order runs events ∧
      ∀ r ∈ (join runs events).1, r.outcome?.isSome) := by
  refine ⟨?_, ?_, ?_, ?_⟩
  · intro check plain same requests order events runs ended
    refine ⟨events_resumeAll order runs events, fun i policy v asked => ?_⟩
    have here : runs[i]? = some (Run.ofCheck check policy v) := by simp [runs, asked]
    obtain ⟨r, last, ending, -⟩ := ending_resumeAll order events here
    refine ⟨r, last, undisturbed_of_ending (ended r (List.mem_of_getElem? last)) ?_⟩
    rw [← ending, Run.ending_ofCheck, Run.ending_ofCheck, Validate.events, Validate.events,
      start_eq_of_prompt_eq same policy v]
  · intro check
    refine ⟨?_, fun policy v => ?_⟩
    · funext v path
      exact Activity.prompt_prompt (check v path)
    · simp only [Run.ofCheck, Run.resumptions, Check.prompt, Activity.suspensions_prompt]
  · intro r r' retimes s check compiled
    obtain ⟨plain, compiledToo, same⟩ := retimes.compile_ok compiled
    exact ⟨plain, compiledToo, same.symm⟩
  · intro runs events
    exact ⟨_, rounds_eq _ runs events, ended_join runs events⟩

/-- Suspends so many times, and then refuses blank strings. -/
def patience (n : Nat) : Check := fun v path =>
  (Activity.suspend n).bind fun _ => match v with
    | .string "" => Check.refuse "Blank" path
    | v => .done v

theorem prompt_patience (m n : Nat) : (patience m).prompt = (patience n).prompt := by
  funext v path
  simp only [patience, Check.prompt, Activity.prompt_bind, Activity.prompt_suspend]

def patient (n : Nat) : Registry := Registry.builtin.registerType "patience" (patience n)

/-- A place in a queue, held for a person. -/
def placeSpec : Spec := ⟨[("schema", .object [
  ("place", .object [("type", .string "number")]),
  ("holder", .object [("schema", .object [
    ("name", .object [("type", .string "patience")])])])])], false, none⟩

def placeCheck (n : Nat) : Check :=
  let holder := Check.guarded false none (Check.chain [⟨"schema", Schema.check [
    ⟨"name", .optional, Check.guarded false none (Check.chain [⟨"type", patience n⟩])⟩]⟩])
  Check.guarded false none (Check.chain [⟨"schema", Schema.check [
    ⟨"place", .optional, Check.guarded false none (Check.chain [⟨"type", LeafType.check .number⟩])⟩,
    ⟨"holder", .optional, holder⟩]⟩])

def blankPlace : Value := .object [("place", .string "last"), ("holder", .object [("name", .string "")])]

def placeRequests : List (Policy × Value) := [
  (.failFast, .object [("holder", .object [("name", .string "")])]), (.collectAll, blankPlace), (.collectAll, .null)]

def placeOrder : List Nat := [1, 0, 2, 0, 1, 1, 0]

theorem compile_placeSpec (n : Nat) : ((patient n).compile placeSpec).result = .ok (placeCheck n) := rfl

/-- The other runs come to an end while the one with two errors waits. -/
theorem place_undisturbed :
    (∀ r ∈ (resumeAll placeOrder (placeRequests.map fun q => Run.ofCheck (placeCheck 2) q.1 q.2) []).1,
      r.outcome?.isSome) ∧
    ∃ plain, ((patient 0).compile placeSpec).result = .ok plain ∧
    ∃ r own, Undisturbed r own plain .collectAll blankPlace ∧
      r.errors = [⟨"Not a number", ".place", []⟩, ⟨"Blank", ".holder.name", []⟩] := by
  have ended : ∀ r ∈ (resumeAll placeOrder (placeRequests.map fun q => Run.ofCheck (placeCheck 2) q.1 q.2) []).1,
      r.outcome?.isSome := List.all_eq_true.mp rfl
  obtain ⟨undisturbed, -, retimed, -⟩ := runs_undisturbed
  have retimes : (patient 2).Retimes (patient 0) :=
    Registry.retimes_builtin.registerType "patience" (prompt_patience 2 0)
  obtain ⟨plain, compiled, same⟩ := retimed (patient 2) (patient 0) retimes placeSpec _ (compile_placeSpec 2)
  obtain ⟨-, each⟩ := undisturbed _ plain same placeRequests placeOrder [] ended
  obtain ⟨r, _, shown⟩ := each 1 _ _ rfl
  refine ⟨ended, plain, compiled, r, _, shown, ?_⟩
  rw [shown.errors, ← start_eq_of_prompt_eq same]
  rfl

end Schedule

end Conform
