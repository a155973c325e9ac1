import Conform.Proofs.Recordings

/-!
# Calls

A check may note that it was called. Under the fail-fast policy nothing runs after the first error: a run asks of its
log what a collecting run asks up to its first error (`Activity.StopsAtFirst`), and so makes the same calls up to there.
-/

namespace Conform

/-- The validator that was called, at which path and on which value. -/
def Event.call? : Event → Option (String × String × Value)
  | .called label path v => some (label, path, v)
  | _ => none

namespace Query

/-- What a question leaves in the events of the log. -/
def event? : Query → Option Event
  | .record e => some (.recorded e.path e.message)
  | .note e => some e
  | _ => none

/-- Questions up to the first that records an error, and that one too. -/
def throughRecord : List Query → List Query
  | [] => []
  | q :: asked => if q.recorded?.isSome then [q] else q :: throughRecord asked

theorem throughRecord_prefix (asked : List Query) : throughRecord asked <+: asked := by
  induction asked with
  | nil => exact List.prefix_refl _
  | cons q asked ih =>
    unfold throughRecord
    split
    · exact List.prefix_append [q] asked
    · exact (List.prefix_cons_inj q).mpr ih

theorem throughRecord_append_clean {early : List Query} (clean : early.filterMap recorded? = []) (late : List Query) :
    throughRecord (early ++ late) = early ++ throughRecord late := by
  induction early with
  | nil => rfl
  | cons q early ih =>
    cases recorded : q.recorded? with
    | none =>
      rw [List.filterMap_cons, recorded] at clean
      rw [List.cons_append, throughRecord, recorded, ih clean]
      rfl
    | some e => simp [recorded] at clean

theorem throughRecord_append_recorded {early : List Query} (recorded : early.filterMap recorded? ≠ [])
    (late : List Query) : throughRecord (early ++ late) = throughRecord early := by
  induction early with
  | nil => exact absurd rfl recorded
  | cons q early ih =>
    rw [List.cons_append, throughRecord, throughRecord]
    split
    · rfl
    · rename_i silent
      rw [Option.not_isSome_iff_eq_none] at silent
      rw [List.filterMap_cons, silent] at recorded
      rw [ih recorded]

theorem throughRecord_of_clean {asked : List Query} (clean : asked.filterMap recorded? = []) :
    throughRecord asked = asked := by
  have whole := throughRecord_append_clean clean []
  rwa [List.append_nil, throughRecord, List.append_nil] at whole

end Query

namespace Activity

variable {α β : Type}

/-- One question adds its event. -/
theorem events_answer (policy : Policy) (j : Journal) (q : Query) :
    (j.answer policy q).2.events = j.events ++ q.event?.toList := by
  cases q <;> simp [Journal.answer, Journal.noted, Query.event?]

theorem events_run (policy : Policy) (m : Activity α) (j : Journal) :
    (m.run policy j).2.events = j.events ++ (m.asked policy j).filterMap Query.event? := by
  induction m generalizing j with
  | done a => exact (List.append_nil _).symm
  | halted => exact (List.append_nil _).symm
  | suspended rest ih => exact ih j
  | ask q next ih =>
    rw [run, ih, events_answer, asked, List.filterMap_cons, List.append_assoc]
    cases q.event? <;> rfl

theorem recordings_bind (policy : Policy) (m : Activity α) (k : α → Activity β) (j : Journal) :
    (m.bind k).recordings policy j = m.recordings policy j ++
      match m.run policy j with
      | (.done a, later) => (k a).recordings policy later
      | (.halted, _) => [] := by
  rw [recordings, asked_bind, List.filterMap_append]
  rcases m.run policy j with ⟨a | _, later⟩ <;> rfl

/-- From any journal, a fail-fast run is the part of a collecting run that ends with the first error. -/
structure StopsAtFirst (m : Activity α) : Prop where
  asked : ∀ j, m.asked .failFast j = Query.throughRecord (m.asked .collectAll j)
  halts : ∀ j, m.recordings .collectAll j ≠ [] → (m.run .failFast j).1 = .halted
  agrees : ∀ j, m.recordings .collectAll j = [] → m.run .failFast j = m.run .collectAll j

theorem StopsAtFirst.bind {m : Activity α} {k : α → Activity β} (first : m.StopsAtFirst)
    (second : ∀ a, (k a).StopsAtFirst) : (m.bind k).StopsAtFirst where
  asked := by
    intro j
    rw [asked_bind, asked_bind, first.asked]
    by_cases clean : m.recordings .collectAll j = []
    · rw [Query.throughRecord_append_clean clean, Query.throughRecord_of_clean clean, first.agrees j clean]
      congr 1
      split
      · exact (second _).asked _
      · rfl
    · rw [Query.throughRecord_append_recorded clean]
      have stopped := first.halts j clean
      split
      · simp_all only [reduceCtorEq]
      · exact List.append_nil _
  halts := by
    intro j recorded
    rw [recordings_bind] at recorded
    rw [run_bind]
    by_cases clean : m.recordings .collectAll j = []
    · rw [clean, List.nil_append] at recorded
      rw [first.agrees j clean]
      split
      · rename_i ended
        rw [ended] at recorded
        exact (second _).halts _ recorded
      · rfl
    · have stopped := first.halts j clean
      split
      · simp_all only [reduceCtorEq]
      · rfl
  agrees := by
    intro j clean
    rw [recordings_bind, List.append_eq_nil_iff] at clean
    obtain ⟨early, late⟩ := clean
    rw [run_bind, run_bind, first.agrees j early]
    split
    · rename_i ended
      rw [ended] at late
      exact (second _).agrees _ late
    · rfl

theorem stopsAtFirst_note (e : Event) : (note e).StopsAtFirst :=
  ⟨fun _ => rfl, fun _ recorded => absurd rfl recorded, fun _ _ => rfl⟩

theorem stopsAtFirst_record (e : ValidationError) : (record e).StopsAtFirst :=
  ⟨fun _ => rfl, fun _ _ => rfl, nofun⟩

theorem closed_stopsAtFirst : Closed fun _ m => m.StopsAtFirst where
  done := fun _ => ⟨fun _ => rfl, fun _ recorded => absurd rfl recorded, fun _ _ => rfl⟩
  bind := .bind
  count := ⟨fun _ => rfl, fun _ recorded => absurd rfl recorded, fun _ _ => rfl⟩
  note := fun e _ => stopsAtFirst_note e
  record := fun e _ => stopsAtFirst_record e

/-- An activity that records errors and suspends, and goes on for as long as the log lets it. -/
inductive Plain : Activity Value → Prop
  | done (v : Value) : Plain (done v)
  | suspended {rest : Activity Value} (later : Plain rest) : Plain (suspended rest)
  | record (e : ValidationError) {rest : Activity Value} (later : Plain rest) :
      Plain ((record e).bind fun _ => rest)

theorem Plain.stopsAtFirst {m : Activity Value} (plain : m.Plain) : m.StopsAtFirst := by
  induction plain with
  | done v => exact closed_stopsAtFirst.done v
  | suspended _ ih => exact ⟨ih.asked, ih.halts, ih.agrees⟩
  | record e _ ih => exact (stopsAtFirst_record e).bind fun _ => ih

end Activity

namespace Check

def StopsAtFirst (check : Check) : Prop := ∀ v path, (check v path).StopsAtFirst

theorem hereditary_stopsAtFirst : Hereditary StopsAtFirst := Activity.closed_stopsAtFirst.hereditary

/-- A check of its own that first notes its call, and then does the same on each call with the same value there. -/
def Instrumented (label : String) (check : Check) : Prop :=
  ∀ v path, ∃ body : Activity Value, body.Plain ∧
    check v path = (Activity.note (.called label path v)).bind fun _ => body

theorem Instrumented.stopsAtFirst {label : String} {check : Check} (instrumented : check.Instrumented label) :
    check.StopsAtFirst := by
  intro v path
  obtain ⟨body, plain, same⟩ := instrumented v path
  rw [same]
  exact (Activity.stopsAtFirst_note _).bind fun _ => plain.stopsAtFirst

/-- What chains and schemas are made of: checks that note their calls, leaf types, and the check that lets all pass. -/
inductive Part : Check → Prop
  | instrumented {label : String} {check : Check} (given : check.Instrumented label) : Part check
  | leaf (type : LeafType) : Part type.check
  | identity : Part identity

theorem Composed.stopsAtFirst {check : Check} (composed : check.Composed Part) : check.StopsAtFirst := by
  induction composed with
  | custom part =>
    cases part with
    | instrumented given => exact given.stopsAtFirst
    | leaf type => exact hereditary_stopsAtFirst.leaf type
    | identity => exact hereditary_stopsAtFirst.identity
  | chain nullable default _ ih => exact hereditary_stopsAtFirst.chain nullable default _ ih
  | schema _ ih => exact hereditary_stopsAtFirst.schema _ ih

theorem hereditary_composed : Hereditary (Composed Part) where
  leaf := fun type => .custom (.leaf type)
  identity := .custom .identity
  chain := fun nullable default _ inner => .chain nullable default inner
  schema := fun _ inner => .schema inner

/-- The calls of a run, in order of time. -/
def calls (check : Check) (policy : Policy) (v : Value) : List (String × String × Value) :=
  (check.start policy v).2.events.filterMap Event.call?

/-- The calls that a collecting run makes up to the moment of its first error. -/
def callsToFirst (check : Check) (v : Value) : List (String × String × Value) :=
  (Query.throughRecord ((check v "").asked .collectAll Journal.empty)).filterMap fun q => q.event?.bind Event.call?

theorem calls_eq (check : Check) (policy : Policy) (v : Value) :
    check.calls policy v =
      ((check v "").asked policy Journal.empty).filterMap fun q => q.event?.bind Event.call? := by
  rw [calls, start, Activity.events_run, List.filterMap_append, List.filterMap_filterMap]
  rfl

end Check

namespace Validate

/-- Which checks of its own a validation calls, and in which order. -/
structure CallsStop (check : Check) (v : Value) : Prop where
  exact : check.calls .failFast v = check.callsToFirst v
  initial : check.callsToFirst v <+: check.calls .collectAll v
  whole : check.recordings .collectAll v = [] → check.calls .failFast v = check.calls .collectAll v

theorem callsStop_of_stopsAtFirst {check : Check} (stops : check.StopsAtFirst) (v : Value) : CallsStop check v where
  exact := by rw [Check.calls_eq, (stops v "").asked, Check.callsToFirst]
  initial := by
    rw [Check.calls_eq, Check.callsToFirst]
    exact (Query.throughRecord_prefix _).filterMap _
  whole := by
    intro clean
    rw [Check.calls_eq, Check.calls_eq, (stops v "").asked, Query.throughRecord_of_clean clean]

/-- A fail-fast validation makes the calls of a collecting one up to its first error, and no other. -/
theorem calls_stop_at_first_error :
    (∀ check : Check, check.Composed Check.Part → ∀ v, CallsStop check v) ∧
    (∀ r : Registry, r.Keeps (Check.Composed Check.Part) →
      ∀ s check, (r.compile s).result = .ok check → ∀ v, CallsStop check v) := by
  constructor
  · intro check composed
    exact callsStop_of_stopsAtFirst composed.stopsAtFirst
  · intro r keeps s check compiled
    exact callsStop_of_stopsAtFirst (keeps.compile Check.hereditary_composed.chain s compiled).stopsAtFirst

/-- A validator that asks another place whether a value is the right one. -/
def inquireFactory : Factory := fun argument _ =>
  .done fun v path => (Activity.note (.called "inquire" path v)).bind fun _ =>
    if v.equal argument then .suspended (.done v)
    else .suspended ((Activity.record ((ValidationError.ofMessage "Not on the list").under path)).bind fun _ => .done v)

def inquireRegistry : Registry := Registry.builtin.register "inquire" inquireFactory

theorem keeps_inquireRegistry : inquireRegistry.Keeps (Check.Composed Check.Part) := by
  refine Check.hereditary_composed.keeps_builtin.register fun argument context _ _ check made => ?_
  cases made
  refine .custom (@Check.Part.instrumented "inquire" _ fun v path => ⟨_, ?_, rfl⟩)
  split
  · exact .suspended (.done v)
  · exact .suspended (.record _ (.done v))

/-- A table for a guest and some company. -/
def tableSpec : Spec := ⟨[("schema", .object [
  ("wine", .object [("inquire", .string "red")]),
  ("guest", .object [("inquire", .string "Ada"), ("required", .bool true)]),
  ("company", .object [("def", .object []), ("schema", .object [
    ("left", .object [("inquire", .string "Bo")]),
    ("right", .object [("inquire", .string "Cy"), ("type", .string "string")])])])])], false, none⟩

def tableInput : Value := .object [
  ("company", .object [("left", .string "Di"), ("right", .string "Cy")]),
  ("guest", .string "Ada"),
  ("wine", .string "white")]

/-- Nobody asks who sits on the right once the left seat is wrong, if the first error is enough. -/
theorem table_calls_stop : ∃ check, (inquireRegistry.compile tableSpec).result = .ok check ∧
    check.calls .failFast tableInput =
      [("inquire", ".guest", .string "Ada"), ("inquire", ".company.left", .string "Di")] ∧
    check.calls .collectAll tableInput =
      [("inquire", ".guest", .string "Ada"), ("inquire", ".company.left", .string "Di"),
        ("inquire", ".company.right", .string "Cy"), ("inquire", ".wine", .string "white")] := by
  have stops := calls_stop_at_first_error.2 inquireRegistry keeps_inquireRegistry tableSpec _ rfl tableInput
  exact ⟨_, rfl, stops.exact.trans rfl, rfl⟩

end Validate

end Conform
