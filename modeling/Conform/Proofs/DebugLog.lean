import Conform.Proofs.Recordings

/-!
# The debug log

The debug lines of a run tell what the run answers. An activity is candid if it adds to the debug events of its log one
event for each error that it adds to the list, in the same order (`Activity.Candid`). Sequencing hands this on, and what
chains and schemas note besides is only traced. So the debug lines of a run are one for each of its errors, and then the
line of its end (`Validate.debugLines_eq`).
-/

namespace Conform

namespace Event

/-- What is noted when an error is recorded. -/
def ofError (e : ValidationError) : Event := .recorded e.path e.message

/-- The events of the debug level, in order of time. -/
def debug (events : List Event) : List Event := events.filter fun e => e.level? = some .debug

theorem debug_append (events later : List Event) : debug (events ++ later) = debug events ++ debug later :=
  List.filter_append events later

theorem debug_eq_self {events : List Event} (known : ∀ e ∈ events, e.level? = some .debug) : debug events = events :=
  List.filter_eq_self.mpr fun e member => decide_eq_true (known e member)

theorem debug_noted {e : Event} (other : e.level? ≠ some .debug) (j : Journal) :
    debug (j.noted e).events = debug j.events := by
  simp [Journal.noted, debug, other]

theorem level?_closing (policy : Policy) (outcome : Outcome Value) (errors : List ValidationError) :
    ∀ e ∈ Validate.closing policy outcome errors, e.level? = some .debug := by
  cases policy <;> cases outcome <;> cases errors <;> simp [Validate.closing, level?]

end Event

namespace Activity

variable {α β : Type}

/-- To the debug events of its log, an activity adds one for each error that it adds to the list, in the same order. -/
def Candid (m : Activity α) : Prop :=
  ∀ policy (j : Journal), ∃ added,
    (m.run policy j).2.errors = j.errors ++ added ∧
    Event.debug (m.run policy j).2.events = Event.debug j.events ++ added.map Event.ofError

theorem candid_of_silent {m : Activity α} (silent : ∀ policy (j : Journal),
    (m.run policy j).2.errors = j.errors ∧ Event.debug (m.run policy j).2.events = Event.debug j.events) :
    m.Candid := by
  intro policy j
  obtain ⟨errors, events⟩ := silent policy j
  exact ⟨[], by rw [errors, List.append_nil], by rw [events, List.map_nil, List.append_nil]⟩

theorem candid_done (a : α) : (done a).Candid := candid_of_silent fun _ _ => ⟨rfl, rfl⟩

theorem candid_halted : (halted : Activity α).Candid := candid_of_silent fun _ _ => ⟨rfl, rfl⟩

theorem candid_note {e : Event} (other : e.level? ≠ some .debug) : (note e).Candid :=
  candid_of_silent fun _ j => ⟨rfl, Event.debug_noted other j⟩

theorem Candid.bind {m : Activity α} {k : α → Activity β} (first : m.Candid) (second : ∀ a, (k a).Candid) :
    (m.bind k).Candid := by
  intro policy j
  obtain ⟨added, errors, events⟩ := first policy j
  rw [run_bind]
  rcases ended : m.run policy j with ⟨a | _, later⟩ <;> rw [ended] at errors events
  · obtain ⟨more, laterErrors, laterEvents⟩ := second a policy later
    refine ⟨added ++ more, ?_, ?_⟩
    · rw [laterErrors, errors, List.append_assoc]
    · rw [laterEvents, events, List.map_append, List.append_assoc]
  · exact ⟨added, errors, events⟩

/-- The event is there with the error, also where the log asks for a halt. -/
theorem candid_query (e : ValidationError) : (query (.record e)).Candid :=
  fun _ j => ⟨[e], rfl, Event.debug_append j.events [Event.ofError e]⟩

theorem candid_heed (signal : Signal) : (heed signal).Candid := by
  cases signal with
  | proceed => exact candid_done ()
  | halt => exact candid_halted

theorem candid_record (e : ValidationError) : (record e).Candid := (candid_query e).bind candid_heed

theorem closed_candid : Closed fun _ m => m.Candid where
  done := candid_done
  bind := .bind
  count := candid_of_silent fun _ _ => ⟨rfl, rfl⟩
  note := fun e traced => candid_note (by rw [traced]; decide)
  record := fun e _ => candid_record e

end Activity

namespace Check

def Candid (check : Check) : Prop := ∀ v path, (check v path).Candid

theorem hereditary_candid : Hereditary Candid := Activity.closed_candid.hereditary

theorem Candid.debug_start {check : Check} (candid : check.Candid) (policy : Policy) (v : Value) :
    Event.debug (check.start policy v).2.events = (check.start policy v).2.errors.map Event.ofError := by
  obtain ⟨added, errors, events⟩ := candid v "" policy Journal.empty
  have found : (check.start policy v).2.errors = added := errors
  rw [found]
  exact events

end Check

namespace Validate

/-! ### Lines -/

/-- The lines that a run leaves in the log at the debug level. -/
def debugLines (policy : Policy) (check : Check) (v : Value) : List String :=
  logLines (Event.debug (events policy check v))

def debugLine (text : String) : String := "DEBUG " ++ text

def errorLine (e : ValidationError) : String :=
  debugLine ("validation error at '" ++ e.path ++ "': " ++ e.message)

theorem line?_debug {e : Event} (level : e.level? = some .debug) : e.line? = some (debugLine e.text) := by
  simp [Event.line?, level, Level.name, debugLine]

theorem logLines_debug (events : List Event) :
    logLines (Event.debug events) = (Event.debug events).map fun e => debugLine e.text := by
  rw [logLines, ← List.filterMap_eq_map]
  refine List.filterMap_congr fun e member => line?_debug ?_
  exact of_decide_eq_true (List.mem_filter.mp member).2

theorem debugLines_eq {check : Check} (candid : check.Candid) (policy : Policy) (v : Value) :
    debugLines policy check v = (check.start policy v).2.errors.map errorLine ++
      (closing policy (check.start policy v).1 (check.start policy v).2.errors).map fun e => debugLine e.text := by
  have closed := Event.level?_closing policy (check.start policy v).1 (check.start policy v).2.errors
  have parts : Event.debug (events policy check v) = (check.start policy v).2.errors.map Event.ofError ++
      closing policy (check.start policy v).1 (check.start policy v).2.errors := by
    rw [← candid.debug_start, ← Event.debug_eq_self closed, ← Event.debug_append]
    rfl
  rw [debugLines, logLines_debug, parts, List.map_append, List.map_map]
  rfl

/-! ### What the lines say -/

/-- The debug lines of a collecting run, by its answer. -/
structure AllTold (check : Check) (v : Value) : Prop where
  passes : ∀ w, all check v = .ok w → debugLines .collectAll check v = [debugLine "validation passed"]
  fails : ∀ es, all check v = .error es → debugLines .collectAll check v =
    es.errors.map errorLine ++ [debugLine ("validation failed with " ++ toString es.errors.length ++ " error(s)")]

structure OkTold (check : Check) (v : Value) : Prop where
  passes : ∀ w, ok check v = .ok w → debugLines .failFast check v = [debugLine "validation passed"]
  fails : ∀ e, ok check v = .error e → debugLines .failFast check v =
    [errorLine e, debugLine ("validation failed at '" ++ e.path ++ "': " ++ e.message)]

theorem closing_collectAll {outcome : Outcome Value} {errors : List ValidationError}
    (failed : errors ≠ [] ∨ outcome = .halted) : closing .collectAll outcome errors = [.failedWith errors.length] := by
  cases errors with
  | nil =>
    obtain recorded | rfl := failed
    · exact absurd rfl recorded
    · rfl
  | cons e errors => cases outcome <;> rfl

theorem allTold_of_candid {check : Check} (candid : check.Candid) (v : Value) : AllTold check v where
  passes := by
    intro w passed
    obtain ⟨clean, ended⟩ : (check.start .collectAll v).2.errors = [] ∧ (check.start .collectAll v).1 = .done w :=
      allAnswer_ok_iff.mp passed
    rw [debugLines_eq candid, clean, ended]
    rfl
  fails := by
    intro es failed
    obtain ⟨listed, reason⟩ : es.errors = (check.start .collectAll v).2.errors ∧
        ((check.start .collectAll v).2.errors ≠ [] ∨ (check.start .collectAll v).1 = .halted) :=
      allAnswer_error_iff.mp failed
    rw [debugLines_eq candid, closing_collectAll reason, listed]
    rfl

theorem okTold_of_candid {check : Check} (candid : check.Candid) (agrees : check.Agrees) (v : Value) :
    OkTold check v where
  passes := by
    intro w passed
    obtain ⟨clean, ended⟩ : (check.start .failFast v).2.errors = [] ∧ (check.start .failFast v).1 = .done w :=
      okAnswer_ok_iff.mp passed
    rw [debugLines_eq candid, clean, ended]
    rfl
  fails := by
    intro e failed
    obtain ⟨w, added, yields⟩ := agrees v "" []
    rw [ok_of_yields yields] at failed
    -- The log is cut at the first error, so that there is one line for it and no other.
    have ended : (check.start .failFast v).1 = (Activity.cut w [] added).1 := congrArg Prod.fst yields.failFast
    have errors : (check.start .failFast v).2.errors = (Activity.cut w [] added).2 := congrArg Prod.snd yields.failFast
    cases added with
    | nil => cases failed
    | cons first rest =>
      cases failed
      rw [debugLines_eq candid, errors, ended]
      rfl

/-- The debug log tells what validation answers, for every built-in spec. With custom validators that are candid the log
of a collecting run does so as well; that of a fail-fast run tells of more than the first error if a validator goes on
after it. -/
theorem debug_log_tells_answer :
    (∀ s check, (Registry.builtin.compile s).result = .ok check → ∀ v, AllTold check v ∧ OkTold check v) ∧
    (∀ r : Registry, r.Keeps Check.Candid → ∀ s check, (r.compile s).result = .ok check →
      ∀ v, AllTold check v ∧ (check.Agrees → OkTold check v)) := by
  have custom : ∀ r : Registry, r.Keeps Check.Candid → ∀ s check, (r.compile s).result = .ok check →
      ∀ v, AllTold check v ∧ (check.Agrees → OkTold check v) := by
    intro r keeps s check compiled v
    have candid := keeps.compile Check.hereditary_candid.chain s compiled
    exact ⟨allTold_of_candid candid v, fun agrees => okTold_of_candid candid agrees v⟩
  refine ⟨?_, custom⟩
  intro s check compiled v
  obtain ⟨collecting, failFast⟩ := custom Registry.builtin Check.hereditary_candid.keeps_builtin s check compiled v
  exact ⟨collecting, failFast (hereditary_agrees.compile_builtin s compiled)⟩

theorem candid_noticeRegistry : noticeRegistry.Keeps Check.Candid := by
  refine Check.hereditary_candid.keeps_builtin.register fun argument context _ _ check made => ?_
  cases made
  exact fun v path => (Activity.candid_query _).bind fun _ => Activity.candid_done v

/-- A concert in a hall, with a default for the music. -/
def concertSpec : Spec := ⟨[("schema", .object [
  ("seats", .object [("type", .string "number")]),
  ("music", .object [("def", .array []), ("type", .string "array")]),
  ("hall", .object [("required", .bool true), ("schema", .object [
    ("organ", .object [("type", .string "boolean"), ("required", .bool false)]),
    ("name", .object [("required", .bool true), ("type", .string "string")])])])])], false, none⟩

def concertInput : Value := .object [
  ("hall", .object [("organ", .string "loud"), ("doors", .number (.ofNat 4))]),
  ("seats", .null)]

/-- The lines come in the order in which the fields are looked at. Nothing is said at this level of the doors, which no
spec declares, nor of the organ's other step, which is skipped. A reading has a line for the remark on its unit. -/
theorem concert_told : (∃ check, (Registry.builtin.compile concertSpec).result = .ok check ∧
    debugLines .collectAll check concertInput =
      ["DEBUG validation error at '.hall.name': required, but not given",
        "DEBUG validation error at '.hall.organ': Not a boolean",
        "DEBUG validation error at '.seats': Can't be null",
        "DEBUG validation failed with 3 error(s)"] ∧
    debugLines .failFast check concertInput =
      ["DEBUG validation error at '.hall.name': required, but not given",
        "DEBUG validation failed at '.hall.name': required, but not given"] ∧
    debugLines .collectAll check (.object [("hall", .object [("name", .string "Odeon")])]) =
      ["DEBUG validation passed"]) ∧
    ∃ check, (noticeRegistry.compile readingSpec).result = .ok check ∧
      debugLines .collectAll check readingInput =
        ["DEBUG validation error at '.unit': Unit is deprecated",
          "DEBUG validation error at '.count': Not a number",
          "DEBUG validation failed with 2 error(s)"] := by
  obtain ⟨builtin, custom⟩ := debug_log_tells_answer
  have concert := builtin concertSpec _ rfl
  have reading := custom noticeRegistry candid_noticeRegistry readingSpec _ rfl readingInput
  refine ⟨⟨_, rfl, ?_, ?_, ?_⟩, ⟨_, rfl, ?_⟩⟩
  · exact (concert concertInput).1.fails _ rfl
  · exact (concert concertInput).2.fails _ rfl
  · exact (concert _).1.passes _ rfl
  · exact reading.1.fails _ rfl

end Validate

end Conform
