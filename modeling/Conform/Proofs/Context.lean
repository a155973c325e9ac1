import Conform.LogBook
import Conform.Proofs.Agreement

/-!
# Checks and their context

A check sees its value, and nothing of where the value stands or of what else was found. `Located` says so of what
is done at a path, under each policy for itself, and is handed on by sequencing. A chain does count the errors of the
whole log, but only to compare two counts, and what stood in the log before is in both (`settle_chain_cons`).
-/

namespace Conform

/-- Whatever stands in its log and wherever its value stands, a check ends as it does in a new log, and adds the errors
that it records there, their paths put under its own. -/
def Check.ContextFree (check : Check) : Prop :=
  ∀ policy v path (j : Journal),
    ((check v path).run policy j).1 = (check.start policy v).1 ∧
    ((check v path).run policy j).2.errors = j.errors ++ (check.start policy v).2.errors.map (·.under path)

namespace Activity

variable {α β : Type}

/-- What is done at a path ends in the same way at every path and in every log, and adds the same errors, their paths
put under that path. -/
def Located (m : String → Activity α) : Prop :=
  ∀ policy, ∃ (outcome : Outcome α) (added : List ValidationError), ∀ path errors,
    (m path).settle policy errors = (outcome, errors ++ added.map (·.under path))

theorem located_done (a : α) : Located fun _ => done a :=
  fun _ => ⟨.done a, [], fun _ _ => by simp⟩

theorem located_note (e : String → Event) : Located fun path => note (e path) :=
  fun _ => ⟨.done (), [], fun _ _ => by simp⟩

theorem located_record (e : ValidationError) : Located fun path => record (e.under path) := by
  intro policy
  cases policy with
  | failFast => exact ⟨.halted, [e], fun _ _ => rfl⟩
  | collectAll => exact ⟨.done (), [e], fun _ _ => rfl⟩

theorem Located.bind {m : String → Activity α} {k : α → String → Activity β} (first : Located m)
    (second : ∀ a, Located (k a)) : Located fun path => (m path).bind fun a => k a path := by
  intro policy
  obtain ⟨outcome, added, settled⟩ := first policy
  cases outcome with
  | done a =>
    obtain ⟨final, later, rest⟩ := second a policy
    refine ⟨final, added ++ later, fun path errors => ?_⟩
    rw [settle_bind, settled]
    simp only [rest, List.map_append, List.append_assoc]
  | halted =>
    refine ⟨.halted, added, fun path errors => ?_⟩
    rw [settle_bind, settled]

theorem Located.within {m : String → Activity α} (located : Located m) (step : String) :
    Located fun path => m (path ++ step) := by
  intro policy
  obtain ⟨outcome, added, settled⟩ := located policy
  refine ⟨outcome, added.map (·.under step), fun path errors => ?_⟩
  rw [settled, ValidationError.map_under_map_under]

theorem located_refuse (message : String) : Located (Check.refuse message) :=
  (located_record (.ofMessage message)).bind fun _ => located_done _

end Activity

open Activity

namespace Check

theorem contextFree_iff {check : Check} : check.ContextFree ↔ ∀ v, Located (check v) := by
  have started : ∀ policy v, (check v "").settle policy [] =
      ((check.start policy v).1, (check.start policy v).2.errors) :=
    fun policy v => settle_eq policy (check v "") Journal.empty
  constructor
  · intro free v policy
    refine ⟨(check.start policy v).1, (check.start policy v).2.errors, fun path errors => ?_⟩
    obtain ⟨outcome, added⟩ := free policy v path ⟨errors, []⟩
    rw [settle_eq policy (check v path) ⟨errors, []⟩, outcome, added]
  · intro located policy v path j
    obtain ⟨outcome, added, settled⟩ := located v policy
    have new := started policy v
    rw [settled] at new
    simp only [ValidationError.under_empty, List.map_id', List.nil_append, Prod.mk.injEq] at new
    have here := settle_eq policy (check v path) j
    rw [settled, Prod.mk.injEq] at here
    rw [← new.1, ← new.2]
    exact ⟨here.1.symm, here.2.symm⟩

theorem run_chain_cons (policy : Policy) (step : Step) (steps : List Step) (v : Value) (path : String) (j : Journal) :
    (chain (step :: steps) v path).run policy j =
      match (step.check v path).run policy j with
      | (.done w, later) =>
        if j.errors.length < later.errors.length then (.done w, later.noted (.stepFailed step.name path))
        else (chain steps w path).run policy later
      | (.halted, later) => (.halted, later) := by
  have counted : (chain (step :: steps) v path).run policy j =
      ((step.check v path).bind fun w => (query .count).bind fun (after : Nat) =>
        if j.errors.length < after then (note (.stepFailed step.name path)).bind fun _ => done w
        else chain steps w path).run policy j := rfl
  rw [counted, run_bind]
  rcases (step.check v path).run policy j with ⟨w | _, later⟩
  · change (if j.errors.length < later.errors.length then (note (.stepFailed step.name path)).bind fun _ => done w
      else chain steps w path).run policy later = if _ then _ else _
    split <;> rfl
  · rfl

theorem settle_chain_cons (policy : Policy) (step : Step) (steps : List Step) (v : Value) (path : String)
    (errors : List ValidationError) :
    (chain (step :: steps) v path).settle policy errors =
      match (step.check v path).settle policy errors with
      | (.done w, later) =>
        if errors.length < later.length then (.done w, later) else (chain steps w path).settle policy later
      | (.halted, later) => (.halted, later) := by
  rw [settle_eq policy (chain (step :: steps) v path) ⟨errors, []⟩, settle_eq policy (step.check v path) ⟨errors, []⟩,
    run_chain_cons]
  rcases (step.check v path).run policy ⟨errors, []⟩ with ⟨w | _, later⟩
  · dsimp only
    split
    · rfl
    · exact (settle_eq policy (chain steps w path) later).symm
  · rfl

theorem located_chain {steps : List Step} (located : ∀ step ∈ steps, ∀ v, Located (step.check v)) (v : Value) :
    Located (chain steps v) := by
  induction steps generalizing v with
  | nil => exact located_done v
  | cons step steps ih =>
    intro policy
    obtain ⟨outcome, added, settled⟩ := located step List.mem_cons_self v policy
    cases outcome with
    | halted =>
      refine ⟨.halted, added, fun path errors => ?_⟩
      rw [settle_chain_cons, settled]
    | done w =>
      have rest := ih (fun other member => located other (List.mem_cons_of_mem _ member)) w policy
      obtain ⟨final, later, settledRest⟩ := rest
      -- Whether the count has grown is told by the errors of the step alone.
      cases added with
      | nil =>
        refine ⟨final, later, fun path errors => ?_⟩
        rw [settle_chain_cons, settled]
        simp [settledRest]
      | cons e added =>
        refine ⟨.done w, e :: added, fun path errors => ?_⟩
        rw [settle_chain_cons, settled]
        simp

theorem located_guarded {check : Check} (nullable : Bool) (default : Option Value)
    (located : ∀ v, Located (check v)) (v : Value) : Located (guarded nullable default check v) := by
  unfold guarded onNull
  cases v.isNull
  · exact located v
  · cases nullable
    · cases default with
      | none => exact located_refuse nullMessage
      | some d => exact located_done d
    · exact located_done Value.null

end Check

theorem LeafType.located_check (type : LeafType) (v : Value) : Located (type.check v) := by
  unfold check
  cases type.coerce? v with
  | some w => exact located_done w
  | none => exact located_refuse type.message

theorem Field.located_visit {f : Field} (located : ∀ v, Located (f.check v)) (input : Table Value) :
    Located (f.visit input) := by
  unfold visit
  cases f.given? input with
  | some v => exact ((located v).within f.step).bind fun w => located_done (some w)
  | none =>
    cases f.kind with
    | required => exact (located_record _).bind fun _ => located_done none
    | withDefault d => exact located_done (some d)
    | optional => exact located_done none

namespace Schema

theorem located_visitAll {fields : List Field} (located : ∀ f ∈ fields, ∀ v, Located (f.check v))
    (input : Table Value) : Located (visitAll fields input) := by
  induction fields with
  | nil => exact located_done []
  | cons f fields ih =>
    have first := Field.located_visit (located f List.mem_cons_self) input
    have rest := ih fun other member => located other (List.mem_cons_of_mem _ member)
    exact first.bind fun value => rest.bind fun entries => located_done (f.entry value ++ entries)

theorem located_check {fields : List Field} (located : ∀ f ∈ fields, ∀ v, Located (f.check v)) (v : Value) :
    Located (check fields v) := by
  cases v with
  | object input =>
    have visited := located_visitAll (fun f member => located f (mem_ordered.mp member)) input
    have dropped : Located fun path => noteDropped path (undeclared fields input) := by
      unfold noteDropped
      split
      · exact located_done ()
      · exact located_note fun path => .droppedKeys path (undeclared fields input)
    exact visited.bind fun entries => dropped.bind fun _ => located_done (Value.object entries)
  | _ => exact located_refuse "Not an object"

end Schema

/-! ### Built-in checks and others -/

theorem hereditary_contextFree : Check.Hereditary Check.ContextFree where
  leaf := fun type => Check.contextFree_iff.mpr type.located_check
  identity := Check.contextFree_iff.mpr located_done
  chain := fun nullable default _ inner => Check.contextFree_iff.mpr
    (Check.located_guarded nullable default
      (Check.located_chain fun step member => Check.contextFree_iff.mp (inner step member)))
  schema := fun _ inner => Check.contextFree_iff.mpr
    (Schema.located_check fun f member => Check.contextFree_iff.mp (inner f member))

/-- Through a scope of a log book, a check adds its errors to the log of the scope, and no other log changes. -/
theorem Check.ContextFree.run_scope {check : Check} (free : check.ContextFree) (v : Value) {b : LogBook} {s : Scope}
    (present : s.log < b.logs.length) :
    (b.run s (check v s.path)).1 = (check.start (b.log s).policy v).1 ∧
    (b.run s (check v s.path)).2.errors s =
      b.errors s ++ (check.start (b.log s).policy v).2.errors.map (·.under s.path) ∧
    ∀ t : Scope, t.log ≠ s.log → (b.run s (check v s.path)).2.log t = b.log t := by
  obtain ⟨outcome, errors⟩ := free (b.log s).policy v s.path ⟨(b.log s).errors, b.events⟩
  refine ⟨outcome, ?_, ?_⟩
  · simp only [LogBook.run, LogBook.errors, LogBook.log, List.getD_eq_getElem?_getD] at errors ⊢
    rw [List.getElem?_set_self present]
    exact errors
  · intro t other
    simp only [LogBook.run, LogBook.log, List.getD_eq_getElem?_getD]
    rw [List.getElem?_set_ne other.symm]

/-- Checks do not see their context: neither those of built-in specs, nor those that chains and schemas make of checks
that do not, nor those of specs with custom validators that keep to it; and so it is at every scope of a log book. -/
theorem Check.blind_to_context :
    (∀ s check, (Registry.builtin.compile s).result = .ok check → check.ContextFree) ∧
    (∀ r : Registry, r.Keeps ContextFree → ∀ s check, (r.compile s).result = .ok check → check.ContextFree) ∧
    (∀ nullable default steps, (∀ step ∈ steps, (Step.check step).ContextFree) →
      (chain steps).ContextFree ∧ (guarded nullable default (chain steps)).ContextFree) ∧
    (∀ fields, (∀ f ∈ fields, (Field.check f).ContextFree) → (Schema.check fields).ContextFree) ∧
    (∀ check : Check, check.ContextFree → ∀ v (b : LogBook) (s : Scope), s.log < b.logs.length →
      (b.run s (check v s.path)).1 = (check.start (b.log s).policy v).1 ∧
      (b.run s (check v s.path)).2.errors s =
        b.errors s ++ (check.start (b.log s).policy v).2.errors.map (·.under s.path) ∧
      ∀ t : Scope, t.log ≠ s.log → (b.run s (check v s.path)).2.log t = b.log t) := by
  refine ⟨fun s check => hereditary_contextFree.compile_builtin s, ?_, ?_, hereditary_contextFree.schema, ?_⟩
  · intro r keeps s check compiled
    exact keeps.compile hereditary_contextFree.chain s compiled
  · intro nullable default steps inner
    refine ⟨?_, hereditary_contextFree.chain nullable default steps inner⟩
    exact contextFree_iff.mpr (located_chain fun step member => contextFree_iff.mp (inner step member))
  · intro check free v b s present
    exact free.run_scope v present

/-- A validator of its own: it records its argument as an error, and goes on whatever the log says. -/
def noticeFactory : Factory := fun argument _ =>
  .done fun v path => (query (.record ((ValidationError.ofMessage argument.text).under path))).bind fun _ => done v

theorem keeps_noticeFactory : noticeFactory.Keeps Check.ContextFree := by
  intro argument context _ _ check made
  cases made
  refine Check.contextFree_iff.mpr fun v policy => ?_
  exact ⟨.done v, [.ofMessage argument.text], fun _ _ => rfl⟩

def noticeRegistry : Registry := Registry.builtin.register "notice" noticeFactory

theorem keeps_noticeRegistry : noticeRegistry.Keeps Check.ContextFree :=
  hereditary_contextFree.keeps_builtin.register keeps_noticeFactory

/-- A reading with a remark on its unit and a count. -/
def readingSpec : Spec := ⟨[("schema", .object [
  ("unit", .object [("notice", .string "Unit is deprecated"), ("type", .string "array")]),
  ("count", .object [("type", .string "number")])])], false, none⟩

def readingInput : Value := .object [("count", .string "many"), ("unit", .string "inch")]

/-- Wherever the reading stands and whatever was found before, a fail-fast run goes on after the remark, and halts at the
count. -/
theorem reading_blind : ∃ check, (noticeRegistry.compile readingSpec).result = .ok check ∧
    ∀ path (j : Journal), ((check readingInput path).run .failFast j).1 = .halted ∧
      ((check readingInput path).run .failFast j).2.errors =
        j.errors ++ [⟨"Unit is deprecated", path ++ ".unit", []⟩, ⟨"Not a number", path ++ ".count", []⟩] := by
  refine ⟨_, rfl, fun path j => ?_⟩
  exact Check.blind_to_context.2.1 noticeRegistry keeps_noticeRegistry readingSpec _ rfl .failFast readingInput path j

end Conform
