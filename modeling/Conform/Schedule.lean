import Conform.Validate

/-!
# Runs side by side

Several runs of checks, each with its own log, are resumed in any order until all have ended. A run goes on
until it suspends or ends. Events of all runs stand in one list in the order in which they happened.
-/

namespace Conform

inductive Progress where
  | waiting (rest : Activity Value)
  | ended (outcome : Outcome Value)

/-- A run: its policy, the errors in its log, and how far it has come. -/
structure Run where
  policy : Policy
  errors : List ValidationError
  progress : Progress

def Activity.advance (policy : Policy) : Activity Value → Journal → Progress × Journal
  | .done value, j => (.ended (.done value), j)
  | .halted, j => (.ended .halted, j)
  | .suspended rest, j => (.waiting rest, j)
  | .ask q next, j => (next (j.answer policy q).1).advance policy (j.answer policy q).2

namespace Run

/-- The run of a check on a value, not yet begun. -/
def ofCheck (check : Check) (policy : Policy) (value : Value) : Run := ⟨policy, [], .waiting (check value "")⟩

def outcome? (r : Run) : Option (Outcome Value) :=
  match r.progress with
  | .waiting _ => none
  | .ended outcome => some outcome

def closing (r : Run) : List Event :=
  match r.progress with
  | .waiting _ => []
  | .ended outcome => Validate.closing r.policy outcome r.errors

/-- The run after it was resumed, with the events so far. A run that has ended stays as it is. -/
def resume (r : Run) (events : List Event) : Run × List Event :=
  match r.progress with
  | .ended _ => (r, events)
  | .waiting rest =>
    let (progress, journal) := rest.advance r.policy ⟨r.errors, events⟩
    let r : Run := ⟨r.policy, journal.errors, progress⟩
    (r, journal.events ++ r.closing)

def suspensions (policy : Policy) : Activity Value → Journal → Nat
  | .done _, _ => 0
  | .halted, _ => 0
  | .suspended rest, j => suspensions policy rest j + 1
  | .ask q next, j => suspensions policy (next (j.answer policy q).1) (j.answer policy q).2

def resumptions (r : Run) : Nat :=
  match r.progress with
  | .ended _ => 0
  | .waiting rest => suspensions r.policy rest ⟨r.errors, []⟩ + 1

end Run

namespace Schedule

def round : List Run → List Event → List Run × List Event
  | [], events => ([], events)
  | r :: runs, events =>
    let (r, events) := r.resume events
    let (runs, events) := round runs events
    (r :: runs, events)

def rounds : Nat → List Run → List Event → List Run × List Event
  | 0, runs, events => (runs, events)
  | n + 1, runs, events =>
    let (runs, events) := round runs events
    rounds n runs events

def join (runs : List Run) (events : List Event) : List Run × List Event :=
  rounds ((runs.map Run.resumptions).foldl max 0) runs events

def resumeAt (position : Nat) (runs : List Run) (events : List Event) : List Run × List Event :=
  match runs[position]? with
  | none => (runs, events)
  | some r =>
    let (r, events) := r.resume events
    (runs.set position r, events)

def resumeAll : (order : List Nat) → List Run → List Event → List Run × List Event
  | [], runs, events => (runs, events)
  | position :: order, runs, events =>
    let (runs, events) := resumeAt position runs events
    resumeAll order runs events

end Schedule

end Conform
