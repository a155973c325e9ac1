import Conform.Check

/-!
# Validation

A run gives a check one value and a log of its own. `ok` runs under the fail-fast policy and answers with the
first error, `all` collects errors and answers with the list. Both answer with the checked value when there
is no error.
-/

namespace Conform

/-- A check run on a value in a new log: how it ended, and what stands in the journal. -/
def Check.start (check : Check) (policy : Policy) (value : Value) : Outcome Value × Journal :=
  (check value "").run policy Journal.empty

namespace Validate

def haltedMessage : String := "Validation error"

/-- The answer of a fail-fast run by its end and the errors in its log. -/
def okAnswer : Outcome Value → List ValidationError → Except ValidationError Value
  | _, e :: _ => .error e
  | .done value, [] => .ok value
  | .halted, [] => .error (ValidationError.ofMessage haltedMessage)

/-- The answer of a collecting run by its end and the errors in its log. -/
def allAnswer : Outcome Value → List ValidationError → Except ValidationErrors Value
  | .done value, [] => .ok value
  | _, errors => .error ⟨errors⟩

def closing : Policy → Outcome Value → List ValidationError → List Event
  | .failFast, _, e :: _ => [.failedAt e.path e.message]
  | .failFast, .halted, [] => []
  | .collectAll, .halted, [] => [.failedWith 0]
  | .collectAll, _, e :: errors => [.failedWith (e :: errors).length]
  | _, .done _, [] => [.passed]

/-- The first error in a value, or the value that takes its place. -/
def ok (check : Check) (value : Value) : Except ValidationError Value :=
  let (outcome, journal) := check.start .failFast value
  okAnswer outcome journal.errors

/-- All errors in a value, or the value that takes its place. -/
def all (check : Check) (value : Value) : Except ValidationErrors Value :=
  let (outcome, journal) := check.start .collectAll value
  allAnswer outcome journal.errors

def events (policy : Policy) (check : Check) (value : Value) : List Event :=
  let (outcome, journal) := check.start policy value
  journal.events ++ closing policy outcome journal.errors

end Validate

end Conform
