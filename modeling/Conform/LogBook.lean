import Conform.Activity

/-!
# Log books

A log book holds the logs of several runs. A log has a policy and errors, and is reached through scopes: a
scope names its log and a path that stands in front of the path of each error recorded through it. All
scopes of one log see the same errors, and no other log does.
-/

namespace Conform

/-- A log: its policy and the errors recorded. -/
structure Log where
  policy : Policy
  errors : List ValidationError

structure Scope where
  log : Nat
  path : String
deriving DecidableEq

def Scope.at (s : Scope) (path : String) : Scope := { s with path := s.path ++ path }

structure LogBook where
  logs : List Log
  events : List Event

namespace LogBook

def empty : LogBook := ⟨[], []⟩

/-- The book with one more log, and the scope of the whole of it. -/
def openLog (b : LogBook) (policy : Policy) : Scope × LogBook :=
  (⟨b.logs.length, ""⟩, { b with logs := b.logs ++ [⟨policy, []⟩] })

/-- The log of a scope. A scope of no log in the book sees an empty one. -/
def log (b : LogBook) (s : Scope) : Log := b.logs.getD s.log ⟨.collectAll, []⟩

/-- An activity run on the log of a scope: how it ended, and the book after it. -/
def run {α : Type} (b : LogBook) (s : Scope) (m : Activity α) : Outcome α × LogBook :=
  let log := b.log s
  let (outcome, journal) := m.run log.policy ⟨log.errors, b.events⟩
  (outcome, ⟨b.logs.set s.log { log with errors := journal.errors }, journal.events⟩)

def ask (b : LogBook) (s : Scope) (q : Query) : q.Answer × LogBook :=
  let log := b.log s
  let (answer, journal) := Journal.answer log.policy ⟨log.errors, b.events⟩ q
  (answer, ⟨b.logs.set s.log { log with errors := journal.errors }, journal.events⟩)

/-- An error recorded through a scope, its path relative to it. -/
def record (b : LogBook) (s : Scope) (e : ValidationError) : Signal × LogBook :=
  b.ask s (.record (e.under s.path))

def errors (b : LogBook) (s : Scope) : List ValidationError := (b.log s).errors

def take (b : LogBook) (s : Scope) : List ValidationError × LogBook := b.ask s .take

def noteAll (b : LogBook) (events : List Event) : LogBook := { b with events := b.events ++ events }

end LogBook

end Conform
