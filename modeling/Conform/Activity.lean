import Conform.Event

/-!
# Activities

An activity is what a check does with the log that it is given: it puts questions to the log, may suspend,
and ends with a result or halts. It is a tree of questions, one branch for each answer, so nothing an
activity does depends on anything but the answers. `run` answers from a journal under a policy;
`run_bind` says that running two activities one after the other is running the first and then the second.
-/

namespace Conform

/-- How a log takes errors: a fail-fast log asks for a halt on each, a collecting one never does. -/
inductive Policy where
  | failFast
  | collectAll
deriving DecidableEq

/-- What a log answers when an error is recorded. -/
inductive Signal where
  | proceed
  | halt
deriving DecidableEq

def Policy.signal : Policy → Signal
  | failFast => .halt
  | collectAll => .proceed

inductive Query where
  | record (e : ValidationError)
  | count
  | first
  | take
  | policy
  | note (e : Event)

def Query.Answer : Query → Type
  | record _ => Signal
  | count => Nat
  | first => Option ValidationError
  | take => List ValidationError
  | policy => Policy
  | note _ => Unit

inductive Activity (α : Type) where
  | done (a : α)
  /-- Stop without a result, and all that would come after as well. -/
  | halted
  | suspended (rest : Activity α)
  | ask (q : Query) (next : q.Answer → Activity α)

namespace Activity

variable {α β : Type}

/-- One activity, and then another by the result of the first. -/
def bind : Activity α → (α → Activity β) → Activity β
  | done a, k => k a
  | halted, _ => halted
  | suspended rest, k => suspended (rest.bind k)
  | ask q next, k => ask q fun answer => (next answer).bind k

instance : Monad Activity where
  pure := done
  bind := bind

def query (q : Query) : Activity q.Answer := ask q done

def attempt : Activity α → Activity (Option α)
  | done a => done (some a)
  | halted => done none
  | suspended rest => suspended rest.attempt
  | ask q next => ask q fun answer => (next answer).attempt

def suspend : Nat → Activity Unit
  | 0 => done ()
  | n + 1 => suspended (suspend n)

def heed : Signal → Activity Unit
  | .proceed => done ()
  | .halt => halted

def record (e : ValidationError) : Activity Unit := bind (query (.record e)) heed

def note (e : Event) : Activity Unit := query (.note e)

def noteAll : List Event → Activity Unit
  | [] => done ()
  | e :: events => bind (note e) fun _ => noteAll events

end Activity

inductive Outcome (α : Type) where
  | done (a : α)
  | halted
deriving DecidableEq

structure Journal where
  errors : List ValidationError
  events : List Event

namespace Journal

/-- The journal of a log that is new. -/
def empty : Journal := ⟨[], []⟩

def noted (j : Journal) (e : Event) : Journal := { j with events := j.events ++ [e] }

/-- The answer to a question under a policy, and the journal after it. -/
def answer (policy : Policy) (j : Journal) : (q : Query) → q.Answer × Journal
  | .record e => (policy.signal, ⟨j.errors ++ [e], j.events ++ [.recorded e.path e.message]⟩)
  | .count => (j.errors.length, j)
  | .first => (j.errors.head?, j)
  | .take => (j.errors, { j with errors := [] })
  | .policy => (policy, j)
  | .note e => ((), j.noted e)

end Journal

namespace Activity

variable {α β : Type}

/-- An activity to its end, resumed at once whenever it suspends. -/
def run (policy : Policy) : Activity α → Journal → Outcome α × Journal
  | done a, j => (.done a, j)
  | halted, j => (.halted, j)
  | suspended rest, j => rest.run policy j
  | ask q next, j => (next (j.answer policy q).1).run policy (j.answer policy q).2

@[simp] theorem pure_eq (a : α) : (pure a : Activity α) = done a := rfl

@[simp] theorem bind_eq (m : Activity α) (k : α → Activity β) : m >>= k = m.bind k := rfl

theorem run_query (policy : Policy) (q : Query) (j : Journal) :
    (query q).run policy j = (.done (j.answer policy q).1, (j.answer policy q).2) := rfl

theorem run_record_collectAll (e : ValidationError) (j : Journal) :
    (record e).run .collectAll j =
      (.done (), ⟨j.errors ++ [e], j.events ++ [.recorded e.path e.message]⟩) := rfl

theorem run_record_failFast (e : ValidationError) (j : Journal) :
    (record e).run .failFast j =
      (.halted, ⟨j.errors ++ [e], j.events ++ [.recorded e.path e.message]⟩) := rfl

theorem run_note (policy : Policy) (e : Event) (j : Journal) :
    (note e).run policy j = (.done (), j.noted e) := rfl

theorem run_suspend (policy : Policy) (n : Nat) (j : Journal) :
    (suspend n).run policy j = (.done (), j) := by
  induction n with
  | zero => rfl
  | succ n ih => exact ih

theorem bind_done (m : Activity α) : m.bind done = m := by
  induction m with
  | done a => rfl
  | halted => rfl
  | suspended rest ih => rw [bind, ih]
  | ask q next ih => rw [bind]; congr 1; funext answer; exact ih answer

theorem bind_assoc {γ : Type} (m : Activity α) (k : α → Activity β) (l : β → Activity γ) :
    (m.bind k).bind l = m.bind fun a => (k a).bind l := by
  induction m with
  | done a => rfl
  | halted => rfl
  | suspended rest ih => simp only [bind, ih]
  | ask q next ih => simp only [bind]; congr 1; funext answer; exact ih answer

theorem run_bind (policy : Policy) (m : Activity α) (k : α → Activity β) (j : Journal) :
    (m.bind k).run policy j =
      match m.run policy j with
      | (.done a, j') => (k a).run policy j'
      | (.halted, j') => (.halted, j') := by
  induction m generalizing j with
  | done a => rfl
  | halted => rfl
  | suspended rest ih => simp only [bind, run, ih]
  | ask q next ih => simp only [bind, run, ih]

theorem run_attempt (policy : Policy) (m : Activity α) (j : Journal) :
    m.attempt.run policy j =
      match m.run policy j with
      | (.done a, j') => (.done (some a), j')
      | (.halted, j') => (.done none, j') := by
  induction m generalizing j with
  | done a => rfl
  | halted => rfl
  | suspended rest ih => simp only [attempt, run, ih]
  | ask q next ih => simp only [attempt, run, ih]

end Activity

end Conform
