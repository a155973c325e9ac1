import Conform.Activity

/-!
# Checks

A check takes a value and the path at which it stands, and answers with the value that takes its place.
Checks combine into chains: each step works on the answer of the one before, and the first step during
which the count of errors grows is the last.
-/

namespace Conform

/-- What is done with a value at a path. -/
abbrev Check := (value : Value) → (path : String) → Activity Value

namespace Check

open Activity

def identity : Check := fun value _ => done value

/-- Refuse a value: record an error at its path, and let null take its place. -/
def refuse (message path : String) : Activity Value := do
  record ((ValidationError.ofMessage message).under path)
  done .null

structure Step where
  name : String
  check : Check

/-- The steps in order, up to the first during which errors were recorded. -/
def chain : List Step → Check
  | [], value, _ => done value
  | step :: steps, value, path => do
    let before : Nat ← query .count
    let value ← step.check value path
    let after : Nat ← query .count
    if before < after then
      note (.stepFailed step.name path)
      done value
    else chain steps value path

def nullMessage : String := "Can't be null"

/-- What takes the place of null: null itself if it may stand there, else the default. -/
def onNull (nullable : Bool) (default : Option Value) (path : String) : Activity Value :=
  if nullable then done .null
  else match default with
    | some value => done value
    | none => refuse nullMessage path

/-- A check that null does not reach. -/
def guarded (nullable : Bool) (default : Option Value) (check : Check) : Check := fun value path =>
  if value.isNull then onNull nullable default path else check value path

end Check

end Conform
