import Conform.Error.Validation

/-!
# Events

What happens while specs are compiled and values are checked, as far as the log tells it. `Event.text` words
each line of the log. A check may also leave a note that it was called, which is no line of the log.
-/

namespace Conform

inductive Level where
  | trace
  | debug
  | warn
deriving DecidableEq

def Level.name : Level → String
  | trace => "TRACE"
  | debug => "DEBUG"
  | warn => "WARN"

inductive Event where
  | compiledSpec (validators : List String)
  | compiledSchema (required defaulted optional : Nat)
  | stepFailed (validator path : String)
  | droppedKeys (path : String) (keys : List String)
  | recorded (path message : String)
  | passed
  | failedAt (path message : String)
  | failedWith (count : Nat)
  | registeredValidator (name : String)
  | registeredType (name : String)
  | reservedField (key : String)
  | called (label path : String) (value : Value)

namespace Event

def level? : Event → Option Level
  | compiledSpec _ | compiledSchema _ _ _ | stepFailed _ _ | droppedKeys _ _ => some .trace
  | recorded _ _ | passed | failedAt _ _ | failedWith _ => some .debug
  | registeredValidator _ | registeredType _ => some .debug
  | reservedField _ => some .warn
  | called _ _ _ => none

def listing (names : List String) : String := ", ".intercalate names

def text : Event → String
  | compiledSpec validators => "compiled spec with validators [" ++ listing validators ++ "]"
  | compiledSchema required defaulted optional =>
    "compiled schema: " ++ toString required ++ " required, " ++ toString defaulted ++ " defaulted, " ++
      toString optional ++ " optional"
  | stepFailed validator path =>
    "'" ++ validator ++ "' failed at '" ++ path ++ "', skipping remaining checks"
  | droppedKeys path keys => "dropping undeclared keys at '" ++ path ++ "': " ++ listing keys
  | recorded path message => "validation error at '" ++ path ++ "': " ++ message
  | passed => "validation passed"
  | failedAt path message => "validation failed at '" ++ path ++ "': " ++ message
  | failedWith count => "validation failed with " ++ toString count ++ " error(s)"
  | registeredValidator name => "registering validator '" ++ name ++ "'"
  | registeredType name => "registering type '" ++ name ++ "'"
  | reservedField key => "ignoring reserved error field '" ++ key ++ "'"
  | called label path value => label ++ " called at '" ++ path ++ "' on " ++ value.kind.name

def line? (e : Event) : Option String := e.level?.map fun level => level.name ++ " " ++ e.text

/-- What happens when fields are attached to an error: each reserved key is passed over. -/
def ofFields (fields : List (String × Value)) : List Event :=
  (fields.filter fun f => f.1 ∈ ValidationError.reservedKeys).map fun f => reservedField f.1

end Event

def logLines (events : List Event) : List String := events.filterMap Event.line?

end Conform
