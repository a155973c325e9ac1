import Conform.Error.Spec
import Conform.Error.Validation
import Conform.Json.Data

/-!
# Errors and kinds from documents

A record may list its declared fields in any order. A declared field that stands twice is refused. A member
that is not declared is passed over by most records, whatever it holds, and is an extra field of an error.
-/

namespace Conform

namespace Json

def string? : Json → Option String
  | .string s => some s
  | _ => none

def under (name : String) (members : List (String × Json)) : List Json :=
  (members.filter (·.1 == name)).map (·.2)

def declared? (name : String) (members : List (String × Json)) : Option Json :=
  match under name members with
  | [j] => some j
  | _ => none

end Json

/-- The kind that a document names: by a string, or by the one member of an object that holds null. -/
def Kind.ofJson? : Json → Option Kind
  | .string s => Kind.ofTag? s
  | .object [(s, .null)] => Kind.ofTag? s
  | _ => none

/-- The path of an error, empty if it is not given. -/
def ValidationError.pathOfMembers? (members : List (String × Json)) : Option String :=
  match Json.under "path" members with
  | [] => some ""
  | [j] => j.string?
  | _ => none

/-- The error that an object describes, what is not declared being its extra fields. -/
def ValidationError.ofJson? : Json → Option ValidationError
  | .object members => do
    let message ← (← Json.declared? "message" members).string?
    let path ← ValidationError.pathOfMembers? members
    match Value.ofJsonMembers (members.filter fun m => m.1 ∉ reservedKeys) with
    | .ok fields => some ⟨message, path, Table.ofList fields⟩
    | .error _ => none
  | _ => none

def ValidationErrors.ofItems? : Json → Option ValidationErrors
  | .array items => (items.mapM ValidationError.ofJson?).map (⟨·⟩)
  | _ => none

/-- The errors that an object names, or that are the one item of an array. -/
def ValidationErrors.ofJson? : Json → Option ValidationErrors
  | .object members => do ValidationErrors.ofItems? (← Json.declared? "errors" members)
  | .array [items] => ValidationErrors.ofItems? items
  | _ => none

/-- The parts of a refused argument, by name or in order. -/
def SpecError.argumentOfJson? : Json → Option SpecError
  | .object members => do
    let validator ← (← Json.declared? "validator" members).string?
    let reason ← (← Json.declared? "reason" members).string?
    some (.invalidArgument validator reason)
  | .array [.string validator, .string reason] => some (.invalidArgument validator reason)
  | _ => none

def SpecError.ofJson? : Json → Option SpecError
  | .object [(tag, j)] =>
    if tag = "UnknownValidator" then j.string?.map .unknownValidator
    else if tag = "UnknownType" then j.string?.map .unknownType
    else if tag = "InvalidSpec" then j.string?.map .invalidSpec
    else if tag = "InvalidArgument" then SpecError.argumentOfJson? j
    else none
  | _ => none

def Json.readAs? {α : Type} (read : Json → Option α) (t : List Char) : Option α :=
  match Json.ofText .record t with
  | .ok j => read j
  | .error _ => none

end Conform
