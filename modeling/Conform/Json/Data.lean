import Conform.Binary64.Rounding
import Conform.Json.Reader
import Conform.Value

/-!
# Data from documents

`Value.ofJson` follows the document. `Value.ofFirstMatch?` tries the kinds of value in their declared order
at every place and takes the first that fits. Both keep the first place and the last value of a repeated
name, and neither makes a date of a string, whichever strings are dates to the reader of dates.
-/

namespace Conform.Value

mutual

def ofJson : Json → Except Json.Fault Value
  | .null => .ok null
  | .bool b => .ok (bool b)
  | .integer n => .ok (number (Binary64.ofInt n))
  | .real x => .ok (number x)
  | .string s => .ok (string s)
  | .array items =>
    match ofJsonItems items with
    | .ok values => .ok (array values)
    | .error f => .error f
  | .object members =>
    match ofJsonMembers members with
    | .ok fields => .ok (object (Table.ofList fields))
    | .error f => .error f
  | .beyond f => .error f

def ofJsonItems : List Json → Except Json.Fault (List Value)
  | [] => .ok []
  | j :: items =>
    match ofJson j with
    | .error f => .error f
    | .ok v =>
      match ofJsonItems items with
      | .error f => .error f
      | .ok values => .ok (v :: values)

def ofJsonMembers : List (String × Json) → Except Json.Fault (List (String × Value))
  | [] => .ok []
  | (name, j) :: members =>
    match ofJson j with
    | .error f => .error f
    | .ok v =>
      match ofJsonMembers members with
      | .error f => .error f
      | .ok fields => .ok ((name, v) :: fields)

end

def ofJsonText (t : List Char) : Except Json.Fault Value :=
  match Json.ofText .data t with
  | .ok j => ofJson j
  | .error f => .error f

/-! ### The first kind that fits -/

def fitNull? : Json → Option Value
  | .null => some null
  | _ => none

def fitBool? : Json → Option Value
  | .bool b => some (bool b)
  | _ => none

def fitNumber? : Json → Option Value
  | .integer n => some (number (Binary64.ofInt n))
  | .real x => some (number x)
  | _ => none

def fitString? : Json → Option Value
  | .string s => some (string s)
  | _ => none

section

variable (instant? : String → Option Instant)

def fitDate? : Json → Option Value
  | .string s => (instant? s).map date
  | _ => none

mutual

/-- The value of the first kind, in declared order, that a document fits. -/
def ofFirstMatch? (j : Json) : Option Value :=
  (fitNull? j).or <| (fitBool? j).or <| (fitNumber? j).or <| (fitString? j).or <| (fitDate? instant? j).or <|
    match j with
    | .array items => (firstMatchItems? items).map array
    | .object members => (firstMatchMembers? members).map fun fields => object (Table.ofList fields)
    | _ => none

def firstMatchItems? : List Json → Option (List Value)
  | [] => some []
  | j :: items => do
    let v ← ofFirstMatch? j
    let values ← firstMatchItems? items
    some (v :: values)

def firstMatchMembers? : List (String × Json) → Option (List (String × Value))
  | [] => some []
  | (name, j) :: members => do
    let v ← ofFirstMatch? j
    let fields ← firstMatchMembers? members
    some ((name, v) :: fields)

end

def ofTextByMatch? (t : List Char) : Option Value :=
  match Json.ofText .data t with
  | .ok j => ofFirstMatch? instant? j
  | .error _ => none

end

end Conform.Value
