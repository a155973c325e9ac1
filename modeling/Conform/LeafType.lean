import Conform.Binary64.Literal
import Conform.Check
import Conform.Instant.Reader
import Conform.Value.Text

/-!
# Leaf types

The six types that a value can be asked to have. `coerce?` gives the value of the type that stands for a
value, if there is one: strings read as numbers, dates and booleans, and everything reads as a string.
-/

namespace Conform

inductive LeafType where
  | string
  | number
  | date
  | object
  | array
  | boolean
deriving DecidableEq

namespace LeafType

open Conform.Text

def all : List LeafType := [.string, .number, .date, .object, .array, .boolean]

def name : LeafType → String
  | string => "string"
  | number => "number"
  | date => "date"
  | object => "object"
  | array => "array"
  | boolean => "boolean"

def ofName? (s : String) : Option LeafType := all.find? (·.name == s)

def kind : LeafType → Kind
  | string => .string
  | number => .number
  | date => .date
  | object => .object
  | array => .array
  | boolean => .bool

/-- The message for a value that does not stand for one of the type. Every value stands for a string. -/
def message : LeafType → String
  | string => "Not a string"
  | number => "Not a number"
  | date => "Not a date"
  | object => "Not an object"
  | array => "Not an array"
  | boolean => "Not a boolean"

/-! ### Numbers -/

/-- The base that the start of a text announces, and the digits after it. -/
def announcedBase? : List Char → Option (Nat × List Char)
  | '0' :: c :: t =>
    if c = 'x' ∨ c = 'X' then some (16, t)
    else if c = 'o' ∨ c = 'O' then some (8, t)
    else if c = 'b' ∨ c = 'B' then some (2, t)
    else none
  | _ => none

/-- The number that a text stands for: zero if it is blank, an integer of 64 bits if it announces a base, else
a number in decimal. -/
def numberOfText? (t : List Char) : Option Binary64 :=
  let t := trim t
  if t.isEmpty then some (Binary64.zero false)
  else match announcedBase? t with
    | some (base, digits) =>
      (natInBase? base digits).bind fun n => if n < 1 <<< 64 then some (Binary64.ofNat n) else none
    | none => Binary64.ofText? t

def numberOf? : Value → Option Binary64
  | .number n => some n
  | .bool b => some (Binary64.ofNat (if b then 1 else 0))
  | .string s => numberOfText? s.toList
  | .date d => some (Binary64.ofInt d.millis)
  | _ => none

/-! ### Coercion -/

def dateOf? : Value → Option Value
  | .date d => some (.date d)
  | .number millis => Value.dateOfMillis? millis
  | .string s => (Instant.ofText? s.toList).map .date
  | _ => none

def booleanOf? : Value → Option Bool
  | .bool b => some b
  | .string s => if s = "true" then some true else if s = "false" then some false else none
  | _ => none

def coerce? : LeafType → Value → Option Value
  | string, v => some (.string v.text)
  | number, v => (numberOf? v).bind fun n => if n.isFinite then some (.number n) else none
  | date, v => dateOf? v
  | object, .object fields => some (.object fields)
  | object, _ => none
  | array, .array items => some (.array items)
  | array, _ => none
  | boolean, v => (booleanOf? v).map .bool

def check (type : LeafType) : Check := fun value path =>
  match type.coerce? value with
  | some value => .done value
  | none => Check.refuse type.message path

end LeafType

end Conform
