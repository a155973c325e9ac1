import Conform.Binary64.Rounding
import Conform.Instant
import Conform.Table

/-!
# Values

Plain data: null, booleans, numbers, strings, dates, arrays and objects. An object lists its fields in
order; `Distinct` says that no object at any depth names a field twice. `equal` is the equality of data,
which minds neither the order of fields nor the sign of zero.
-/

namespace Conform

/-- Plain data. Null also stands for what is absent. -/
inductive Value where
  | null
  | bool (b : Bool)
  | number (n : Binary64)
  | string (s : String)
  | date (d : Instant)
  | array (items : List Value)
  | object (fields : List (String × Value))

inductive Kind where
  | null
  | bool
  | number
  | string
  | date
  | array
  | object
deriving DecidableEq

namespace Kind

def all : List Kind := [.null, .bool, .number, .string, .date, .array, .object]

def name : Kind → String
  | null => "null"
  | bool => "boolean"
  | number => "number"
  | string => "string"
  | date => "date"
  | array => "array"
  | object => "object"

def tag : Kind → String
  | bool => "bool"
  | kind => kind.name

def ofTag? (s : String) : Option Kind := all.find? (·.tag == s)

theorem ofTag?_tag (k : Kind) : ofTag? k.tag = some k := by cases k <;> decide

end Kind

namespace Value

instance : Inhabited Value := ⟨null⟩

def ofInt (n : Int) : Value := number (Binary64.ofInt n)

def ofOption (v : Option Value) : Value := v.getD null

def kind : Value → Kind
  | null => .null
  | bool _ => .bool
  | number _ => .number
  | string _ => .string
  | date _ => .date
  | array _ => .array
  | object _ => .object

def isNull : Value → Bool
  | null => true
  | _ => false

/-- A value that is there: null counts as absent. -/
def present? (v : Value) : Option Value := if v.isNull then none else some v

/-- Truth in the loose sense that flags have: null, false, the zeros, what is not a number and the empty
string are false. -/
def truthy : Value → Bool
  | null => false
  | bool b => b
  | number n => !n.isZero && n != .nan
  | string s => s != ""
  | date _ | array _ | object _ => true

def bool? : Value → Option Bool
  | bool b => some b
  | _ => none

def number? : Value → Option Binary64
  | number n => some n
  | _ => none

def string? : Value → Option String
  | string s => some s
  | _ => none

def date? : Value → Option Instant
  | date d => some d
  | _ => none

def array? : Value → Option (List Value)
  | array items => some items
  | _ => none

def object? : Value → Option (Table Value)
  | object fields => some fields
  | _ => none

/-- The field of an object under a key. What is not an object has no fields. -/
def get? (v : Value) (key : String) : Option Value :=
  match v with
  | object fields => Table.get? fields key
  | _ => none

/-- The date a number of milliseconds after the epoch, its fraction dropped. -/
def dateOfMillis? (millis : Binary64) : Option Value :=
  match millis.truncate? with
  | some n => (Instant.ofMillis? n).map date
  | none => none

mutual

/-- How many containers nest in a value. -/
def depth : Value → Nat
  | array items => depthItems items + 1
  | object fields => depthFields fields + 1
  | _ => 0

def depthItems : List Value → Nat
  | [] => 0
  | v :: items => max (depth v) (depthItems items)

def depthFields : List (String × Value) → Nat
  | [] => 0
  | (_, v) :: fields => max (depth v) (depthFields fields)

end

mutual

def equal : Value → Value → Bool
  | null, null => true
  | bool a, bool b => a == b
  | number a, number b => a.equal b
  | string a, string b => a == b
  | date a, date b => decide (a = b)
  | array a, array b => equalItems a b
  | object a, object b => a.length == b.length && equalFields a b
  | _, _ => false

def equalItems : List Value → List Value → Bool
  | [], [] => true
  | a :: as, b :: bs => equal a b && equalItems as bs
  | _, _ => false

def equalFields : List (String × Value) → Table Value → Bool
  | [], _ => true
  | (key, a) :: fields, others =>
    (match Table.get? others key with
      | some b => equal a b
      | none => false) && equalFields fields others

end

mutual

/-- No object in a value names a field twice. -/
def Distinct : Value → Prop
  | array items => DistinctItems items
  | object fields => Table.Distinct fields ∧ DistinctFields fields
  | _ => True

def DistinctItems : List Value → Prop
  | [] => True
  | v :: items => Distinct v ∧ DistinctItems items

def DistinctFields : List (String × Value) → Prop
  | [] => True
  | (_, v) :: fields => Distinct v ∧ DistinctFields fields

end

theorem depth_le_depthFields {fields : List (String × Value)} {key : String} {v : Value}
    (h : (key, v) ∈ fields) : v.depth ≤ depthFields fields := by
  induction fields with
  | nil => simp at h
  | cons e fields ih =>
    obtain ⟨k, w⟩ := e
    rw [depthFields]
    rcases List.mem_cons.mp h with h | h
    · cases h; omega
    · have := ih h; omega

theorem depth_field_lt {fields : List (String × Value)} {key : String} {v : Value}
    (h : (key, v) ∈ fields) : v.depth < (object fields).depth := by
  have := depth_le_depthFields h
  simp only [depth]; omega

theorem depth_get?_lt {v w : Value} {key : String} (h : v.get? key = some w) : w.depth < v.depth := by
  cases v <;> simp only [get?, reduceCtorEq] at h
  exact depth_field_lt (Table.mem_of_get? h)

end Value

end Conform
