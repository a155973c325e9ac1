import Conform.Error.Spec
import Conform.Value

/-!
# Specs

A spec says how one value is checked: validators with their arguments, in the order in which they run, and
two settings for null, whether it passes and what stands in for it. As data a spec is an object in which two
keys are reserved for the settings.
-/

namespace Conform

structure Spec where
  entries : List (String × Value)
  /-- Whether null passes unchanged. -/
  nullable : Bool
  /-- What stands in for null. -/
  default : Option Value

namespace Spec

def nullableKey : String := "nullable"

def defaultKey : String := "def"

def isReserved (key : String) : Bool := key == nullableKey || key == defaultKey

def empty : Spec := ⟨[], false, none⟩

/-! ### Specs from data -/

/-- The setting under the key `nullable`: null and absence leave it off. -/
def nullableSetting : Option Value → Except SpecError Bool
  | none => .ok false
  | some .null => .ok false
  | some (.bool b) => .ok b
  | some v => .error (.nullableNotBoolean v.kind)

def ofFields (fields : Table Value) : Except SpecError Spec :=
  match nullableSetting (Table.get? fields nullableKey) with
  | .error e => .error e
  | .ok nullable =>
    .ok ⟨fields.filter fun e => !isReserved e.1, nullable, (Table.get? fields defaultKey).bind Value.present?⟩

def ofValue : Value → Except SpecError Spec
  | .object fields => ofFields fields
  | v => .error (.notAnObject v.kind)

/-! ### Specs by parts -/

def withEntry (s : Spec) (validator : String) (argument : Value) : Spec :=
  { s with entries := s.entries ++ [(validator, argument)] }

def withType (s : Spec) (name : String) : Spec := s.withEntry "type" (.string name)

def withRequired (s : Spec) : Spec := s.withEntry "required" (.bool true)

def withNullable (s : Spec) (nullable : Bool) : Spec := { s with nullable }

/-- The spec with another stand-in for null, null itself standing for none. -/
def withDefault (s : Spec) (value : Value) : Spec := { s with default := value.present? }

/-! ### What a spec says -/

def argument? (s : Spec) (validator : String) : Option Value := Table.get? s.entries validator

/-- Whether the value must be there: the argument of `required` is true in the loose sense. -/
def isRequired (s : Spec) : Bool :=
  match s.argument? "required" with
  | some v => v.truthy
  | none => false

def toValue (s : Spec) : Value :=
  let fields := Table.ofList s.entries
  let fields := if s.nullable then Table.insert fields nullableKey (.bool true) else fields
  .object (match s.default with
    | some v => Table.insert fields defaultKey v
    | none => fields)

def equalDefaults : Option Value → Option Value → Bool
  | none, none => true
  | some a, some b => a.equal b
  | _, _ => false

def equalEntries : List (String × Value) → List (String × Value) → Bool
  | [], [] => true
  | (k, a) :: s, (l, b) :: t => k == l && a.equal b && equalEntries s t
  | _, _ => false

def equal (s t : Spec) : Bool :=
  equalEntries s.entries t.entries && s.nullable == t.nullable && equalDefaults s.default t.default

/-- A depth that each argument stays below. -/
def depth (s : Spec) : Nat := Value.depthFields s.entries + 1

theorem depth_argument_lt {s : Spec} {validator : String} {argument : Value}
    (h : (validator, argument) ∈ s.entries) : argument.depth < s.depth := by
  have := Value.depth_le_depthFields h
  simp only [depth]; omega

theorem depthFields_filter_le (p : String × Value → Bool) (fields : List (String × Value)) :
    Value.depthFields (fields.filter p) ≤ Value.depthFields fields := by
  induction fields with
  | nil => simp
  | cons e fields ih =>
    obtain ⟨k, v⟩ := e
    by_cases h : p (k, v) <;> simp [h, Value.depthFields] <;> omega

theorem depth_ofValue_le {v : Value} {s : Spec} (h : ofValue v = .ok s) : s.depth ≤ v.depth := by
  cases v with
  | object fields =>
    simp only [ofValue, ofFields] at h
    split at h
    · cases h
    · cases h
      have := depthFields_filter_le (fun e => !isReserved e.1) fields
      simp only [depth, Value.depth]; omega
  | _ => simp [ofValue] at h

end Spec

end Conform
