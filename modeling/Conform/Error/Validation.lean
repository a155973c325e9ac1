import Conform.Json.Writer

/-!
# Errors in data

An error has a message, the path of the value at fault and extra fields. As data its fields stand beside
`message` and `path`, which no extra field may be named (`unreserved_withField`).
-/

namespace Conform

structure ValidationError where
  message : String
  /-- Where the value is, one `.name` for each field on the way, empty for the whole. -/
  path : String
  extra : Table Value

namespace ValidationError

def reservedKeys : List String := ["message", "path"]

def ofMessage (message : String) : ValidationError := ⟨message, "", []⟩

def withPath (e : ValidationError) (path : String) : ValidationError := { e with path }

/-- The error with an extra field, unless the key is reserved. -/
def withField (e : ValidationError) (key : String) (value : Value) : ValidationError :=
  if key ∈ reservedKeys then e else { e with extra := Table.insert e.extra key value }

def withFields (e : ValidationError) (fields : List (String × Value)) : ValidationError :=
  fields.foldl (fun e f => e.withField f.1 f.2) e

/-- The error as seen from further out: its path starts with `outer`. -/
def under (e : ValidationError) (outer : String) : ValidationError := { e with path := outer ++ e.path }

def field? (e : ValidationError) (key : String) : Option Value := Table.get? e.extra key

/-- The error in words: the path, if there is one, and the message. -/
def text (e : ValidationError) : String :=
  if e.path = "" then e.message else e.path ++ ": " ++ e.message

def toValue (e : ValidationError) : Value :=
  .object (("message", .string e.message) :: ("path", .string e.path) :: e.extra)

def equal (a b : ValidationError) : Bool :=
  a.message == b.message && a.path == b.path && (Value.object a.extra).equal (.object b.extra)

theorem under_empty (e : ValidationError) : e.under "" = e := by
  simp [under]

theorem under_under (e : ValidationError) (inner outer : String) :
    (e.under inner).under outer = e.under (outer ++ inner) := by
  simp [under, String.append_assoc]

theorem map_under_map_under (errors : List ValidationError) (inner outer : String) :
    (errors.map (·.under inner)).map (·.under outer) = errors.map (·.under (outer ++ inner)) := by
  simp [under_under, Function.comp_def]

theorem unreserved_withField {e : ValidationError} (key : String) (value : Value)
    (h : ∀ k ∈ e.extra.keys, k ∉ reservedKeys) : ∀ k ∈ (e.withField key value).extra.keys, k ∉ reservedKeys := by
  intro k hk
  unfold withField at hk
  split at hk
  · exact h k hk
  · rename_i hr
    by_cases hm : key ∈ e.extra.keys
    · rw [show (Table.insert e.extra key value).keys = e.extra.keys from
        Table.keys_insert_of_mem value hm] at hk
      exact h k hk
    · rw [show (Table.insert e.extra key value).keys = e.extra.keys ++ [key] from
        Table.keys_insert_of_not_mem value hm] at hk
      rcases List.mem_append.mp hk with hk | hk
      · exact h k hk
      · rw [List.mem_singleton.mp hk]; exact hr

end ValidationError

/-- All that is wrong with data, in the order in which it was found. -/
structure ValidationErrors where
  errors : List ValidationError

namespace ValidationErrors

def text (_ : ValidationErrors) : String := "Validation errors"

def paths (es : ValidationErrors) : List String := es.errors.map (·.path)

def linesFrom : (start : Nat) → List ValidationError → List String
  | _, [] => []
  | n, e :: errors => (toString n ++ ". " ++ e.text) :: linesFrom (n + 1) errors

def lines (es : ValidationErrors) : List String := linesFrom 1 es.errors

def toValue (es : ValidationErrors) : Value :=
  .object [("errors", .array (es.errors.map ValidationError.toValue))]

/-- Equality of errors one by one, their values compared as data. -/
def equalLists : List ValidationError → List ValidationError → Bool
  | [], [] => true
  | a :: as, b :: bs => a.equal b && equalLists as bs
  | _, _ => false

def equal (a b : ValidationErrors) : Bool := equalLists a.errors b.errors

end ValidationErrors

end Conform
