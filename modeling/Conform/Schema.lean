import Conform.Check
import Conform.Spec

/-!
# Schemas

A schema checks the fields of an object, each at its own path. A required field must be there and not be
null; a field with a default takes it when it is absent or null; any other field is checked if it is there.
Errors in one field do not keep the others from being checked. The answer holds declared fields only:
required ones first, then those with a default, then the others.
-/

namespace Conform

inductive FieldKind where
  | required
  | withDefault (value : Value)
  | optional

structure Field where
  name : String
  kind : FieldKind
  check : Check

namespace FieldKind

def ofSpec (s : Spec) : FieldKind :=
  if s.isRequired then required
  else match s.default with
    | some value => withDefault value
    | none => optional

def isRequired : FieldKind → Bool
  | required => true
  | _ => false

def hasDefault : FieldKind → Bool
  | withDefault _ => true
  | _ => false

def isOptional : FieldKind → Bool
  | optional => true
  | _ => false

end FieldKind

namespace Field

open Activity

def ofSpec (name : String) (s : Spec) (check : Check) : Field := ⟨name, .ofSpec s, check⟩

def step (f : Field) : String := "." ++ f.name

def requiredMessage : String := "required, but not given"

/-- The value to check: null counts as absent unless the field is optional. -/
def given? (f : Field) (input : Table Value) : Option Value :=
  match f.kind with
  | .optional => Table.get? input f.name
  | _ => (Table.get? input f.name).bind Value.present?

def visit (f : Field) (input : Table Value) (path : String) : Activity (Option Value) :=
  match f.given? input, f.kind with
  | some value, _ => do
    let value ← f.check value (path ++ f.step)
    done (some value)
  | none, .required => do
    record (((ValidationError.ofMessage requiredMessage).withPath f.step).under path)
    done none
  | none, .withDefault value => done (some value)
  | none, .optional => done none

/-- The entry of a field in the answer, if it has one. -/
def entry (f : Field) : Option Value → List (String × Value)
  | some value => [(f.name, value)]
  | none => []

end Field

namespace Schema

open Activity

def ordered (fields : List Field) : List Field :=
  fields.filter (·.kind.isRequired) ++ fields.filter (·.kind.hasDefault) ++
    fields.filter (·.kind.isOptional)

def visitAll : List Field → Table Value → String → Activity (List (String × Value))
  | [], _, _ => done []
  | f :: fields, input, path => do
    let value ← f.visit input path
    let entries ← visitAll fields input path
    done (f.entry value ++ entries)

def undeclared (fields : List Field) (input : Table Value) : List String :=
  input.keys.filter fun key => !fields.any (·.name == key)

/-- Note the keys that are left out of an answer, if there are any. -/
def noteDropped (path : String) (keys : List String) : Activity Unit :=
  if keys.isEmpty then done () else note (.droppedKeys path keys)

def check (fields : List Field) : Check := fun value path =>
  match value with
  | .object input => do
    let entries ← visitAll (ordered fields) input path
    noteDropped path (undeclared fields input)
    done (.object entries)
  | _ => Check.refuse "Not an object" path

def compiled (fields : List Field) : Event :=
  .compiledSchema (fields.filter (·.kind.isRequired)).length (fields.filter (·.kind.hasDefault)).length
    (fields.filter (·.kind.isOptional)).length

end Schema

end Conform
