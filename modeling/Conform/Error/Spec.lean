import Conform.Value

/-!
# Errors in specs

A spec that cannot be compiled names a validator or a type that no table has, gives a validator an argument
that it refuses, or is no spec at all.
-/

namespace Conform

inductive SpecError where
  | unknownValidator (name : String)
  | unknownType (name : String)
  | invalidArgument (validator reason : String)
  | invalidSpec (reason : String)
deriving DecidableEq

namespace SpecError

def message : SpecError → String
  | unknownValidator name => "Unknown validator " ++ name
  | unknownType name => "Unknown type " ++ name
  | invalidArgument validator reason => "Invalid argument for validator '" ++ validator ++ "': " ++ reason
  | invalidSpec reason => "Invalid spec: " ++ reason

def tag : SpecError → String
  | unknownValidator _ => "UnknownValidator"
  | unknownType _ => "UnknownType"
  | invalidArgument _ _ => "InvalidArgument"
  | invalidSpec _ => "InvalidSpec"

/-- The error as data: an object whose one key is the sort. -/
def toValue (e : SpecError) : Value :=
  .object [(e.tag, match e with
    | unknownValidator text | unknownType text | invalidSpec text => .string text
    | invalidArgument validator reason =>
      .object [("validator", .string validator), ("reason", .string reason)])]

/-! ### The errors that compiling finds -/

def notAnObject (kind : Kind) : SpecError := invalidSpec ("expected an object, got " ++ kind.name)

def nullableNotBoolean (kind : Kind) : SpecError :=
  invalidSpec ("'nullable' must be a boolean, got " ++ kind.name)

def typeNotNamed : SpecError := invalidArgument "type" "expected a type name"

def schemaNotObject (kind : Kind) : SpecError :=
  invalidArgument "schema" ("expected an object of field specs, got " ++ kind.name)

def invalidField (field : String) (e : SpecError) : SpecError :=
  invalidArgument "schema" ("field '" ++ field ++ "': " ++ e.message)

end SpecError

end Conform
