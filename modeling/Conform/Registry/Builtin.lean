import Conform.LeafType
import Conform.Registry

/-!
# The built-in registry

The validators `type`, `schema` and `required`, and the six leaf types.
-/

namespace Conform.Registry

def typeFactory : Factory := fun argument context =>
  match argument.string? with
  | none => .fail .typeNotNamed
  | some name =>
    match context.types.get? name with
    | none => .fail (.unknownType name)
    | some check => .done check

/-- The fields that entries declare. Each spec is compiled before the next is read. -/
def schemaFields {argument : Value} (context : Factory.Context argument) :
    (entries : List (String × Value)) → Value.depthFields entries ≤ argument.depth →
      Compilation (List Field)
  | [], _ => .done []
  | (name, v) :: entries, h =>
    match hs : Spec.ofValue v with
    | .error e => .fail (.invalidField name e)
    | .ok s => do
      let check ← context.compile s (by
        have := Spec.depth_ofValue_le hs
        simp only [Value.depthFields] at h; omega)
      let fields ← schemaFields context entries (by simp only [Value.depthFields] at h; omega)
      .done (Field.ofSpec name s check :: fields)

def schemaFactory : Factory
  | .object entries, context => do
    let fields ← schemaFields context entries (by simp only [Value.depth]; omega)
    .note (Schema.compiled fields)
    .done (Schema.check fields)
  | argument, _ => .fail (.schemaNotObject argument.kind)

def requiredFactory : Factory := fun _ _ => .done Check.identity

def builtins : List Registration :=
  LeafType.all.map (fun type => .type type.name type.check) ++
    [.validator "type" typeFactory, .validator "schema" schemaFactory,
      .validator "required" requiredFactory]

def builtin : Registry := empty.addAll builtins

end Conform.Registry
