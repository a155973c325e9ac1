import Conform.Registry.Builtin

/-!
# Builders

A builder gathers registrations and then puts them on top of the built-in ones, or makes do without those.
-/

namespace Conform.Registry

structure Builder where
  custom : Registry
  includesBuiltins : Bool

namespace Builder

def start : Builder := ⟨empty, true⟩

def withBuiltins (b : Builder) (wanted : Bool) : Builder := { b with includesBuiltins := wanted }

def add (b : Builder) (registration : Registration) : Builder :=
  { b with custom := b.custom.add registration }

/-- The registry that is built: what was registered wins over what is built in. -/
def build (b : Builder) : Registry :=
  if b.includesBuiltins then
    ⟨Registry.builtin.validators.insertAll b.custom.validators,
      Registry.builtin.types.insertAll b.custom.types⟩
  else b.custom

def registrations (b : Builder) : List Registration := if b.includesBuiltins then builtins else []

end Builder

end Conform.Registry
