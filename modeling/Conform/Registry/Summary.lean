import Conform.Registry
import Conform.Text.Quoted

/-!
# Registries in a line

What a registry holds, as names, for people who look for faults.
-/

namespace Conform.Registry

def summary (r : Registry) : String :=
  "Registry \x7b validators: " ++ Text.quotedList r.validatorNames ++ ", types: " ++
    Text.quotedList r.typeNames ++ " \x7d"

def checkSummary : String := "CompiledCheck \x7b .. \x7d"

end Conform.Registry
