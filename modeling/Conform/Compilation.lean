import Conform.Error.Spec
import Conform.Event

/-!
# Compilations

A compilation ends with a result or with an error in the spec, and notes events on the way. An error keeps
the events before it and leaves out all that would come after.
-/

namespace Conform

structure Compilation (α : Type) where
  result : Except SpecError α
  events : List Event

namespace Compilation

variable {α β : Type}

def done (a : α) : Compilation α := ⟨.ok a, []⟩

def fail (e : SpecError) : Compilation α := ⟨.error e, []⟩

def note (e : Event) : Compilation Unit := ⟨.ok (), [e]⟩

/-- One compilation, and then another by the result of the first. -/
def bind (m : Compilation α) (k : α → Compilation β) : Compilation β :=
  match m.result with
  | .error e => ⟨.error e, m.events⟩
  | .ok a => ⟨(k a).result, m.events ++ (k a).events⟩

instance : Monad Compilation where
  pure := done
  bind := bind

@[simp] theorem pure_eq (a : α) : (pure a : Compilation α) = done a := rfl

@[simp] theorem bind_eq (m : Compilation α) (k : α → Compilation β) : m >>= k = m.bind k := rfl

theorem result_bind_eq_ok_iff {m : Compilation α} {k : α → Compilation β} {b : β} :
    (m.bind k).result = .ok b ↔ ∃ a, m.result = .ok a ∧ (k a).result = .ok b := by
  unfold bind
  split <;> rename_i h <;> simp [h]

theorem result_bind_eq_error_iff {m : Compilation α} {k : α → Compilation β} {e : SpecError} :
    (m.bind k).result = .error e ↔
      m.result = .error e ∨ ∃ a, m.result = .ok a ∧ (k a).result = .error e := by
  unfold bind
  split <;> rename_i h <;> simp [h]

end Compilation

end Conform
