import Conform.Error.Validation
import Mathlib.Data.List.Pairwise

/-!
# Paths

The path of an error is written with a dot before each name on the way. Names without dots can be read back from it,
so ways that part at a field have paths of which neither starts with the other and a dot (`apart_of_ne`).
-/

namespace Conform.ValidationError

/-- The path that leads through fields with these names. -/
def pathOf : List String → String
  | [] => ""
  | name :: names => "." ++ name ++ pathOf names

/-- Two paths differ, and neither leads to a place within the other. -/
def Apart (p q : String) : Prop :=
  p ≠ q ∧ (∀ more, q ≠ p ++ "." ++ more) ∧ ∀ more, p ≠ q ++ "." ++ more

def Undotted (name : String) : Prop := '.' ∉ name.toList

instance : DecidablePred Undotted := fun name => inferInstanceAs (Decidable ('.' ∉ name.toList))

/-- A path that leads nowhere or starts with a dot, as all do that are written for names. -/
def Rooted (p : String) : Prop := p = "" ∨ ∃ more, p = "." ++ more

theorem rooted_pathOf (names : List String) : Rooted (pathOf names) := by
  cases names with
  | nil => exact .inl rfl
  | cons name names => exact .inr ⟨name ++ pathOf names, String.append_assoc⟩

theorem Rooted.append_dot {p : String} (rooted : Rooted p) (more : String) : Rooted (p ++ "." ++ more) := by
  rcases rooted with rfl | ⟨rest, rfl⟩
  · exact .inr ⟨more, by simp⟩
  · exact .inr ⟨rest ++ "." ++ more, by simp [String.append_assoc]⟩

instance : Std.Symm Apart where
  symm := fun _ _ apart => ⟨apart.1.symm, apart.2.2, apart.2.1⟩

theorem Apart.append_left {p q : String} (apart : Apart p q) (outer : String) :
    Apart (outer ++ p) (outer ++ q) := by
  obtain ⟨different, below, above⟩ := apart
  refine ⟨?_, fun more => ?_, fun more => ?_⟩
  · simpa using different
  · simpa [String.append_assoc] using below more
  · simpa [String.append_assoc] using above more

/-- A path without its first dot starts with the characters of its first name, up to the next dot. -/
theorem takeWhile_name {name : String} (undotted : Undotted name) {p : String} (rooted : Rooted p) :
    (name ++ p).toList.takeWhile (· != '.') = name.toList := by
  have rest : p.toList.takeWhile (· != '.') = [] := by
    rcases rooted with rfl | ⟨more, rfl⟩ <;> simp
  rw [String.toList_append, List.takeWhile_append_of_pos, rest, List.append_nil]
  intro c member
  simp only [bne_iff_ne, ne_eq]
  rintro rfl
  exact undotted member

theorem name_unique {k l p q : String} (left : Undotted k) (right : Undotted l) (p_rooted : Rooted p)
    (q_rooted : Rooted q) (same : "." ++ k ++ p = "." ++ l ++ q) : k = l := by
  have rest : k ++ p = l ++ q := by simpa [String.append_assoc] using same
  have names := takeWhile_name left p_rooted
  rw [rest, takeWhile_name right q_rooted] at names
  exact (String.toList_inj.mp names).symm

theorem apart_of_ne {k l p q : String} (left : Undotted k) (right : Undotted l) (different : k ≠ l)
    (p_rooted : Rooted p) (q_rooted : Rooted q) : Apart ("." ++ k ++ p) ("." ++ l ++ q) := by
  refine ⟨fun same => different (name_unique left right p_rooted q_rooted same), fun more same => ?_,
    fun more same => ?_⟩
  · have longer : "." ++ l ++ q = "." ++ k ++ (p ++ "." ++ more) := by
      simpa only [String.append_assoc] using same
    exact different (name_unique right left q_rooted (p_rooted.append_dot more) longer).symm
  · have longer : "." ++ k ++ p = "." ++ l ++ (q ++ "." ++ more) := by
      simpa only [String.append_assoc] using same
    exact different (name_unique left right p_rooted (q_rooted.append_dot more) longer)

/-- Paths that are pairwise apart are distinct, and none leads to a place within another or itself. -/
theorem distinct_of_pairwise_apart {paths : List String} (apart : paths.Pairwise Apart) :
    paths.Nodup ∧ ∀ p ∈ paths, ∀ q ∈ paths, ∀ more, q ≠ p ++ "." ++ more := by
  refine ⟨apart.imp fun pair => pair.1, ?_⟩
  intro p first q second more
  by_cases same : p = q
  · subst same
    intro longer
    have lengths := congrArg String.length longer
    simp only [String.length_append] at lengths
    have dot : ".".length = 1 := rfl
    omega
  · exact (apart.forall first second same).2.1 more

end Conform.ValidationError
