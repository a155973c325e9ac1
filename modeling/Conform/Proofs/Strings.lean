import Conform.Json.Reader
import Conform.Json.Writer

/-!
# Strings in documents

What is written in quotes is read back, character by character (`characters_writeChar`), whether the reader is strict
or not.
-/

namespace Conform.Json

open Conform.Text

theorem codeUnit?_control : ∀ n < 32, codeUnit? '0' '0' (Nat.digitChar (n / 16)) (Nat.digitChar (n % 16)) = some n := by
  decide

theorem characters_writeChar (lenient : Bool) (c : Char) (t : List Char) :
    characters lenient none (writeChar c ++ t) = behind c (characters lenient none t) := by
  unfold writeChar
  split
  · rename_i letter escaped
    unfold escapeLetter? at escaped
    split at escaped <;> cases escaped <;> simp [characters, unlessWaiting, escaped?]
  · rename_i plain
    split
    · rename_i control
      have small : c.toNat < 32 := control
      simp only [List.cons_append, List.nil_append, characters, codeUnit?_control c.toNat small]
      have leading : isLeading c.toNat = false := by simp [isLeading]; omega
      have trailing : isTrailing c.toNat = false := by simp [isTrailing]; omega
      simp [leading, trailing, unlessWaiting]
    · rename_i visible
      have quote : c ≠ '"' := by rintro rfl; simp [escapeLetter?] at plain
      have backslash : c ≠ '\\' := by rintro rfl; simp [escapeLetter?] at plain
      rw [List.singleton_append, characters]
      · simp [unlessWaiting, visible]
      · exact quote
      all_goals simp [backslash]

theorem characters_writeString (lenient : Bool) (s rest : List Char) :
    characters lenient none (s.flatMap writeChar ++ '"' :: rest) = .ok (⟨s, none⟩, rest) := by
  induction s with
  | nil => simp [characters, unlessWaiting]
  | cons c s ih =>
    rw [List.flatMap_cons, List.append_assoc, characters_writeChar, ih]
    rfl

end Conform.Json
