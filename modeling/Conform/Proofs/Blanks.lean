import Conform.Proofs.Spelling
import Conform.Text.Blank

/-!
# Blanks and padding

Trimming leaves the one part of a text that has nothing but blanks around it and none at its ends (`Trims.eq_trim`). A
padded number has digits only, so it starts and ends with no blank.
-/

namespace Conform.Text

/-! ### Padded numbers -/

theorem length_padded {width n : Nat} (pos : 0 < width) (fits : n < 10 ^ width) : (padded width n).length = width := by
  have short := (Nat.length_toDigits_le_iff (by decide) pos).mpr fits
  simp only [padded, List.length_append, List.length_replicate]
  omega

theorem isDigit_padded (width n : Nat) : ∀ c ∈ padded width n, c.isDigit := by
  intro c member
  rcases List.mem_append.mp member with zero | digit
  · rw [(List.mem_replicate.mp zero).2]
    rfl
  · exact Nat.isDigit_of_mem_toDigits (by decide) (by decide) digit

theorem padded_ne_nil (width n : Nat) : padded width n ≠ [] := by
  intro nothing
  exact Nat.toDigits_ne_nil (List.append_eq_nil_iff.mp nothing).2

theorem decimal_padded (width n : Nat) : decimal (padded width n) = n := by
  rw [padded, decimal_zeros_append]
  exact Nat.ofDigitChars_toDigits (by decide) (by decide)

/-! ### Blanks around a text -/

theorem isBlank_of_isDigit {c : Char} (digit : c.isDigit) : isBlank c = false := by
  simp only [Char.isDigit, Bool.and_eq_true, decide_eq_true_eq] at digit
  have low : 48 ≤ c.toNat := digit.1
  have high : c.toNat ≤ 57 := digit.2
  simp only [isBlank, Bool.or_eq_false_iff, Bool.and_eq_false_iff, decide_eq_false_iff_not, beq_eq_false_iff_ne]
  omega

theorem skipBlanks_eq_self {t : List Char} (first : ∀ c ∈ t.head?, isBlank c = false) : skipBlanks t = t := by
  cases t with
  | nil => rfl
  | cons c t => rw [skipBlanks, List.dropWhile_cons, if_neg (by simp [first c rfl])]

theorem trim_eq_self {t : List Char} (first : ∀ c ∈ t.head?, isBlank c = false)
    (last : ∀ c ∈ t.getLast?, isBlank c = false) : trim t = t := by
  rw [trim, skipBlanks_eq_self first, skipBlanks_eq_self (by rwa [List.head?_reverse]), List.reverse_reverse]

/-- One text is another without the blanks at both ends. -/
structure Trims (s t : List Char) : Prop where
  around : ∃ before after, s = before ++ t ++ after ∧ (∀ c ∈ before, isBlank c) ∧ ∀ c ∈ after, isBlank c
  first : ∀ c ∈ t.head?, isBlank c = false
  last : ∀ c ∈ t.getLast?, isBlank c = false

theorem skipBlanks_append {before : List Char} (blank : ∀ c ∈ before, isBlank c) (t : List Char) :
    skipBlanks (before ++ t) = skipBlanks t := List.dropWhile_append_of_pos blank

theorem head?_skipBlanks (t : List Char) : ∀ c ∈ (skipBlanks t).head?, isBlank c = false := by
  intro c first
  have stopped := List.head?_dropWhile_not isBlank t
  rw [Option.mem_def, skipBlanks] at first
  rw [first] at stopped
  exact stopped

theorem trims_trim (s : List Char) : Trims s (trim s) := by
  have front : s.takeWhile isBlank ++ skipBlanks s = s := List.takeWhile_append_dropWhile
  have back : (skipBlanks s).reverse.takeWhile isBlank ++ skipBlanks (skipBlanks s).reverse = (skipBlanks s).reverse :=
    List.takeWhile_append_dropWhile
  have split : skipBlanks s = trim s ++ ((skipBlanks s).reverse.takeWhile isBlank).reverse := by
    rw [trim, ← List.reverse_append, back, List.reverse_reverse]
  refine ⟨⟨s.takeWhile isBlank, ((skipBlanks s).reverse.takeWhile isBlank).reverse, ?_, ?_, ?_⟩, ?_, ?_⟩
  · rw [List.append_assoc, ← split, front]
  · exact fun c member => List.mem_takeWhile_imp member
  · exact fun c member => List.mem_takeWhile_imp (List.mem_reverse.mp member)
  · intro c first
    apply head?_skipBlanks s c
    rw [split, Option.mem_def, List.head?_append, Option.mem_def.mp first]
    rfl
  · rw [trim, List.getLast?_reverse]
    exact head?_skipBlanks _

theorem Trims.eq_trim {s t : List Char} (trims : Trims s t) : t = trim s := by
  obtain ⟨⟨before, after, rfl, blankBefore, blankAfter⟩, first, last⟩ := trims
  have gone : skipBlanks (after.reverse ++ t.reverse) = t.reverse := by
    rw [skipBlanks_append fun c member => blankAfter c (List.mem_reverse.mp member), skipBlanks_eq_self]
    rwa [List.head?_reverse]
  rw [trim, List.append_assoc, skipBlanks_append blankBefore]
  cases t with
  | nil =>
    have none : skipBlanks after = [] := List.dropWhile_eq_nil_iff.mpr blankAfter
    rw [List.nil_append, none]
    rfl
  | cons c t =>
    have stays : skipBlanks (c :: t ++ after) = c :: t ++ after := skipBlanks_eq_self first
    rw [stays, List.reverse_append, gone, List.reverse_reverse]

end Conform.Text
