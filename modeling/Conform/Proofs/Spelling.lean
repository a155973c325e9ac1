import Conform.Json.Reader
import Conform.Json.Writer
import Conform.Proofs.Decimals
import Mathlib.Data.List.TakeWhile

/-!
# Numbers as they are spelled

A number in a document is spelled with digits, perhaps a part after the point, and perhaps a power of ten. What is
spelled so is read as that numeral (`number_real`, `number_integer`), and every number is written in such a spelling.
The digits of a spelling may end in zeros that the decimal does not have (`Decimal.Spells`).
-/

namespace Conform

namespace Text

theorem leadingDigits_append {digits rest : List Char} (all : ∀ c ∈ digits, c.isDigit)
    (ends : ∀ c ∈ rest.head?, c.isDigit = false) : leadingDigits (digits ++ rest) = digits := by
  rw [leadingDigits, List.takeWhile_append_of_pos all]
  cases rest with
  | nil => exact List.append_nil _
  | cons c rest =>
    rw [List.takeWhile_cons, if_neg (by simp [ends c rfl]), List.append_nil]

theorem afterDigits_append {digits rest : List Char} (all : ∀ c ∈ digits, c.isDigit)
    (ends : ∀ c ∈ rest.head?, c.isDigit = false) : afterDigits (digits ++ rest) = rest := by
  rw [afterDigits, List.dropWhile_append_of_pos all]
  cases rest with
  | nil => rfl
  | cons c rest => rw [List.dropWhile_cons, if_neg (by simp [ends c rfl])]

theorem isDigit_leadingDigits (t : List Char) : ∀ c ∈ leadingDigits t, c.isDigit :=
  fun _ member => List.mem_takeWhile_imp member

theorem unsigned_of_digits {digits : List Char} (all : ∀ c ∈ digits, c.isDigit) :
    ∀ c ∈ digits.head?, c ≠ '+' ∧ c ≠ '-' := by
  intro c first
  have digit := all c (List.mem_of_mem_head? first)
  constructor <;> rintro rfl <;> simp at digit

theorem decimal_append_zeros (digits : List Char) (zeros : Nat) :
    decimal (digits ++ List.replicate zeros '0') = decimal digits * 10 ^ zeros := by
  rw [decimal, Nat.ofDigitChars_append, Nat.ofDigitChars_replicate_zero, Nat.mul_comm]
  rfl

theorem decimal_zeros_append (digits : List Char) (zeros : Nat) :
    decimal (List.replicate zeros '0' ++ digits) = decimal digits := by
  rw [decimal, Nat.ofDigitChars_append, Nat.ofDigitChars_replicate_zero, Nat.mul_zero]
  rfl

theorem decimal_lt {digits : List Char} (all : ∀ c ∈ digits, c.isDigit) : decimal digits < 10 ^ digits.length := by
  induction digits with
  | nil => decide
  | cons c digits ih =>
    have later := ih fun d member => all d (List.mem_cons_of_mem _ member)
    have digit : c.toNat - '0'.toNat ≤ 9 := by
      have digit := all c List.mem_cons_self
      simp only [Char.isDigit, Bool.and_eq_true, decide_eq_true_eq] at digit
      have high : c.toNat ≤ 57 := digit.2
      simp only [Char.reduceToNat]
      omega
    rw [decimal, Nat.ofDigitChars_cons, Nat.mul_zero, Nat.zero_add, Nat.ofDigitChars_eq_ofDigitChars_zero,
      List.length_cons, Nat.pow_succ]
    have most := Nat.mul_le_mul_left (10 ^ digits.length) digit
    simp only [decimal] at later
    omega

end Text

namespace Json

open Conform.Text

/-- A number as it is spelled: the digits before a point, those after it if there is one, and the power of ten. -/
structure Spelling where
  whole : List Char
  part : Option (List Char)
  power : Option Int

namespace Spelling

def pointed (part : Option (List Char)) : List Char := part.elim [] ('.' :: ·)

def raised (power : Option Int) : List Char := power.elim [] fun p => 'e' :: writeInt p

def text (s : Spelling) : List Char := s.whole ++ (pointed s.part ++ raised s.power)

def numeral (s : Spelling) (negative : Bool) : Numeral := ⟨negative, s.whole, s.part.getD [], s.power.getD 0⟩

/-- Digits only, no zero in front of others, and some after a point. -/
structure Valid (s : Spelling) : Prop where
  whole : ∀ c ∈ s.whole, c.isDigit
  first : s.whole = ['0'] ∨ ∃ c digits, s.whole = c :: digits ∧ c ≠ '0'
  part : ∀ digits, s.part = some digits → digits ≠ [] ∧ ∀ c ∈ digits, c.isDigit

end Spelling

/-- A number does not go on in this text. -/
def EndsNumber (rest : List Char) : Prop :=
  ∀ c ∈ rest.head?, c.isDigit = false ∧ c ≠ '.' ∧ c ≠ 'e' ∧ c ≠ 'E'

variable {rest : List Char}

theorem wholeDigits_append {s : Spelling} (valid : s.Valid) (ends : ∀ c ∈ rest.head?, c.isDigit = false) :
    wholeDigits (s.whole ++ rest) = .ok (s.whole, rest) := by
  rcases valid.first with zero | ⟨c, digits, same, nonzero⟩
  · have none : leadingDigits rest = [] := @leadingDigits_append [] rest nofun ends
    rw [zero, List.singleton_append, wholeDigits, if_pos rfl, none]
    rfl
  · have digit : c.isDigit := valid.whole c (by simp [same])
    have leading := leadingDigits_append valid.whole ends
    have after := afterDigits_append valid.whole ends
    rw [same] at leading after ⊢
    rw [List.cons_append] at leading after ⊢
    rw [wholeDigits, if_neg nonzero, if_pos digit, leading, after]

theorem fraction_append {part : Option (List Char)} (valid : ∀ digits, part = some digits → digits ≠ [] ∧
    ∀ c ∈ digits, c.isDigit) (ends : ∀ c ∈ rest.head?, c.isDigit = false ∧ c ≠ '.') :
    fraction (Spelling.pointed part ++ rest) = .ok (part, rest) := by
  cases part with
  | none =>
    rw [Spelling.pointed, Option.elim_none, List.nil_append, fraction]
    · intro t point
      exact (ends '.' (by rw [point]; rfl)).2 rfl
  | some digits =>
    obtain ⟨some, all⟩ := valid digits rfl
    have leading := leadingDigits_append all fun c first => (ends c first).1
    have after := afterDigits_append all fun c first => (ends c first).1
    simp only [Spelling.pointed, Option.elim_some, List.cons_append, fraction, leading, after, List.isEmpty_iff, some,
      if_false]

theorem isDigit_toDigits (n : Nat) : ∀ c ∈ Nat.toDigits 10 n, c.isDigit :=
  fun _ member => Nat.isDigit_of_mem_toDigits (by decide) (by decide) member

theorem takeSign_toDigits (n : Nat) (rest : List Char) :
    Binary64.takeSign (Nat.toDigits 10 n ++ rest) = (false, Nat.toDigits 10 n ++ rest) := by
  have all := isDigit_toDigits n
  cases same : Nat.toDigits 10 n with
  | nil => exact absurd same Nat.toDigits_ne_nil
  | cons c digits =>
    have digit : c.isDigit := all c (by simp [same])
    rw [List.cons_append, Binary64.takeSign]
    · intro _ sign
      cases sign
      simp at digit
    · intro _ sign
      cases sign
      simp at digit

theorem takeSign_writeInt (n : Int) (rest : List Char) :
    Binary64.takeSign (writeInt n ++ rest) = (decide (n < 0), Nat.toDigits 10 n.natAbs ++ rest) := by
  rw [writeInt, List.append_assoc]
  by_cases negative : n < 0
  · simp [negative, Binary64.takeSign]
  · rw [if_neg negative, List.nil_append, takeSign_toDigits]
    simp [negative]

theorem exponent_append (power : Option Int) (ends : ∀ c ∈ rest.head?, c.isDigit = false ∧ c ≠ 'e' ∧ c ≠ 'E') :
    ∃ settled, exponent (Spelling.raised power ++ rest) = .ok (power.map fun p => ⟨p, settled⟩, rest) := by
  cases power with
  | none =>
    refine ⟨[], ?_⟩
    cases rest with
    | nil => rfl
    | cons c rest =>
      obtain ⟨_, small, capital⟩ := ends c rfl
      rw [Spelling.raised, Option.elim_none, List.nil_append, exponent, if_neg (by simp [small, capital])]
      rfl
  | some p =>
    have leading := leadingDigits_append (isDigit_toDigits p.natAbs) fun c first => (ends c first).1
    have after := afterDigits_append (isDigit_toDigits p.natAbs) fun c first => (ends c first).1
    have value : (if p < 0 then -(p.natAbs : Int) else p.natAbs) = p := by
      split <;> omega
    refine ⟨afterPower 0 (Nat.toDigits 10 p.natAbs ++ rest), ?_⟩
    simp only [Spelling.raised, Option.elim_some, List.cons_append, exponent, true_or, if_true, takeSign_writeInt,
      leading, after, List.isEmpty_iff, Nat.toDigits_ne_nil, if_false, decimal, Nat.ofDigitChars_ten_toDigits,
      decide_eq_true_eq, value, Option.map_some]

theorem head_raised {power : Option Int} (ends : EndsNumber rest) :
    ∀ c ∈ (Spelling.raised power ++ rest).head?, c.isDigit = false ∧ c ≠ '.' := by
  cases power with
  | none => exact fun c first => ⟨(ends c first).1, (ends c first).2.1⟩
  | some p => simp [Spelling.raised]

theorem head_pointed {part : Option (List Char)} {power : Option Int} (ends : EndsNumber rest) :
    ∀ c ∈ (Spelling.pointed part ++ (Spelling.raised power ++ rest)).head?, c.isDigit = false := by
  cases part with
  | none => exact fun c first => (head_raised ends c first).1
  | some digits => simp [Spelling.pointed]

/-- The three parts of a number are read one after the other. -/
theorem parts_append {s : Spelling} (valid : s.Valid) (ends : EndsNumber rest) :
    wholeDigits (s.text ++ rest) = .ok (s.whole, Spelling.pointed s.part ++ (Spelling.raised s.power ++ rest)) ∧
    fraction (Spelling.pointed s.part ++ (Spelling.raised s.power ++ rest)) =
      .ok (s.part, Spelling.raised s.power ++ rest) ∧
    ∃ settled, exponent (Spelling.raised s.power ++ rest) = .ok (s.power.map fun p => ⟨p, settled⟩, rest) := by
  refine ⟨?_, fraction_append valid.part (head_raised ends), exponent_append s.power fun c first =>
    ⟨(ends c first).1, (ends c first).2.2⟩⟩
  rw [Spelling.text, List.append_assoc, List.append_assoc]
  exact wholeDigits_append valid (head_pointed ends)

theorem number_real (rules : Rules) {negative : Bool} {s : Spelling} (valid : s.Valid) (ends : EndsNumber rest)
    (spelled : s.part = none → s.power ≠ none) (finite : (rules.number (s.numeral negative)).isFinite) :
    number rules negative (s.text ++ rest) = .ok (.real (rules.number (s.numeral negative)), rest) := by
  obtain ⟨whole, part, settled, power⟩ := parts_append valid ends
  simp only [number, whole, part, power, bind, Except.bind]
  have same : (Option.map (fun p => (⟨p, settled⟩ : Power)) s.power).map (·.value) = s.power := by
    cases s.power <;> rfl
  split
  · rename_i none nonePower _
    exact absurd (Option.map_eq_none_iff.mp nonePower) (spelled none)
  · rw [same]
    exact if_pos finite

theorem number_integer (rules : Rules) {negative : Bool} {s : Spelling} (valid : s.Valid) (ends : EndsNumber rest)
    (part : s.part = none) (power : s.power = none) {n : Int} (fits : integer? negative (decimal s.whole) = some n) :
    number rules negative (s.text ++ rest) = .ok (.integer n, rest) := by
  obtain ⟨whole, partRead, settled, powerRead⟩ := parts_append valid ends
  simp only [number, whole, partRead, powerRead, bind, Except.bind]
  rw [part, power, fits]
  rfl

/-! ### Spellings of numbers that are written -/

theorem toDigits_first (n : Nat) :
    Nat.toDigits 10 n = ['0'] ∨ ∃ c digits, Nat.toDigits 10 n = c :: digits ∧ c ≠ '0' := by
  induction n using Nat.strongRecOn with
  | ind n ih =>
    rw [Nat.toDigits_eq_if (by decide)]
    split
    · rename_i small
      by_cases zero : n = 0
      · exact .inl (by rw [zero]; rfl)
      · exact .inr ⟨_, [], rfl, by simpa using zero⟩
    · rename_i large
      rcases ih (n / 10) (by omega) with none | ⟨c, digits, same, nonzero⟩
      · have value := congrArg decimal none
        rw [decimal, Nat.ofDigitChars_ten_toDigits, show decimal ['0'] = 0 from rfl] at value
        omega
      · exact .inr ⟨c, digits ++ [Nat.digitChar (n % 10)], by rw [same, List.cons_append], nonzero⟩

theorem toDigits_first_of_ne {n : Nat} (nonzero : n ≠ 0) : ∃ c digits, Nat.toDigits 10 n = c :: digits ∧ c ≠ '0' := by
  refine (toDigits_first n).resolve_left fun zero => nonzero ?_
  have value := congrArg decimal zero
  rwa [decimal, Nat.ofDigitChars_ten_toDigits] at value

def Spelling.ofNat (n : Nat) : Spelling := ⟨Nat.toDigits 10 n, none, none⟩

theorem Spelling.valid_ofNat (n : Nat) : (Spelling.ofNat n).Valid := ⟨isDigit_toDigits n, toDigits_first n, nofun⟩

end Json

namespace Binary64.Decimal

open Conform.Json Conform.Text

/-- How a decimal is spelled with its point in place. -/
def positionalSpelling (d : Decimal) : Spelling :=
  let digits := Nat.toDigits 10 d.digits
  let point : Int := digits.length + d.exponent
  if 0 ≤ d.exponent then ⟨digits ++ List.replicate d.exponent.toNat '0', some ['0'], none⟩
  else if 0 < point then ⟨digits.take point.toNat, some (digits.drop point.toNat), none⟩
  else ⟨['0'], some (List.replicate (-point).toNat '0' ++ digits), none⟩

/-- How a decimal is spelled with a power of ten. -/
def scientificSpelling (d : Decimal) : Spelling :=
  let digits := Nat.toDigits 10 d.digits
  let fraction := digits.drop 1
  ⟨digits.take 1, if fraction.isEmpty then none else some fraction, some (digits.length + d.exponent - 1)⟩

/-- How a decimal is spelled in the style of numbers in documents. -/
def spelling (d : Decimal) : Spelling :=
  if numberStyle.positional ((Nat.toDigits 10 d.digits).length + d.exponent) then d.positionalSpelling
  else d.scientificSpelling

theorem layout_eq (d : Decimal) : numberStyle.layout d = d.spelling.text := by
  unfold Style.layout spelling
  split
  · rw [show numberStyle.wholePoint = true from rfl, positional, positionalSpelling]
    split
    · simp [Spelling.text, Spelling.pointed, Spelling.raised]
    · split <;> simp [Spelling.text, Spelling.pointed, Spelling.raised]
  · rw [scientific, scientificSpelling]
    cases (Nat.toDigits 10 d.digits).drop 1 <;> simp [Spelling.text, Spelling.pointed, Spelling.raised, writeInt]

theorem positionalSpelling_valid {d : Decimal} (nonzero : d.digits ≠ 0) : d.positionalSpelling.Valid := by
  have all := isDigit_toDigits d.digits
  obtain ⟨c, digits, same, first⟩ := toDigits_first_of_ne nonzero
  have zeros : ∀ n, ∀ c ∈ List.replicate n '0', c.isDigit := fun n c member => List.eq_of_mem_replicate member ▸ rfl
  unfold positionalSpelling
  dsimp only
  split
  · refine ⟨?_, .inr ⟨c, digits ++ List.replicate d.exponent.toNat '0', by rw [same]; rfl, first⟩, ?_⟩
    · intro c member
      exact (List.mem_append.mp member).elim (all c) (zeros _ c)
    · rintro _ ⟨⟩
      exact ⟨by simp, by simp⟩
  · split
    · rename_i scaled inside
      refine ⟨fun c member => all c (List.mem_of_mem_take member), .inr ?_, ?_⟩
      · have positive : (((Nat.toDigits 10 d.digits).length : Int) + d.exponent).toNat ≠ 0 := by omega
        obtain ⟨n, point⟩ := Nat.exists_eq_succ_of_ne_zero positive
        exact ⟨c, digits.take n, by rw [point, same, List.take_succ_cons], first⟩
      · rintro _ ⟨⟩
        refine ⟨?_, fun c member => all c (List.mem_of_mem_drop member)⟩
        rw [Ne, List.drop_eq_nil_iff]
        omega
    · refine ⟨by simp, .inl rfl, ?_⟩
      rintro _ ⟨⟩
      refine ⟨by simp, fun c member => ?_⟩
      exact (List.mem_append.mp member).elim (zeros _ c) (all c)

theorem scientificSpelling_valid {d : Decimal} (nonzero : d.digits ≠ 0) : d.scientificSpelling.Valid := by
  have all := isDigit_toDigits d.digits
  obtain ⟨c, digits, same, first⟩ := toDigits_first_of_ne nonzero
  refine ⟨fun c member => all c (List.mem_of_mem_take member), .inr ⟨c, [], ?_, first⟩, ?_⟩
  · rw [scientificSpelling, same]
    rfl
  · intro part found
    dsimp only [scientificSpelling] at found
    split at found
    · cases found
    · cases found
      exact ⟨by simp_all, fun c member => all c (List.mem_of_mem_drop member)⟩

theorem spelling_valid {d : Decimal} (nonzero : d.digits ≠ 0) : d.spelling.Valid := by
  unfold spelling
  split
  · exact positionalSpelling_valid nonzero
  · exact scientificSpelling_valid nonzero

theorem length_whole_le (d : Decimal) : d.spelling.whole.length ≤ 16 := by
  unfold spelling
  split
  · rename_i inside
    simp only [numberStyle, Bool.and_eq_true, decide_eq_true_eq] at inside
    unfold positionalSpelling
    dsimp only
    split
    · simp only [List.length_append, List.length_replicate]
      omega
    · split
      · simp only [List.length_take]
        omega
      · simp
  · simp only [scientificSpelling, List.length_take]
    omega

theorem decimal_whole_lt {d : Decimal} (nonzero : d.digits ≠ 0) : decimal d.spelling.whole < 10 ^ 16 :=
  Nat.lt_of_lt_of_le (decimal_lt (spelling_valid nonzero).whole) (Nat.pow_le_pow_right (by decide) d.length_whole_le)

theorem spelling_real (d : Decimal) : d.spelling.part = none → d.spelling.power ≠ none := by
  unfold spelling positionalSpelling scientificSpelling
  grind

/-- The digits of a spelling, and the power of ten that it takes them to, are those of the decimal but for zeros. -/
def Spells (d : Decimal) (s : Spelling) : Prop :=
  ∃ zeros : Nat, decimal (s.whole ++ s.part.getD []) = d.digits * 10 ^ zeros ∧
    s.power.getD 0 - (s.part.getD []).length = d.exponent - zeros

theorem positionalSpelling_spells (d : Decimal) : d.Spells d.positionalSpelling := by
  have value : decimal (Nat.toDigits 10 d.digits) = d.digits := Nat.ofDigitChars_ten_toDigits
  unfold positionalSpelling Spells
  dsimp only
  split
  · rename_i scaled
    refine ⟨d.exponent.toNat + 1, ?_, ?_⟩
    · rw [Option.getD_some, List.append_assoc, ← List.replicate_succ', decimal_append_zeros, value]
    · simp only [Option.getD_some, Option.getD_none, List.length_singleton]
      omega
  · refine ⟨0, ?_⟩
    split
    · simp only [Option.getD_some, Option.getD_none, List.take_append_drop, value, List.length_drop]
      omega
    · simp only [Option.getD_some, Option.getD_none, List.length_append, List.length_replicate]
      refine ⟨?_, by omega⟩
      rw [List.singleton_append, ← List.cons_append, ← List.replicate_succ, decimal_zeros_append, value, Nat.pow_zero,
        Nat.mul_one]

theorem scientificSpelling_spells (d : Decimal) : d.Spells d.scientificSpelling := by
  have value : decimal (Nat.toDigits 10 d.digits) = d.digits := Nat.ofDigitChars_ten_toDigits
  have nonempty : 0 < (Nat.toDigits 10 d.digits).length := Nat.length_toDigits_pos
  have part : (if ((Nat.toDigits 10 d.digits).drop 1).isEmpty then none
      else some ((Nat.toDigits 10 d.digits).drop 1)).getD [] = (Nat.toDigits 10 d.digits).drop 1 := by
    cases (Nat.toDigits 10 d.digits).drop 1 <;> rfl
  refine ⟨0, ?_⟩
  simp only [scientificSpelling, part, List.take_append_drop, value, Option.getD_some, List.length_drop]
  omega

theorem spelling_spells (d : Decimal) : d.Spells d.spelling := by
  unfold spelling
  split
  · exact positionalSpelling_spells d
  · exact scientificSpelling_spells d

end Binary64.Decimal

end Conform
