import Conform.Proofs.Blanks
import Conform.Proofs.Coercion
import Conform.Proofs.Nearest
import Mathlib.Data.List.Forall2
import Mathlib.Data.List.TakeWhile
import Mathlib.Data.Nat.Digits.Defs
import Mathlib.Tactic.Ring

/-!
# Texts that stand for numbers

`NumberText` says without a reader which texts stand for which numbers: nothing for zero, digits after the mark of a
base for an integer of 64 bits, and decimals for the nearest number if it is finite. The type `number` takes a string
exactly if what is left of it without blanks around is such a text (`number_reads_grammar`).
-/

namespace Conform

namespace Text

/-! ### Integers in a base -/

/-- A character is a digit of a base, letters in either case. -/
def IsDigit (base : Nat) (c : Char) (d : Nat) : Prop := d < base ∧ (c = d.digitChar ∨ c = d.digitChar.toUpper)

/-- One or more digits of a base, the most significant first. -/
def WritesNat (base : Nat) (t : List Char) (n : Nat) : Prop :=
  ∃ ds, t ≠ [] ∧ List.Forall₂ (IsDigit base) t ds ∧ n = Nat.ofDigits base ds.reverse

theorem digitValue?_digitChar :
    ∀ d < 16, digitValue? d.digitChar = some d ∧ digitValue? d.digitChar.toUpper = some d := by decide

theorem toNat_lt_of_digitValue {c : Char} {d : Nat} (value : digitValue? c = some d) : c.toNat < 128 := by
  unfold digitValue? at value
  split at value
  · rename_i digit
    simp only [Char.isDigit, Bool.and_eq_true, decide_eq_true_eq] at digit
    have high : c.toNat ≤ 57 := digit.2
    omega
  · split at value
    · rename_i _ letter
      have high : c.toNat ≤ 122 := letter.2
      omega
    · split at value
      · rename_i _ _ letter
        have high : c.toNat ≤ 90 := letter.2
        omega
      · cases value

theorem digitChar_of_digitValue {c : Char} {d : Nat} (small : d < 16) (value : digitValue? c = some d) :
    c = d.digitChar ∨ c = d.digitChar.toUpper := by
  have table : ∀ n < 128, ∀ d < 16, digitValue? (Char.ofNat n) = some d →
      Char.ofNat n = d.digitChar ∨ Char.ofNat n = d.digitChar.toUpper := by
    decide +kernel
  have found := table c.toNat (toNat_lt_of_digitValue value) d small
  rw [Char.ofNat_toNat] at found
  exact found value

variable {base : Nat}

theorem isDigit_iff (small : base ≤ 16) {c : Char} {d : Nat} :
    IsDigit base c d ↔ d < base ∧ digitValue? c = some d := by
  constructor
  · rintro ⟨less, lower | upper⟩
    · exact ⟨less, lower ▸ (digitValue?_digitChar d (by omega)).1⟩
    · exact ⟨less, upper ▸ (digitValue?_digitChar d (by omega)).2⟩
  · rintro ⟨less, value⟩
    exact ⟨less, digitChar_of_digitValue (by omega) value⟩

theorem pushDigit?_eq_some_iff (small : base ≤ 16) {m n : Nat} {c : Char} :
    pushDigit? base m c = some n ↔ ∃ d, IsDigit base c d ∧ n = m * base + d := by
  simp only [isDigit_iff small]
  unfold pushDigit?
  cases digitValue? c with
  | none => simp
  | some d =>
    dsimp only
    split
    · rename_i less
      simp [less, eq_comm (a := n)]
    · rename_i more
      simp [more]

theorem foldlM_pushDigit?_iff (small : base ≤ 16) {t : List Char} {m n : Nat} :
    t.foldlM (pushDigit? base) m = some n ↔
      ∃ ds, List.Forall₂ (IsDigit base) t ds ∧ n = m * base ^ t.length + Nat.ofDigits base ds.reverse := by
  induction t generalizing m with
  | nil => simp [List.forall₂_nil_left_iff, eq_comm (a := n)]
  | cons c t ih =>
    have shift : ∀ (d : Nat) (ds : List Nat), List.Forall₂ (IsDigit base) t ds →
        (m * base + d) * base ^ t.length + Nat.ofDigits base ds.reverse =
          m * base ^ (c :: t).length + Nat.ofDigits base (d :: ds).reverse := by
      intro d ds digits
      rw [List.reverse_cons, Nat.ofDigits_append, Nat.ofDigits_singleton, List.length_reverse, ← digits.length_eq,
        List.length_cons, Nat.pow_succ]
      ring
    simp only [List.foldlM_cons, Option.bind_eq_bind, Option.bind_eq_some_iff, pushDigit?_eq_some_iff small, ih]
    constructor
    · rintro ⟨_, ⟨d, digit, rfl⟩, ds, digits, rfl⟩
      exact ⟨d :: ds, .cons digit digits, shift d ds digits⟩
    · rintro ⟨_, digits, rfl⟩
      cases digits with
      | @cons _ d _ ds digit digits => exact ⟨_, ⟨d, digit, rfl⟩, ds, digits, (shift d ds digits).symm⟩

theorem natInBase?_eq_some_iff (small : base ≤ 16) {t : List Char} {n : Nat} :
    natInBase? base t = some n ↔ WritesNat base t n := by
  unfold natInBase? WritesNat
  cases t with
  | nil => simp
  | cons c t =>
    simp only [List.isEmpty_cons, Bool.false_eq_true, if_false, foldlM_pushDigit?_iff small, Nat.zero_mul, Nat.zero_add,
      ne_eq, reduceCtorEq, not_false_eq_true, true_and]

end Text

namespace Binary64

open Conform.Text

/-! ### Decimals -/

/-- An optional sign. -/
inductive SignText : List Char → Bool → Prop
  | none : SignText [] false
  | plus : SignText ['+'] false
  | minus : SignText ['-'] true

/-- An optional point with the digits after it, of which there may be none. -/
inductive FractionText : List Char → List Char → Prop
  | none : FractionText [] []
  | point {digits : List Char} (all : ∀ c ∈ digits, c.isDigit) : FractionText ('.' :: digits) digits

/-- An optional power of ten: its mark, an optional sign, and one or more digits. -/
inductive PowerText : List Char → Int → Prop
  | none : PowerText [] 0
  | raised {mark : Char} {sign digits : List Char} {negative : Bool} (marked : mark = 'e' ∨ mark = 'E')
      (signed : SignText sign negative) (some : digits ≠ []) (all : ∀ c ∈ digits, c.isDigit) :
      PowerText (mark :: (sign ++ digits)) (if negative then -(decimal digits : Int) else decimal digits)

/-- Digits with an optional point, at least one in all, and an optional power of ten, for `digits * 10 ^ exponent`. -/
inductive LiteralText : List Char → Literal → Prop
  | intro {whole point fraction power : List Char} {exponent : Int} (all : ∀ c ∈ whole, c.isDigit)
      (pointed : FractionText point fraction) (some : whole ++ fraction ≠ []) (raised : PowerText power exponent) :
      LiteralText (whole ++ (point ++ power)) ⟨decimal (whole ++ fraction), exponent - fraction.length⟩

theorem takeSign_eq {sign t : List Char} {negative : Bool} (signed : SignText sign negative)
    (unsigned : ∀ c ∈ t.head?, c ≠ '+' ∧ c ≠ '-') : takeSign (sign ++ t) = (negative, t) := by
  cases signed with
  | none =>
    rw [List.nil_append, takeSign]
    · rintro _ rfl
      exact (unsigned _ rfl).2 rfl
    · rintro _ rfl
      exact (unsigned _ rfl).1 rfl
  | plus => rfl
  | minus => rfl

theorem signText_takeSign (t : List Char) : ∃ sign, SignText sign (takeSign t).1 ∧ t = sign ++ (takeSign t).2 := by
  unfold takeSign
  split
  · exact ⟨_, .minus, rfl⟩
  · exact ⟨_, .plus, rfl⟩
  · exact ⟨_, .none, rfl⟩

theorem exponent?_eq_some_iff {t : List Char} {e : Int} : exponent? t = some e ↔ PowerText t e := by
  constructor
  · intro read
    cases t with
    | nil =>
      cases read
      exact .none
    | cons mark t =>
      rw [exponent?] at read
      split at read
      · rename_i marked
        obtain ⟨sign, signed, same⟩ := signText_takeSign t
        generalize takeSign t = taken at read signed same
        obtain ⟨negative, digits⟩ := taken
        dsimp only at read signed same
        split at read
        · cases read
        · rename_i right
          rw [not_or, List.isEmpty_iff, Bool.not_eq_true, Bool.not_eq_false', List.all_eq_true] at right
          cases read
          rw [same]
          exact .raised marked signed right.1 right.2
      · cases read
  · intro power
    cases power with
    | none => rfl
    | @raised mark sign digits negative marked signed some all =>
      have taken := takeSign_eq signed (unsigned_of_digits all)
      have wrong : ¬ (digits.isEmpty ∨ !digits.all Char.isDigit) := by
        simp [some]
        exact all
      rw [exponent?, if_pos marked, taken]
      dsimp only
      rw [if_neg wrong]

/-- What may follow the digits in front of the point. -/
theorem head_fraction_power {point fraction power : List Char} {e : Int} (pointed : FractionText point fraction)
    (raised : PowerText power e) : ∀ c ∈ (point ++ power).head?, c.isDigit = false := by
  cases pointed with
  | none =>
    cases raised with
    | none => nofun
    | raised marked => rcases marked with rfl | rfl <;> simp
  | point => simp

theorem head_power {power : List Char} {e : Int} (raised : PowerText power e) :
    ∀ c ∈ power.head?, c.isDigit = false ∧ c ≠ '.' := by
  cases raised with
  | none => nofun
  | raised marked => rcases marked with rfl | rfl <;> simp

theorem takeFraction_eq {point fraction power : List Char} {e : Int} (pointed : FractionText point fraction)
    (raised : PowerText power e) : takeFraction (point ++ power) = (fraction, power) := by
  have ends := head_power raised
  cases pointed with
  | none =>
    rw [List.nil_append, takeFraction]
    rintro t rfl
    exact (ends _ rfl).2 rfl
  | point all =>
    rw [List.cons_append, takeFraction, leadingDigits_append all fun c first => (ends c first).1,
      afterDigits_append all fun c first => (ends c first).1]

theorem fractionText_takeFraction (t : List Char) :
    ∃ point, FractionText point (takeFraction t).1 ∧ t = point ++ (takeFraction t).2 := by
  unfold takeFraction
  split
  · rename_i t
    exact ⟨_, .point (isDigit_leadingDigits t), by
      rw [List.cons_append, leadingDigits_append_afterDigits]⟩
  · exact ⟨_, .none, rfl⟩

theorem literalOfText?_eq_some_iff {t : List Char} {l : Literal} : Literal.ofText? t = some l ↔ LiteralText t l := by
  constructor
  · intro read
    have all := isDigit_leadingDigits t
    have text := leadingDigits_append_afterDigits t
    obtain ⟨point, pointed, same⟩ := fractionText_takeFraction (afterDigits t)
    rw [Literal.ofText?] at read
    generalize takeFraction (afterDigits t) = taken at read pointed same
    obtain ⟨fraction, rest⟩ := taken
    dsimp only at read pointed same
    split at read
    · cases read
    · rename_i some
      obtain ⟨e, power, rfl⟩ := Option.map_eq_some_iff.mp read
      rw [exponent?_eq_some_iff] at power
      rw [same] at text
      have some : leadingDigits t ++ fraction ≠ [] := by simpa using some
      have literal := LiteralText.intro all pointed some power
      rwa [text] at literal
  · rintro ⟨all, pointed, some, raised⟩
    have ends := head_fraction_power pointed raised
    have some := some
    rw [Ne, List.append_eq_nil_iff] at some
    rw [Literal.ofText?, leadingDigits_append all ends, afterDigits_append all ends, takeFraction_eq pointed raised]
    dsimp only
    rw [if_neg (by simpa using some), exponent?_eq_some_iff.mpr raised]
    rfl

/-! ### Numbers -/

/-- A decimal with an optional sign. -/
inductive DecimalText : List Char → Bool → Literal → Prop
  | intro {sign t : List Char} {negative : Bool} {l : Literal} (signed : SignText sign negative)
      (literal : LiteralText t l) : DecimalText (sign ++ t) negative l

/-- A decimal starts with a digit or the point, so with no sign and not as a word does. -/
theorem LiteralText.head {t : List Char} {l : Literal} (literal : LiteralText t l) :
    ∃ c ∈ t.head?, c.isDigit ∨ c = '.' := by
  obtain ⟨all, pointed, some, raised⟩ := literal
  rename_i whole _ _ _ _
  cases whole with
  | cons c whole => exact ⟨c, rfl, .inl (all c List.mem_cons_self)⟩
  | nil =>
    cases pointed with
    | none => exact absurd rfl some
    | point => exact ⟨'.', rfl, .inr rfl⟩

theorem LiteralText.unsigned {t : List Char} {l : Literal} (literal : LiteralText t l) :
    ∀ c ∈ t.head?, c ≠ '+' ∧ c ≠ '-' := by
  obtain ⟨d, first, start⟩ := literal.head
  intro c head
  obtain rfl : d = c := Option.some.inj (first.symm.trans head)
  constructor <;> rintro rfl <;> simp at start

/-- The words for what is not finite, in any case. -/
def IsWord (t : List Char) : Prop := String.ofList (t.map Char.toLower) ∈ ["inf", "infinity", "nan"]

theorem IsWord.head {t : List Char} (word : IsWord t) : ∃ c ∈ t.head?, c.toLower = 'i' ∨ c.toLower = 'n' := by
  simp only [IsWord, List.mem_cons, List.not_mem_nil, or_false] at word
  cases t with
  | nil => simp at word
  | cons c t =>
    refine ⟨c, rfl, ?_⟩
    rcases word with same | same | same <;> have chars := congrArg String.toList same <;> simp at chars <;> simp [chars]

theorem IsWord.unsigned {t : List Char} (word : IsWord t) : ∀ c ∈ t.head?, c ≠ '+' ∧ c ≠ '-' := by
  obtain ⟨d, first, letter⟩ := word.head
  intro c head
  obtain rfl : d = c := Option.some.inj (first.symm.trans head)
  constructor <;> rintro rfl <;> exact absurd letter (by decide)

theorem LiteralText.not_isWord {t : List Char} {l : Literal} (literal : LiteralText t l) : ¬ IsWord t := by
  intro word
  obtain ⟨c, first, start⟩ := literal.head
  obtain ⟨d, head, letter⟩ := word.head
  obtain rfl : d = c := Option.some.inj (head.symm.trans first)
  have same : d.toLower = d := by
    rcases start with digit | rfl
    · simp only [Char.isDigit, Bool.and_eq_true, decide_eq_true_eq] at digit
      exact dif_neg fun capital => absurd (UInt32.le_trans capital.1 digit.2) (by decide)
    · rfl
  rw [same] at letter
  rcases letter with rfl | rfl <;> simp at start

theorem DecimalText.ne_nil {t : List Char} {negative : Bool} {l : Literal} (decimal : DecimalText t negative l) :
    t ≠ [] := by
  obtain ⟨signed, literal⟩ := decimal
  obtain ⟨c, first, -⟩ := literal.head
  intro nothing
  rw [(List.append_eq_nil_iff.mp nothing).2] at first
  cases first

/-- A word is no decimal, whatever its sign. -/
theorem not_decimalText_word {sign word : List Char} {signNegative negative : Bool} {l : Literal}
    (signed : SignText sign signNegative) (isWord : IsWord word) : ¬ DecimalText (sign ++ word) negative l := by
  intro decimal
  generalize same : sign ++ word = t at decimal
  obtain ⟨signed', literal⟩ := decimal
  have taken := takeSign_eq signed isWord.unsigned
  rw [same, takeSign_eq signed' literal.unsigned, Prod.mk.injEq] at taken
  exact literal.not_isWord (taken.2 ▸ isWord)

/-- The quotient that a literal writes is rounded as a quotient. -/
theorem ofLiteral_eq (negative : Bool) (l : Literal) :
    ofLiteral negative l = ofRatio negative (l.digits * 10 ^ l.exponent.toNat) (10 ^ (-l.exponent).toNat) :=
  ofDecimal_eq negative l.digits l.exponent

/-- A number is the nearest one to what a literal writes. -/
def NearestDecimal (negative : Bool) (l : Literal) : Binary64 → Prop :=
  Nearest negative (l.digits * 10 ^ l.exponent.toNat) (10 ^ (-l.exponent).toNat)

theorem nearestDecimal_iff {negative : Bool} {l : Literal} {x : Binary64} :
    NearestDecimal negative l x ↔ ofLiteral negative l = x ∧ x.isFinite = true := by
  rw [NearestDecimal, nearest_iff (Nat.pow_pos (by decide)), ofLiteral_eq]

theorem ofText?_finite_iff {t : List Char} {x : Binary64} :
    (ofText? t = some x ∧ x.isFinite = true) ↔
      ∃ negative l, DecimalText t negative l ∧ NearestDecimal negative l x := by
  simp only [nearestDecimal_iff]
  constructor
  · rintro ⟨read, finite⟩
    obtain ⟨sign, signed, same⟩ := signText_takeSign t
    rw [ofText?] at read
    generalize takeSign t = taken at read signed same
    obtain ⟨negative, rest⟩ := taken
    dsimp only at read signed same
    split at read
    · cases read
      cases finite
    · split at read
      · cases read
        cases finite
      · obtain ⟨l, literal, rounded⟩ := Option.map_eq_some_iff.mp read
        rw [same]
        exact ⟨negative, l, .intro signed (literalOfText?_eq_some_iff.mp literal), rounded, finite⟩
  · rintro ⟨negative, l, decimal, rounded, finite⟩
    refine ⟨?_, finite⟩
    obtain ⟨signed, literal⟩ := decimal
    have plain := literal.not_isWord
    simp only [IsWord, List.mem_cons, List.not_mem_nil, or_false, not_or] at plain
    rw [ofText?, takeSign_eq signed literal.unsigned]
    dsimp only
    rw [if_neg (by simp [plain]), if_neg plain.2.2, literalOfText?_eq_some_iff.mpr literal, ← rounded]
    rfl

end Binary64

namespace LeafType

open Conform.Text Conform.Binary64

/-! ### Numbers in any base -/

/-- The marks of bases. -/
def marks : List (Char × Nat) := [('x', 16), ('X', 16), ('o', 8), ('O', 8), ('b', 2), ('B', 2)]

theorem announcedBase?_eq_some_iff {t digits : List Char} {base : Nat} :
    announcedBase? t = some (base, digits) ↔ ∃ mark, (mark, base) ∈ marks ∧ t = '0' :: mark :: digits := by
  constructor
  · intro announced
    unfold announcedBase? at announced
    split at announced
    · rename_i mark rest
      refine ⟨mark, ?_⟩
      split at announced
      · rename_i marked
        cases announced
        rcases marked with rfl | rfl <;> simp [marks]
      · split at announced
        · rename_i marked
          cases announced
          rcases marked with rfl | rfl <;> simp [marks]
        · split at announced
          · rename_i marked
            cases announced
            rcases marked with rfl | rfl <;> simp [marks]
          · cases announced
    · cases announced
  · rintro ⟨mark, marked, rfl⟩
    simp only [marks, List.mem_cons, Prod.mk.injEq, List.not_mem_nil, or_false] at marked
    rcases marked with ⟨rfl, rfl⟩ | ⟨rfl, rfl⟩ | ⟨rfl, rfl⟩ | ⟨rfl, rfl⟩ | ⟨rfl, rfl⟩ | ⟨rfl, rfl⟩ <;> rfl

theorem base_le_of_mem_marks {mark : Char} {base : Nat} (marked : (mark, base) ∈ marks) : base ≤ 16 := by
  simp only [marks, List.mem_cons, Prod.mk.injEq, List.not_mem_nil, or_false] at marked
  omega

/-- The texts that stand for numbers, no blanks around them. -/
inductive NumberText : List Char → Binary64 → Prop
  | empty : NumberText [] (Binary64.zero false)
  | based {mark : Char} {base n : Nat} {digits : List Char} {x : Binary64} (marked : (mark, base) ∈ marks)
      (written : WritesNat base digits n) (fits : n < 2 ^ 64) (nearest : Nearest false n 1 x) :
      NumberText ('0' :: mark :: digits) x
  | decimal {t : List Char} {negative : Bool} {l : Literal} {x : Binary64}
      (plain : ∀ mark base digits, (mark, base) ∈ marks → t ≠ '0' :: mark :: digits)
      (written : DecimalText t negative l) (nearest : NearestDecimal negative l x) : NumberText t x

theorem numberOfText?_iff {s : List Char} {x : Binary64} :
    (numberOfText? s = some x ∧ x.isFinite = true) ↔ NumberText (trim s) x := by
  rw [numberOfText?]
  generalize trim s = t
  constructor
  · rintro ⟨read, finite⟩
    split at read
    · rename_i nothing
      rw [List.isEmpty_iff.mp nothing]
      cases read
      exact .empty
    · split at read
      · rename_i base digits announced
        obtain ⟨mark, marked, rfl⟩ := announcedBase?_eq_some_iff.mp announced
        obtain ⟨n, written, rounded⟩ := Option.bind_eq_some_iff.mp read
        split at rounded
        · rename_i fits
          have nearest : Nearest false n 1 x := (nearest_iff Nat.one_pos).mpr ⟨Option.some.inj rounded, finite⟩
          exact .based marked ((natInBase?_eq_some_iff (base_le_of_mem_marks marked)).mp written) fits nearest
        · cases rounded
      · rename_i plain
        obtain ⟨negative, l, written, nearest⟩ := ofText?_finite_iff.mp ⟨read, finite⟩
        refine .decimal ?_ written nearest
        rintro mark base digits marked rfl
        rw [announcedBase?_eq_some_iff.mpr ⟨mark, marked, rfl⟩] at plain
        cases plain
  · intro text
    cases text with
    | empty => exact ⟨rfl, rfl⟩
    | @based mark base n digits x marked written fits nearest =>
      obtain ⟨rfl, finite⟩ := (nearest_iff Nat.one_pos).mp nearest
      refine ⟨?_, finite⟩
      rw [announcedBase?_eq_some_iff.mpr ⟨mark, marked, rfl⟩]
      dsimp only
      rw [(natInBase?_eq_some_iff (base_le_of_mem_marks marked)).mpr written, Option.bind_some,
        if_pos (show n < 1 <<< 64 from fits)]
      rfl
    | @decimal _ negative l _ plain written nearest =>
      obtain ⟨read, finite⟩ := ofText?_finite_iff.mpr ⟨negative, l, written, nearest⟩
      refine ⟨?_, finite⟩
      have unmarked : announcedBase? t = none := by
        cases announced : announcedBase? t with
        | none => rfl
        | some found =>
          obtain ⟨mark, marked, same⟩ := announcedBase?_eq_some_iff.mp announced
          exact absurd same (plain mark found.1 found.2 marked)
      rw [if_neg (by simpa using written.ne_nil), unmarked]
      exact read

theorem not_numberText_word {sign word : List Char} {negative : Bool} {x : Binary64} (signed : SignText sign negative)
    (isWord : IsWord word) : ¬ NumberText (sign ++ word) x := by
  intro text
  generalize same : sign ++ word = t at text
  cases text with
  | empty =>
    obtain ⟨c, first, -⟩ := isWord.head
    rw [(List.append_eq_nil_iff.mp same).2] at first
    cases first
  | based =>
    cases signed <;> cases same
    obtain ⟨c, first, letter⟩ := isWord.head
    cases first
    simp at letter
  | decimal _ written => exact not_decimalText_word signed isWord (same ▸ written)

/-! ### The type `number` -/

theorem takes_of_numberText {s : String} {x : Binary64} (text : NumberText (trim s.toList) x) :
    number.Takes (.string s) (.number x) := by
  obtain ⟨read, finite⟩ := numberOfText?_iff.mpr text
  exact takes_of_numberOf read finite

theorem refuses_of_not_numberText {s : String} (other : ¬ ∃ x, NumberText (trim s.toList) x) :
    number.Refuses "Not a number" (.string s) := by
  apply refuses_of_coerce
  cases read : numberOfText? s.toList with
  | none => simp [coerce?, numberOf?, read]
  | some x =>
    have infinite : x.isFinite ≠ true := fun finite => other ⟨x, numberOfText?_iff.mp ⟨read, finite⟩⟩
    simp [coerce?, numberOf?, read, infinite]

/-- A string is trimmed to one text. If that stands for a number, the type `number` gives the number and leaves the log
alone; if it stands for none, as the words for what is not finite do, it records one error. -/
theorem number_reads_grammar (s : String) :
    ∃ t, (∀ u, Trims s.toList u ↔ u = t) ∧
      (∀ x, NumberText t x → number.Takes (.string s) (.number x)) ∧
      ((¬ ∃ x, NumberText t x) → number.Refuses "Not a number" (.string s)) ∧
      ∀ sign word negative, SignText sign negative → IsWord word → t = sign ++ word → ¬ ∃ x, NumberText t x := by
  refine ⟨trim s.toList, fun u => ⟨Trims.eq_trim, ?_⟩, fun x => takes_of_numberText, refuses_of_not_numberText, ?_⟩
  · rintro rfl
    exact trims_trim s.toList
  · rintro sign word negative signed isWord same ⟨x, text⟩
    exact not_numberText_word signed isWord (same ▸ text)

/-- A mask with a base and blanks around it is read, and a word is not. -/
theorem mask_reads : number.Takes (.string " 0xFf\n") (.number (Binary64.ofNat 255)) ∧
    number.Refuses "Not a number" (.string "-Infinity") := by
  constructor
  · obtain ⟨t, trimmed, reads, -, -⟩ := number_reads_grammar " 0xFf\n"
    have trims : Trims " 0xFf\n".toList ['0', 'x', 'F', 'f'] :=
      ⟨⟨[' '], ['\n'], by decide, by simp [isBlank], by simp [isBlank]⟩, by simp [isBlank], by simp [isBlank]⟩
    obtain rfl := (trimmed _).mp trims
    have written : WritesNat 16 ['F', 'f'] 255 :=
      ⟨[15, 15], by decide, .cons (by unfold IsDigit; decide) (.cons (by unfold IsDigit; decide) .nil), by decide⟩
    exact reads _ (.based (by decide) written (by decide)
      ((nearest_iff Nat.one_pos).mpr ⟨rfl, isFinite_ofNat (by decide)⟩))
  · obtain ⟨t, trimmed, -, refuses, unread⟩ := number_reads_grammar "-Infinity"
    have trims : Trims "-Infinity".toList ('-' :: "Infinity".toList) :=
      ⟨⟨[], [], by simp, by simp, by simp⟩, by simp [isBlank], by simp [isBlank]⟩
    have word : IsWord "Infinity".toList := by unfold IsWord; decide
    have same := (trimmed _).mp trims
    exact refuses (unread ['-'] _ _ .minus word same.symm)

end LeafType

end Conform
