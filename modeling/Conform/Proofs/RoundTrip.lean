import Conform.Proofs.Reading

/-!
# Round trips

Reading the text of a value gives the value in its normal form (`Value.norm`) if numbers are read to the nearest one.
Read the quick way, a number that has a fraction or is too great to be written as an integer may come back as another
one; it is itself when it is spelled with few digits and a power near zero (`Binary64.reread_scaled`).
-/

namespace Conform

namespace Binary64

open Conform.Json Conform.Text

/-- Zero has no sign in a document. -/
def plainZero (x : Binary64) : Binary64 := if x.isZero then zero false else x

/-- A number is written as an integer or spelled by a short numeral. -/
def SpelledShort : Binary64 → Prop
  | finite negative rank =>
    (finite negative rank).exactInteger? = none → ((shortest .even rank).spelling.numeral negative).Short
  | _ => True

instance : DecidablePred SpelledShort
  | finite _ _ => inferInstanceAs (Decidable (_ = _ → _))
  | infinite _ | nan => isTrue True.intro

theorem nearest_spelling (d : Decimal) (negative : Bool) :
    (d.spelling.numeral negative).nearest = ofRank negative (decimalRank d.digits d.exponent) := by
  obtain ⟨zeros, digits, power⟩ := d.spelling_spells
  rw [Numeral.nearest, Spelling.numeral, digits, power, ofDecimal_eq, decimalRank_mul_pow]

theorem nearest_shortest (negative : Bool) (rank : Fin rankCount) :
    ((shortest .even rank).spelling.numeral negative).nearest = finite negative rank := by
  rw [nearest_spelling, decimalRank_shortest, ofRank_of_lt rank.isLt]

theorem isFinite_plainZero {x : Binary64} (whole : x.isFinite) : x.plainZero.isFinite := by
  unfold plainZero
  split
  · rfl
  · exact whole

theorem plainZero_of_ne {negative : Bool} {rank : Fin rankCount} (nonzero : rank.val ≠ 0) :
    (finite negative rank).plainZero = finite negative rank := if_neg (by simpa [isZero] using nonzero)

theorem ne_zero_of_real {negative : Bool} {rank : Fin rankCount} (real : (finite negative rank).exactInteger? = none) :
    rank.val ≠ 0 := by
  intro zero
  rw [exactInteger?_of_zero negative zero] at real
  cases real

/-- A number that is written as an integer is read as itself. -/
theorem ofInt_of_exact {x : Binary64} {n : Int} (exact : x.exactInteger? = some n) : ofInt n = x.plainZero := by
  obtain ⟨whole, value, -⟩ := exactInteger?_some exact
  cases x with
  | finite negative rank =>
    rw [integer?] at value
    split at value
    · rename_i divides
      have magnitude := Nat.div_mul_cancel (Nat.dvd_of_mod_eq_zero divides)
      generalize units rank / unitsPerOne = m at value magnitude
      cases value
      have abs : (signed negative m).natAbs = m := by cases negative <;> simp [signed]
      have rounded : nearestRank (m * unitsPerOne) 1 = rank := by
        rw [magnitude, ← Nat.mul_one (units rank)]
        exact nearestRank_exact Nat.one_pos
      rw [ofInt, abs, ofRatio, rounded, ofRank_of_lt rank.isLt]
      by_cases zero : rank.val = 0
      · have none : m = 0 := by
          rw [zero, units_zero] at magnitude
          exact (Nat.mul_eq_zero.mp magnitude).resolve_right (Nat.ne_of_gt unitsPerOne_pos)
        have positive : decide (signed negative m < 0) = false := by cases negative <;> simp [signed, none]
        rw [positive, plainZero, if_pos (by simpa [isZero] using zero), Binary64.zero]
        exact congrArg _ (Fin.ext zero)
      · have some : 0 < m := by
          refine Nat.pos_of_ne_zero fun none => Nat.ne_of_gt (units_pos (Nat.pos_of_ne_zero zero)) ?_
          rw [← magnitude, none, Nat.zero_mul]
        have same : decide (signed negative m < 0) = negative := by
          cases negative
          · simp [signed]
          · simp [signed, some]
        rw [plainZero_of_ne zero, same]
    · cases value
  | _ => cases whole

theorem reread_nearest {x : Binary64} (whole : x.isFinite) : x.reread Numeral.nearest = x.plainZero := by
  cases exact : x.exactInteger? with
  | some n => rw [reread_exact exact, ofInt_of_exact exact]
  | none =>
    cases x with
    | finite negative rank => rw [reread_real exact, nearest_shortest, plainZero_of_ne (ne_zero_of_real exact)]
    | _ => cases whole

/-- The quick way is exact for numbers that are written as integers or spelled short. -/
theorem reread_scaled {x : Binary64} (whole : x.isFinite) (short : x.SpelledShort) :
    x.reread Numeral.scaled = x.plainZero := by
  rw [← reread_nearest whole]
  cases exact : x.exactInteger? with
  | some n => rw [reread_exact exact, reread_exact exact]
  | none =>
    cases x with
    | finite negative rank =>
      rw [reread_real exact, reread_real exact, Numeral.scaled_eq_nearest (short exact)]
    | _ => cases whole

/-- The greatest numbers, for which rounding three times is too rough, are looked at one by one. -/
theorem isFinite_scaled_last : ∀ negative, ∀ k < 3,
    ((shortest .even (rankCount - 1 - k)).spelling.numeral negative).scaled.isFinite := by
  decide +kernel

theorem isFinite_reread_scaled {x : Binary64} (whole : x.isFinite) : (x.reread Numeral.scaled).isFinite := by
  cases exact : x.exactInteger? with
  | some n =>
    obtain ⟨-, -, small⟩ := exactInteger?_some exact
    rw [reread_exact exact]
    simp only [maxExactInteger, binade] at small
    exact isFinite_ofInt (by omega)
  | none =>
    cases x with
    | finite negative rank =>
      rw [reread_real exact]
      by_cases low : rank.val < rankCount - 1 - 2
      · obtain ⟨zeros, digits, power⟩ := (shortest .even rank).spelling_spells
        refine Numeral.isFinite_scaled _ ?_ ?_
        · have fits := Decimal.decimal_whole_lt (digits_shortest_ne .even (ne_zero_of_real exact))
          exact Nat.lt_trans fits (by decide)
        · rw [Spelling.numeral, digits, power, decimalRank_mul_pow, decimalRank_shortest]
          exact low
      · have last := isFinite_scaled_last negative (rankCount - 1 - rank) (by omega)
        rwa [show rankCount - 1 - (rankCount - 1 - rank.val) = rank by omega] at last
    | _ => cases whole

theorem plainZero_equal {x : Binary64} (whole : x.isFinite) : x.plainZero.equal x := by
  unfold plainZero
  split
  · rename_i none
    cases x with
    | finite negative rank =>
      have same : (zero false).equal (finite negative rank) =
          ((zero false).isZero && (finite negative rank).isZero || decide (zero false = finite negative rank)) := rfl
      rw [same, none]
      rfl
    | _ => cases whole
  · exact equal_self fun none => by rw [none] at whole; cases whole

end Binary64

theorem Table.get?_of_mem {α : Type} {t : Table α} (distinct : t.Distinct) {key : String} {a : α} (member : (key, a) ∈ t) :
    get? t key = some a := by
  induction t with
  | nil => cases member
  | cons e t ih =>
    obtain ⟨k, b⟩ := e
    obtain ⟨absent, distinct⟩ := List.nodup_cons.mp distinct
    rcases List.mem_cons.mp member with same | later
    · cases same
      rw [get?_cons, if_pos rfl]
    · have other : k ≠ key := by
        rintro rfl
        exact absent (List.mem_map.mpr ⟨_, later, rfl⟩)
      rw [get?_cons, if_neg other, ih distinct later]

namespace Value

/-- The normal form of a value as data from documents. -/
def norm (v : Value) : Value := v.normal Binary64.plainZero

open Conform.Json

theorem writeNumber_plainZero (x : Binary64) : writeNumber x.plainZero = writeNumber x := by
  unfold Binary64.plainZero
  split
  · rename_i zero
    cases x with
    | finite negative rank =>
      have none : rank.val = 0 := by simpa [Binary64.isZero] using zero
      rw [Binary64.writeNumber_exact (Binary64.exactInteger?_of_zero negative none)]
      exact Binary64.writeNumber_exact (Binary64.exactInteger?_of_zero false rfl)
    | _ => simp [Binary64.isZero] at zero
  · rfl

mutual

/-- A value and its normal form have the same text. -/
theorem write_norm (layout : Layout) (level : Nat) (v : Value) : write layout level v.norm = write layout level v := by
  match v with
  | .null => rfl
  | .bool b => rfl
  | .number x =>
    cases x with
    | finite negative rank => exact writeNumber_plainZero _
    | _ => rfl
  | .string s => rfl
  | .date d => simp only [norm, normal, write, String.toList_ofList]
  | .array [] => rfl
  | .array (v :: items) =>
    have first := write_norm layout (level + 1) v
    simp only [norm] at first ⊢
    simp only [normal, normalItems, write, first, writeItems_norm layout (level + 1) items]
  | .object [] => rfl
  | .object ((key, v) :: fields) =>
    have first := write_norm layout (level + 1) v
    simp only [norm] at first ⊢
    simp only [normal, normalFields, write, first, writeFields_norm layout (level + 1) fields]

theorem writeItems_norm (layout : Layout) (level : Nat) (items : List Value) :
    writeItems layout level (normalItems Binary64.plainZero items) = writeItems layout level items := by
  match items with
  | [] => rfl
  | v :: items =>
    have first := write_norm layout level v
    simp only [norm] at first
    simp only [normalItems, writeItems, first, writeItems_norm layout level items]

theorem writeFields_norm (layout : Layout) (level : Nat) (fields : List (String × Value)) :
    writeFields layout level (normalFields Binary64.plainZero fields) = writeFields layout level fields := by
  match fields with
  | [] => rfl
  | (key, v) :: fields =>
    have first := write_norm layout level v
    simp only [norm] at first
    simp only [normalFields, writeFields, first, writeFields_norm layout level fields]

end

mutual

/-- The numbers in a value, at any depth. -/
def numbers : Value → List Binary64
  | number x => [x]
  | array items => numbersItems items
  | object fields => numbersFields fields
  | _ => []

def numbersItems : List Value → List Binary64
  | [] => []
  | v :: items => numbers v ++ numbersItems items

def numbersFields : List (String × Value) → List Binary64
  | [] => []
  | (_, v) :: fields => numbers v ++ numbersFields fields

end

mutual

/-- The dates in a value, at any depth. -/
def dates : Value → List Instant
  | date d => [d]
  | array items => datesItems items
  | object fields => datesFields fields
  | _ => []

def datesItems : List Value → List Instant
  | [] => []
  | v :: items => dates v ++ datesItems items

def datesFields : List (String × Value) → List Instant
  | [] => []
  | (_, v) :: fields => dates v ++ datesFields fields

end

theorem mem_datesItems {items : List Value} {d : Instant} : d ∈ datesItems items ↔ ∃ v ∈ items, d ∈ v.dates := by
  induction items with
  | nil => simp [datesItems]
  | cons v items ih => simp [datesItems, ih]

theorem mem_datesFields {fields : List (String × Value)} {d : Instant} :
    d ∈ datesFields fields ↔ ∃ e ∈ fields, d ∈ e.2.dates := by
  induction fields with
  | nil => simp [datesFields]
  | cons e fields ih => simp [datesFields, ih]

section

variable {f g : Binary64 → Binary64}

mutual

/-- The normal form depends on what becomes of the numbers that are in a value. -/
theorem normal_congr (v : Value) (same : ∀ x ∈ v.numbers, x.isFinite → f x = g x) : v.normal f = v.normal g := by
  match v with
  | .null | .bool _ | .string _ | .date _ => rfl
  | .number x =>
    rw [normal, normal]
    split
    · rw [same x List.mem_cons_self ‹_›]
    · rfl
  | .array items => rw [normal, normal, normalItems_congr items same]
  | .object fields => rw [normal, normal, normalFields_congr fields same]

theorem normalItems_congr (items : List Value) (same : ∀ x ∈ numbersItems items, x.isFinite → f x = g x) :
    normalItems f items = normalItems g items := by
  match items with
  | [] => rfl
  | v :: items =>
    rw [numbersItems, List.forall_mem_append] at same
    rw [normalItems, normalItems, normal_congr v same.1, normalItems_congr items same.2]

theorem normalFields_congr (fields : List (String × Value))
    (same : ∀ x ∈ numbersFields fields, x.isFinite → f x = g x) : normalFields f fields = normalFields g fields := by
  match fields with
  | [] => rfl
  | (key, v) :: fields =>
    rw [numbersFields, List.forall_mem_append] at same
    rw [normalFields, normalFields, normal_congr v same.1, normalFields_congr fields same.2]

end

end

mutual

/-- Where every number is finite and there is no date, the normal form is the same data. -/
theorem norm_equal (v : Value) (distinct : v.Distinct) (whole : ∀ x ∈ v.numbers, x.isFinite) (dateless : v.dates = []) :
    v.norm.equal v := by
  match v with
  | .null => rfl
  | .bool b => simp [norm, normal, equal]
  | .string s => simp [norm, normal, equal]
  | .date d => cases dateless
  | .number x =>
    have finite := whole x List.mem_cons_self
    rw [norm, normal, if_pos finite, equal]
    exact Binary64.plainZero_equal finite
  | .array items =>
    rw [norm, normal, equal]
    exact normItems_equal items distinct whole dateless
  | .object fields =>
    have each := normFields_equal fields distinct.2 whole dateless fields fun e => Table.get?_of_mem distinct.1
    rw [norm, normal, equal, each, normalFields_eq_map, List.length_map, beq_self_eq_true]
    rfl

theorem normItems_equal (items : List Value) (distinct : DistinctItems items)
    (whole : ∀ x ∈ numbersItems items, x.isFinite) (dateless : datesItems items = []) :
    equalItems (normalItems Binary64.plainZero items) items := by
  match items with
  | [] => rfl
  | v :: items =>
    rw [numbersItems, List.forall_mem_append] at whole
    rw [datesItems, List.append_eq_nil_iff] at dateless
    have first := norm_equal v distinct.1 whole.1 dateless.1
    have later := normItems_equal items distinct.2 whole.2 dateless.2
    rw [norm] at first
    rw [normalItems, equalItems, first, later]
    rfl

theorem normFields_equal (fields : List (String × Value)) (distinct : DistinctFields fields)
    (whole : ∀ x ∈ numbersFields fields, x.isFinite) (dateless : datesFields fields = []) (all : Table Value)
    (found : ∀ e ∈ fields, Table.get? all e.1 = some e.2) :
    equalFields (normalFields Binary64.plainZero fields) all := by
  -- The fields left to compare get fewer, the object in which they are looked up stays whole.
  match fields with
  | [] => rfl
  | (key, v) :: fields =>
    rw [numbersFields, List.forall_mem_append] at whole
    rw [datesFields, List.append_eq_nil_iff] at dateless
    obtain ⟨here, found⟩ := List.forall_mem_cons.mp found
    have first := norm_equal v distinct.1 whole.1 dateless.1
    have later := normFields_equal fields distinct.2 whole.2 dateless.2 all found
    rw [norm] at first
    rw [normalFields, equalFields, here, later]
    simpa using first

end

theorem spaced_of_known {layout : Layout} (known : layout = compact ∨ layout = indented) : layout.Spaced := by
  rcases known with rfl | rfl
  · exact spaced_compact
  · exact spaced_indented

theorem reads_data {layout : Layout} (spaced : layout.Spaced) : Rules.data.Reads layout :=
  ⟨fun _ => Binary64.isFinite_reread_scaled, spaced⟩

theorem reads_nearest {layout : Layout} (spaced : layout.Spaced) :
    Rules.Reads { Rules.data with number := Numeral.nearest } layout := by
  refine ⟨fun x whole => ?_, spaced⟩
  rw [Binary64.reread_nearest whole]
  exact Binary64.isFinite_plainZero whole

theorem reads_record {layout : Layout} (spaced : layout.Spaced) : Rules.record.Reads layout :=
  ⟨(reads_data spaced).finite, spaced⟩

theorem reads_record_nearest {layout : Layout} (spaced : layout.Spaced) :
    Rules.Reads { Rules.record with number := Numeral.nearest } layout :=
  ⟨(reads_nearest spaced).finite, spaced⟩

theorem ofJsonText_write {v : Value} (distinct : v.Distinct) (deep : v.depth ≤ 127) {layout : Layout}
    (spaced : layout.Spaced) : ofJsonText (write layout 0 v) = .ok (v.normal (Binary64.reread Numeral.scaled)) := by
  obtain ⟨j, read, data⟩ := reads_write (reads_data spaced) v distinct deep 0
  rw [ofJsonText, read]
  exact data

/-- Numbers are assumed to be read to the nearest one. -/
theorem ofText_nearest_write {v : Value} (distinct : v.Distinct) (deep : v.depth ≤ 127) {layout : Layout}
    (spaced : layout.Spaced) : ∃ j, ofText { Rules.data with number := Numeral.nearest } (write layout 0 v) = .ok j ∧
      ofJson j = .ok v.norm := by
  obtain ⟨j, read, data⟩ := reads_write (reads_nearest spaced) v distinct deep 0
  rw [normal_congr v fun _ _ => Binary64.reread_nearest] at data
  exact ⟨j, read, data⟩

/-- Reading the text of a value, compact or indented, gives its normal form but for numbers that the quick way misses,
and no text of a value is refused. -/
theorem reading_undoes_writing {v : Value} (distinct : v.Distinct) (deep : v.depth ≤ 127) {layout : Layout}
    (known : layout = compact ∨ layout = indented) :
    ofJsonText (write layout 0 v) = .ok (v.normal (Binary64.reread Numeral.scaled)) ∧
    (∀ x ∈ v.numbers, x.isFinite → (x.reread Numeral.scaled).isFinite ∧
      (x.SpelledShort → x.reread Numeral.scaled = x.plainZero)) ∧
    ((∀ x ∈ v.numbers, x.SpelledShort) → ofJsonText (write layout 0 v) = .ok v.norm) ∧
    (∃ j, ofText { Rules.data with number := Numeral.nearest } (write layout 0 v) = .ok j ∧ ofJson j = .ok v.norm) ∧
    write layout 0 v.norm = write layout 0 v := by
  have spaced := spaced_of_known known
  have quick := ofJsonText_write distinct deep spaced
  refine ⟨quick, fun x _ whole => ?_, fun short => ?_, ofText_nearest_write distinct deep spaced, write_norm layout 0 v⟩
  · exact ⟨Binary64.isFinite_reread_scaled whole, Binary64.reread_scaled whole⟩
  · rw [quick, norm, normal_congr v fun x inside whole => Binary64.reread_scaled whole (short x inside)]

/-- What a gauge showed: a time, a zero with a sign, a number that is too great to be written as an integer, and one
that is none. -/
def gauge : Value :=
  .object [("at", .date ⟨0, 0, false, by decide, by decide⟩), ("low", .number (.zero true)),
    ("shown", .array [.number (.ofDecimal false 5 (-1)), .number (.ofDecimal false 1152921504606846976 0), .number .nan]),
    ("note", .string "\"dry\"\n")]

def gaugeData : Value :=
  .object [("at", .string "1970-01-01T00:00:00Z"), ("low", .number (.zero false)),
    ("shown", .array [.number (.ofDecimal false 5 (-1)), .number (.ofDecimal false 1152921504606846976 0), .null]),
    ("note", .string "\"dry\"\n")]

theorem norm_gauge : gauge.norm = gaugeData := by
  have zero : (Binary64.zero true).isFinite ∧ (Binary64.zero true).plainZero = .zero false := by decide
  have same : ∀ x ∈ [Binary64.ofDecimal false 5 (-1), .ofDecimal false 1152921504606846976 0],
      x.isFinite ∧ x.plainZero = x := by decide +kernel
  have text : String.ofList (Instant.textZ ⟨0, 0, false, by decide, by decide⟩) = "1970-01-01T00:00:00Z" := by
    decide +kernel
  have none : Binary64.nan.isFinite = false := rfl
  obtain ⟨half, great⟩ : _ ∧ _ := by simpa using same
  simp [gauge, gaugeData, norm, normal, normalFields, normalItems, zero, half, great, text, none]

theorem gauge_read_back : gauge.Distinct ∧ gauge.depth ≤ 127 ∧ (∀ x ∈ gauge.numbers, x.SpelledShort) ∧
    ofJsonText (write indented 0 gauge) = .ok gaugeData ∧
    (∃ j, ofText { Rules.data with number := Numeral.nearest } (write indented 0 gauge) = .ok j ∧
      ofJson j = .ok gaugeData) ∧
    write indented 0 gaugeData = write indented 0 gauge := by
  have distinct : gauge.Distinct := by
    simp [gauge, Distinct, DistinctFields, DistinctItems, Table.Distinct, Table.keys]
  have deep : gauge.depth ≤ 127 := by decide
  have short : ∀ x ∈ gauge.numbers, x.SpelledShort := by decide +kernel
  obtain ⟨-, -, quick, nearest, text⟩ := reading_undoes_writing distinct deep (.inr rfl)
  rw [norm_gauge] at quick nearest text
  exact ⟨distinct, deep, short, quick short, nearest, text⟩

/-- A number of one digit is read as the one after it. -/
theorem one_digit_misread : ∃ x : Binary64, (number x).Distinct ∧ (number x).depth ≤ 127 ∧
    write compact 0 (number x) = ['9', 'e', '1', '3', '3'] ∧
    ofJsonText (write compact 0 (number x)) ≠ .ok (number x).norm := by
  have text : writeNumber (.ofDecimal false 9 133) = ['9', 'e', '1', '3', '3'] := by decide +kernel
  have finite : (Binary64.ofDecimal false 9 133).isFinite := by decide +kernel
  have other : (Binary64.ofDecimal false 9 133).reread Numeral.scaled ≠ (Binary64.ofDecimal false 9 133).plainZero := by
    decide +kernel
  have distinct : (number (.ofDecimal false 9 133)).Distinct := True.intro
  have deep : (number (.ofDecimal false 9 133)).depth ≤ 127 := by decide
  refine ⟨.ofDecimal false 9 133, distinct, deep, text, ?_⟩
  rw [ofJsonText_write distinct deep spaced_compact, norm, normal, normal, if_pos finite, if_pos finite]
  intro same
  injection same with same
  injection same with same
  exact other same

end Value

end Conform
