import Conform.Json.Data
import Conform.Proofs.Declaration
import Conform.Proofs.Numerals
import Conform.Proofs.Overlays
import Conform.Proofs.Spelling
import Conform.Proofs.Strings

/-!
# Reading what is written

The text of a value is read back, in any layout of spaces, as one document (`Json.document`, `ofText_write`), and that
document is the value in normal form: what is not finite is null, a date is a string, and numbers are taken as the reader
takes numerals (`Value.normal`, `ofJson_document`).
-/

namespace Conform

namespace Binary64

/-- The number that a finite number is read as when it is written in a document. -/
def reread (take : Json.Numeral → Binary64) (x : Binary64) : Binary64 :=
  match x.exactInteger?, x with
  | some n, _ => ofInt n
  | none, finite negative rank => take ((shortest .even rank).spelling.numeral negative)
  | none, x => x

theorem exactInteger?_some {x : Binary64} {n : Int} (exact : x.exactInteger? = some n) :
    x.isFinite = true ∧ x.integer? = some n ∧ n.natAbs ≤ maxExactInteger := by
  unfold exactInteger? at exact
  split at exact
  · rename_i m whole
    split at exact
    · cases exact
      refine ⟨?_, whole, ‹_›⟩
      cases x <;> simp [integer?] at whole
      rfl
    · cases exact
  · cases exact

theorem exactInteger?_of_zero (negative : Bool) {rank : Fin rankCount} (zero : rank.val = 0) :
    (finite negative rank).exactInteger? = some 0 := by
  have none : units rank = 0 := zero ▸ units_zero
  simp [exactInteger?, integer?, none, signed]

variable {take : Json.Numeral → Binary64} {x : Binary64} {n : Int} {negative : Bool} {rank : Fin rankCount}

theorem reread_exact (exact : x.exactInteger? = some n) : reread take x = ofInt n := by
  unfold reread
  rw [exact]

theorem reread_real (real : (finite negative rank).exactInteger? = none) :
    reread take (finite negative rank) = take ((shortest .even rank).spelling.numeral negative) := by
  generalize same : finite negative rank = x at real ⊢
  unfold reread
  rw [real, ← same]

theorem writeNumber_exact (exact : x.exactInteger? = some n) : Json.writeNumber x = Json.writeInt n := by
  unfold Json.writeNumber
  rw [exact]

theorem writeNumber_real (real : (finite negative rank).exactInteger? = none) :
    Json.writeNumber (finite negative rank) = Json.numberStyle.write negative rank := by
  generalize same : finite negative rank = x at real ⊢
  unfold Json.writeNumber
  rw [real, ← same]

end Binary64

namespace Value

mutual

/-- The normal form of a value as data: null for what is not finite, strings for dates, and other numbers by `f`. -/
def normal (f : Binary64 → Binary64) : Value → Value
  | null => null
  | bool b => bool b
  | number x => if x.isFinite then number (f x) else null
  | string s => string s
  | date d => string (String.ofList d.textZ)
  | array items => array (normalItems f items)
  | object fields => object (normalFields f fields)

def normalItems (f : Binary64 → Binary64) : List Value → List Value
  | [] => []
  | v :: items => normal f v :: normalItems f items

def normalFields (f : Binary64 → Binary64) : List (String × Value) → List (String × Value)
  | [] => []
  | (key, v) :: fields => (key, normal f v) :: normalFields f fields

end

theorem keys_normalFields (f : Binary64 → Binary64) (fields : Table Value) :
    Table.keys (normalFields f fields) = Table.keys fields := by
  induction fields with
  | nil => rfl
  | cons e fields ih =>
    obtain ⟨key, v⟩ := e
    rw [normalFields, Table.keys_cons, Table.keys_cons, ih]

theorem normalFields_eq_map (f : Binary64 → Binary64) (fields : List (String × Value)) :
    normalFields f fields = fields.map fun e => (e.1, e.2.normal f) := by
  induction fields with
  | nil => rfl
  | cons e fields ih => rw [normalFields, ih, List.map_cons]

theorem get?_normalFields (f : Binary64 → Binary64) (fields : Table Value) (name : String) :
    Table.get? (normalFields f fields) name = (Table.get? fields name).map (·.normal f) := by
  induction fields with
  | nil => rfl
  | cons e fields ih =>
    obtain ⟨key, v⟩ := e
    rw [normalFields, Table.get?_cons, Table.get?_cons, ih]
    split <;> rfl

end Value

namespace Json

open Conform.Text

/-- The document that the text of a number is read as: a number that is not written as an integer by `take`. -/
def documentNumber (take : Numeral → Binary64) (x : Binary64) : Json :=
  match x.exactInteger?, x with
  | some n, _ => .integer n
  | none, .finite negative rank => .real (take ((Binary64.shortest .even rank).spelling.numeral negative))
  | none, _ => .null

mutual

/-- The document that the text of a value is read as. -/
def document (take : Numeral → Binary64) : Value → Json
  | .null => .null
  | .bool b => .bool b
  | .number x => documentNumber take x
  | .string s => .string s
  | .date d => .string (String.ofList d.textZ)
  | .array items => .array (documentItems take items)
  | .object fields => .object (documentMembers take fields)

def documentItems (take : Numeral → Binary64) : List Value → List Json
  | [] => []
  | v :: items => document take v :: documentItems take items

def documentMembers (take : Numeral → Binary64) : List (String × Value) → List (String × Json)
  | [] => []
  | (key, v) :: fields => (key, document take v) :: documentMembers take fields

end

section

variable {take : Numeral → Binary64} {x : Binary64} {n : Int} {negative : Bool} {rank : Fin Binary64.rankCount}

theorem documentNumber_exact (exact : x.exactInteger? = some n) : documentNumber take x = .integer n := by
  unfold documentNumber
  rw [exact]

theorem documentNumber_real (real : (Binary64.finite negative rank).exactInteger? = none) :
    documentNumber take (.finite negative rank) =
      .real (take ((Binary64.shortest .even rank).spelling.numeral negative)) := by
  generalize same : Binary64.finite negative rank = x at real ⊢
  unfold documentNumber
  rw [real, ← same]

theorem documentNumber_infinite (infinite : x.isFinite = false) : documentNumber take x = .null := by
  cases x with
  | finite => cases infinite
  | _ => rfl

theorem ofJson_documentNumber (x : Binary64) :
    Value.ofJson (documentNumber take x) = .ok ((Value.number x).normal (Binary64.reread take)) := by
  rw [Value.normal]
  cases exact : x.exactInteger? with
  | some n =>
    rw [documentNumber_exact exact, Value.ofJson, if_pos (Binary64.exactInteger?_some exact).1,
      Binary64.reread_exact exact]
  | none =>
    cases x with
    | finite negative rank =>
      have whole : (Binary64.finite negative rank).isFinite := rfl
      rw [documentNumber_real exact, Value.ofJson, if_pos whole, Binary64.reread_real exact]
    | _ => rfl

mutual

/-- The document of a value is data: the value in its normal form. -/
theorem ofJson_document (v : Value) (distinct : v.Distinct) :
    Value.ofJson (document take v) = .ok (v.normal (Binary64.reread take)) := by
  match v with
  | .null | .bool _ | .string _ | .date _ => rfl
  | .number x => exact ofJson_documentNumber x
  | .array items =>
    have values := ofJson_documentItems items distinct
    simp only [document, Value.ofJson, values, Value.normal]
  | .object fields =>
    have values := ofJson_documentMembers fields distinct.2
    have names : Table.Distinct (Value.normalFields (Binary64.reread take) fields) := by
      rw [Table.Distinct, Value.keys_normalFields]
      exact distinct.1
    simp only [document, Value.ofJson, values, Value.normal, Table.ofList_of_distinct names]

theorem ofJson_documentItems (items : List Value) (distinct : Value.DistinctItems items) :
    Value.ofJsonItems (documentItems take items) = .ok (Value.normalItems (Binary64.reread take) items) := by
  match items with
  | [] => rfl
  | v :: items =>
    have first := ofJson_document v distinct.1
    have later := ofJson_documentItems items distinct.2
    simp only [documentItems, Value.ofJsonItems, first, later, Value.normalItems]

theorem ofJson_documentMembers (fields : List (String × Value)) (distinct : Value.DistinctFields fields) :
    Value.ofJsonMembers (documentMembers take fields) = .ok (Value.normalFields (Binary64.reread take) fields) := by
  match fields with
  | [] => rfl
  | (key, v) :: fields =>
    have first := ofJson_document v distinct.1
    have later := ofJson_documentMembers fields distinct.2
    simp only [documentMembers, Value.ofJsonMembers, first, later, Value.normalFields]

end

end

/-- Only spaces stand between the tokens of a layout. -/
structure Layout.Spaced (layout : Layout) : Prop where
  gap : ∀ level, ∀ c ∈ layout.gap level, isSpace c
  colon : ∃ spaces, layout.colon = ':' :: spaces ∧ ∀ c ∈ spaces, isSpace c

theorem spaced_compact : compact.Spaced := ⟨nofun, [], rfl, nofun⟩

theorem spaced_indented : indented.Spaced where
  gap := by
    intro level c member
    rcases List.mem_cons.mp member with rfl | space
    · rfl
    · exact List.eq_of_mem_replicate space ▸ rfl
  colon := ⟨[' '], rfl, by simp [isSpace]⟩

variable {rest : List Char}

theorem skipSpace_append {spaces : List Char} (all : ∀ c ∈ spaces, isSpace c) (rest : List Char) :
    skipSpace (spaces ++ rest) = skipSpace rest := List.dropWhile_append_of_pos all

theorem skipSpace_cons {c : Char} (token : isSpace c = false) (rest : List Char) :
    skipSpace (c :: rest) = c :: rest := by
  rw [skipSpace, List.dropWhile_cons, if_neg (by simp [token])]

/-! ### Numbers -/

theorem digit_facts {c : Char} (digit : c.isDigit) :
    isSpace c = false ∧ c ≠ 'n' ∧ c ≠ 't' ∧ c ≠ 'f' ∧ c ≠ '-' ∧ c ≠ ']' := by
  refine ⟨?_, ?_, ?_, ?_, ?_, ?_⟩
  · cases space : isSpace c
    · rfl
    · simp only [isSpace, Bool.or_eq_true, beq_iff_eq, or_assoc] at space
      rcases space with rfl | rfl | rfl | rfl <;> simp at digit
  all_goals rintro rfl; simp at digit

/-- A minus in front of a text, or nothing. -/
def sign (negative : Bool) : List Char := if negative then ['-'] else []

theorem text_head {s : Spelling} (valid : s.Valid) : ∃ c t, s.text = c :: t ∧ c.isDigit := by
  have all := valid.whole
  rcases valid.first with zero | ⟨c, digits, same, -⟩
  · exact ⟨'0', _, by rw [Spelling.text, zero]; rfl, rfl⟩
  · exact ⟨c, _, by rw [Spelling.text, same]; rfl, all c (by simp [same])⟩

theorem value_spelled (rules : Rules) (steps room : Nat) {negative : Bool} {s : Spelling} (valid : s.Valid) :
    value rules (steps + 1) room (sign negative ++ s.text ++ rest) = number rules negative (s.text ++ rest) := by
  cases negative with
  | true => simp [sign, value, skipSpace, isSpace]
  | false =>
    obtain ⟨c, t, same, digit⟩ := text_head valid
    obtain ⟨token, n, t, f, minus, -⟩ := digit_facts digit
    simp [sign, same, value, skipSpace_cons token, digit, n, t, f, minus]

theorem integer?_of_exact {n : Int} (small : n.natAbs ≤ Binary64.maxExactInteger) :
    integer? (decide (n < 0)) n.natAbs = some n := by
  simp only [Binary64.maxExactInteger, Binary64.binade, Nat.reduceShiftLeft] at small
  simp only [integer?, decide_eq_true_eq, Nat.reduceShiftLeft]
  by_cases negative : n < 0
  · rw [if_pos negative, if_pos (by omega), Option.some.injEq]
    omega
  · rw [if_neg negative, if_pos (by omega), Option.some.injEq]
    omega

/-- A number is written as an integer, as a decimal, or as null. -/
theorem writeNumber_cases (x : Binary64) :
    (∃ n, x.exactInteger? = some n ∧ writeNumber x = sign (decide (n < 0)) ++ (Spelling.ofNat n.natAbs).text) ∨
    (∃ negative rank, x = .finite negative rank ∧ x.exactInteger? = none ∧
      (Binary64.shortest .even rank).spelling.Valid ∧
      writeNumber x = sign negative ++ (Binary64.shortest .even rank).spelling.text) ∨
    (x.isFinite = false ∧ writeNumber x = ['n', 'u', 'l', 'l']) := by
  cases exact : x.exactInteger? with
  | some n =>
    refine .inl ⟨n, rfl, ?_⟩
    rw [Binary64.writeNumber_exact exact]
    simp [writeInt, sign, Spelling.text, Spelling.ofNat, Spelling.pointed, Spelling.raised]
  | none =>
    right
    cases x with
    | finite negative rank =>
      have pos : rank.val ≠ 0 := by
        intro zero
        rw [Binary64.exactInteger?_of_zero negative zero] at exact
        cases exact
      have digits := Binary64.digits_shortest_ne .even pos
      refine .inl ⟨negative, rank, rfl, rfl, Binary64.Decimal.spelling_valid digits, ?_⟩
      rw [Binary64.writeNumber_real exact, Binary64.Style.write, Binary64.Decimal.layout_eq]
      rfl
    | _ => exact .inr ⟨rfl, by simp only [writeNumber, exact]⟩

theorem value_number (rules : Rules) (steps room : Nat) (x : Binary64)
    (finite : x.isFinite → (x.reread rules.number).isFinite) (ends : EndsNumber rest) :
    value rules (steps + 1) room (writeNumber x ++ rest) = .ok (documentNumber rules.number x, rest) := by
  rcases writeNumber_cases x with
    ⟨n, exact, written⟩ | ⟨negative, rank, rfl, real, valid, written⟩ | ⟨infinite, written⟩
  · obtain ⟨whole, -, small⟩ := Binary64.exactInteger?_some exact
    have read : integer? (decide (n < 0)) (decimal (Spelling.ofNat n.natAbs).whole) = some n := by
      rw [Spelling.ofNat, decimal, Nat.ofDigitChars_ten_toDigits]
      exact integer?_of_exact small
    rw [written, value_spelled rules steps room (Spelling.valid_ofNat _), documentNumber_exact exact]
    exact number_integer rules (Spelling.valid_ofNat _) ends rfl rfl read
  · have read := finite rfl
    rw [Binary64.reread_real real] at read
    rw [written, value_spelled rules steps room valid, documentNumber_real real]
    exact number_real rules valid ends (Binary64.Decimal.spelling_real _) read
  · rw [documentNumber_infinite infinite]
    simp [written, value, skipSpace, isSpace, word]

/-! ### Containers -/

theorem endsNumber_cons {c : Char} {t : List Char} (token : c.isDigit = false ∧ c ≠ '.' ∧ c ≠ 'e' ∧ c ≠ 'E') :
    EndsNumber (c :: t) := by
  rintro _ ⟨⟩
  exact token

theorem endsNumber_space {spaces t : List Char} (all : ∀ c ∈ spaces, isSpace c) (ends : EndsNumber t) :
    EndsNumber (spaces ++ t) := by
  cases spaces with
  | nil => exact ends
  | cons c spaces =>
    have space := all c List.mem_cons_self
    refine endsNumber_cons ?_
    simp only [isSpace, Bool.or_eq_true, beq_iff_eq, or_assoc] at space
    rcases space with rfl | rfl | rfl | rfl <;> decide

theorem spelled_head (negative : Bool) {s : Spelling} (valid : s.Valid) :
    ∃ c t, sign negative ++ s.text = c :: t ∧ isSpace c = false ∧ c ≠ ']' := by
  cases negative with
  | true => exact ⟨'-', s.text, rfl, rfl, by decide⟩
  | false =>
    obtain ⟨c, t, same, digit⟩ := text_head valid
    obtain ⟨token, -, -, -, -, other⟩ := digit_facts digit
    exact ⟨c, t, same, token, other⟩

/-- No value starts with a space or with the end of an array. -/
theorem write_head (layout : Layout) (level : Nat) (v : Value) :
    ∃ c t, write layout level v = c :: t ∧ isSpace c = false ∧ c ≠ ']' := by
  cases v with
  | number x =>
    rw [write]
    rcases writeNumber_cases x with
      ⟨n, -, written⟩ | ⟨negative, rank, -, -, valid, written⟩ | ⟨-, written⟩ <;> rw [written]
    · exact spelled_head _ (Spelling.valid_ofNat _)
    · exact spelled_head _ valid
    · exact ⟨'n', _, rfl, rfl, by decide⟩
  | bool b => cases b <;> exact ⟨_, _, rfl, rfl, by decide⟩
  | array items => cases items <;> exact ⟨_, _, rfl, rfl, by decide⟩
  | object fields => cases fields <;> exact ⟨_, _, rfl, rfl, by decide⟩
  | _ => exact ⟨_, _, rfl, rfl, by decide⟩

theorem nextItem_first {spaces : List Char} (all : ∀ c ∈ spaces, isSpace c) (layout : Layout) (level : Nat) (v : Value)
    (rest : List Char) :
    nextItem true (spaces ++ (write layout level v ++ rest)) = .ok (.entry (write layout level v ++ rest)) := by
  obtain ⟨c, t, same, token, other⟩ := write_head layout level v
  rw [same, List.cons_append, nextItem, skipSpace_append all, skipSpace_cons token]
  simp [other]

theorem nextItem_comma {spaces : List Char} (all : ∀ c ∈ spaces, isSpace c) (layout : Layout) (level : Nat) (v : Value)
    (rest : List Char) :
    nextItem false (',' :: (spaces ++ (write layout level v ++ rest))) =
      .ok (.entry (write layout level v ++ rest)) := by
  obtain ⟨c, t, same, token, other⟩ := write_head layout level v
  rw [same, List.cons_append, nextItem, skipSpace_cons (by decide)]
  simp [skipSpace_append all, skipSpace_cons token, other]

theorem nextItem_close {spaces : List Char} (all : ∀ c ∈ spaces, isSpace c) (first : Bool) (rest : List Char) :
    nextItem first (spaces ++ ']' :: rest) = .ok (.close rest) := by
  rw [nextItem, skipSpace_append all, skipSpace_cons (by decide)]
  rfl

theorem nextMember_first {spaces : List Char} (all : ∀ c ∈ spaces, isSpace c) (rest : List Char) :
    nextMember true (spaces ++ '"' :: rest) = .ok (.entry rest) := by
  rw [nextMember, skipSpace_append all, skipSpace_cons (by decide)]
  rfl

theorem nextMember_comma {spaces : List Char} (all : ∀ c ∈ spaces, isSpace c) (rest : List Char) :
    nextMember false (',' :: (spaces ++ '"' :: rest)) = .ok (.entry rest) := by
  rw [nextMember, skipSpace_cons (by decide)]
  simp only [skipSpace_append all, skipSpace_cons (show isSpace '"' = false by decide)]
  rfl

theorem nextMember_close {spaces : List Char} (all : ∀ c ∈ spaces, isSpace c) (first : Bool) (rest : List Char) :
    nextMember first (spaces ++ '\x7d' :: rest) = .ok (.close rest) := by
  rw [nextMember, skipSpace_append all, skipSpace_cons (by decide)]
  rfl

theorem colon_append (layout : Layout) (spaced : layout.Spaced) (t : List Char) :
    ∃ spaces, colon (layout.colon ++ t) = .ok (spaces ++ t) ∧ ∀ c ∈ spaces, isSpace c := by
  obtain ⟨spaces, same, all⟩ := spaced.colon
  refine ⟨spaces, ?_, all⟩
  rw [same, List.cons_append, colon, skipSpace_cons (by decide)]
  rfl

/-- What follows an entry of a container does not go on with a number. -/
theorem endsNumber_items (layout : Layout) (level : Nat) {spaces : List Char} (all : ∀ c ∈ spaces, isSpace c)
    (items : List Value) (rest : List Char) :
    EndsNumber (writeItems layout level items ++ (spaces ++ ']' :: rest)) := by
  cases items with
  | nil =>
    rw [writeItems, List.nil_append]
    exact endsNumber_space all (endsNumber_cons (by decide))
  | cons v items => exact endsNumber_cons (by decide)

theorem endsNumber_fields (layout : Layout) (level : Nat) {spaces : List Char} (all : ∀ c ∈ spaces, isSpace c)
    (fields : List (String × Value)) (rest : List Char) :
    EndsNumber (writeFields layout level fields ++ (spaces ++ '\x7d' :: rest)) := by
  cases fields with
  | nil =>
    rw [writeFields, List.nil_append]
    exact endsNumber_space all (endsNumber_cons (by decide))
  | cons e fields => exact endsNumber_cons (by decide)

theorem value_spaces (rules : Rules) {spaces t : List Char} (all : ∀ c ∈ spaces, isSpace c) (steps room : Nat) :
    value rules steps room (spaces ++ t) = value rules steps room t := by
  cases steps with
  | zero => rfl
  | succ steps => rw [value, value, skipSpace_append all]

/-- A member up to its value, entered after its first quote. -/
theorem member_write (rules : Rules) {layout : Layout} (spaced : layout.Spaced) (key : String) (t : List Char) :
    ∃ spaces,
      characters rules.lenient none (key.toList.flatMap writeChar ++ '"' :: (layout.colon ++ t)) =
        .ok (⟨key.toList, none⟩, layout.colon ++ t) ∧
      colon (layout.colon ++ t) = .ok (spaces ++ t) ∧ ∀ c ∈ spaces, isSpace c := by
  obtain ⟨spaces, read, all⟩ := colon_append layout spaced t
  exact ⟨spaces, characters_writeString _ _ _, read, all⟩

/-- What a reader needs of a text: spaces between the tokens, and no number that it takes for an infinite one. -/
structure Rules.Reads (rules : Rules) (layout : Layout) : Prop where
  finite : ∀ x : Binary64, x.isFinite → (x.reread rules.number).isFinite
  spaced : layout.Spaced

section

variable {rules : Rules} {layout : Layout}

mutual

theorem value_write (reads : rules.Reads layout) (v : Value) (level steps room : Nat) (rest : List Char)
    (fuel : 2 * (write layout level v).length ≤ steps) (deep : v.depth ≤ room) (ends : EndsNumber rest) :
    value rules steps room (write layout level v ++ rest) = .ok (document rules.number v, rest) := by
  obtain ⟨c, t, head, -⟩ := write_head layout level v
  obtain ⟨n, rfl⟩ := Nat.exists_eq_add_of_le' (show 2 ≤ steps by rw [head, List.length_cons] at fuel; omega)
  match v with
  | .null => simp [write, value, skipSpace, isSpace, word, document]
  | .bool b => cases b <;> simp [write, value, skipSpace, isSpace, word, document]
  | .number x =>
    rw [write]
    exact value_number rules (n + 1) room x (reads.finite x) ends
  | .string s =>
    have read := characters_writeString rules.lenient s.toList rest
    simp [write, writeString, value, skipSpace, isSpace, read, bind, Except.bind, document]
  | .date d =>
    have read := characters_writeString rules.lenient d.textZ rest
    simp [write, writeString, value, skipSpace, isSpace, read, bind, Except.bind, document]
  | .array [] =>
    have deeper : 0 < room := deep
    simp [write, value, skipSpace, isSpace, within, deeper, Json.items, nextItem, bind, Except.bind, document,
      documentItems]
  | .array (v :: items) =>
    simp only [Value.depth, Value.depthItems] at deep
    simp only [write, List.length_cons, List.length_append, List.length_nil] at fuel
    have ends := endsNumber_items layout (level + 1) (reads.spaced.gap level) items rest
    have first := value_write reads v (level + 1) n (room - 1) _ (by omega) (by omega) ends
    have later :=
      items_write reads items (level + 1) n (room - 1) (reads.spaced.gap level) rest (by omega) (by omega)
    have entry := nextItem_first (reads.spaced.gap (level + 1)) layout (level + 1) v
      (writeItems layout (level + 1) items ++ (layout.gap level ++ ']' :: rest))
    have deeper : 0 < room := by omega
    simp [write, value, skipSpace, isSpace, within, deeper, Json.items, entry, first, later, bind, Except.bind, document,
      documentItems]
  | .object [] =>
    have deeper : 0 < room := deep
    simp [write, value, skipSpace, isSpace, within, deeper, members, nextMember, bind, Except.bind, ofMembers, document,
      documentMembers]
  | .object ((key, v) :: fields) =>
    simp only [Value.depth, Value.depthFields] at deep
    simp only [write, writeString, List.length_cons, List.length_append, List.length_nil] at fuel
    have ends := endsNumber_fields layout (level + 1) (reads.spaced.gap level) fields rest
    have first := value_write reads v (level + 1) n (room - 1) _ (by omega) (by omega) ends
    have later :=
      members_write reads fields (level + 1) n (room - 1) (reads.spaced.gap level) rest (by omega) (by omega)
    obtain ⟨spaces, name, colon, all⟩ := member_write rules reads.spaced key
      (write layout (level + 1) v ++ (writeFields layout (level + 1) fields ++ (layout.gap level ++ '\x7d' :: rest)))
    have deeper : 0 < room := by omega
    simp [write, writeString, value, skipSpace, isSpace, within, deeper, Json.members,
      nextMember_first (reads.spaced.gap (level + 1)), name, colon,
      value_spaces rules all, first, later, addMember, ofMembers, bind, Except.bind, document, documentMembers]

theorem items_write (reads : rules.Reads layout) (items : List Value) (level steps room : Nat) {spaces : List Char}
    (all : ∀ c ∈ spaces, isSpace c) (rest : List Char)
    (fuel : 2 * (writeItems layout level items).length < steps) (deep : Value.depthItems items ≤ room) :
    Json.items rules steps room false (writeItems layout level items ++ (spaces ++ ']' :: rest)) =
      .ok (documentItems rules.number items, rest) := by
  obtain ⟨n, rfl⟩ := Nat.exists_eq_add_of_le' (show 1 ≤ steps by omega)
  match items with
  | [] =>
    have close := nextItem_close all false rest
    simp [writeItems, Json.items, close, bind, Except.bind, documentItems]
  | v :: items =>
    simp only [Value.depthItems] at deep
    simp only [writeItems, List.length_cons, List.length_append] at fuel
    have ends := endsNumber_items layout level all items rest
    have first := value_write reads v level n room _ (by omega) (by omega) ends
    have later := items_write reads items level n room all rest (by omega) (by omega)
    have entry := nextItem_comma (reads.spaced.gap level) layout level v
      (writeItems layout level items ++ (spaces ++ ']' :: rest))
    simp [writeItems, Json.items, entry, first, later, bind, Except.bind, documentItems]

theorem members_write (reads : rules.Reads layout) (fields : List (String × Value)) (level steps room : Nat)
    {spaces : List Char} (all : ∀ c ∈ spaces, isSpace c) (rest : List Char)
    (fuel : 2 * (writeFields layout level fields).length < steps) (deep : Value.depthFields fields ≤ room) :
    members rules steps room false (writeFields layout level fields ++ (spaces ++ '\x7d' :: rest)) =
      .ok (.ok (documentMembers rules.number fields), rest) := by
  obtain ⟨n, rfl⟩ := Nat.exists_eq_add_of_le' (show 1 ≤ steps by omega)
  match fields with
  | [] =>
    have close := nextMember_close all false rest
    simp [writeFields, members, close, bind, Except.bind, documentMembers]
  | (key, v) :: fields =>
    simp only [Value.depthFields] at deep
    simp only [writeFields, writeString, List.length_cons, List.length_append] at fuel
    have ends := endsNumber_fields layout level all fields rest
    have first := value_write reads v level n room _ (by omega) (by omega) ends
    have later := members_write reads fields level n room all rest (by omega) (by omega)
    obtain ⟨between, name, colon, blank⟩ := member_write rules reads.spaced key
      (write layout level v ++ (writeFields layout level fields ++ (spaces ++ '\x7d' :: rest)))
    simp [writeFields, writeString, Json.members, nextMember_comma (reads.spaced.gap level), name, colon,
      value_spaces rules blank, first, later, addMember, bind, Except.bind, documentMembers]

end

/-- The text of a value is read as its document, with whatever spaces after it. -/
theorem ofText_write_spaces (reads : rules.Reads layout) (v : Value) (deep : v.depth ≤ rules.nesting) (level : Nat)
    {spaces : List Char} (all : ∀ c ∈ spaces, isSpace c) :
    ofText rules (write layout level v ++ spaces) = .ok (document rules.number v) := by
  have ends : EndsNumber spaces := by
    rw [← List.append_nil spaces]
    exact endsNumber_space all nofun
  have skipped : skipSpace spaces = [] := by
    rw [← List.append_nil spaces, skipSpace_append all]
    rfl
  have read := value_write reads v level (2 * (write layout level v ++ spaces).length + 1) rules.nesting spaces
    (by rw [List.length_append]; omega) deep ends
  simp only [ofText, read, skipped, bind, Except.bind]

theorem ofText_write (reads : rules.Reads layout) (v : Value) (deep : v.depth ≤ rules.nesting) (level : Nat) :
    ofText rules (write layout level v) = .ok (document rules.number v) := by
  have read := ofText_write_spaces reads v deep level (List.forall_mem_nil (isSpace ·))
  rwa [List.append_nil] at read

theorem reads_write_spaces (reads : rules.Reads layout) (v : Value) (distinct : v.Distinct)
    (deep : v.depth ≤ rules.nesting) (level : Nat) {spaces : List Char} (all : ∀ c ∈ spaces, isSpace c) :
    ∃ j, ofText rules (write layout level v ++ spaces) = .ok j ∧
      Value.ofJson j = .ok (v.normal (Binary64.reread rules.number)) :=
  ⟨_, ofText_write_spaces reads v deep level all, ofJson_document v distinct⟩

theorem reads_write (reads : rules.Reads layout) (v : Value) (distinct : v.Distinct) (deep : v.depth ≤ rules.nesting)
    (level : Nat) : ∃ j, ofText rules (write layout level v) = .ok j ∧
      Value.ofJson j = .ok (v.normal (Binary64.reread rules.number)) :=
  ⟨_, ofText_write reads v deep level, ofJson_document v distinct⟩

end

end Json

end Conform
