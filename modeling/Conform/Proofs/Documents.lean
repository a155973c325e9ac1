import Conform.Json.Data
import Conform.Proofs.Calendar
import Conform.Proofs.RoundTrip

/-!
# What documents hold

Every value that a text is read to is storable: no object in it names a field twice, it nests no deeper than the reader
has room for, its numbers are finite, and it has no leap second within a minute (`storable_ofJsonText`). What is storable
can be written and read again.
-/

namespace Conform

namespace Value

/-- A value that documents can hold, with so many nested containers at most. -/
structure Storable (room : Nat) (v : Value) : Prop where
  distinct : v.Distinct
  shallow : v.depth ≤ room
  whole : ∀ x ∈ v.numbers, x.isFinite
  timely : ∀ d ∈ v.dates, d.LeapEndsMinute

theorem distinctItems_iff {items : List Value} : DistinctItems items ↔ ∀ v ∈ items, Distinct v := by
  induction items with
  | nil => simp [DistinctItems]
  | cons v items ih => simp [DistinctItems, ih]

theorem depthItems_le_iff {items : List Value} {room : Nat} :
    depthItems items ≤ room ↔ ∀ v ∈ items, v.depth ≤ room := by
  induction items with
  | nil => simp [depthItems]
  | cons v items ih => rw [depthItems, Nat.max_le, ih, List.forall_mem_cons]

theorem depthFields_le_iff {fields : List (String × Value)} {room : Nat} :
    depthFields fields ≤ room ↔ ∀ e ∈ fields, e.2.depth ≤ room := by
  induction fields with
  | nil => simp [depthFields]
  | cons e fields ih => rw [depthFields, Nat.max_le, ih, List.forall_mem_cons]

theorem mem_numbersItems {items : List Value} {x : Binary64} :
    x ∈ numbersItems items ↔ ∃ v ∈ items, x ∈ v.numbers := by
  induction items with
  | nil => simp [numbersItems]
  | cons v items ih => simp [numbersItems, ih]

theorem mem_numbersFields {fields : List (String × Value)} {x : Binary64} :
    x ∈ numbersFields fields ↔ ∃ e ∈ fields, x ∈ e.2.numbers := by
  induction fields with
  | nil => simp [numbersFields]
  | cons e fields ih => simp [numbersFields, ih]

theorem storable_number {room : Nat} {x : Binary64} (finite : x.isFinite) : (number x).Storable room := by
  refine ⟨trivial, Nat.zero_le room, fun y inside => ?_, by simp [dates]⟩
  rw [List.mem_singleton.mp inside]
  exact finite

theorem storable_date {room : Nat} {d : Instant} (ends : d.LeapEndsMinute) : (date d).Storable room := by
  refine ⟨trivial, Nat.zero_le room, by simp [numbers], fun e inside => ?_⟩
  rw [List.mem_singleton.mp inside]
  exact ends

theorem storable_plain {room : Nat} {v : Value} (flat : v.depth = 0) (distinct : v.Distinct)
    (unnumbered : v.numbers = []) (undated : v.dates = []) : v.Storable room :=
  ⟨distinct, by omega, by simp [unnumbered], by simp [undated]⟩

theorem storable_array_iff {room : Nat} {items : List Value} :
    (array items).Storable (room + 1) ↔ ∀ v ∈ items, v.Storable room := by
  constructor
  · rintro ⟨distinct, shallow, whole, timely⟩ v member
    rw [Distinct, distinctItems_iff] at distinct
    rw [depth, Nat.add_le_add_iff_right, depthItems_le_iff] at shallow
    exact ⟨distinct v member, shallow v member, fun x inside => whole x (mem_numbersItems.mpr ⟨v, member, inside⟩),
      fun d inside => timely d (mem_datesItems.mpr ⟨v, member, inside⟩)⟩
  · intro each
    refine ⟨distinctItems_iff.mpr fun v member => (each v member).distinct, ?_, ?_, ?_⟩
    · rw [depth, Nat.add_le_add_iff_right, depthItems_le_iff]
      exact fun v member => (each v member).shallow
    · intro x inside
      obtain ⟨v, member, within⟩ := mem_numbersItems.mp inside
      exact (each v member).whole x within
    · intro d inside
      obtain ⟨v, member, within⟩ := mem_datesItems.mp inside
      exact (each v member).timely d within

theorem storable_object_iff {room : Nat} {fields : Table Value} :
    (object fields).Storable (room + 1) ↔ fields.Distinct ∧ ∀ e ∈ fields, e.2.Storable room := by
  constructor
  · rintro ⟨⟨names, distinct⟩, shallow, whole, timely⟩
    rw [distinctFields_iff] at distinct
    rw [depth, Nat.add_le_add_iff_right, depthFields_le_iff] at shallow
    refine ⟨names, fun e member => ⟨distinct e member, shallow e member, fun x inside => ?_, fun d inside => ?_⟩⟩
    · exact whole x (mem_numbersFields.mpr ⟨e, member, inside⟩)
    · exact timely d (mem_datesFields.mpr ⟨e, member, inside⟩)
  · rintro ⟨names, each⟩
    refine ⟨⟨names, distinctFields_iff.mpr fun e member => (each e member).distinct⟩, ?_, ?_, ?_⟩
    · rw [depth, Nat.add_le_add_iff_right, depthFields_le_iff]
      exact fun e member => (each e member).shallow
    · intro x inside
      obtain ⟨e, member, within⟩ := mem_numbersFields.mp inside
      exact (each e member).whole x within
    · intro d inside
      obtain ⟨e, member, within⟩ := mem_datesFields.mp inside
      exact (each e member).timely d within

theorem mem_ofJsonItems {items : List Json} {values : List Value} (read : ofJsonItems items = .ok values) {v : Value}
    (member : v ∈ values) : ∃ j ∈ items, ofJson j = .ok v := by
  induction items generalizing values with
  | nil =>
    cases read
    cases member
  | cons j items ih =>
    rw [ofJsonItems] at read
    split at read
    · cases read
    · rename_i first firstRead
      split at read
      · cases read
      · rename_i rest restRead
        cases read
        rcases List.mem_cons.mp member with rfl | later
        · exact ⟨j, List.mem_cons_self, firstRead⟩
        · obtain ⟨other, present, otherRead⟩ := ih restRead later
          exact ⟨other, List.mem_cons_of_mem _ present, otherRead⟩

theorem mem_ofJsonMembers {members : List (String × Json)} {fields : List (String × Value)}
    (read : ofJsonMembers members = .ok fields) {e : String × Value} (member : e ∈ fields) :
    ∃ m ∈ members, ofJson m.2 = .ok e.2 := by
  induction members generalizing fields with
  | nil =>
    cases read
    cases member
  | cons m members ih =>
    rw [ofJsonMembers] at read
    split at read
    · cases read
    · rename_i first firstRead
      split at read
      · cases read
      · rename_i rest restRead
        cases read
        rcases List.mem_cons.mp member with rfl | later
        · exact ⟨m, List.mem_cons_self, firstRead⟩
        · obtain ⟨other, present, otherRead⟩ := ih restRead later
          exact ⟨other, List.mem_cons_of_mem _ present, otherRead⟩

end Value

namespace Json

open Value

/-- The data of a document, if it has any, is storable. -/
def Fits (room : Nat) (j : Json) : Prop := ∀ v, ofJson j = .ok v → v.Storable room

theorem fits_array {room : Nat} {items : List Json} (each : ∀ j ∈ items, j.Fits room) :
    (Json.array items).Fits (room + 1) := by
  intro v read
  rw [ofJson] at read
  split at read <;> cases read
  rename_i values readItems
  refine storable_array_iff.mpr fun v member => ?_
  obtain ⟨j, present, readItem⟩ := mem_ofJsonItems readItems member
  exact each j present v readItem

theorem fits_object {room : Nat} {members : List (String × Json)} (each : ∀ m ∈ members, m.2.Fits room) :
    (Json.object members).Fits (room + 1) := by
  intro v read
  rw [ofJson] at read
  split at read <;> cases read
  rename_i fields readMembers
  refine storable_object_iff.mpr ⟨Table.distinct_ofList fields, fun e member => ?_⟩
  obtain ⟨m, present, readMember⟩ := mem_ofJsonMembers readMembers (Table.mem_of_mem_ofList member)
  exact each m present e.2 readMember

/-! ### What the reader makes -/

theorem exists_of_bind_ok {ε α β : Type} {m : Except ε α} {k : α → Except ε β} {b : β} (done : (m >>= k) = .ok b) :
    ∃ a, m = .ok a ∧ k a = .ok b := by
  cases m with
  | error e => cases done
  | ok a => exact ⟨a, rfl, done⟩

theorem fits_beyond (room : Nat) (f : Fault) : (beyond f).Fits room := nofun

theorem fits_word {result : Json} {room : Nat} (fits : result.Fits room) {cs t rest : List Char} {j : Json}
    (read : word result cs t = .ok (j, rest)) : j.Fits room := by
  induction cs generalizing t with
  | nil =>
    cases read
    exact fits
  | cons c cs ih =>
    cases t with
    | nil => cases read
    | cons d t =>
      rw [word] at read
      split at read
      · exact ih read
      · cases read

theorem natAbs_of_integer? {negative : Bool} {n : Nat} {i : Int} (integer : integer? negative n = some i) :
    i.natAbs < 1 <<< 64 := by
  unfold integer? at integer
  have wide : 1 <<< 63 < 1 <<< 64 := by decide
  split at integer <;> split at integer <;> cases integer <;> omega

theorem fits_number {rules : Rules} {negative : Bool} {room : Nat} {t rest : List Char} {j : Json}
    (read : number rules negative t = .ok (j, rest)) : j.Fits room := by
  unfold number at read
  obtain ⟨⟨whole, afterWhole⟩, -, read⟩ := exists_of_bind_ok read
  dsimp only at read
  obtain ⟨⟨part, afterPart⟩, -, read⟩ := exists_of_bind_ok read
  dsimp only at read
  obtain ⟨⟨power, afterPower⟩, -, read⟩ := exists_of_bind_ok read
  dsimp only at read
  split at read
  · rename_i i integer _
    cases read
    intro v data
    cases data
    exact storable_number (Binary64.isFinite_ofInt (natAbs_of_integer? integer))
  · split at read
    · rename_i finite
      cases read
      intro v data
      cases data
      exact storable_number finite
    · unfold Rules.refuse at read
      split at read <;> cases read
      exact fits_beyond room _

theorem fits_within {rules : Rules} {room : Nat} {start rest : List Char} {inner : Except Fault (Json × List Char)}
    {j : Json} (fits : ∀ room' i after, room = room' + 1 → inner = .ok (i, after) → i.Fits room)
    (read : within rules room start inner = .ok (j, rest)) : j.Fits room := by
  unfold within at read
  split at read
  · exact fits (room - 1) j rest (by omega) read
  · split at read
    · cases inner <;> cases read
      exact fits_beyond room _
    · cases read

theorem fits_ofMembers {room : Nat} {members : Except Fault (List (String × Json))}
    (each : ∀ ms, members = .ok ms → ∀ m ∈ ms, m.2.Fits room) : (ofMembers members).Fits (room + 1) := by
  cases members with
  | error f => exact fits_beyond _ f
  | ok ms => exact fits_object (each ms rfl)

theorem mem_of_addMember {name : Characters} {j : Json} {members : Except Fault (List (String × Json))}
    {all : List (String × Json)} (added : addMember name j members = .ok all) {m : String × Json} (member : m ∈ all) :
    m.2 = j ∨ ∃ ms, members = .ok ms ∧ m ∈ ms := by
  unfold addMember at added
  split at added
  · cases added
  · rename_i ms
    split at added <;> cases added
    rcases List.mem_cons.mp member with rfl | later
    · exact .inl rfl
    · exact .inr ⟨ms, rfl, later⟩

mutual

theorem fits_value (rules : Rules) (steps room : Nat) {t rest : List Char} {j : Json}
    (read : value rules steps room t = .ok (j, rest)) : j.Fits room := by
  match steps with
  | 0 => cases read
  | steps + 1 =>
    rw [value] at read
    split at read
    · cases read
    · rename_i c t _
      split at read
      · exact fits_word (fun v data => by cases data; exact storable_plain rfl trivial rfl rfl) read
      split at read
      · exact fits_word (fun v data => by cases data; exact storable_plain rfl trivial rfl rfl) read
      split at read
      · exact fits_word (fun v data => by cases data; exact storable_plain rfl trivial rfl rfl) read
      split at read
      · exact fits_number read
      split at read
      · exact fits_number read
      split at read
      · obtain ⟨⟨s, after⟩, -, read⟩ := exists_of_bind_ok read
        cases read
        cases s.fault with
        | some f => exact fits_beyond room f
        | none => exact fun v data => by cases data; exact storable_plain rfl trivial rfl rfl
      split at read
      · refine fits_within ?_ read
        intro room' i after roomy inner
        obtain ⟨⟨vs, last⟩, readItems, inner⟩ := exists_of_bind_ok inner
        cases inner
        subst roomy
        exact fits_array fun i member => fits_items rules steps room' true readItems i member
      split at read
      · refine fits_within ?_ read
        intro room' i after roomy inner
        obtain ⟨⟨ms, last⟩, readMembers, inner⟩ := exists_of_bind_ok inner
        cases inner
        subst roomy
        exact fits_ofMembers fun all made m member => fits_members rules steps room' true (made ▸ readMembers) m member
      · cases read

theorem fits_items (rules : Rules) (steps room : Nat) (first : Bool) {t rest : List Char} {js : List Json}
    (read : items rules steps room first t = .ok (js, rest)) : ∀ j ∈ js, j.Fits room := by
  match steps with
  | 0 => cases read
  | steps + 1 =>
    rw [items] at read
    obtain ⟨next, -, read⟩ := exists_of_bind_ok read
    cases next with
    | close t =>
      cases read
      exact fun j none => absurd none List.not_mem_nil
    | entry t =>
      obtain ⟨⟨v, afterValue⟩, readValue, read⟩ := exists_of_bind_ok read
      obtain ⟨⟨vs, afterItems⟩, readItems, read⟩ := exists_of_bind_ok read
      cases read
      rw [List.forall_mem_cons]
      exact ⟨fits_value rules steps room readValue, fits_items rules steps room false readItems⟩

theorem fits_members (rules : Rules) (steps room : Nat) (first : Bool) {t rest : List Char}
    {all : List (String × Json)} (read : members rules steps room first t = .ok (.ok all, rest)) :
    ∀ m ∈ all, m.2.Fits room := by
  match steps with
  | 0 => cases read
  | steps + 1 =>
    rw [members] at read
    obtain ⟨next, -, read⟩ := exists_of_bind_ok read
    cases next with
    | close t =>
      cases read
      exact fun m none => absurd none List.not_mem_nil
    | entry t =>
      obtain ⟨⟨name, afterName⟩, -, read⟩ := exists_of_bind_ok read
      obtain ⟨afterColon, -, read⟩ := exists_of_bind_ok read
      obtain ⟨⟨v, afterValue⟩, readValue, read⟩ := exists_of_bind_ok read
      obtain ⟨⟨vs, afterMembers⟩, readMembers, read⟩ := exists_of_bind_ok read
      have added : addMember name v vs = .ok all := congrArg Prod.fst (Except.ok.inj read)
      intro m member
      rcases mem_of_addMember added member with same | ⟨ms, made, later⟩
      · rw [same]
        exact fits_value rules steps room readValue
      · exact fits_members rules steps room false (made ▸ readMembers) m later

end

theorem fits_ofText {rules : Rules} {t : List Char} {j : Json} (read : ofText rules t = .ok j) :
    j.Fits rules.nesting := by
  unfold ofText at read
  obtain ⟨⟨v, rest⟩, readValue, read⟩ := exists_of_bind_ok read
  dsimp only at read
  split at read <;> cases read
  exact fits_value rules _ _ readValue

end Json

theorem Value.storable_ofJsonText {t : List Char} {v : Value} (read : ofJsonText t = .ok v) : v.Storable 127 := by
  unfold ofJsonText at read
  split at read
  · rename_i j readJson
    exact Json.fits_ofText readJson v read
  · cases read

end Conform
