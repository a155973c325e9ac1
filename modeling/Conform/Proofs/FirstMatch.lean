import Conform.Proofs.Documents

/-!
# The first kind that fits

To follow a document and to try the kinds of value on it in their declared order come to the same value or to none
(`ofFirstMatch?_eq`). No kind takes what another one stands for (`ofFirstMatch?_of_fits`), except that a string may also
name a date. As strings are tried before dates, no document is read as a date (`dates_ofJson`), whatever strings a date
can be read from.
-/

namespace Conform.Value

open Json

variable (instant? : String → Option Instant)

/-! ### The two readings of a document -/

mutual

/-- The induction is on the document, items and members in their order. -/
theorem ofFirstMatch?_eq (j : Json) : ofFirstMatch? instant? j = (ofJson j).toOption := by
  match j with
  | .null | .bool _ | .integer _ | .real _ | .string _ | .beyond _ => rfl
  | .array items =>
    have same := firstMatchItems?_eq items
    rw [ofJson]
    cases read : ofJsonItems items <;> rw [read] at same <;>
      simp [ofFirstMatch?, fitNull?, fitBool?, fitNumber?, fitString?, fitDate?, same, Except.toOption]
  | .object members =>
    have same := firstMatchMembers?_eq members
    rw [ofJson]
    cases read : ofJsonMembers members <;> rw [read] at same <;>
      simp [ofFirstMatch?, fitNull?, fitBool?, fitNumber?, fitString?, fitDate?, same, Except.toOption]

theorem firstMatchItems?_eq (items : List Json) : firstMatchItems? instant? items = (ofJsonItems items).toOption := by
  match items with
  | [] => rfl
  | j :: items =>
    have first := ofFirstMatch?_eq j
    have later := firstMatchItems?_eq items
    rw [firstMatchItems?, first, later, ofJsonItems]
    cases ofJson j with
    | error f => rfl
    | ok v => cases ofJsonItems items <;> rfl

theorem firstMatchMembers?_eq (members : List (String × Json)) :
    firstMatchMembers? instant? members = (ofJsonMembers members).toOption := by
  match members with
  | [] => rfl
  | (name, j) :: members =>
    have first := ofFirstMatch?_eq j
    have later := firstMatchMembers?_eq members
    rw [firstMatchMembers?, first, later, ofJsonMembers]
    cases ofJson j with
    | error f => rfl
    | ok v => cases ofJsonMembers members <;> rfl

end

/-! ### Kinds apart -/

def fitArray? : Json → Option Value
  | .array items => (firstMatchItems? instant? items).map array
  | _ => none

def fitObject? : Json → Option Value
  | .object members => (firstMatchMembers? instant? members).map fun fields => object (Table.ofList fields)
  | _ => none

/-- The kinds of value in their declared order. -/
def fits : List (Json → Option Value) :=
  [fitNull?, fitBool?, fitNumber?, fitString?, fitDate? instant?, fitArray? instant?, fitObject? instant?]

theorem ofFirstMatch?_eq_findSome? (j : Json) : ofFirstMatch? instant? j = (fits instant?).findSome? fun fit => fit j := by
  cases j with
  | array items =>
    simp only [ofFirstMatch?, fits, List.findSome?_cons, fitArray?]
    cases firstMatchItems? instant? items <;> rfl
  | object members =>
    simp only [ofFirstMatch?, fits, List.findSome?_cons, fitObject?]
    cases firstMatchMembers? instant? members <;> rfl
  | _ => rfl

/-- A document is read as any kind that it fits, whatever is tried before. Only a string may fit two kinds. -/
theorem ofFirstMatch?_of_fits (j : Json) : ∀ fit ∈ fits instant?, ∀ v, fit j = some v →
    ofFirstMatch? instant? j = some v ∨ ∃ s d, j = .string s ∧ v = date d := by
  cases j <;>
    simp [fits, ofFirstMatch?, fitNull?, fitBool?, fitNumber?, fitString?, fitDate?, fitArray?, fitObject?]

/-- Of the kinds that fit, strings come before dates. -/
example (d : Instant) : fitDate? (fun _ => some d) (.string "at noon") = some (date d) ∧
    ofFirstMatch? (fun _ => some d) (.string "at noon") = some (string "at noon") := ⟨rfl, rfl⟩

/-! ### No dates -/

/-- What stands in an array or object that is read was read of an item or a member, so the induction is on the document. -/
theorem dates_ofJson (j : Json) {v : Value} (read : ofJson j = .ok v) : v.dates = [] := by
  match j with
  | .null | .bool _ | .integer _ | .real _ | .string _ =>
    cases read
    rfl
  | .beyond _ => cases read
  | .array items =>
    rw [ofJson] at read
    split at read <;> cases read
    rename_i values readItems
    refine List.eq_nil_iff_forall_not_mem.mpr fun d inside => ?_
    obtain ⟨w, member, within⟩ := mem_datesItems.mp inside
    obtain ⟨item, present, readItem⟩ := mem_ofJsonItems readItems member
    rw [dates_ofJson item readItem] at within
    cases within
  | .object members =>
    rw [ofJson] at read
    split at read <;> cases read
    rename_i fields readMembers
    refine List.eq_nil_iff_forall_not_mem.mpr fun d inside => ?_
    obtain ⟨e, member, within⟩ := mem_datesFields.mp inside
    obtain ⟨m, present, readMember⟩ := mem_ofJsonMembers readMembers (Table.mem_of_mem_ofList member)
    have smaller : sizeOf m.2 < sizeOf members := by
      have listed := List.sizeOf_lt_of_mem present
      obtain ⟨name, written⟩ := m
      simp only [Prod.mk.sizeOf_spec] at listed
      dsimp only
      omega
    rw [dates_ofJson m.2 readMember] at within
    cases within
termination_by sizeOf j

/-- Both ways of reading a text fail, or both give the same value, and there is no date in it, whichever strings are dates
to the second way. -/
theorem readings_agree (t : List Char) :
    ofTextByMatch? instant? t = (ofJsonText t).toOption ∧ ∀ v, ofJsonText t = .ok v → v.dates = [] := by
  unfold ofTextByMatch? ofJsonText
  cases Json.ofText .data t with
  | error f => exact ⟨rfl, nofun⟩
  | ok j => exact ⟨ofFirstMatch?_eq instant? j, fun v read => dates_ofJson j read⟩

/-- A name that stands twice, and a string that names a date. -/
def noteText : List Char := "\x7b\"at\": true, \"on\": \"2020-02-29T12:00:00Z\", \"at\": [null, 0.5]\x7d".toList

theorem note_readings : ∃ v, ofJsonText noteText = .ok v ∧
    ofTextByMatch? (fun s => Instant.ofZonedText? s.toList) noteText = some v ∧ v.dates = [] ∧
    write compact 0 v = "\x7b\"at\":[null,0.5],\"on\":\"2020-02-29T12:00:00Z\"\x7d".toList := by
  have written : (ofJsonText noteText).toOption.map (write compact 0) =
      some "\x7b\"at\":[null,0.5],\"on\":\"2020-02-29T12:00:00Z\"\x7d".toList := by decide +kernel
  obtain ⟨same, undated⟩ := readings_agree (fun s => Instant.ofZonedText? s.toList) noteText
  cases read : ofJsonText noteText with
  | error fault => exact absurd written (by rw [read]; nofun)
  | ok v =>
    rw [read] at same written
    exact ⟨v, rfl, same, undated v read, Option.some.inj written⟩

end Conform.Value
