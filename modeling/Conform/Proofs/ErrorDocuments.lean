import Conform.Error.Reader
import Conform.Proofs.Documents
import Mathlib.Data.List.Induction

/-!
# Errors read back

An error that was built call by call has the extra fields that the calls gave, each key once, in the order in which they
came first and with the value that came last (`built_eq`, `Table.keys_ofList`, `Table.get?_ofList`). Its document has
`message` and `path` in front of these, and no extra field is taken for one of the two when it is read back
(`errors_read_back`).
-/

namespace Conform

namespace ValidationError

/-! ### Errors call by call -/

/-- A call that adds to an error. -/
inductive Call where
  | path (place : String)
  | field (key : String) (value : Value)

namespace Call

/-- The error after a call. -/
def apply (e : ValidationError) : Call → ValidationError
  | path place => e.withPath place
  | field key value => e.withField key value

/-- The path of the last call that gives one. -/
def lastPath (calls : List Call) : String :=
  ((calls.filterMap fun | .path place => some place | .field _ _ => none).getLast?).getD ""

/-- The fields that calls give, but for those with reserved keys. -/
def given (calls : List Call) : List (String × Value) :=
  calls.filterMap fun
    | .path _ => none
    | .field key value => if key ∈ reservedKeys then none else some (key, value)

theorem lastPath_path (calls : List Call) (place : String) : lastPath (calls ++ [.path place]) = place := by
  simp [lastPath]

theorem lastPath_field (calls : List Call) (key : String) (value : Value) :
    lastPath (calls ++ [.field key value]) = lastPath calls := by
  simp [lastPath]

theorem given_append (first second : List Call) : given (first ++ second) = given first ++ given second :=
  List.filterMap_append

end Call

/-- An error with a message, and what calls add to it in turn. -/
def built (message : String) (calls : List Call) : ValidationError := calls.foldl Call.apply (ofMessage message)

theorem built_concat (message : String) (calls : List Call) (call : Call) :
    built message (calls ++ [call]) = Call.apply (built message calls) call := List.foldl_append

theorem built_eq (message : String) (calls : List Call) :
    built message calls = ⟨message, Call.lastPath calls, Table.ofList (Call.given calls)⟩ := by
  -- From the last call back, since that is the one that decides the path and the value under its key.
  induction calls using List.reverseRecOn with
  | nil => rfl
  | append_singleton calls call ih =>
    rw [built_concat, ih, Call.given_append]
    cases call with
    | path place =>
      rw [Call.lastPath_path]
      simp [Call.apply, withPath, Call.given]
    | field key value =>
      rw [Call.lastPath_field]
      by_cases reserved : key ∈ reservedKeys
      · simp [Call.apply, withField, reserved, Call.given]
      · simp [Call.apply, withField, reserved, Call.given, Table.ofList_concat]

/-- The fields of an error in its document: the message, the path, and then each key that calls gave, once and where it
was given first, with the value that was given last. -/
structure Listed (message : String) (calls : List Call) (fields : Table Value) : Prop where
  keys : fields.keys = "message" :: "path" :: ((Call.given calls).map (·.1)).eraseDups
  once : fields.Distinct
  message : fields.get? "message" = some (.string message)
  path : fields.get? "path" = some (.string (Call.lastPath calls))
  extra : ∀ key ∉ reservedKeys, fields.get? key = Table.get? (Call.given calls).reverse key

/-- The extra fields of an error are named once each, by no reserved key, and so are the fields of their values. -/
structure WellFormed (e : ValidationError) : Prop where
  names : Table.Distinct e.extra
  distinct : Value.DistinctFields e.extra
  free : ∀ key ∈ Table.keys e.extra, key ∉ reservedKeys

theorem keys_built (message : String) (calls : List Call) :
    Table.keys (built message calls).extra = ((Call.given calls).map (·.1)).eraseDups := by
  rw [built_eq]
  exact Table.keys_ofList _

theorem free_built (message : String) (calls : List Call) :
    ∀ key ∈ Table.keys (built message calls).extra, key ∉ reservedKeys := by
  induction calls using List.reverseRecOn with
  | nil => nofun
  | append_singleton calls call ih =>
    rw [built_concat]
    cases call with
    | path => exact ih
    | field key value => exact unreserved_withField key value ih

theorem names_built (message : String) (calls : List Call) : Table.Distinct (built message calls).extra := by
  rw [built_eq]
  exact Table.distinct_ofList _

theorem wellFormed_built (message : String) {calls : List Call} (distinct : Value.DistinctFields (Call.given calls)) :
    (built message calls).WellFormed := by
  refine ⟨names_built message calls, ?_, free_built message calls⟩
  rw [built_eq]
  exact Value.distinctFields_iff.mpr fun e member => Value.distinctFields_iff.mp distinct e (Table.mem_of_mem_ofList member)

theorem listed_built (message : String) (calls : List Call) :
    ∃ fields, (built message calls).toValue = .object fields ∧ Listed message calls fields := by
  have free := free_built message calls
  refine ⟨_, rfl, ?_, ?_, ?_, ?_, ?_⟩
  · rw [Table.keys_cons, Table.keys_cons, keys_built]
  · rw [Table.Distinct, Table.keys_cons, Table.keys_cons, List.nodup_cons, List.nodup_cons, List.mem_cons, not_or]
    exact ⟨⟨by decide, fun named => free _ named (by decide)⟩, fun named => free _ named (by decide),
      names_built message calls⟩
  · rw [built_eq]
    rfl
  · rw [built_eq]
    rfl
  · intro key unreserved
    simp only [reservedKeys, List.mem_cons, List.not_mem_nil, or_false, not_or] at unreserved
    rw [Table.get?_cons, if_neg (Ne.symm unreserved.1), Table.get?_cons, if_neg (Ne.symm unreserved.2), built_eq]
    exact Table.get?_ofList _ key

end ValidationError

/-! ### Documents of errors -/

namespace Json

theorem keys_documentMembers (take : Numeral → Binary64) (fields : Table Value) :
    (documentMembers take fields).map (·.1) = Table.keys fields := by
  induction fields with
  | nil => rfl
  | cons e fields ih =>
    obtain ⟨key, v⟩ := e
    rw [documentMembers, List.map_cons, ih]
    rfl

end Json

namespace ValidationError

variable {take : Json.Numeral → Binary64}

/-- An error with its extra values in normal form. -/
def normal (f : Binary64 → Binary64) (e : ValidationError) : ValidationError :=
  { e with extra := Value.normalFields f e.extra }

/-- Members that no reserved key names are the extra fields of the error that is read. -/
theorem ofJson?_members {members : List (String × Json)} (free : ∀ m ∈ members, m.1 ∉ reservedKeys)
    {extra : Table Value} (values : Value.ofJsonMembers members = .ok extra) (names : Table.Distinct extra)
    (message path : String) :
    ofJson? (.object (("message", .string message) :: ("path", .string path) :: members)) =
      some ⟨message, path, extra⟩ := by
  have absent : ∀ name ∈ reservedKeys, members.filter (·.1 == name) = [] := by
    intro name reserved
    apply List.filter_eq_nil_iff.mpr
    intro m member same
    exact free m member (beq_iff_eq.mp same ▸ reserved)
  have kept : members.filter (fun m => m.1 ∉ reservedKeys) = members := by
    apply List.filter_eq_self.mpr
    intro m member
    simpa using free m member
  have first : Json.under "message" (("message", .string message) :: ("path", .string path) :: members) =
      [.string message] := by
    simp [Json.under, absent "message" (by decide)]
  have second : Json.under "path" (("message", .string message) :: ("path", .string path) :: members) =
      [.string path] := by
    simp [Json.under, absent "path" (by decide)]
  have rest : (("message", Json.string message) :: ("path", .string path) :: members).filter
      (fun m => m.1 ∉ reservedKeys) = members := by
    rw [List.filter_cons_of_neg (by simp [reservedKeys]), List.filter_cons_of_neg (by simp [reservedKeys]), kept]
  simp only [ofJson?, Json.declared?, pathOfMembers?, first, second, rest, values, Table.ofList_of_distinct names]
  rfl

/-- The document of an error is read as the error with its extra values in normal form. -/
theorem ofJson?_document {e : ValidationError} (formed : e.WellFormed) :
    ofJson? (Json.document take e.toValue) = some (e.normal (Binary64.reread take)) := by
  have names : Table.Distinct (Value.normalFields (Binary64.reread take) e.extra) := by
    rw [Table.Distinct, Value.keys_normalFields]
    exact formed.names
  have free : ∀ m ∈ Json.documentMembers take e.extra, m.1 ∉ reservedKeys := by
    intro m member
    have named : m.1 ∈ Table.keys e.extra := Json.keys_documentMembers take e.extra ▸ List.mem_map_of_mem member
    exact formed.free m.1 named
  exact ofJson?_members free (Json.ofJson_documentMembers e.extra formed.distinct) names e.message e.path

theorem WellFormed.norm_equal {e : ValidationError} (formed : e.WellFormed)
    (whole : ∀ x ∈ Value.numbersFields e.extra, x.isFinite) (dateless : Value.datesFields e.extra = []) :
    (e.normal Binary64.plainZero).equal e := by
  have same := Value.norm_equal (.object e.extra) ⟨formed.names, formed.distinct⟩ whole dateless
  rw [Value.norm, Value.normal] at same
  simp [equal, normal, same]

end ValidationError

namespace ValidationErrors

variable {take : Json.Numeral → Binary64}

/-- Errors with their extra values in normal form. -/
def normal (f : Binary64 → Binary64) (es : ValidationErrors) : ValidationErrors := ⟨es.errors.map (·.normal f)⟩

def norm (es : ValidationErrors) : ValidationErrors := es.normal Binary64.plainZero

theorem mapM_documentItems {errors : List ValidationError} (formed : ∀ e ∈ errors, e.WellFormed) :
    (Json.documentItems take (errors.map ValidationError.toValue)).mapM ValidationError.ofJson? =
      some (errors.map (·.normal (Binary64.reread take))) := by
  induction errors with
  | nil => rfl
  | cons e errors ih =>
    obtain ⟨first, later⟩ := List.forall_mem_cons.mp formed
    simp only [List.map_cons, Json.documentItems, List.mapM_cons, ValidationError.ofJson?_document first, ih later]
    rfl

/-- The document of some errors is read as the errors in normal form, in their order. -/
theorem ofJson?_document {es : ValidationErrors} (formed : ∀ e ∈ es.errors, e.WellFormed) :
    ofJson? (Json.document take es.toValue) = some (es.normal (Binary64.reread take)) := by
  have named (j : Json) : Json.declared? "errors" [("errors", j)] = some j := rfl
  simp only [toValue, Json.document, Json.documentMembers, ofJson?, named, Option.bind_eq_bind, Option.bind_some,
    ofItems?, mapM_documentItems formed, Option.map_some, normal]

open Conform.Json

/-- The errors that each a message and some calls make. -/
def built (made : List (String × List ValidationError.Call)) : ValidationErrors :=
  ⟨made.map fun m => ValidationError.built m.1 m.2⟩

theorem mem_numbers {es : ValidationErrors} {x : Binary64} :
    x ∈ es.toValue.numbers ↔ ∃ e ∈ es.errors, x ∈ Value.numbersFields e.extra := by
  simp [toValue, ValidationError.toValue, Value.numbers, Value.numbersFields, Value.mem_numbersItems]

theorem mem_dates {es : ValidationErrors} {d : Instant} :
    d ∈ es.toValue.dates ↔ ∃ e ∈ es.errors, d ∈ Value.datesFields e.extra := by
  simp [toValue, ValidationError.toValue, Value.dates, Value.datesFields, Value.mem_datesItems]

theorem normal_congr {f g : Binary64 → Binary64} (es : ValidationErrors)
    (same : ∀ x ∈ es.toValue.numbers, x.isFinite → f x = g x) : es.normal f = es.normal g := by
  have each : ∀ e ∈ es.errors, e.normal f = e.normal g := by
    intro e member
    rw [ValidationError.normal, ValidationError.normal,
      Value.normalFields_congr e.extra fun x inside => same x (mem_numbers.mpr ⟨e, member, inside⟩)]
  rw [normal, normal, List.map_congr_left each]

theorem equalLists_map {errors : List ValidationError} {f : ValidationError → ValidationError}
    (each : ∀ e ∈ errors, (f e).equal e) : equalLists (errors.map f) errors := by
  induction errors with
  | nil => rfl
  | cons e errors ih =>
    obtain ⟨first, later⟩ := List.forall_mem_cons.mp each
    rw [List.map_cons, equalLists, first, ih later]
    rfl

/-- Errors whose numbers are all finite and that have no date are equal to their normal form. -/
theorem norm_equal {es : ValidationErrors} (formed : ∀ e ∈ es.errors, e.WellFormed)
    (whole : ∀ x ∈ es.toValue.numbers, x.isFinite) (dateless : es.toValue.dates = []) : es.norm.equal es := by
  have each : ∀ e ∈ es.errors, (e.normal Binary64.plainZero).equal e := by
    intro e member
    refine (formed e member).norm_equal (fun x inside => whole x (mem_numbers.mpr ⟨e, member, inside⟩)) ?_
    apply List.eq_nil_iff_forall_not_mem.mpr
    intro d inside
    have there := mem_dates.mpr ⟨e, member, inside⟩
    rw [dateless] at there
    cases there
  exact equalLists_map each

theorem depth_toValue_le {es : ValidationErrors} {room : Nat} (deep : es.toValue.depth ≤ room) :
    ∀ e ∈ es.errors, e.toValue.depth ≤ room := by
  intro e member
  have inner : Value.depthItems (es.errors.map ValidationError.toValue) ≤ room := by
    simp only [toValue, Value.depth, Value.depthFields] at deep
    omega
  exact Value.depthItems_le_iff.mp inner _ (List.mem_map_of_mem member)

theorem readAs?_write {es : ValidationErrors} (formed : ∀ e ∈ es.errors, e.WellFormed)
    (deep : es.toValue.depth ≤ 127) {layout : Layout} (spaced : layout.Spaced) :
    readAs? ofJson? (write layout 0 es.toValue) = some (es.normal (Binary64.reread Numeral.scaled)) := by
  rw [readAs?, ofText_write (Value.reads_record spaced) _ deep]
  exact ofJson?_document formed

theorem wellFormed_built {made : List (String × List ValidationError.Call)}
    (distinct : ∀ m ∈ made, Value.DistinctFields (ValidationError.Call.given m.2)) :
    ∀ e ∈ (built made).errors, e.WellFormed := by
  intro e member
  obtain ⟨m, given, rfl⟩ := List.mem_map.mp member
  exact ValidationError.wellFormed_built m.1 (distinct m given)

/-- Errors that were built call by call are written with their fields in order, each once, and are read back in their
normal form but for numbers that the quick way misses. -/
theorem errors_read_back {made : List (String × List ValidationError.Call)}
    (distinct : ∀ m ∈ made, Value.DistinctFields (ValidationError.Call.given m.2))
    (deep : (built made).toValue.depth ≤ 127) {layout : Layout} (known : layout = compact ∨ layout = indented) :
    (∀ m ∈ made, ∃ fields, (ValidationError.built m.1 m.2).toValue = .object fields ∧
      ValidationError.Listed m.1 m.2 fields ∧
      ofText .record (write layout 0 (.object fields)) = .ok (.object (documentMembers Numeral.scaled fields))) ∧
    readAs? ofJson? (write layout 0 (built made).toValue) = some ((built made).normal (Binary64.reread Numeral.scaled)) ∧
    (∀ x ∈ (built made).toValue.numbers, x.isFinite → (x.reread Numeral.scaled).isFinite ∧
      (x.SpelledShort → x.reread Numeral.scaled = x.plainZero)) ∧
    ((∀ x ∈ (built made).toValue.numbers, x.SpelledShort) →
      readAs? ofJson? (write layout 0 (built made).toValue) = some (built made).norm) ∧
    (∃ j, ofText { Rules.record with number := Numeral.nearest } (write layout 0 (built made).toValue) = .ok j ∧
      ofJson? j = some (built made).norm) ∧
    ((∀ x ∈ (built made).toValue.numbers, x.isFinite) → (built made).toValue.dates = [] →
      (built made).norm.equal (built made)) := by
  have spaced := Value.spaced_of_known known
  have formed := wellFormed_built distinct
  have quick := readAs?_write formed deep spaced
  refine ⟨fun m member => ?_, quick, fun x _ whole => ?_, fun short => ?_, ?_, norm_equal formed⟩
  · have shallow := depth_toValue_le deep _ (List.mem_map_of_mem member)
    obtain ⟨fields, same, listed⟩ := ValidationError.listed_built m.1 m.2
    rw [same] at shallow
    exact ⟨fields, same, listed, ofText_write (Value.reads_record spaced) _ shallow 0⟩
  · exact ⟨Binary64.isFinite_reread_scaled whole, Binary64.reread_scaled whole⟩
  · rw [quick, norm, normal_congr _ fun x inside whole => Binary64.reread_scaled whole (short x inside)]
  · refine ⟨_, ofText_write (Value.reads_record_nearest spaced) _ deep 0, ?_⟩
    rw [ofJson?_document formed, norm, ← normal_congr _ fun _ _ => Binary64.reread_nearest]

/-- What is wrong with a kettle. The first error was given one key twice, a reserved one, and the empty one. -/
def kettle : List (String × List ValidationError.Call) :=
  [("too hot", [.field "limit" .null, .path ".water", .field "" (.array [.number (.zero true)]),
    .field "path" (.string "lost"), .field "limit" (.number (.ofDecimal false 995 (-1)))]), ("dry", [])]

theorem kettle_read_back : (∀ m ∈ kettle, Value.DistinctFields (ValidationError.Call.given m.2)) ∧
    (built kettle).toValue.depth ≤ 127 ∧
    (∀ x ∈ (built kettle).toValue.numbers, x.isFinite ∧ x.SpelledShort) ∧ (built kettle).toValue.dates = [] ∧
    readAs? ofJson? (write indented 0 (built kettle).toValue) = some (built kettle).norm ∧
    (built kettle).norm.equal (built kettle) := by
  have distinct : ∀ m ∈ kettle, Value.DistinctFields (ValidationError.Call.given m.2) := by
    simp [kettle, ValidationError.Call.given, ValidationError.reservedKeys, Value.DistinctFields, Value.Distinct,
      Value.DistinctItems]
  have deep : (built kettle).toValue.depth ≤ 127 := by decide
  have numbers : ∀ x ∈ (built kettle).toValue.numbers, x.isFinite ∧ x.SpelledShort := by decide +kernel
  have dateless : (built kettle).toValue.dates = [] := by decide
  obtain ⟨-, -, -, quick, -, equal⟩ := errors_read_back distinct deep (.inr rfl)
  exact ⟨distinct, deep, numbers, dateless, quick fun x inside => (numbers x inside).2,
    equal (fun x inside => (numbers x inside).1) dateless⟩

/-- An error whose extra field is a number of one digit. -/
def nine : List (String × List ValidationError.Call) := [("m", [.field "n" (.number (.ofDecimal false 9 133))])]

theorem nine_lost : (∀ m ∈ nine, Value.DistinctFields (ValidationError.Call.given m.2)) ∧
    (built nine).toValue.depth ≤ 127 ∧
    (∀ x ∈ (built nine).toValue.numbers, x.isFinite) ∧ (built nine).toValue.dates = [] ∧
    ∃ read, readAs? ofJson? (write compact 0 (built nine).toValue) = some read ∧ read.equal (built nine) = false := by
  have distinct : ∀ m ∈ nine, Value.DistinctFields (ValidationError.Call.given m.2) := by
    simp [nine, ValidationError.Call.given, ValidationError.reservedKeys, Value.DistinctFields, Value.Distinct]
  have deep : (built nine).toValue.depth ≤ 127 := by decide
  have finite : ∀ x ∈ (built nine).toValue.numbers, x.isFinite := by decide +kernel
  have other : ((built nine).normal (Binary64.reread Numeral.scaled)).equal (built nine) = false := by decide +kernel
  exact ⟨distinct, deep, finite, by decide, _, readAs?_write (wellFormed_built distinct) deep spaced_compact, other⟩

end ValidationErrors

end Conform
