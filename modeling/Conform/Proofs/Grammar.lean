import Conform.Proofs.Compiled

/-!
# The grammar of specs

`Value.IsSpec` says which values are specs. `Spec.faults` lists all that is wrong with a value as a spec, in the
order of a walk through it; a value without faults is a spec (`isSpec_iff`). A compilation with the built-in registry
stops at the first fault, and succeeds if there is none (`stopsAt_compileValue`).
-/

namespace Conform

/-! ### Compilations that stop at the first fault -/

namespace Compilation

variable {α β : Type}

/-- A compilation ends with the first of these faults, or with a result if there is none. -/
def StopsAt (m : Compilation α) : List SpecError → Prop
  | [] => ∃ a, m.result = .ok a
  | e :: _ => m.result = .error e

theorem stopsAt_done (a : α) : (done a).StopsAt [] := ⟨a, rfl⟩

theorem stopsAt_fail (e : SpecError) : (fail e : Compilation α).StopsAt [e] := rfl

theorem StopsAt.bind {m : Compilation α} {k : α → Compilation β} {faults later : List SpecError}
    (first : m.StopsAt faults) (rest : ∀ a, m.result = .ok a → (k a).StopsAt later) :
    (m.bind k).StopsAt (faults ++ later) := by
  cases faults with
  | nil =>
    obtain ⟨a, ended⟩ := first
    have following := rest a ended
    cases later with
    | nil =>
      obtain ⟨b, last⟩ := following
      exact ⟨b, result_bind_eq_ok_iff.mpr ⟨a, ended, last⟩⟩
    | cons e _ => exact result_bind_eq_error_iff.mpr (.inr ⟨a, ended, following⟩)
  | cons e _ => exact result_bind_eq_error_iff.mpr (.inl first)

theorem StopsAt.ok_iff {m : Compilation α} {faults : List SpecError} (stops : m.StopsAt faults) :
    (∃ a, m.result = .ok a) ↔ faults = [] := by
  cases faults with
  | nil => exact ⟨fun _ => rfl, fun _ => stops⟩
  | cons e _ =>
    have failed : m.result = .error e := stops
    simp [failed]

end Compilation

/-! ### Specs and their faults -/

mutual

/-- A spec is an object whose setting for null, if it is given, is null or a boolean, and whose entries are validators
with arguments that they take. -/
inductive Value.IsSpec : Value → Prop
  | object {fields : Table Value}
      (nullable : ∀ v, Table.get? fields "nullable" = some v → v = .null ∨ ∃ b, v = .bool b)
      (entries : ∀ key argument, (key, argument) ∈ fields → Value.IsEntry key argument) :
      Value.IsSpec (.object fields)

/-- What may stand under a key of a spec. The settings have any value here. -/
inductive Value.IsEntry : String → Value → Prop
  | nullable (v : Value) : Value.IsEntry "nullable" v
  | default (v : Value) : Value.IsEntry "def" v
  | required (v : Value) : Value.IsEntry "required" v
  | type (type : LeafType) : Value.IsEntry "type" (.string type.name)
  | schema {fields : Table Value} (specs : ∀ name v, (name, v) ∈ fields → Value.IsSpec v) :
      Value.IsEntry "schema" (.object fields)

end

namespace Spec

/-- What is wrong with a spec before its entries are looked at. -/
def headFaults : Value → List SpecError
  | .object fields =>
    match Table.get? fields "nullable" with
    | none | some .null | some (.bool _) => []
    | some v => [.nullableNotBoolean v.kind]
  | v => [.notAnObject v.kind]

def typeFaults : Value → List SpecError
  | .string name => if name ∈ LeafType.all.map LeafType.name then [] else [.unknownType name]
  | _ => [.typeNotNamed]

mutual

/-- What is wrong with the entries of a spec, in their order. -/
def bodyFaults : Value → List SpecError
  | .object fields => entriesFaults fields
  | _ => []

def entriesFaults : List (String × Value) → List SpecError
  | [] => []
  | (key, argument) :: entries =>
    (if key = "nullable" ∨ key = "def" ∨ key = "required" then []
      else if key = "type" then typeFaults argument
      else if key = "schema" then schemaFaults argument
      else [.unknownValidator key]) ++ entriesFaults entries

def schemaFaults : Value → List SpecError
  | .object fields => fieldsFaults fields
  | v => [.schemaNotObject v.kind]

/-- What is wrong with the specs of fields, one after the other. What is wrong with the head of one is told with the
name of the field. -/
def fieldsFaults : List (String × Value) → List SpecError
  | [] => []
  | (name, v) :: fields =>
    (headFaults v).map (fun e => .invalidArgument "schema" ("field '" ++ name ++ "': " ++ e.message)) ++
      bodyFaults v ++ fieldsFaults fields

end

/-- All that is wrong with a value as a spec, in the order of a walk through it. -/
def faults (v : Value) : List SpecError := headFaults v ++ bodyFaults v

/-- What is wrong with one entry that is not a setting. -/
def keyFaults (key : String) (argument : Value) : List SpecError :=
  if key = "required" then []
  else if key = "type" then typeFaults argument
  else if key = "schema" then schemaFaults argument
  else [.unknownValidator key]

theorem entriesFaults_eq (fields : List (String × Value)) :
    entriesFaults fields = (fields.filter fun e => !isReserved e.1).flatMap fun e => keyFaults e.1 e.2 := by
  induction fields with
  | nil => rfl
  | cons e fields ih =>
    obtain ⟨key, argument⟩ := e
    rw [entriesFaults, ih, List.filter_cons]
    by_cases reserved : key = "nullable" ∨ key = "def"
    · have skipped : isReserved key = true := by simpa [isReserved, nullableKey, defaultKey] using reserved
      have setting : key = "nullable" ∨ key = "def" ∨ key = "required" := by grind
      simp [skipped, setting]
    · have kept : isReserved key = false := by simpa [isReserved, nullableKey, defaultKey] using reserved
      have marker : (key = "nullable" ∨ key = "def" ∨ key = "required") ↔ key = "required" := by grind
      simp [kept, marker, keyFaults]

theorem fieldsFaults_eq_nil_iff (fields : List (String × Value)) :
    fieldsFaults fields = [] ↔ ∀ e ∈ fields, faults e.2 = [] := by
  induction fields with
  | nil => simp [fieldsFaults]
  | cons e fields ih =>
    obtain ⟨name, v⟩ := e
    simp [fieldsFaults, faults, ih, and_assoc]

theorem headFaults_eq_nil_iff (fields : Table Value) :
    headFaults (.object fields) = [] ↔
      ∀ v, Table.get? fields "nullable" = some v → v = .null ∨ ∃ b, v = .bool b := by
  cases found : Table.get? fields "nullable" with
  | none => simp [headFaults, found]
  | some v => cases v <;> simp [headFaults, found]

theorem typeFaults_eq_nil_iff (argument : Value) :
    typeFaults argument = [] ↔ ∃ type : LeafType, argument = .string type.name := by
  cases argument with
  | string name =>
    have known : name ∈ LeafType.all.map LeafType.name ↔ ∃ type : LeafType, name = type.name := by
      rw [List.mem_map]
      constructor
      · rintro ⟨type, _, same⟩
        exact ⟨type, same.symm⟩
      · rintro ⟨type, same⟩
        exact ⟨type, by cases type <;> decide, same.symm⟩
    simp [typeFaults, known]
  | _ => simp [typeFaults]

theorem isEntry_iff {key : String} {argument : Value}
    (specs : ∀ fields, argument = .object fields → ∀ e ∈ fields, (e.2.IsSpec ↔ faults e.2 = [])) :
    Value.IsEntry key argument ↔ isReserved key ∨ keyFaults key argument = [] := by
  have schema : schemaFaults argument = [] ↔
      ∃ fields, argument = .object fields ∧ ∀ e ∈ fields, e.2.IsSpec := by
    cases argument with
    | object fields =>
      rw [schemaFaults, fieldsFaults_eq_nil_iff]
      constructor
      · intro clean
        exact ⟨fields, rfl, fun e member => (specs fields rfl e member).mpr (clean e member)⟩
      · rintro ⟨_, same, held⟩ e member
        cases same
        exact (specs fields rfl e member).mp (held e member)
    | _ => simp [schemaFaults]
  constructor
  · intro entry
    cases entry with
    | nullable => exact .inl rfl
    | default => exact .inl rfl
    | required => exact .inr rfl
    | type type => exact .inr ((typeFaults_eq_nil_iff _).mpr ⟨type, rfl⟩)
    | schema held => exact .inr (schema.mpr ⟨_, rfl, fun e member => held e.1 e.2 member⟩)
  · rintro (reserved | clean)
    · simp only [isReserved, nullableKey, defaultKey, Bool.or_eq_true, beq_iff_eq] at reserved
      rcases reserved with rfl | rfl
      · exact .nullable argument
      · exact .default argument
    · unfold keyFaults at clean
      split at clean
      · subst key
        exact .required argument
      · split at clean
        · subst key
          obtain ⟨type, rfl⟩ := (typeFaults_eq_nil_iff _).mp clean
          exact .type type
        · split at clean
          · subst key
            obtain ⟨fields, rfl, held⟩ := schema.mp clean
            exact .schema fun name v member => held (name, v) member
          · cases clean

/-- The specs are the values without faults. -/
theorem isSpec_iff (v : Value) : v.IsSpec ↔ faults v = [] := by
  cases v with
  | object fields =>
    have entries : ∀ e ∈ fields, Value.IsEntry e.1 e.2 ↔ isReserved e.1 ∨ keyFaults e.1 e.2 = [] := by
      rintro ⟨key, argument⟩ member
      refine isEntry_iff ?_
      rintro inner rfl e present
      -- The induction is on the depth of the value, since the fields of a schema lie two levels below its spec.
      have field := Value.depth_field_lt present
      have argument := Value.depth_field_lt member
      exact isSpec_iff e.2
    rw [faults, List.append_eq_nil_iff, headFaults_eq_nil_iff, bodyFaults, entriesFaults_eq,
      List.flatMap_eq_nil_iff]
    constructor
    · rintro ⟨nullable, held⟩
      refine ⟨nullable, fun e member => ?_⟩
      obtain ⟨present, kept⟩ := List.mem_filter.mp member
      have entry := (entries e present).mp (held e.1 e.2 present)
      exact entry.resolve_left (by simpa using kept)
    · rintro ⟨nullable, clean⟩
      refine .object nullable fun key argument member => (entries _ member).mpr ?_
      cases reserved : isReserved key with
      | true => exact .inl rfl
      | false => exact .inr (clean _ (List.mem_filter.mpr ⟨member, by simp [reserved]⟩))
  | _ =>
    constructor
    · rintro ⟨⟩
    · intro clean
      cases clean
termination_by v.depth
decreasing_by simp only at *; omega

end Spec

/-! ### Compiling and the first fault -/

namespace Registry

open Compilation Spec

theorem stopsAt_ofValue (v : Value) :
    match Spec.ofValue v with
    | .error e => headFaults v = [e]
    | .ok s => headFaults v = [] ∧ bodyFaults v = s.entries.flatMap fun e => keyFaults e.1 e.2 := by
  cases v with
  | object fields =>
    rw [ofValue, ofFields, headFaults, bodyFaults, entriesFaults_eq]
    cases found : Table.get? fields nullableKey with
    | none => simp [nullableSetting, show Table.get? fields "nullable" = none from found]
    | some v =>
      rw [show Table.get? fields "nullable" = some v from found]
      cases v <;> simp [nullableSetting]
  | _ => rfl

theorem stopsAt_typeFactory (argument : Value) :
    (typeFactory argument (builtin.context argument)).StopsAt (typeFaults argument) := by
  cases argument with
  | string name =>
    have known : Table.get? builtin.types name = none ↔ name ∉ LeafType.all.map LeafType.name :=
      Table.get?_eq_none_iff
    simp only [typeFactory, Value.string?, typeFaults, context]
    cases found : Table.get? builtin.types name with
    | none =>
      rw [if_neg (known.mp found)]
      exact stopsAt_fail _
    | some check =>
      have member : name ∈ LeafType.all.map LeafType.name := by
        by_contra absent
        rw [known.mpr absent] at found
        cases found
      rw [if_pos member]
      exact stopsAt_done check
  | _ => exact stopsAt_fail _

theorem stopsAt_schemaFields {argument : Value}
    (specs : ∀ s : Spec, s.depth ≤ argument.depth →
      (builtin.compile s).StopsAt (s.entries.flatMap fun e => keyFaults e.1 e.2)) :
    ∀ (fields : List (String × Value)) (h : Value.depthFields fields ≤ argument.depth),
      (schemaFields (builtin.context argument) fields h).StopsAt (fieldsFaults fields)
  | [], _ => stopsAt_done []
  | (name, v) :: fields, h => by
    have read := stopsAt_ofValue v
    have bounds := h
    simp only [Value.depthFields] at bounds
    simp only [fieldsFaults, schemaFields]
    split <;> rename_i result <;> rw [result] at read
    · rw [read]
      exact stopsAt_fail _
    · rename_i s
      have lower := Spec.depth_ofValue_le result
      rw [read.1, read.2]
      refine (specs s (by omega)).bind fun check _ => ?_
      rw [← List.append_nil (fieldsFaults fields)]
      exact (stopsAt_schemaFields specs fields _).bind fun rest _ => stopsAt_done _

theorem stopsAt_schemaFactory {argument : Value}
    (specs : ∀ s : Spec, s.depth ≤ argument.depth →
      (builtin.compile s).StopsAt (s.entries.flatMap fun e => keyFaults e.1 e.2)) :
    (schemaFactory argument (builtin.context argument)).StopsAt (schemaFaults argument) := by
  cases argument with
  | object entries =>
    rw [schemaFaults, ← List.append_nil (fieldsFaults entries)]
    exact (stopsAt_schemaFields specs entries _).bind fun fields _ => ⟨_, rfl⟩
  | _ => exact stopsAt_fail _

theorem stopsAt_resolve {bound : Nat}
    (specs : ∀ s : Spec, s.depth ≤ bound →
      (builtin.compile s).StopsAt (s.entries.flatMap fun e => keyFaults e.1 e.2)) :
    ∀ (entries : List (String × Value)) (h : Value.depthFields entries ≤ bound),
      (resolve builtin.validators (fun argument _ => builtin.context argument) entries h).StopsAt
        (entries.flatMap fun e => keyFaults e.1 e.2)
  | [], _ => stopsAt_done []
  | (name, argument) :: entries, h => by
    have bounds := h
    simp only [Value.depthFields] at bounds
    simp only [List.flatMap_cons, resolve]
    have made : ∀ factory, builtin.factory? name = some factory →
        (factory argument (builtin.context argument)).StopsAt (keyFaults name argument) := by
      intro factory found
      rcases factory?_builtin found with ⟨rfl, rfl⟩ | ⟨rfl, rfl⟩ | ⟨rfl, rfl⟩
      · exact stopsAt_typeFactory argument
      · exact stopsAt_schemaFactory fun s lower => specs s (by omega)
      · exact stopsAt_done _
    cases found : builtin.validators.get? name with
    | none =>
      have unknown : keyFaults name argument = [.unknownValidator name] := by
        rw [validators_builtin, Table.get?_eq_none_iff] at found
        simp only [Table.keys_cons, Table.keys_nil, List.mem_cons, List.not_mem_nil, or_false, not_or] at found
        simp [keyFaults, found]
      rw [unknown]
      exact rfl
    | some factory =>
      refine (made factory found).bind fun check _ => ?_
      rw [← List.append_nil (entries.flatMap _)]
      exact (stopsAt_resolve specs entries _).bind fun steps _ => stopsAt_done _

theorem stopsAt_compile (s : Spec) :
    (builtin.compile s).StopsAt (s.entries.flatMap fun e => keyFaults e.1 e.2) := by
  have nested : ∀ t : Spec, t.depth ≤ Value.depthFields s.entries →
      (builtin.compile t).StopsAt (t.entries.flatMap fun e => keyFaults e.1 e.2) := by
    -- The induction is on the depth of the spec, as compiling is a recursion on it.
    intro t lower
    exact stopsAt_compile t
  rw [compile_eq, ← List.append_nil (s.entries.flatMap _)]
  exact (stopsAt_resolve nested s.entries _).bind fun steps _ => ⟨_, rfl⟩
termination_by s.depth
decreasing_by simp only [Spec.depth] at *; omega

theorem stopsAt_compileValue (v : Value) : (builtin.compileValue v).StopsAt (faults v) := by
  have read := stopsAt_ofValue v
  rw [faults, compileValue]
  split <;> rename_i result <;> rw [result] at read
  · rw [read]
    exact rfl
  · rw [read.1, read.2]
    exact stopsAt_compile _

/-- Only the field whose own spec is at fault is named, and the bad setting is found before the unknown validator that
stands in front of it. -/
example :
    (builtin.compileValue (.object [("schema", .object [("a", .object [("schema", .object [
      ("b", .object [("max", .null), ("nullable", .string "yes")])])])])])).result =
      .error (.invalidArgument "schema" "field 'b': Invalid spec: 'nullable' must be a boolean, got string") := rfl

end Registry

end Conform
