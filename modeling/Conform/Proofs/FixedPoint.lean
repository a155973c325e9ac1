import Conform.Proofs.DateText
import Conform.Proofs.ExitCodes
import Conform.Proofs.Idempotence
import Conform.Proofs.Storage

/-!
# Checking what was printed

What the program prints for a value can be checked with the same spec. Dates are strings there, and numbers may have
changed as they were read, but a value that is its own answer leads to an answer that is written like its normal form
(`Spec.answer?_normal`). So the second output differs from the first by what reading makes of numbers, and not at all
where these are read as they were (`output_again`).
-/

namespace Conform

namespace Value

/-- A document can show a value: its numbers are finite, the years of its dates have four digits and no sign, and no leap
second in it is within a minute. -/
structure Shown (v : Value) : Prop where
  whole : ∀ x ∈ v.numbers, x.isFinite
  common : ∀ d ∈ v.dates, d.InCommonYears
  timely : ∀ d ∈ v.dates, d.LeapEndsMinute

theorem Shown.field {fields : Table Value} (shown : (object fields).Shown) {name : String} {v : Value}
    (found : Table.get? fields name = some v) : v.Shown := by
  have member := Table.mem_of_get? found
  exact ⟨fun x inside => shown.whole x (mem_numbersFields.mpr ⟨_, member, inside⟩),
    fun d inside => shown.common d (mem_datesFields.mpr ⟨_, member, inside⟩),
    fun d inside => shown.timely d (mem_datesFields.mpr ⟨_, member, inside⟩)⟩

variable {f : Binary64 → Binary64}

theorem Shown.isNull_normal {v : Value} (shown : v.Shown) : (v.normal f).isNull = v.isNull := by
  cases v with
  | number x =>
    rw [normal, if_pos (shown.whole x List.mem_cons_self)]
    rfl
  | _ => rfl

theorem normal_number {x : Binary64} (whole : x.isFinite) : (number x).normal f = number (f x) := if_pos whole

end Value

open Value

/-! ### The answer for a normal form -/

/-- A value that stands for itself as a value of a type does so in a document. -/
theorem LeafType.coerce?_normal {type : LeafType} {w : Value} (typed : type.HasType w) (shown : w.Shown)
    {f : Binary64 → Binary64} (finite : ∀ x : Binary64, x.isFinite → (f x).isFinite) :
    ∃ u, type.coerce? (w.normal f) = some u ∧ u.norm = (w.normal f).norm := by
  obtain ⟨kind, whole⟩ := typed
  cases type <;> cases w <;> cases kind
  · exact ⟨_, rfl, rfl⟩
  · rename_i x
    have kept := finite x (whole x rfl)
    rw [normal_number (whole x rfl)]
    exact ⟨.number (f x), by simp [coerce?, numberOf?, kept], rfl⟩
  · rename_i d
    have read := Instant.ofText?_textZ (shown.common d List.mem_cons_self) (shown.timely d List.mem_cons_self)
    exact ⟨.date d, by simp [coerce?, normal, dateOf?, read], rfl⟩
  · exact ⟨_, rfl, rfl⟩
  · exact ⟨_, rfl, rfl⟩
  · exact ⟨_, rfl, rfl⟩

section

variable {f : Binary64 → Binary64}

/-- A field that finds its own value in an answer finds it in the normal form as well. -/
theorem Field.report_normal {name : String} {t : Spec} {check : Check} {output : Table Value} (formed : t.WellFormed)
    (shown : (object output).Shown)
    (stays : ∀ x : Value, x.Shown → check.answer? x = some x →
      ∃ u, check.answer? (x.normal f) = some u ∧ u.norm = (x.normal f).norm)
    (clean : ((ofSpec name t check).report output).2 = [])
    (found : Table.get? output name = ((ofSpec name t check).report output).1) :
    ((ofSpec name t check).report (normalFields f output)).2 = [] ∧
      ((ofSpec name t check).report (normalFields f output)).1.map norm =
        ((ofSpec name t check).report output).1.map fun x => (x.normal f).norm := by
  cases value : ((ofSpec name t check).report output).1 with
  | some x =>
    rw [value] at found
    have shownField := shown.field found
    have own : check.answer? x = some x ∧ (x.isNull → (ofSpec name t check).kind.isOptional) := by
      rcases value_ofSpec clean value with ⟨_, default, null⟩ | ⟨u, there, answered, kind⟩
      · have present := formed.default x default
        rw [null x found] at present
        cases present
      · cases found.symm.trans there
        refine ⟨answered, fun null => ?_⟩
        rw [ofSpec, FieldKind.isOptional_ofSpec]
        simpa using kind null
    obtain ⟨u, answered, same⟩ := stays x shownField own.1
    have there : Table.get? (normalFields f output) name = some (x.normal f) := by
      rw [get?_normalFields, found]
      rfl
    have given : (ofSpec name t check).given? (normalFields f output) = some (x.normal f) := by
      refine given?_eq_some_iff.mpr ⟨there, ?_⟩
      rw [shownField.isNull_normal]
      exact own.2
    refine ⟨?_, ?_⟩
    · rw [clean_iff, given]
      exact Option.isSome_of_eq_some answered
    · rw [value_of_given given answered]
      exact congrArg some same
  | none =>
    rw [value] at found
    have absent : (ofSpec name t check).given? output = none := by
      rw [given?_eq_none_iff]
      intro u there
      rw [show (ofSpec name t check).name = name from rfl, found] at there
      cases there
    have absentToo : (ofSpec name t check).given? (normalFields f output) = none := by
      rw [given?_eq_none_iff]
      intro u there
      rw [show (ofSpec name t check).name = name from rfl, get?_normalFields, found] at there
      cases there
    rw [report_of_not_given rfl rfl absentToo absent, value]
    exact ⟨clean, rfl⟩

theorem normalFields_entries (f : Binary64 → Binary64) (fields : List Field) (value : Field → Option Value) :
    normalFields f (fields.flatMap fun g => g.entry (value g)) =
      fields.flatMap fun g => g.entry ((value g).map (·.normal f)) := by
  rw [normalFields_eq_map, List.map_flatMap]
  refine List.flatMap_congr fun g _ => ?_
  cases value g <;> rfl

namespace Spec

theorem schema_normal {declared : Table Spec} {fields : List Field} {output : Table Value}
    (compiles : List.Forall₂ Field.Compiles declared fields) (distinct : Table.Distinct declared)
    (formed : ∀ name t, (name, t) ∈ declared → t.WellFormed) (shown : (object output).Shown)
    (stays : ∀ name t, (name, t) ∈ declared → ∀ check, (Registry.builtin.compile t).result = .ok check →
      ∀ x : Value, x.Shown → check.answer? x = some x →
        ∃ u, check.answer? (x.normal f) = some u ∧ u.norm = (x.normal f).norm)
    (answered : (Schema.check fields).answer? (.object output) = some (.object output)) :
    ∃ u, (Schema.check fields).answer? ((object output).normal f) = some u ∧
      u.norm = ((object output).normal f).norm := by
  have regular := Field.regular_of_compiles compiles
  obtain ⟨_, same, clean, made⟩ := (Schema.answer?_eq_some_iff regular).mp answered
  cases same
  have each : ∀ g ∈ fields, (g.report (normalFields f output)).2 = [] ∧
      (g.report (normalFields f output)).1.map norm = (g.report output).1.map fun x => (x.normal f).norm := by
    intro g member
    obtain ⟨⟨name, t⟩, present, check, compiled, rfl⟩ := forall₂_mem_right compiles member
    refine Field.report_normal (formed name t present) shown (stays name t present check compiled) (clean _ member) ?_
    have found := get?_answer compiles distinct output member
    rw [← Value.object.inj made] at found
    exact found
  refine ⟨_, (Schema.answer?_eq_some_iff regular).mpr ⟨_, rfl, fun g member => (each g member).1, rfl⟩, ?_⟩
  have written : normalFields f output =
      (Schema.ordered fields).flatMap fun g => g.entry ((g.report output).1.map (·.normal f)) := by
    rw [← normalFields_entries]
    exact congrArg (normalFields f) (Value.object.inj made)
  have fieldwise : normalFields Binary64.plainZero (Schema.entries (Schema.ordered fields) (normalFields f output)) =
      normalFields Binary64.plainZero (normalFields f output) := by
    conv_rhs => rw [written]
    rw [Schema.entries, normalFields_entries, normalFields_entries]
    refine List.flatMap_congr fun g member => ?_
    rw [show (g.report (normalFields f output)).1.map (·.normal Binary64.plainZero) = _ from
      (each g (Schema.mem_ordered.mp member)).2, Option.map_map]
    rfl
  exact congrArg Value.object fieldwise

/-- A value that is its own answer has a normal form whose answer is written alike. The induction is on the depth of
the spec. -/
theorem answer?_normal (s : Spec) (formed : s.WellFormed) {check : Check}
    (compiled : (Registry.builtin.compile s).result = .ok check)
    (finite : ∀ x : Binary64, x.isFinite → (f x).isFinite) (w : Value) (shown : w.Shown)
    (fixed : check.answer? w = some w) :
    ∃ u, check.answer? (w.normal f) = some u ∧ u.norm = (w.normal f).norm := by
  obtain ⟨fields, compiles, answers⟩ := answer?_of_compile formed compiled
  have regular := Field.regular_of_compiles compiles
  by_cases null : w.isNull
  · cases Value.eq_null_of_isNull null
    exact ⟨.null, fixed, rfl⟩
  · rw [answers, if_neg null] at fixed
    rw [answers, shown.isNull_normal, if_neg null]
    cases nested : s.fields? with
    | none =>
      rw [answer?_plain nested] at fixed ⊢
      cases asked : s.type? <;> simp only [asked] at fixed ⊢
      · exact ⟨_, rfl, rfl⟩
      · exact LeafType.coerce?_normal (LeafType.hasType_coerce fixed) shown finite
    | some declared =>
      rw [nested, Option.getD_some] at compiles
      obtain ⟨beside, u, schema, same⟩ := (answer?_nested_iff regular nested).mp fixed
      obtain ⟨output, rfl, _, made⟩ := (Schema.answer?_eq_some_iff regular).mp schema
      have kept : s.type? ≠ some .string := by
        intro asked
        rw [if_pos asked] at same
        cases same
      rw [if_neg kept] at same
      subst same
      obtain ⟨u, answered, alike⟩ := schema_normal compiles (formed.fields nested)
        (fun name t => formed.field nested) shown (fun name t member inner compiledInner => by
          have lower := depth_field_lt nested member
          exact answer?_normal t (formed.field nested member) compiledInner finite) schema
      exact ⟨u, (answer?_nested_iff regular nested).mpr ⟨beside, u, answered, (if_neg kept).symm⟩, alike⟩
termination_by s.depth

end Spec

end

/-! ### The second run -/

theorem Spec.Steady.plain {s : Spec} (optional : s.default = none) (unnested : s.fields? = none) : s.Steady :=
  .intro (by simp [optional]) (by simp [unnested]) (by simp [unnested])

namespace CommandLine

open Json

theorem toList_printed (w : Value) : (w.indentedJson ++ "\n").toList = write indented 0 w ++ ['\n'] := by
  rw [String.toList_append, indentedJson, String.toList_ofList]
  rfl

variable {files : Files} {specPath valuePath : String} {s : Spec} {check : Check} {v w : Value}

theorem Holds.unique {path : String} (held : Holds files path v) (heldToo : Holds files path w) : v = w :=
  Except.ok.inj ((load_eq_ok_iff.mpr held).symm.trans (load_eq_ok_iff.mpr heldToo))

theorem holds_of_written {path text : String} (content : files path = .ok text)
    (written : text.toList = write compact 0 v) (distinct : v.Distinct) (deep : v.depth ≤ 127)
    (kept : v.normal (Binary64.reread Numeral.scaled) = v) : Holds files path v := by
  refine ⟨text, content, ?_⟩
  rw [written, ofJsonText_write distinct deep spaced_compact, kept]

theorem Judged.result {spec : Value} (judged : Judged files specPath valuePath s check v)
    (held : Holds files specPath spec) (every : Validate.all check v = .ok w) :
    ((Registry.builtin.compileValue spec).result.toOption.bind fun check => (Validate.all check v).toOption) =
      some w := by
  obtain ⟨other, heldToo, read⟩ := judged.spec
  cases heldToo.unique held
  rw [Registry.compileValue_ok_iff.mpr ⟨s, read, judged.compiled⟩]
  simp [Except.toOption, every]

theorem Judged.stored (judged : Judged files specPath valuePath s check v) : s.Stored 127 := by
  obtain ⟨spec, ⟨text, _, data⟩, read⟩ := judged.spec
  exact ⟨spec, read, (storable_ofJsonText data).mono (by decide)⟩

theorem Judged.storable_answer (judged : Judged files specPath valuePath s check v)
    (answered : check.answer? v = some w) : w.Storable 127 := by
  obtain ⟨text, _, data⟩ := judged.value
  exact Spec.storable_of_answer s judged.stored judged.compiled v w (storable_ofJsonText data) answered

/-- With whatever reading of numbers, what is printed is read and answered so that it is printed as its reading. -/
theorem Judged.again (judged : Judged files specPath valuePath s check v) (steady : s.Steady)
    (answered : check.answer? v = some w) (common : ∀ d ∈ w.dates, d.InCommonYears) {rules : Rules}
    (reads : rules.Reads indented) (nesting : rules.nesting = 127) :
    ∃ j u, ofText rules (w.indentedJson ++ "\n").toList = .ok j ∧
      ofJson j = .ok (w.normal (Binary64.reread rules.number)) ∧
      check.answer? (w.normal (Binary64.reread rules.number)) = some u ∧
      u.indentedJson = (w.normal (Binary64.reread rules.number)).indentedJson := by
  have stored := judged.storable_answer answered
  have fixed := Spec.answer?_again s judged.wellFormed steady judged.compiled v w answered
  obtain ⟨j, read, data⟩ := reads_write_spaces reads w stored.distinct (by rw [nesting]; exact stored.shallow) 0
    (List.forall_mem_singleton.mpr (show isSpace '\n' from rfl))
  obtain ⟨u, answer, alike⟩ := Spec.answer?_normal s judged.wellFormed judged.compiled reads.finite w
    ⟨stored.whole, common, stored.timely⟩ fixed
  refine ⟨j, u, by rw [toList_printed, read], data, answer, ?_⟩
  rw [indentedJson, ← write_norm, alike, write_norm]
  rfl

/-- A spec file that stays as it was judges other values in the same way. -/
theorem Judged.later {later : Files} {outPath : String} {u : Value} (judged : Judged files specPath valuePath s check v)
    (kept : later specPath = files specPath) (stored : Holds later outPath u) :
    Judged later specPath outPath s check u := by
  obtain ⟨spec, ⟨text, there, data⟩, read⟩ := judged.spec
  exact ⟨⟨spec, ⟨text, kept.trans there, data⟩, read⟩, judged.compiled, stored⟩

/-- What exits with 0 was judged and answered. -/
theorem judged_of_code_eq_zero {spec : Value} (held : Holds files specPath spec) (read : Spec.ofValue spec = .ok s)
    {collectAll : Bool} (passed : (checkFiles files specPath valuePath collectAll).code = 0) :
    ∃ check v w, Judged files specPath valuePath s check v ∧ check.answer? v = some w := by
  have modes := modes_checkFiles files specPath valuePath
  have plain : (checkFiles files specPath valuePath false).code = 0 := by
    cases collectAll
    · exact passed
    · exact modes.code.trans passed
  obtain ⟨t, check, v, judged, accepts⟩ := modes.valid.mp plain
  obtain ⟨other, heldToo, readToo⟩ := judged.spec
  cases heldToo.unique held
  cases readToo.symm.trans read
  obtain ⟨w, answered⟩ := judged.accepts_iff.mp accepts
  exact ⟨check, v, w, judged, answered⟩

/-- Checking what was printed, with a spec whose defaults and types are steady, passes and prints it again, but for
numbers that are not read as they were. -/
theorem output_again (program : String) {files later : Files} {specPath valuePath outPath : String}
    {options : List String} {spec : Value} {s : Spec} (held : Holds files specPath spec)
    (read : Spec.ofValue spec = .ok s) (steady : s.Steady)
    (passed : (run program files ("check" :: specPath :: valuePath :: options)).code = 0)
    (kept : later specPath = files specPath)
    (stored : later outPath = .ok (run program files ("check" :: specPath :: valuePath :: options)).output) :
    ∃ check v w, Judged files specPath valuePath s check v ∧ Validate.all check v = .ok w ∧
      run program files ("check" :: specPath :: valuePath :: options) = ⟨0, w.indentedJson ++ "\n", ""⟩ ∧
      ((∀ d ∈ w.dates, d.InCommonYears) →
        (∀ more, run program later ("check" :: specPath :: outPath :: more) =
          ⟨0, (w.normal (Binary64.reread Numeral.scaled)).indentedJson ++ "\n", ""⟩) ∧
        ((∀ x ∈ w.numbers, x.SpelledShort) → ∀ more, run program later ("check" :: specPath :: outPath :: more) =
          run program files ("check" :: specPath :: valuePath :: options)) ∧
        ∃ j u, ofText { Rules.data with number := Numeral.nearest } (w.indentedJson ++ "\n").toList = .ok j ∧
          ofJson j = .ok w.norm ∧ Validate.ok check w.norm = .ok u ∧ Validate.all check w.norm = .ok u ∧
          u.indentedJson = w.indentedJson) := by
  rw [run_check] at passed
  obtain ⟨check, v, w, judged, answered⟩ := judged_of_code_eq_zero held read passed
  obtain ⟨-, every, report⟩ := judged.answered answered
  simp only [run_check, report, accepted] at stored ⊢
  refine ⟨check, v, w, judged, every, rfl, fun common => ?_⟩
  have second : ∀ collectAll, checkFiles later specPath outPath collectAll =
      ⟨0, (w.normal (Binary64.reread Numeral.scaled)).indentedJson ++ "\n", ""⟩ := by
    obtain ⟨j, u, text, data, again, same⟩ := judged.again steady answered common (reads_data spaced_indented) rfl
    have printed : Holds later outPath (w.normal (Binary64.reread Numeral.scaled)) := by
      refine ⟨_, stored, ?_⟩
      rw [ofJsonText, text]
      exact data
    intro collectAll
    rw [((judged.later kept printed).answered again).2.2 collectAll, accepted, same]
    rfl
  refine ⟨fun more => second _, fun short more => ?_, ?_⟩
  · have plain := normal_congr w fun x inside whole => Binary64.reread_scaled whole (short x inside)
    rw [second, plain, ← Value.norm, indentedJson, write_norm, ← indentedJson]
  · obtain ⟨j, u, text, data, again, same⟩ := judged.again steady answered common (reads_nearest spaced_indented) rfl
    have plain : w.normal (Binary64.reread Numeral.nearest) = w.norm :=
      normal_congr w fun x _ whole => Binary64.reread_nearest whole
    rw [plain] at data again same
    have regular := hereditary_regular.compile_builtin s judged.compiled
    refine ⟨j, u, text, data, regular.ok_ok_iff.mpr again, regular.all_ok_iff.mpr again, ?_⟩
    rw [same, indentedJson, write_norm, ← indentedJson]

/-- A water level that was read at a leap second, and what is printed for it. -/
def tideSpec : Value := .object [("schema", .object [
  ("unit", .object [("def", .string "m")]),
  ("level", .object [("type", .string "number")]),
  ("at", .object [("type", .string "date"), ("required", .bool true)])])]

def tideInput : Value := .object [("level", .string "-0"), ("at", .string "1990-12-31 23:59:60.5Z")]

def tideSecond : Instant := ⟨662687999, 500000000, true, by decide, by decide⟩

def tideText : String :=
  "\x7b\n  \"at\": \"1990-12-31T23:59:60.500Z\",\n  \"unit\": \"m\",\n  \"level\": 0\n\x7d\n"

def tideFiles : Files
  | "tide.json" => .ok ("\x7b\"schema\":\x7b\"unit\":\x7b\"def\":\"m\"\x7d," ++
      "\"level\":\x7b\"type\":\"number\"\x7d,\"at\":\x7b\"type\":\"date\",\"required\":true\x7d\x7d\x7d")
  | "low.json" => .ok "\x7b\"level\":\"-0\",\"at\":\"1990-12-31 23:59:60.5Z\"\x7d"
  | "out.json" => .ok tideText
  | _ => .error "No such file or directory (os error 2)"

def tideReport (path : String) (options : List String) : Report :=
  run "datacheck" tideFiles ("check" :: "tide.json" :: path :: options)

theorem tide_printed_again : ∃ s check w, Holds tideFiles "tide.json" tideSpec ∧ Spec.ofValue tideSpec = .ok s ∧
    s.Steady ∧ Judged tideFiles "tide.json" "low.json" s check tideInput ∧ Validate.all check tideInput = .ok w ∧
    w.dates = [tideSecond] ∧ tideSecond.InCommonYears ∧ (∀ x ∈ w.numbers, x.SpelledShort) ∧
    tideReport "low.json" ["--all"] = ⟨0, tideText, ""⟩ ∧
    tideFiles "out.json" = .ok (tideReport "low.json" ["--all"]).output ∧
    ∀ more, tideReport "out.json" more = ⟨0, tideText, ""⟩ := by
  have held : Holds tideFiles "tide.json" tideSpec := by
    refine holds_of_written rfl (by decide +kernel) ?_ (by decide) rfl
    simp [tideSpec, Distinct, DistinctFields, Table.Distinct, Table.keys]
  have given : Holds tideFiles "low.json" tideInput := by
    refine holds_of_written rfl (by decide +kernel) ?_ (by decide) rfl
    simp [tideInput, Distinct, DistinctFields, Table.Distinct, Table.keys]
  obtain ⟨s, read⟩ : ∃ s, Spec.ofValue tideSpec = .ok s := ⟨_, rfl⟩
  have steady : s.Steady := by
    cases read
    refine .intro (fun d none => by cases none) (fun asked => by cases asked) ?_
    intro fields declared name t member
    cases declared
    rcases List.mem_cons.mp member with unit | member
    · cases unit
      refine .intro ?_ (fun _ plain => by cases plain) (fun fields none => by cases none)
      intro d default check compiled
      cases default
      cases compiled
      rfl
    · rcases List.mem_cons.mp member with level | member
      · cases level
        exact .plain rfl rfl
      · rcases List.mem_cons.mp member with second | member
        · cases second
          exact .plain rfl rfl
        · cases member
  have report : tideReport "low.json" ["--all"] = ⟨0, tideText, ""⟩ := by decide +kernel
  have printed : tideFiles "out.json" = .ok (tideReport "low.json" ["--all"]).output := by rw [report]; rfl
  obtain ⟨check, v, w, judged, every, -, again⟩ := output_again "datacheck" held read steady
    (congrArg Report.code report) rfl printed
  cases judged.value.unique given
  have dates : ((Registry.builtin.compileValue tideSpec).result.toOption.bind fun check =>
      (Validate.all check tideInput).toOption).map dates = some [tideSecond] := by decide +kernel
  have numbers : ((Registry.builtin.compileValue tideSpec).result.toOption.bind fun check =>
      (Validate.all check tideInput).toOption).map numbers = some [.zero true] := by decide +kernel
  rw [judged.result held every, Option.map_some, Option.some.injEq] at dates numbers
  have common : tideSecond.InCommonYears := ⟨by decide, by decide⟩
  have short : ∀ x ∈ w.numbers, x.SpelledShort := by
    rw [numbers]
    decide +kernel
  have same := (again (by rw [dates]; simpa using common)).2.1 short
  exact ⟨s, check, w, held, read, steady, judged, every, dates, common, short, report, printed,
    fun more => (same more).trans report⟩

/-- A number that is printed as it was given, and read as the one after it. -/
def loudSpec : Value := .object [("type", .string "number")]

def loudFiles : Files
  | "loud.json" => .ok "\x7b\"type\":\"number\"\x7d"
  | "nine.json" => .ok "\"9e133\""
  | "out.json" => .ok "9e133\n"
  | _ => .error "No such file or directory (os error 2)"

def loudReport (path : String) (options : List String) : Report :=
  run "datacheck" loudFiles ("check" :: "loud.json" :: path :: options)

theorem loud_printed_otherwise : ∃ s check w, Holds loudFiles "loud.json" loudSpec ∧ Spec.ofValue loudSpec = .ok s ∧
    s.Steady ∧ Judged loudFiles "loud.json" "nine.json" s check (.string "9e133") ∧
    Validate.all check (.string "9e133") = .ok w ∧ w.dates = [] ∧
    loudReport "nine.json" [] = ⟨0, "9e133\n", ""⟩ ∧ loudReport "nine.json" ["--all"] = ⟨0, "9e133\n", ""⟩ ∧
    loudFiles "out.json" = .ok "9e133\n" ∧
    loudReport "out.json" [] = ⟨0, "9.000000000000001e133\n", ""⟩ ∧
    loudReport "out.json" ["--all"] = ⟨0, "9.000000000000001e133\n", ""⟩ := by
  have held : Holds loudFiles "loud.json" loudSpec := by
    refine holds_of_written rfl (by decide +kernel) ?_ (by decide) rfl
    simp [loudSpec, Distinct, DistinctFields, Table.Distinct, Table.keys]
  have given : Holds loudFiles "nine.json" (.string "9e133") :=
    holds_of_written rfl (by decide +kernel) trivial (by decide) rfl
  obtain ⟨s, read⟩ : ∃ s, Spec.ofValue loudSpec = .ok s := ⟨_, rfl⟩
  have steady : s.Steady := by
    cases read
    exact .plain rfl rfl
  have passed : (checkFiles loudFiles "loud.json" "nine.json" false).code = 0 := by decide +kernel
  obtain ⟨check, v, w, judged, answered⟩ := judged_of_code_eq_zero held read passed
  obtain ⟨-, every, -⟩ := judged.answered answered
  cases judged.value.unique given
  have dates : ((Registry.builtin.compileValue loudSpec).result.toOption.bind fun check =>
      (Validate.all check (.string "9e133")).toOption).map dates = some [] := by decide +kernel
  rw [judged.result held every, Option.map_some, Option.some.injEq] at dates
  exact ⟨s, check, w, held, read, steady, judged, every, dates, by decide +kernel, by decide +kernel, rfl,
    by decide +kernel, by decide +kernel⟩

end CommandLine

end Conform
