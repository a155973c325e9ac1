import Conform.CommandLine
import Conform.Proofs.Acceptance
import Conform.Proofs.Agreement
import Conform.Proofs.Documents

/-!
# The two modes of the command line

A check by the first error and a check for all of them end with the same exit code: 2 where the value cannot be judged,
and for the same reason, 0 where the spec accepts the value, and 1 where it does not. They print the same value, and the
one error of the first is the first error of the other (`modes_agree`).
-/

namespace Conform

namespace CommandLine

/-! ### What the files hold -/

def Holds (files : Files) (path : String) (v : Value) : Prop :=
  ∃ text, files path = .ok text ∧ Value.ofJsonText text.toList = .ok v

inductive Unusable (files : Files) (path : String) : Failure → Prop
  | unreadable {reason : String} (missing : files path = .error reason) : Unusable files path (.unreadable reason)
  | malformed {text : String} {fault : Json.Fault} (content : files path = .ok text)
      (refused : Value.ofJsonText text.toList = .error fault) :
      Unusable files path (.malformed (fault.message text.toList))

/-- Why a value is not judged, and what the program was doing: it is the spec file that is looked at first, then the
value file, and then the spec. -/
inductive Hindered (files : Files) (specPath valuePath : String) : (doing : String) → Failure → Prop
  | specFile {f : Failure} (unusable : Unusable files specPath f) :
      Hindered files specPath valuePath ("failed to load " ++ specPath) f
  | valueFile {spec : Value} {f : Failure} (held : Holds files specPath spec) (unusable : Unusable files valuePath f) :
      Hindered files specPath valuePath ("failed to load " ++ valuePath) f
  | spec {spec v : Value} {e : SpecError} (held : Holds files specPath spec) (given : Holds files valuePath v)
      (invalid : (Registry.builtin.compileValue spec).result = .error e) :
      Hindered files specPath valuePath ("invalid spec " ++ specPath) (.spec e)

/-- The value file holds a value, and the spec file a spec that compiles. -/
structure Judged (files : Files) (specPath valuePath : String) (s : Spec) (check : Check) (v : Value) : Prop where
  spec : ∃ spec, Holds files specPath spec ∧ Spec.ofValue spec = .ok s
  compiled : (Registry.builtin.compile s).result = .ok check
  value : Holds files valuePath v

variable {files : Files} {specPath valuePath : String}

theorem load_eq_ok_iff {path : String} {v : Value} : load files path = .ok v ↔ Holds files path v := by
  unfold load Holds
  cases files path with
  | error reason => simp
  | ok text => cases read : Value.ofJsonText text.toList <;> simp [read]

theorem load_eq_error_iff {path : String} {f : Failure} : load files path = .error f ↔ Unusable files path f := by
  unfold load
  constructor
  · intro failed
    split at failed
    · cases failed
      exact .unreadable ‹_›
    · split at failed <;> cases failed
      exact .malformed ‹_› ‹_›
  · rintro (missing | ⟨content, refused⟩)
    · rw [missing]
    · rw [content]
      simp only [refused]

theorem hindered_or_judged (files : Files) (specPath valuePath : String) :
    (∃ doing f, Hindered files specPath valuePath doing f) ∨
      ∃ s check v, Judged files specPath valuePath s check v := by
  cases loaded : load files specPath with
  | error f => exact .inl ⟨_, f, .specFile (load_eq_error_iff.mp loaded)⟩
  | ok spec =>
    have held := load_eq_ok_iff.mp loaded
    cases loadedValue : load files valuePath with
    | error f => exact .inl ⟨_, f, .valueFile held (load_eq_error_iff.mp loadedValue)⟩
    | ok v =>
      have given := load_eq_ok_iff.mp loadedValue
      cases compiles : (Registry.builtin.compileValue spec).result with
      | error e => exact .inl ⟨_, _, .spec held given compiles⟩
      | ok check =>
        obtain ⟨s, read, compiled⟩ := Registry.compileValue_ok_iff.mp compiles
        exact .inr ⟨s, check, v, ⟨spec, held, read⟩, compiled, given⟩

theorem Judged.wellFormed {s : Spec} {check : Check} {v : Value} (judged : Judged files specPath valuePath s check v) :
    s.WellFormed := by
  obtain ⟨spec, ⟨text, _, data⟩, read⟩ := judged.spec
  exact Spec.wellFormed_ofValue (Value.storable_ofJsonText data).distinct read

theorem Judged.accepts_iff {s : Spec} {check : Check} {v : Value} (judged : Judged files specPath valuePath s check v) :
    s.Accepts v ↔ ∃ w, check.answer? v = some w := by
  rw [← Spec.answer?_isSome_iff_accepts s judged.wellFormed judged.compiled v, Option.isSome_iff_exists]

/-! ### What is reported -/

theorem Hindered.checkFiles {doing : String} {f : Failure} (hindered : Hindered files specPath valuePath doing f)
    (collectAll : Bool) : checkFiles files specPath valuePath collectAll = failed doing f := by
  unfold CommandLine.checkFiles
  cases hindered with
  | specFile unusable => rw [load_eq_error_iff.mpr unusable]
  | valueFile held unusable =>
    rw [load_eq_ok_iff.mpr held, load_eq_error_iff.mpr unusable]
  | spec held given invalid =>
    rw [load_eq_ok_iff.mpr held, load_eq_ok_iff.mpr given]
    simp only [invalid]

theorem Judged.checkFiles_eq {s : Spec} {check : Check} {v : Value} (judged : Judged files specPath valuePath s check v)
    (collectAll : Bool) : checkFiles files specPath valuePath collectAll =
      match validate check v collectAll with
      | .ok w => accepted w
      | .error es => refused es := by
  obtain ⟨spec, held, read⟩ := judged.spec
  have compiled := Registry.compileValue_ok_iff.mpr ⟨s, read, judged.compiled⟩
  unfold checkFiles
  rw [load_eq_ok_iff.mpr held, load_eq_ok_iff.mpr judged.value]
  cases valid : validate check v collectAll <;> simp only [compiled, valid]

def heading (count : Nat) : String := "✗ Validation failed with " ++ toString count ++ " error(s)"

def numbered (n : Nat) (e : ValidationError) : String := "  " ++ (toString n ++ ". " ++ e.text)

theorem map_linesFrom (n : Nat) (errors : List ValidationError) :
    (ValidationErrors.linesFrom n errors).map ("  " ++ ·) = errors.mapIdx fun i e => numbered (i + n) e := by
  induction errors generalizing n with
  | nil => rfl
  | cons e errors ih =>
    rw [ValidationErrors.linesFrom, List.map_cons, ih, List.mapIdx_cons]
    simp only [Nat.zero_add, Nat.add_assoc, Nat.add_comm 1]
    rfl

/-- The list of errors that is printed, the first one apart. -/
theorem refused_cons (e : ValidationError) (rest : List ValidationError) : refused ⟨e :: rest⟩ =
    ⟨1, "", lines (heading (rest.length + 1) :: numbered 1 e :: rest.mapIdx fun i e => numbered (i + 2) e)⟩ := by
  rw [refused, ValidationErrors.lines, ValidationErrors.linesFrom, List.map_cons, map_linesFrom]
  rfl

theorem Judged.answered {s : Spec} {check : Check} {v w : Value} (judged : Judged files specPath valuePath s check v)
    (answered : check.answer? v = some w) : Validate.ok check v = .ok w ∧ Validate.all check v = .ok w ∧
      ∀ collectAll, checkFiles files specPath valuePath collectAll = accepted w := by
  have regular := hereditary_regular.compile_builtin s judged.compiled
  have every := regular.all_ok_iff.mpr answered
  have first := regular.ok_ok_iff.mpr answered
  refine ⟨first, every, fun collectAll => ?_⟩
  rw [judged.checkFiles_eq]
  cases collectAll <;> simp [validate, first, every]

theorem Judged.passes {s : Spec} {check : Check} {v : Value} (judged : Judged files specPath valuePath s check v)
    (accepts : s.Accepts v) : ∃ w, Validate.ok check v = .ok w ∧ Validate.all check v = .ok w ∧
      ∀ collectAll, checkFiles files specPath valuePath collectAll = accepted w := by
  obtain ⟨w, answered⟩ := judged.accepts_iff.mp accepts
  exact ⟨w, judged.answered answered⟩

theorem Judged.fails {s : Spec} {check : Check} {v : Value} (judged : Judged files specPath valuePath s check v)
    (rejects : ¬ s.Accepts v) : ∃ e rest, Validate.ok check v = .error e ∧ Validate.all check v = .error ⟨e :: rest⟩ ∧
      checkFiles files specPath valuePath false = refused ⟨[e]⟩ ∧
      checkFiles files specPath valuePath true = refused ⟨e :: rest⟩ := by
  have concur := Validate.concur_of_agrees (hereditary_agrees.compile_builtin s judged.compiled) v
  have regular := hereditary_regular.compile_builtin s judged.compiled
  cases first : Validate.ok check v with
  | ok w => exact absurd (judged.accepts_iff.mpr ⟨w, regular.ok_ok_iff.mp first⟩) rejects
  | error e =>
    obtain ⟨rest, every⟩ := (concur.fails e).mp first
    refine ⟨e, rest, rfl, every, ?_, ?_⟩
    · rw [judged.checkFiles_eq]
      simp [validate, first]
    · rw [judged.checkFiles_eq]
      simp [validate, every]

/-- What the program reports without and with `--all`. -/
structure Modes (files : Files) (specPath valuePath : String) (plain full : Report) : Prop where
  code : plain.code = full.code
  hindered : plain.code = 2 ↔ ∃ doing f, Hindered files specPath valuePath doing f
  reason : ∀ doing f, Hindered files specPath valuePath doing f → plain = full ∧
    plain = ⟨2, "", "Error: " ++ doing ++ ": " ++ f.message ++ ": " ++ f.cause ++ "\n"⟩
  valid : plain.code = 0 ↔ ∃ s check v, Judged files specPath valuePath s check v ∧ s.Accepts v
  value : ∀ s check v, Judged files specPath valuePath s check v → s.Accepts v →
    ∃ w, Validate.ok check v = .ok w ∧ Validate.all check v = .ok w ∧ plain = full ∧
      plain = ⟨0, w.indentedJson ++ "\n", ""⟩
  invalid : plain.code = 1 ↔ ∃ s check v, Judged files specPath valuePath s check v ∧ ¬ s.Accepts v
  errors : ∀ s check v, Judged files specPath valuePath s check v → ¬ s.Accepts v →
    ∃ e rest, Validate.ok check v = .error e ∧ Validate.all check v = .error ⟨e :: rest⟩ ∧
      plain = ⟨1, "", lines [heading 1, numbered 1 e]⟩ ∧
      full = ⟨1, "", lines (heading (rest.length + 1) :: numbered 1 e :: rest.mapIdx fun i e => numbered (i + 2) e)⟩

theorem modes_checkFiles (files : Files) (specPath valuePath : String) :
    Modes files specPath valuePath (checkFiles files specPath valuePath false)
      (checkFiles files specPath valuePath true) := by
  have two : ∀ {doing f}, Hindered files specPath valuePath doing f →
      ∀ collectAll, (checkFiles files specPath valuePath collectAll).code = 2 := by
    intro doing f hindered collectAll
    rw [hindered.checkFiles]
    rfl
  have zero : ∀ {s check v}, Judged files specPath valuePath s check v → s.Accepts v →
      ∀ collectAll, (checkFiles files specPath valuePath collectAll).code = 0 := by
    intro s check v judged accepts collectAll
    obtain ⟨w, -, -, report⟩ := judged.passes accepts
    rw [report]
    rfl
  have one : ∀ {s check v}, Judged files specPath valuePath s check v → ¬ s.Accepts v →
      ∀ collectAll, (checkFiles files specPath valuePath collectAll).code = 1 := by
    intro s check v judged rejects collectAll
    obtain ⟨e, rest, -, -, plain, full⟩ := judged.fails rejects
    cases collectAll
    · rw [plain]
      rfl
    · rw [full]
      rfl
  have outcome : (∃ doing f, Hindered files specPath valuePath doing f) ∨
      (∃ s check v, Judged files specPath valuePath s check v ∧ s.Accepts v) ∨
      ∃ s check v, Judged files specPath valuePath s check v ∧ ¬ s.Accepts v := by
    rcases hindered_or_judged files specPath valuePath with hindered | ⟨s, check, v, judged⟩
    · exact .inl hindered
    · by_cases accepts : s.Accepts v
      · exact .inr (.inl ⟨s, check, v, judged, accepts⟩)
      · exact .inr (.inr ⟨s, check, v, judged, accepts⟩)
  constructor
  · rcases outcome with ⟨_, _, hindered⟩ | ⟨_, _, _, judged, accepts⟩ | ⟨_, _, _, judged, rejects⟩
    · rw [two hindered, two hindered]
    · rw [zero judged accepts, zero judged accepts]
    · rw [one judged rejects, one judged rejects]
  · grind
  · intro doing f hindered
    rw [hindered.checkFiles, hindered.checkFiles]
    exact ⟨rfl, rfl⟩
  · grind
  · intro s check v judged accepts
    obtain ⟨w, first, every, report⟩ := judged.passes accepts
    rw [report, report]
    exact ⟨w, first, every, rfl, rfl⟩
  · grind
  · intro s check v judged rejects
    obtain ⟨e, rest, first, every, plain, full⟩ := judged.fails rejects
    rw [plain, full, refused_cons, refused_cons]
    exact ⟨e, rest, first, every, rfl, rfl⟩

theorem run_check (program : String) (files : Files) (specPath valuePath : String) (options : List String) :
    run program files ("check" :: specPath :: valuePath :: options) =
      checkFiles files specPath valuePath (options.contains "--all") := by
  simp [run]

/-- Whatever the files hold and whatever other options there are, the two modes agree. -/
theorem modes_agree (program : String) (files : Files) (specPath valuePath : String) {plain full : List String}
    (without : "--all" ∉ plain) (among : "--all" ∈ full) :
    Modes files specPath valuePath (run program files ("check" :: specPath :: valuePath :: plain))
      (run program files ("check" :: specPath :: valuePath :: full)) := by
  rw [run_check, run_check, List.contains_iff_mem.mpr among]
  rw [show plain.contains "--all" = false by simpa using without]
  exact modes_checkFiles files specPath valuePath

/-- What the label of a crate has to say, a label that says it, and one that says too little. -/
def crateFiles : Files
  | "label.json" =>
    .ok "\x7b\"schema\": \x7b\"to\": \x7b\"required\": true\x7d, \"kilos\": \x7b\"type\": \"number\"\x7d\x7d\x7d"
  | "tea.json" => .ok "\x7b\"kilos\": \"12.5\", \"to\": \"Oslo\"\x7d"
  | "crate.json" => .ok "\x7b\"kilos\": \"many\"\x7d"
  | _ => .error "No such file or directory (os error 2)"

def crateReport (path : String) (options : List String) : Report :=
  run "datacheck" crateFiles ("check" :: "label.json" :: path :: options)

def teaText : String := "\x7b\n  \"to\": \"Oslo\",\n  \"kilos\": 12.5\n\x7d\n"

/-- Both modes pass the crate of tea and print it in the order of the checks, and both fail the other one. -/
theorem crate_modes : "--all" ∉ ["-q"] ∧ "--all" ∈ ["-q", "--all"] ∧
    Modes crateFiles "label.json" "tea.json" (crateReport "tea.json" ["-q"]) (crateReport "tea.json" ["-q", "--all"]) ∧
    crateReport "tea.json" ["-q"] = ⟨0, teaText, ""⟩ ∧ crateReport "tea.json" ["-q", "--all"] = ⟨0, teaText, ""⟩ ∧
    (∃ s check v, Judged crateFiles "label.json" "tea.json" s check v ∧ s.Accepts v) ∧
    Modes crateFiles "label.json" "crate.json" (crateReport "crate.json" ["-q"])
      (crateReport "crate.json" ["-q", "--all"]) ∧
    crateReport "crate.json" ["-q"] =
      ⟨1, "", "✗ Validation failed with 1 error(s)\n  1. .to: required, but not given\n"⟩ ∧
    (crateReport "crate.json" ["-q", "--all"]).code = 1 ∧
    ∃ s check v, Judged crateFiles "label.json" "crate.json" s check v ∧ ¬ s.Accepts v := by
  have without : "--all" ∉ ["-q"] := by decide
  have among : "--all" ∈ ["-q", "--all"] := by decide
  have modes : ∀ path, Modes crateFiles "label.json" path (crateReport path ["-q"]) (crateReport path ["-q", "--all"]) :=
    fun path => modes_agree "datacheck" crateFiles "label.json" path without among
  have passed : crateReport "tea.json" ["-q"] = ⟨0, teaText, ""⟩ := by decide +kernel
  have zero : (crateReport "tea.json" ["-q"]).code = 0 := by rw [passed]
  obtain ⟨s, check, v, judged, accepts⟩ := (modes "tea.json").valid.mp zero
  obtain ⟨-, -, -, same, -⟩ := (modes "tea.json").value s check v judged accepts
  have failed : crateReport "crate.json" ["-q"] =
      ⟨1, "", "✗ Validation failed with 1 error(s)\n  1. .to: required, but not given\n"⟩ := by decide +kernel
  have one : (crateReport "crate.json" ["-q"]).code = 1 := by rw [failed]
  exact ⟨without, among, modes "tea.json", passed, same.symm.trans passed, ⟨s, check, v, judged, accepts⟩,
    modes "crate.json", failed, (modes "crate.json").code.symm.trans one, (modes "crate.json").invalid.mp one⟩

end CommandLine

end Conform
