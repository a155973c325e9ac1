import Conform.Error.Failure
import Conform.Json.Data
import Conform.Registry.Builtin
import Conform.Validate

/-!
# The command line

What the program does with its arguments: it lists what is built in, or checks a value file against a spec
file. The answer holds both output texts and the exit code: 0 for success, 1 for a value or command that is
refused, 2 for a file or spec that cannot be used.
-/

namespace Conform.CommandLine

structure Report where
  code : Nat
  output : String
  errors : String
deriving DecidableEq

/-- The content of a file by its path, or why it cannot be had. -/
abbrev Files := (path : String) → Except String String

def lines (texts : List String) : String := String.join (texts.map (· ++ "\n"))

def version : String := "0.9.0"

def usage (program : String) : String :=
  lines
    ["Datacheck v" ++ version, "", "Usage: " ++ program ++ " <command> [options]", "", "Commands:",
      "  list                                List built-in validators and types",
      "  check <spec> <value> [--all]        Validate a JSON value against a JSON spec",
      "  help                                Show this help message", "", "Check options:",
      "  --all    Report every error instead of stopping at the first", "",
      "Set RUST_LOG=debug to trace validation."]

def listing : String :=
  let bullets := fun (names : List String) => names.map ("  • " ++ ·)
  lines
    (("Validators (" ++ toString Registry.builtin.size ++ " total):") ::
      bullets Registry.builtin.validatorNames ++ "" :: "Types:" :: bullets Registry.builtin.typeNames)

def load (files : Files) (path : String) : Except Failure Value :=
  match files path with
  | .error reason => .error (.unreadable reason)
  | .ok text =>
    match Value.ofJsonText text.toList with
    | .error fault => .error (.malformed (fault.message text.toList))
    | .ok value => .ok value

def failed (doing : String) (f : Failure) : Report :=
  ⟨2, "", "Error: " ++ doing ++ ": " ++ f.message ++ ": " ++ f.cause ++ "\n"⟩

def accepted (value : Value) : Report := ⟨0, value.indentedJson ++ "\n", ""⟩

def refused (es : ValidationErrors) : Report :=
  ⟨1, "",
    lines
      (("✗ Validation failed with " ++ toString es.errors.length ++ " error(s)") ::
        es.lines.map ("  " ++ ·))⟩

def validate (check : Check) (value : Value) (collectAll : Bool) : Except ValidationErrors Value :=
  if collectAll then Validate.all check value
  else match Validate.ok check value with
    | .ok value => .ok value
    | .error e => .error ⟨[e]⟩

def checkFiles (files : Files) (specPath valuePath : String) (collectAll : Bool) : Report :=
  match load files specPath with
  | .error f => failed ("failed to load " ++ specPath) f
  | .ok spec =>
    match load files valuePath with
    | .error f => failed ("failed to load " ++ valuePath) f
    | .ok value =>
      match (Registry.builtin.compileValue spec).result with
      | .error e => failed ("invalid spec " ++ specPath) (.spec e)
      | .ok check =>
        match validate check value collectAll with
        | .ok value => accepted value
        | .error es => refused es

def run (program : String) (files : Files) : List String → Report
  | [] => ⟨1, usage program, ""⟩
  | command :: options =>
    if command = "list" then ⟨0, listing, ""⟩
    else if command = "check" then
      match options with
      | specPath :: valuePath :: options => checkFiles files specPath valuePath (options.contains "--all")
      | _ =>
        ⟨1, "",
          lines
            ["Error: Please specify a spec file and a value file",
              "Usage: " ++ program ++ " check <spec.json> <value.json> [--all]"]⟩
    else if command = "help" ∨ command = "--help" ∨ command = "-h" then ⟨0, usage program, ""⟩
    else ⟨1, usage program, lines ["Unknown command: " ++ command]⟩

end Conform.CommandLine
