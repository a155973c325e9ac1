import Conform.CommandLine

/-!
# The program

Reads the files that the command line names, and writes what it answers.
-/

namespace Conform.Program

def name : String := "datacheck"

/-- The content of a file, or why it cannot be had. -/
def readFile (path : String) : IO (Except String String) := do
  try
    return .ok (← IO.FS.readFile path)
  catch
    | .noFileOrDirectory _ _ _ => return .error "No such file or directory (os error 2)"
    | e => return .error (toString e)

def answer (args : List String) : IO UInt32 := do
  let mut contents : Table (Except String String) := []
  for path in (args.drop 1).take 2 do
    contents := contents.insert path (← readFile path)
  let files : CommandLine.Files := fun path => (contents.get? path).getD (.error "file not read")
  let report := CommandLine.run name files args
  IO.print report.output
  IO.eprint report.errors
  return UInt32.ofNat report.code

end Conform.Program

def main (args : List String) : IO UInt32 := Conform.Program.answer args
