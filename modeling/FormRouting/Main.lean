import FormRouting.CommandLine.Run

/-!
# The program

Runs a command on the files of the working directory. An error goes to the error
output; the exit code is 2 when the arguments are not understood and 1 when a file
cannot be loaded.
-/

namespace FormRouting

def usage : String :=
  "Usage:\n" ++
  "  graph -f FILE [--format json|dot]   draw a step map\n" ++
  "  resolve -f FILE -v FILE             choose a key from field values\n" ++
  "  help                                show this text\n"

def versionText : String := "0.1.0\n"

def UsageError.message : UsageError → String
  | .help | .noArguments => usage
  | .version => versionText
  | .unknownCommand => "error: unknown command\n"
  | .unknownArgument => "error: unexpected argument\n"
  | .invalidValue => "error: invalid or missing value\n"
  | .unexpectedValue => "error: unexpected value\n"
  | .repeatedOption => "error: an option is given twice\n"
  | .missingOption => "error: a required option is missing\n"

/-- A file of the working directory. -/
def readFile (name : String) : IO (Except FileError String) := do
  try
    return .ok (← IO.FS.readFile name)
  catch
    | .noFileOrDirectory .. => return .error .notFound
    | e => return .error (.other (toString e))

end FormRouting

open FormRouting in
def main (args : List String) : IO UInt32 := do
  match Command.ofArguments args with
  | .error e =>
    if e = .help ∨ e = .version then
      IO.print e.message
      return 0
    else
      IO.eprint e.message
      return 2
  | .ok command =>
    match (← command.run readFile).output with
    | .ok text =>
      IO.print text
      return 0
    | .error e =>
      IO.eprintln s!"Error: {e.message}\n\nCaused by:\n    {e.cause.message}"
      return 1
