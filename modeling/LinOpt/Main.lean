import LinOpt.CommandLine.Arguments

/-!
# The program

Reads the arguments and the file, and prints what the command answers.
-/

namespace LinOpt.CommandLine

/-- Why reading a file failed. -/
def ReadFailure.ofError : IO.Error → ReadFailure
  | .noFileOrDirectory .. => .missing
  | e => .other (toString e)

/-- The content of a file. -/
def readText (file : String) : IO (Except ReadFailure String) := do
  try
    return .ok (← IO.FS.readFile file)
  catch e =>
    return .error (.ofError e)

end LinOpt.CommandLine

open LinOpt.CommandLine in
/-- Runs the command that the arguments name. -/
def main (arguments : List String) : IO UInt32 := do
  match Arguments.read? arguments with
  | none =>
    IO.eprint Arguments.usage
    return 2
  | some (command, file) =>
    let outcome := run command file (← readText file)
    IO.print outcome.stdout
    IO.eprint outcome.stderr
    return outcome.exitCode.toUInt32
