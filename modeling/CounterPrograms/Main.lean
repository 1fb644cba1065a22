import CounterPrograms.CommandLine.Runner

/-!
# The program `lwg`

Reads the file that the command asks for and writes what the command says.
-/

namespace CounterPrograms.CommandLine

/-- How the command is used. -/
def usage : String :=
  "usage: lwg [-h] [--translate-to LANGUAGE] [--show] [--check] LANGUAGE FILE [NOME=VALOR ...]"

/-- The reason why a file could not be opened. -/
def reason : IO.Error → String
  | .noFileOrDirectory _ _ details => details.capitalize
  | .inappropriateType _ _ details => details.capitalize
  | .permissionDenied _ _ details => details.capitalize
  | e => (toString e).capitalize

/-- Reads a file. -/
def contentsOf (path : String) : IO FileContents := do
  try
    let data ← IO.FS.readBinFile path
    return .bytes data.toList
  catch e =>
    return .unreadable (reason e)

/-- Writes what the command has to say and gives its exit code. -/
def conclude : Ending → IO UInt32
  | .exit code => do
    if code = 0 then IO.println usage else IO.eprintln usage
    return code.toUInt32
  | .report r => do
    IO.print r.output
    IO.eprint r.errors
    return r.exit.toUInt32
  | .fault fault => do
    IO.eprintln fault.message
    return 1

/-- Runs the command. -/
def command (arguments : List String) : IO UInt32 :=
  match start arguments with
  | .ended ending => conclude ending
  | .reading i path => do
    let contents ← contentsOf path
    conclude (finish i path contents)

end CounterPrograms.CommandLine

def main (arguments : List String) : IO UInt32 :=
  CounterPrograms.CommandLine.command arguments
