import RpcOpenApi.CommandLine.Run

/-!
# The program

The command line runs over the files of the machine. What is said about a run goes to the standard
output and, as far as it is a log or an error, to the standard error output.
-/

namespace RpcOpenApi

namespace CommandLine

/-- Why the machine could not use a file. -/
def fileError : IO.Error → FileError
  | .alreadyExists .. => .alreadyExists
  | .inappropriateType _ code _ => if code = 20 then .notADirectory else .isADirectory
  | .userError _ => .notText
  | _ => .notFound

/-- An action on files, with its failure as a value. -/
def attempted {α : Type} (action : IO α) : IO (Except FileError α) := do
  return (← action.toBaseIO).mapError fileError

/-- The files of the machine. -/
def machine : FileSystem IO where
  read path := attempted (IO.FS.readFile path)
  createDirectories path := attempted (IO.FS.createDirAll path)
  write path text := attempted (IO.FS.writeFile path text)

end CommandLine

end RpcOpenApi

open RpcOpenApi RpcOpenApi.CommandLine in
/-- Runs the program. -/
def main (arguments : List String) : IO UInt32 := do
  let outcome ← run machine arguments
  IO.print outcome.output
  IO.eprint (lines outcome.log ++ outcome.failureText)
  if outcome.exitCode = 2 then IO.eprint helpText
  return outcome.exitCode.toUInt32
