import RpcOpenApi.CommandLine.Arguments
import RpcOpenApi.Compile.Document
import RpcOpenApi.Files.Document

/-!
# Commands

`generate` compiles the description in a file and writes the document to another file, or to the
standard output; `inspect` lists the routes of the document. A command is run over a `FileSystem`.
What it tells the user is its `Outcome`.
-/

namespace RpcOpenApi

namespace CommandLine

/-- What a command leaves besides files. -/
structure Outcome where
  exitCode : Nat := 0
  /-- The text on the standard output. -/
  output : String := ""
  /-- The lines of the log. -/
  log : List String := []
  /-- Why the command failed: what could not be done, and its causes. -/
  failure : List String := []

/-- Some lines of text. -/
def lines (ls : List String) : String := String.join (ls.map (· ++ "\n"))

/-- The message of a failure: what could not be done, and its causes, with numbers if there are
several. -/
def Outcome.failureText (o : Outcome) : String :=
  match o.failure with
  | [] => ""
  | [what] => lines ["Error: " ++ what]
  | [what, cause] => lines ["Error: " ++ what, "", "Caused by:", "    " ++ cause]
  | what :: causes =>
    lines (["Error: " ++ what, "", "Caused by:"]
      ++ causes.zipIdx.map (fun c => "    " ++ toString c.2 ++ ": " ++ c.1))

/-- The output path that stands for the standard output. -/
def standardOutput : String := "-"

/-! ## The log -/

/-- The name of a level in the log. -/
def levelName : Level → String
  | .debug => "DEBUG"
  | .warn => "WARN"

/-- The line of the log for a notice. -/
def logLine (n : Notice) : String :=
  levelName n.level ++ " " ++ n.message ++ " context=" ++ n.context.compact

/-- The log of loading a file and compiling it. Without verbosity it has the warnings only. -/
def log (isVerbose : Bool) (input : String) (notices : List Notice) : List String :=
  if isVerbose then ("DEBUG Loading YARPC document input=" ++ input) :: notices.map logLine
  else (notices.filter Notice.isWarning).map logLine

/-! ## Failures -/

/-- An outcome whose command has failed. -/
def Outcome.failing (o : Outcome) (what : String) (e : ServiceError) : Outcome :=
  { o with exitCode := 1, failure := what :: e.chain }

/-- The line that tells that a description could not be loaded. -/
def loadFailure (input : String) : String := "Failed to load " ++ input

/-- The line that tells that a description could not be compiled. -/
def compileFailure : String := "Failed to transform YARPC document"

/-- The line that tells that a document could not be written. -/
def writeFailure (output : String) : String := "Failed to write " ++ output

/-! ## Generating a document -/

/-- The lines that tell what is going to be done. -/
def beginning (input output : String) (format : TextFormat) (isVerbose : Bool) : List String :=
  ("→ Compiling " ++ input)
    :: if isVerbose then ["  Output: " ++ output, "  Format: " ++ format.name] else []

/-- The line for a description that has been loaded. -/
def loadedLine (d : RpcDocument) : String :=
  "✓ Loaded " ++ toString d.operations.queries.length ++ " queries and "
    ++ toString d.operations.mutations.length ++ " mutations"

/-- The line for a document that has been compiled. -/
def generatedLine (d : OpenApiDocument) : String :=
  "✓ Generated " ++ toString d.paths.length ++ " paths"

/-- The lines for a document that has been written. -/
def writtenLines (output : String) (format : TextFormat) : List String :=
  ["", "✓ Generation complete!", "  📄 " ++ output ++ " (" ++ format.title ++ ")"]

variable {m : Type → Type} [Monad m]

/-- Compiles the description in a file and writes the document. If the document is written to the
standard output, nothing else is. -/
def generate (fs : FileSystem m) (input output : String) (asked : Option TextFormat)
    (isVerbose : Bool) : m Outcome := do
  let toStandardOutput := output = standardOutput
  let format := TextFormat.forOutput asked output
  let told (ls : List String) : String := if toStandardOutput then "" else lines ls
  let begun := beginning input output format isVerbose
  match ← fs.loadDocument input with
  | .error e =>
    return { output := told begun, log := log isVerbose input [] : Outcome }.failing
      (loadFailure input) e
  | .ok d =>
    let compiled := compile d
    let log := log isVerbose input compiled.log
    let loaded := begun ++ [loadedLine d]
    match compiled.result with
    | .error e => return { output := told loaded, log : Outcome }.failing compileFailure e
    | .ok document =>
      let text := document.render format
      let generated := loaded ++ [generatedLine document]
      if toStandardOutput then return { output := text, log }
      else
        match ← fs.writeText output text with
        | .error e =>
          return { output := told generated, log : Outcome }.failing (writeFailure output) e
        | .ok () => return { output := told (generated ++ writtenLines output format), log }

/-! ## Inspecting a description -/

/-- A text with blanks up to a width. -/
def padded (width : Nat) (s : String) : String := s.pushn ' ' (width - s.length)

/-- The line for an operation of a path. -/
def routeLine (path : String) (method : HttpMethod) (o : Operation) : String :=
  "  " ++ padded 7 method.text.toUpper ++ " " ++ path ++ " → " ++ o.operationId.getD "-"

/-- The lines for the operations of some paths. -/
def routeLines (ps : Paths) : List String :=
  ps.flatMap (fun p => p.2.operations.map (fun o => routeLine p.1 o.1 o.2))

/-- The lines that count the operations and paths of a description. -/
def summaryLines (d : RpcDocument) : List String :=
  ["  Queries: " ++ toString d.operations.queries.length,
    "  Mutations: " ++ toString d.operations.mutations.length,
    "  Hand-written paths: " ++ toString (d.paths.getD []).length]

/-- Lists the routes that the description in a file compiles to. -/
def inspect (fs : FileSystem m) (input : String) (isVerbose : Bool) : m Outcome := do
  let begun := ["→ Inspecting " ++ input]
  match ← fs.loadDocument input with
  | .error e =>
    return { output := lines begun, log := log isVerbose input [] : Outcome }.failing
      (loadFailure input) e
  | .ok d =>
    let compiled := compile d
    let log := log isVerbose input compiled.log
    match compiled.result with
    | .error e => return { output := lines begun, log : Outcome }.failing compileFailure e
    | .ok document =>
      let told :=
        begun ++ ["", "Routes:"] ++ routeLines document.paths ++ ["", "Summary:"] ++ summaryLines d
      return { output := lines told, log }

/-! ## The program -/

/-- The text that tells the version of the program. -/
def versionText : String := "yarpc 0.2.0\n"

/-- The text that explains the program. -/
def helpText : String :=
  lines ["Compile YARPC service descriptions into OpenAPI documents", "",
    "Usage: yarpc [OPTIONS] <COMMAND>", "", "Commands:",
    "  generate  Generate an OpenAPI document from a YARPC file",
    "  inspect   Show the routes a YARPC file compiles to",
    "  help      Print this message or the help of the given subcommand(s)", "", "Options:",
    "  -v, --verbose  Enable verbose output", "  -h, --help     Print help",
    "  -V, --version  Print version"]

/-- Runs the program with some arguments. -/
def run (fs : FileSystem m) (arguments : List String) : m Outcome :=
  match Request.ofArguments? arguments with
  | none => return { exitCode := 2 }
  | some .showVersion => return { output := versionText }
  | some .showHelp => return { output := helpText }
  | some (.run isVerbose (.generate input output format)) =>
    generate fs input output format isVerbose
  | some (.run isVerbose (.inspect input)) => inspect fs input isVerbose

end CommandLine

end RpcOpenApi
