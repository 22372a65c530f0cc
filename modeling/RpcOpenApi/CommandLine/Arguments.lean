import RpcOpenApi.Format

/-!
# Arguments of the command line

The program has two commands, `generate` and `inspect`. `Request.ofArguments?` says what some
arguments ask for. Arguments that do not follow the rules below are refused as a whole.

* An option has a short and a long name. Short ones may be written together behind one hyphen.
* The value of an option is the rest of the argument, possibly after an equals sign, or the next
  argument, which may not look like an option.
* No option is given twice before or after the command. The option for more output may stand before
  the command as well as after it.
-/

namespace RpcOpenApi

namespace CommandLine

/-- A command of the program. -/
inductive Command where
  | generate (input output : String) (format : Option TextFormat)
  | inspect (input : String)
  deriving DecidableEq

/-- What the arguments ask for. -/
inductive Request where
  | run (isVerbose : Bool) (command : Command)
  | showVersion
  | showHelp
  deriving DecidableEq

/-- The name of a command. -/
inductive CommandName where
  | generate
  | inspect
  deriving DecidableEq

/-- An option with a value. -/
inductive ValueOption where
  | input
  | output
  | format
  deriving DecidableEq

/-- An option. -/
inductive Flag where
  | verbose
  | version
  | help
  | valued (o : ValueOption)
  deriving DecidableEq

/-- The place of an argument: before the command or after it. -/
abbrev Place := Option CommandName

namespace Flag

/-- The options of a place. -/
def known : Place → List Flag
  | none => [verbose, version, help]
  | some .generate => [valued .input, valued .output, valued .format, verbose, help]
  | some .inspect => [valued .input, verbose, help]

/-- The short name of an option. -/
def short : Flag → Char
  | verbose => 'v'
  | version => 'V'
  | help => 'h'
  | valued .input => 'i'
  | valued .output => 'o'
  | valued .format => 'f'

/-- The long name of an option. -/
def long : Flag → String
  | verbose => "verbose"
  | version => "version"
  | help => "help"
  | valued .input => "input"
  | valued .output => "output"
  | valued .format => "format"

end Flag

/-- What has been given so far. -/
structure Given where
  isVerbose : Bool := false
  input : Option String := none
  output : Option String := none
  format : Option TextFormat := none

namespace Given

/-- Sets a value that has not been set. The path of a file is not empty. -/
def set? (g : Given) (o : ValueOption) (value : String) : Option Given :=
  match o with
  | .input => if g.input.isSome || value.isEmpty then none else some { g with input := value }
  | .output => if g.output.isSome || value.isEmpty then none else some { g with output := value }
  | .format =>
    if g.format.isSome then none else do return { g with format := ← TextFormat.ofName? value }

/-- The file that is written unless another one is given. -/
def defaultOutput : String := "openapi.json"

/-- The command that has been given. It has an input. -/
def command? (g : Given) : CommandName → Option Command
  | .generate => do return .generate (← g.input) (g.output.getD defaultOutput) g.format
  | .inspect => do return .inspect (← g.input)

end Given

/-- What an argument leads to. -/
inductive Step where
  | more (g : Given)
  /-- The next argument is the value of an option. -/
  | value (g : Given) (o : ValueOption)
  | done (r : Request)
  | refused

namespace Step

/-- An option without a value. -/
def ofFlag (g : Given) : Flag → Step
  | .verbose => if g.isVerbose then refused else more { g with isVerbose := true }
  | .version => done .showVersion
  | .help => done .showHelp
  | .valued o => value g o

/-- An option with its value. -/
def ofValue (g : Given) (o : ValueOption) (text : String) : Step :=
  match g.set? o text with
  | some g => more g
  | none => refused

/-- The options that are written together behind one hyphen. -/
def ofShort (place : Place) (g : Given) : List Char → Step
  | [] => more g
  | c :: cs =>
    match (Flag.known place).find? (fun f => f.short = c) with
    | none => refused
    | some (.valued o) =>
      match cs with
      | [] => value g o
      | '=' :: cs => ofValue g o (String.ofList cs)
      | cs => ofValue g o (String.ofList cs)
    | some f =>
      match ofFlag g f with
      | more g => ofShort place g cs
      | s => s

/-- An option with its long name, after the hyphens. -/
def ofLong (place : Place) (g : Given) (cs : List Char) : Step :=
  let name := String.ofList (cs.takeWhile (· ≠ '='))
  match (Flag.known place).find? (fun f => f.long = name), cs.dropWhile (· ≠ '=') with
  | none, _ => refused
  | some f, [] => ofFlag g f
  | some (.valued o), _ :: text => ofValue g o (String.ofList text)
  | some _, _ :: _ => refused

/-- An argument that is no value of an option. -/
def ofArgument (place : Place) (g : Given) (argument : String) : Step :=
  match argument.toList with
  | '-' :: '-' :: [] => refused
  | '-' :: '-' :: cs => ofLong place g cs
  | '-' :: c :: cs => ofShort place g (c :: cs)
  | _ => refused

end Step

/-- An argument that is an option, and so no value of one. A hyphen alone is a value. -/
def looksLikeFlag (argument : String) : Bool :=
  match argument.toList with
  | '-' :: _ :: _ => true
  | _ => false

/-- The arguments after a command. `outer` tells whether more output was asked for before it, and
`pending` is an option whose value comes next. -/
def commandArguments? (name : CommandName) (outer : Bool) (g : Given)
    (pending : Option ValueOption) : List String → Option Request
  | [] =>
    if pending.isSome then none
    else do return .run (outer || g.isVerbose) (← g.command? name)
  | a :: rest =>
    match pending with
    | some o =>
      if looksLikeFlag a then none
      else do commandArguments? name outer (← g.set? o a) none rest
    | none =>
      if a = "--" && rest.isEmpty then do return .run (outer || g.isVerbose) (← g.command? name)
      else
        match Step.ofArgument (some name) g a with
        | .more g => commandArguments? name outer g none rest
        | .value g o => commandArguments? name outer g (some o) rest
        | .done r => some r
        | .refused => none

/-- The arguments of the command that explains the others. -/
def helpArguments? : List String → Option Request
  | [] | ["generate"] | ["inspect"] | ["help"] => some .showHelp
  | _ => none

/-- The arguments before a command, and the command with its own. -/
def rootArguments? (g : Given) : List String → Option Request
  | [] => none
  | "generate" :: rest => commandArguments? .generate g.isVerbose {} none rest
  | "inspect" :: rest => commandArguments? .inspect g.isVerbose {} none rest
  | "help" :: rest => helpArguments? rest
  | a :: rest =>
    match Step.ofArgument none g a with
    | .more g => rootArguments? g rest
    | .done r => some r
    | .value .. | .refused => none

/-- What some arguments ask for; `none` if they do not follow the rules. -/
def Request.ofArguments? (arguments : List String) : Option Request := rootArguments? {} arguments

end CommandLine

end RpcOpenApi
