import RpcOpenApi.Rpc.Document

/-!
# What can go wrong

The reasons why a description cannot be loaded, compiled or written (`ServiceError`), and their
wording (`ServiceError.message`).
-/

namespace RpcOpenApi

/-- Why a file could not be used. -/
inductive FileError where
  | notFound
  | alreadyExists
  | notADirectory
  | isADirectory
  /-- The content of the file is no text. -/
  | notText
  deriving DecidableEq, Repr

namespace FileError

/-- The wording of a file error, as the system words it. -/
def message : FileError → String
  | notFound => "No such file or directory (os error 2)"
  | alreadyExists => "File exists (os error 17)"
  | notADirectory => "Not a directory (os error 20)"
  | isADirectory => "Is a directory (os error 21)"
  | notText => "stream did not contain valid UTF-8"

end FileError

/-- Why a text could not be read as a document or as a part of one. -/
inductive ReadError where
  | malformedJson
  | unfitJson (error : DecodeError)
  | unreadableYaml
  deriving Repr

namespace ReadError

/-- The name of the format of the text. -/
def formatName : ReadError → String
  | malformedJson | unfitJson _ => "JSON"
  | unreadableYaml => "YAML"

/-- What is known about the reason, after a colon. -/
def detail : ReadError → String
  | unfitJson e => ": " ++ e.message
  | malformedJson | unreadableYaml => ""

end ReadError

/-- The part of an operation that is compiled. -/
inductive Phase where
  | input
  | responses
  deriving DecidableEq, Repr

namespace Phase

/-- The name of a phase. -/
def text : Phase → String
  | input => "input"
  | responses => "responses"

end Phase

/-- Why a description could not be loaded, compiled or written. -/
inductive ServiceError where
  | missingVersion
  | unsupportedVersion (version : String)
  | notObjectSchema
  | missingProperties
  | unsupportedReference (target : String)
  /-- Nothing is found at a reference, or something that is not a schema. -/
  | unresolvedReference (target : String) (cause : Option DecodeError)
  | invalidStatusCode (code : Nat)
  /-- An operation could not be compiled, because of a problem in one of its parts. -/
  | inOperation (id : String) (phase : Phase) (cause : ServiceError)
  | duplicateOperation (kind : OperationKind) (id : String)
  | unreadableFile (path : String) (error : FileError)
  | unreadableDocument (error : ReadError)
  | unreadablePart (error : ReadError)
  | directoryNotCreated (path : String) (error : FileError)
  | fileNotWritten (path : String) (error : FileError)

namespace ServiceError

/-- The wording of an error, without its cause. -/
def message : ServiceError → String
  | missingVersion => "Missing required yarpc version"
  | unsupportedVersion v => "Unsupported YARPC version: " ++ v
  | notObjectSchema => "input schema must be an object type"
  | missingProperties => "input schema must have properties"
  | unsupportedReference r => "Unsupported reference " ++ r
  | unresolvedReference r _ => "Could not resolve " ++ r
  | invalidStatusCode n => "Invalid response status code: " ++ toString n
  | inOperation id phase _ =>
    "Failed to transform " ++ phase.text ++ " for operation \"" ++ id ++ "\""
  | duplicateOperation _ id => "Operation with id \"" ++ id ++ "\" already exists"
  | unreadableFile p e =>
    "Parse error: Failed to read YARPC file " ++ p ++ ": " ++ e.message
  | unreadableDocument e =>
    "Parse error: Failed to parse YARPC " ++ e.formatName ++ e.detail
  | unreadablePart e => e.formatName ++ " error" ++ e.detail
  | directoryNotCreated p e =>
    "Emit error: Failed to create output directory " ++ p ++ ": " ++ e.message
  | fileNotWritten p e => "Emit error: Failed to write " ++ p ++ ": " ++ e.message

/-- The wording of an error and of its causes, the outermost first. -/
def chain : ServiceError → List String
  | inOperation id phase cause => (inOperation id phase cause).message :: cause.chain
  | unresolvedReference r (some e) => [(unresolvedReference r (some e)).message, e.message]
  | e => [e.message]

end ServiceError

end RpcOpenApi
