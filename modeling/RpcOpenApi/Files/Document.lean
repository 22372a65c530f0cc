import RpcOpenApi.Files.Path
import RpcOpenApi.Files.System

/-!
# Documents in files

A description is loaded from a file in the format of its extension; an OpenAPI document is written
to a file, with the directories that are missing.
-/

namespace RpcOpenApi

namespace FileSystem

variable {m : Type → Type} [Monad m]

/-- Loads the description in a file. -/
def loadDocument (fs : FileSystem m) (path : String) : m (Except ServiceError RpcDocument) := do
  match ← fs.read path with
  | .error e => return .error (.unreadableFile path e)
  | .ok text => return RpcDocument.ofText (.ofInputPath path) text

/-- Makes the directory of a file, unless the file is in the current one. -/
def prepareDirectory (fs : FileSystem m) (path : String) : m (Except ServiceError Unit) := do
  match (Path.parent? path).filter (· ≠ "") with
  | none => return .ok ()
  | some parent => return (← fs.createDirectories parent).mapError (.directoryNotCreated parent)

/-- Writes a text to a file, and makes its directory before. -/
def writeText (fs : FileSystem m) (path text : String) : m (Except ServiceError Unit) := do
  match ← fs.prepareDirectory path with
  | .error e => return .error e
  | .ok () => return (← fs.write path text).mapError (.fileNotWritten path)

end FileSystem

end RpcOpenApi
