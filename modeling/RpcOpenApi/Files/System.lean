import RpcOpenApi.Error

/-!
# Operations on files

The compiler reads one file, makes directories, and writes one file. A `FileSystem` does that in
some monad: in that of the program, or as functions on a value (`Files.system`).
-/

namespace RpcOpenApi

/-- The operations on files that the compiler needs. -/
structure FileSystem (m : Type → Type) where
  /-- The text in a file. -/
  read : String → m (Except FileError String)
  /-- Makes a directory, with those that it is in. -/
  createDirectories : String → m (Except FileError Unit)
  /-- Writes a text to a file. -/
  write : String → String → m (Except FileError Unit)

end RpcOpenApi
