import RpcOpenApi.Error
import RpcOpenApi.Files.System
import RpcOpenApi.OrderedMap
import RpcOpenApi.Text.Segments

/-!
# Files and directories

`Files` is a tree of files and directories, in one of which the program works. Reading, writing and
the making of directories follow a path from its beginning: an absolute path from the root, any
other path from the working directory (`Files.start?`). All directories on the way have to be there
(`Files.locate`). Two dots lead up, also out of the working directory; nothing is above the root.
-/

namespace RpcOpenApi

/-- Where a file or a directory is: the names on the way to it from the root. -/
abbrev Location := List String

/-- Files and directories, and the directory in which the program works. The directories that
something is in are there without being named. -/
structure Files where
  contents : OrderedMap Location ByteArray
  /-- The directories that need not have anything in them. -/
  directories : List Location := []
  workingDirectory : Location := []

namespace Files

/-- A file is at a location. -/
def isFile (f : Files) (l : Location) : Bool := OrderedMap.contains f.contents l

/-- The directories that are known to be there: the one in which the program works, those that have
been made, and those with a file in them. -/
def knownDirectories (f : Files) : List Location :=
  f.workingDirectory :: f.directories ++ (OrderedMap.keys f.contents).map List.dropLast

/-- A directory is at a location: a known one, or one that a known one is in. -/
def isDirectory (f : Files) (l : Location) : Bool := f.knownDirectories.any l.isPrefixOf

/-- The location of a directory, if there is one. -/
def directory (f : Files) (l : Location) : Except FileError Location :=
  if f.isDirectory l then .ok l
  else if f.isFile l then .error .notADirectory
  else .error .notFound

/-- The location that a segment of a path leads to from a directory. From the root, two dots lead to
the root. -/
def next (l : Location) (segment : List Char) : Location :=
  if segment.isEmpty ∨ segment = ['.'] then l
  else if segment = ['.', '.'] then l.dropLast
  else l ++ [String.ofList segment]

/-- The location that some segments lead to. -/
def locate (f : Files) : Location → List (List Char) → Except FileError Location
  | l, [] => .ok l
  | l, s :: ss => do locate f (next (← f.directory l) s) ss

/-- Where a path begins, and the segments that follow. An empty path begins nowhere. -/
def start? (f : Files) (path : String) : Option (Location × List (List Char)) :=
  match path.toList with
  | [] => none
  | '/' :: cs => some ([], Text.segments cs)
  | cs => some (f.workingDirectory, Text.segments cs)

/-- The location that a path leads to. -/
def location (f : Files) (path : String) : Except FileError Location :=
  match f.start? path with
  | some (l, ss) => f.locate l ss
  | none => .error .notFound

/-- The text in a file. -/
def read (f : Files) (path : String) : Except FileError String := do
  let l ← f.location path
  match OrderedMap.get? f.contents l with
  | some bytes =>
    match String.fromUTF8? bytes with
    | some text => .ok text
    | none => .error .notText
  | none => if f.isDirectory l then .error .isADirectory else .error .notFound

/-- Makes the directories on the way along some segments. -/
def makeDirectories (f : Files) : Location → List (List Char) → Except FileError Unit × Files
  | _, [] => (.ok (), f)
  | l, s :: ss =>
    let l := next l s
    if f.isFile l then (.error (if ss.isEmpty then .alreadyExists else .notADirectory), f)
    else if f.isDirectory l then makeDirectories f l ss
    else makeDirectories { f with directories := f.directories ++ [l] } l ss

/-- Makes a directory, with those that it is in. For an empty path there is nothing to be made. -/
def createDirectories (f : Files) (path : String) : Except FileError Unit × Files :=
  match f.start? path with
  | some (l, ss) => f.makeDirectories l ss
  | none => (.ok (), f)

/-- The location of a file that is to be written, by the segments from a directory: in a directory,
and not a directory itself. -/
def fileLocation (f : Files) (l : Location) (ss : List (List Char)) :
    Except FileError Location := do
  let named := (ss.reverse.dropWhile List.isEmpty).reverse
  let l ← f.directory (← f.locate l named.dropLast)
  let l := next l (named.getLast?.getD [])
  if named.length < ss.length ∨ f.isDirectory l then .error .isADirectory else .ok l

/-- The location of a file that is to be written. -/
def target (f : Files) (path : String) : Except FileError Location :=
  match f.start? path with
  | some (l, ss) => f.fileLocation l ss
  | none => .error .notFound

/-- Writes a text to a file. -/
def write (f : Files) (path text : String) : Except FileError Unit × Files :=
  match f.target path with
  | .ok l => (.ok (), { f with contents := OrderedMap.insert f.contents l text.toUTF8 })
  | .error e => (.error e, f)

/-- The operations on the files. -/
def system : FileSystem (StateM Files) where
  read path := do return (← get).read path
  createDirectories path := modifyGet (fun f => f.createDirectories path)
  write path text := modifyGet (fun f => f.write path text)

end Files

end RpcOpenApi
