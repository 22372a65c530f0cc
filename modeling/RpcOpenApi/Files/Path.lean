import RpcOpenApi.Format
import RpcOpenApi.Text.Segments

/-!
# Paths of files

A path is a text. What it names does not depend on repeated slashes, on a slash at its end, or on
dots that stand for the directory itself, so they are no parts of a path (`Path.parts`); a dot at
the beginning of a path is one. The extension of the last part tells the format of a file.
-/

namespace RpcOpenApi

namespace Path

/-- A part of a path. -/
inductive Part where
  | root
  /-- A dot at the beginning. -/
  | current
  /-- Two dots, for the directory above. -/
  | up
  | name (text : List Char)

/-- The parts that some segments are, each with the position of its end. The first segment begins at
a given position. -/
def partsFrom (position : Nat) (isFirst : Bool) : List (List Char) → List (Part × Nat)
  | [] => []
  | s :: ss =>
    let stop := position + s.length
    let rest := partsFrom (stop + 1) false ss
    if s.isEmpty then rest
    else if s = ['.'] then if isFirst then (.current, stop) :: rest else rest
    else if s = ['.', '.'] then (.up, stop) :: rest
    else (.name s, stop) :: rest

/-- The parts of a path, each with the position of its end in the text. -/
def parts (path : String) : List (Part × Nat) :=
  match path.toList with
  | '/' :: cs => (.root, 1) :: partsFrom 1 false (Text.segments cs)
  | cs => partsFrom 0 true (Text.segments cs)

/-- The name of the file, if the path ends with a name. -/
def fileName? (path : String) : Option (List Char) :=
  match (parts path).getLast? with
  | some (.name s, _) => some s
  | _ => none

/-- The extension of the name of the file: what follows its last dot, unless nothing stands before
that dot. -/
def extension? (path : String) : Option String := do
  let reversed := (← fileName? path).reverse
  let before := (reversed.dropWhile (· ≠ '.')).drop 1
  if before.isEmpty then none
  else return String.ofList (reversed.takeWhile (· ≠ '.')).reverse

/-- The path of the directory that the last part is in. Nothing is above the root. -/
def parent? (path : String) : Option String :=
  match (parts path).reverse with
  | [] | [(.root, _)] => none
  | [_] => some ""
  | _ :: (_, stop) :: _ => some (String.ofList (path.toList.take stop))

end Path

namespace TextFormat

/-- The format of a description in a file: JSON if its extension says so, in capitals or not, and
YAML otherwise. -/
def ofInputPath (path : String) : TextFormat :=
  if (Path.extension? path).map String.toLower = some "json" then json else yaml

/-- The format that the extension of a file to be written asks for. -/
def ofOutputPath? (path : String) : Option TextFormat :=
  match (Path.extension? path).map String.toLower with
  | some "json" => some json
  | some "yaml" | some "yml" => some yaml
  | _ => none

/-- The format in which a file is written: the one that is asked for, else the one of its extension,
else JSON. -/
def forOutput (asked : Option TextFormat) (path : String) : TextFormat :=
  asked.getD ((ofOutputPath? path).getD json)

end TextFormat

end RpcOpenApi
