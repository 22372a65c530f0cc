/-!
# Segments of a path

References and file names are paths: texts whose parts are set apart by slashes.
-/

namespace RpcOpenApi

namespace Text

/-- The parts of a text between its slashes. -/
def segments : List Char → List (List Char)
  | [] => [[]]
  | c :: cs =>
    match segments cs with
    | s :: ss => if c = '/' then [] :: s :: ss else (c :: s) :: ss
    | [] => []

end Text

end RpcOpenApi
