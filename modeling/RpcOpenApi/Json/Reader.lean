import RpcOpenApi.Decode.Shape
import RpcOpenApi.Json.Token

/-!
# Reading JSON texts

The tokens of a text are put together into a draft by one pass that keeps the containers that are
open, the innermost first (`Json.Assembly.step`). A draft is what is written. The tree of a text has
what is kept of it in a place of a known shape (`Json.Draft.keep?`): members that the place has no
use for only have to be written like JSON, whereas all that is kept has to have a value, and a
container may be nested in at most 126 others.
-/

namespace RpcOpenApi

namespace Json

/-- What a text writes. A string or a number may have no value, and containers may be nested at any
depth. -/
inductive Draft where
  | leaf (value : Option Json)
  | arr (items : List Draft)
  | obj (members : List (Option String × Draft))

/-! ## From tokens to drafts -/

/-- An open container with what it holds so far, the last entry first. -/
inductive Open where
  | arr (items : List Draft)
  | obj (members : List (Option String × Draft)) (key : Option String)

/-- What has to come next. -/
inductive Expectation where
  | value
  /-- The first item of an array, or its end. -/
  | itemOrEnd
  /-- The first key of an object, or its end. The members are those before it. -/
  | keyOrEnd
  | key (members : List (Option String × Draft))
  | colon (members : List (Option String × Draft)) (key : Option String)
  /-- The end of the innermost container, a comma, or the end of the text, after a value. -/
  | afterValue (value : Draft)

/-- The containers that are open, the innermost first, and what has to come next. -/
structure Assembly where
  containers : List Open
  next : Expectation

namespace Assembly

/-- Reads the first token of a value. -/
def startValue (a : Assembly) : Token → Option Assembly
  | .openBracket => some ⟨.arr [] :: a.containers, .itemOrEnd⟩
  | .openBrace => some ⟨.obj [] none :: a.containers, .keyOrEnd⟩
  | .text s => some ⟨a.containers, .afterValue (.leaf (s.map .str))⟩
  | .scalar v => some ⟨a.containers, .afterValue (.leaf v)⟩
  | _ => none

/-- Reads one token. -/
def step (a : Assembly) (t : Token) : Option Assembly :=
  match a.next, t with
  | .value, t => a.startValue t
  | .itemOrEnd, .closeBracket => some ⟨a.containers.tail, .afterValue (.arr [])⟩
  | .itemOrEnd, t => a.startValue t
  | .keyOrEnd, .closeBrace => some ⟨a.containers.tail, .afterValue (.obj [])⟩
  | .keyOrEnd, .text k => some ⟨a.containers, .colon [] k⟩
  | .key members, .text k => some ⟨a.containers, .colon members k⟩
  | .colon members k, .colon => some ⟨.obj members k :: a.containers.tail, .value⟩
  | .afterValue v, t =>
    match a.containers, t with
    | .arr items :: outer, .comma => some ⟨.arr (v :: items) :: outer, .value⟩
    | .arr items :: outer, .closeBracket => some ⟨outer, .afterValue (.arr (v :: items).reverse)⟩
    | .obj members k :: _, .comma => some ⟨a.containers, .key ((k, v) :: members)⟩
    | .obj members k :: outer, .closeBrace =>
      some ⟨outer, .afterValue (.obj ((k, v) :: members).reverse)⟩
    | _, _ => none
  | _, _ => none

/-- The draft, once it is complete. -/
def result? (a : Assembly) : Option Draft :=
  match a with
  | ⟨[], .afterValue v⟩ => some v
  | _ => none

end Assembly

namespace Draft

/-- The draft of a list of tokens. -/
def ofTokens? (ts : List Token) : Option Draft := do
  (← ts.foldlM Assembly.step ⟨[], .value⟩).result?

/-- The draft of a text, or `none` if the text is not written like JSON. -/
def ofText? (text : String) : Option Draft := do ofTokens? (← tokens? text.toList)

/-! ## From drafts to trees -/

mutual

/-- What is kept of a draft in a place of a shape, with containers nested at most `depth` deep. -/
def keep? (depth : Nat) (shape : Shape) : Draft → Option Json
  | .leaf value => value
  | .arr items =>
    match depth with
    | 0 => none
    | depth + 1 => do return .arr (← keepItems? depth shape 0 items)
  | .obj members =>
    match depth with
    | 0 => none
    | depth + 1 => do return .obj (← keepMembers? depth shape members)

/-- What is kept of the items of an array, from a position on. -/
def keepItems? (depth : Nat) (shape : Shape) (position : Nat) : List Draft → Option (List Json)
  | [] => some []
  | d :: ds => do
    let item ← keep? depth (shape.item position) d
    return item :: (← keepItems? depth shape (position + 1) ds)

/-- What is kept of the members of an object. Every key has to be a text. -/
def keepMembers? (depth : Nat) (shape : Shape) :
    List (Option String × Draft) → Option (List (String × Json))
  | [] => some []
  | (none, _) :: _ => none
  | (some key, d) :: ds =>
    match shape.member? key with
    | none => keepMembers? depth shape ds
    | some inner => do
      let value ← keep? depth inner d
      return (key, value) :: (← keepMembers? depth shape ds)

end

end Draft

/-- The greatest number of containers that may be open at once. -/
def maxDepth : Nat := 127

/-- The tree of a text in a place of a shape, or `none` if the text cannot be read. A place that
expects just any value (`Shape.whole`) keeps every member. -/
def read? (shape : Shape) (text : String) : Option Json := do
  (← Draft.ofText? text).keep? maxDepth shape

end Json

end RpcOpenApi
