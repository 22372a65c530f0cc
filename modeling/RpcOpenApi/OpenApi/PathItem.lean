import RpcOpenApi.OpenApi.Operation

/-!
# Path items

A path item holds the operations of one path by method, and what is common to them.
-/

namespace RpcOpenApi

/-- The method of a request. -/
inductive HttpMethod where
  | get
  | post
  | put
  | delete
  | patch
  | head
  | options
  | trace
  deriving DecidableEq

namespace HttpMethod

/-- The name of a method. -/
def text : HttpMethod → String
  | get => "get"
  | post => "post"
  | put => "put"
  | delete => "delete"
  | patch => "patch"
  | head => "head"
  | options => "options"
  | trace => "trace"

/-- The methods with their names. -/
def variants : List (String × HttpMethod) :=
  [get, post, put, delete, patch, head, options, trace].map (fun m => (m.text, m))

/-- Reads a method. -/
def decode : Json → Except DecodeError HttpMethod := Decode.variant variants

/-- Writes a method. -/
def encode (m : HttpMethod) : Json := .str m.text

end HttpMethod

/-- The operations of a path by method. -/
abbrev Operations := OrderedMap HttpMethod Operation

/-- The operations of a path, and what is common to them. -/
structure PathItem where
  summary : Option String := none
  description : Option String := none
  parameters : Option Parameters := none
  servers : Option (List Server) := none
  operations : Operations := []

namespace PathItem

/-- A path with one operation. -/
def single (method : HttpMethod) (operation : Operation) : PathItem :=
  { operations := [(method, operation)] }

/-- The names of the declared fields. -/
def fieldNames : List String := ["summary", "description", "parameters", "servers"]

/-- Reads operations by method, in order. -/
def readEntries : Members → Except DecodeError (List (HttpMethod × Operation))
  | [] => .ok []
  | (k, j) :: ms => do
    let method ← Decode.variantNamed HttpMethod.variants k
    let operation ← Operation.decode j
    let rest ← readEntries ms
    return (method, operation) :: rest

/-- Reads operations by method. -/
def readOperations (ms : Members) : Reading Operations :=
  .ofExcept 0 (do return OrderedMap.ofPairs (← readEntries ms))

/-- Reads a path item from the members of an object. -/
def read (ms : Members) : Reading PathItem :=
  PathItem.mk
    <$> ms.optional "summary" Decode.text
    <*> ms.optional "description" Decode.text
    <*> ms.optional "parameters" Parameters.decode
    <*> ms.optional "servers" (Decode.list Server.decodeAlone)
    <*> ms.flattened fieldNames readOperations

/-- Reads a path item. -/
def decode : Json → Except DecodeError PathItem := Decode.record "PathItem" read

/-- Writes operations as members. -/
def encodeOperations (os : Operations) : Members := os.map (fun e => (e.1.text, e.2.encode))

/-- Writes a path item. -/
def encode (p : PathItem) : Json :=
  .obj (Encode.optional "summary" .str p.summary
    ++ Encode.optional "description" .str p.description
    ++ Encode.optional "parameters" Parameters.encode p.parameters
    ++ Encode.optional "servers" (Encode.list Server.encode) p.servers
    ++ encodeOperations p.operations)

/-- How a path item is read from a text. -/
def shape : Shape :=
  .record [("summary", .optional .text), ("description", .optional .text),
    ("parameters", .optional (.list .whole)), ("servers", .optional (.list Server.shape))]
    (some Operation.wholeShape)

end PathItem

/-- The paths of a service. -/
abbrev Paths := OrderedMap String PathItem

namespace Paths

/-- Reads paths. -/
def decode : Json → Except DecodeError Paths := Decode.map PathItem.decode

/-- Writes paths. -/
def encode (ps : Paths) : Json := Encode.map PathItem.encode ps

/-- How paths are read from a text. -/
def shape : Shape := .map PathItem.shape

end Paths

end RpcOpenApi
