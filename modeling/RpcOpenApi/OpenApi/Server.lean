import RpcOpenApi.Decode.Basic
import RpcOpenApi.Decode.Shape

/-!
# Servers
-/

namespace RpcOpenApi

/-- A server that offers the service. Members other than the fields are not kept. -/
structure Server where
  url : String
  description : Option String := none
  /-- What may stand for the names in braces of the address, under the key `variables`. -/
  bindings : Option (OrderedMap String Json) := none

namespace Server

/-- The names of the declared fields. -/
def fieldNames : List String := ["url", "description", "variables"]

/-- Reads a server from the members of an object. -/
def read (ms : Members) : Reading Server :=
  Server.mk
    <$> ms.required "url" Decode.text
    <*> ms.optional "description" Decode.text
    <*> ms.optional "variables" (Decode.map Decode.free)

/-- Reads a server from an array of its fields, of which only the first has to be there. -/
def ofItems (surplus : Nat → DecodeError) : List Json → Except DecodeError Server
  | [] => .error (.tooFewItems 0 "Server" 3)
  | url :: rest => do
    let url ← Decode.text url
    let description ← (rest.head?.mapM (Decode.optional Decode.text))
    let bindings ← (rest.tail.head?.mapM (Decode.optional (Decode.map Decode.free)))
    if rest.length > 2 then .error (surplus (rest.length + 1))
    else return { url, description := description.join, bindings := bindings.join }

/-- Reads a server. `surplus` is the error for an array of too many items. -/
def decode (surplus : Nat → DecodeError) : Json → Except DecodeError Server
  | .obj ms => (read ms).toExcept
  | .arr js => ofItems surplus js
  | j => .error (.wrongType j (.record "Server"))

/-- Reads a server that stands on its own. -/
def decodeAlone : Json → Except DecodeError Server := decode (fun _ => .surplusItems)

/-- Reads a server that is a part of a value which had been read before. -/
def decodeWithin : Json → Except DecodeError Server := decode (fun given => .surplusItemsOf given 3)

/-- Writes a server. -/
def encode (s : Server) : Json :=
  .obj (("url", .str s.url) :: Encode.optional "description" .str s.description
    ++ Encode.optional "variables" Encode.free s.bindings)

/-- How a server is read from a text. -/
def shape : Shape :=
  .record [("url", .text), ("description", .optional .text),
    ("variables", .optional (.map .free))] none

/-- How servers are read from a text as a part of a value that is read as a whole. -/
def wholeShapes : Shape := .genericList (.genericRecord fieldNames)

end Server

end RpcOpenApi
