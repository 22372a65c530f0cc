import RpcOpenApi.OpenApi.MediaType

/-!
# Responses

The responses of an operation are a map from status codes. A code is a text, since `4XX` and
`default` are codes too; where a text writes it as an integer, its decimal digits are the code.
-/

namespace RpcOpenApi

/-- A status code as it is written in a document. -/
structure StatusCode where
  text : String
  deriving DecidableEq

namespace StatusCode

/-- The code of a number. -/
def ofNat (n : Nat) : StatusCode := ⟨toString n⟩

/-- Reads a code: a text or an integer. -/
def decode : Json → Except DecodeError StatusCode
  | .str s => .ok ⟨s⟩
  | .num (.int i) => .ok ⟨String.ofList (intText i)⟩
  | j => .error (.wrongType j .statusCode)

/-- Writes a code. -/
def encode (c : StatusCode) : Json := .str c.text

end StatusCode

/-- What an operation answers. -/
structure Response where
  description : String := ""
  headers : Option (OrderedMap String Json) := none
  content : Option (OrderedMap String MediaType) := none
  links : Option (OrderedMap String Json) := none
  extensions : OrderedMap String Json := []

namespace Response

/-- A response with nothing but a description. -/
def described (description : String) : Response := { description }

/-- The names of the declared fields. -/
def fieldNames : List String := ["description", "headers", "content", "links"]

/-- Reads a response from the members of an object. -/
def read (ms : Members) : Reading Response :=
  Response.mk
    <$> ms.required "description" Decode.text
    <*> ms.optional "headers" (Decode.map Decode.free)
    <*> ms.optional "content" (Decode.map MediaType.decode)
    <*> ms.optional "links" (Decode.map Decode.free)
    <*> ms.extensions fieldNames

/-- Reads a response. -/
def decode : Json → Except DecodeError Response := Decode.record "Response" read

/-- Writes a response. -/
def encode (r : Response) : Json :=
  .obj (("description", .str r.description)
    :: Encode.optional "headers" Encode.free r.headers
    ++ Encode.optional "content" (Encode.map MediaType.encode) r.content
    ++ Encode.optional "links" Encode.free r.links
    ++ r.extensions)

/-- How a response is read from a text. -/
def shape : Shape :=
  .record [("description", .text), ("headers", .optional (.map .free)),
    ("content", .optional (.map MediaType.shape)), ("links", .optional (.map .free))]
    (some .whole)

end Response

/-- The responses of an operation by status code. -/
abbrev Responses := OrderedMap StatusCode (RefOr Response)

namespace Responses

/-- Reads responses. -/
def decode : Json → Except DecodeError Responses
  | .obj ms => do
    let entries ← Decode.members (RefOr.decode Response.decode) ms
    return OrderedMap.ofPairs (entries.map (fun e => (⟨e.1⟩, e.2)))
  | j => .error (.wrongType j .map)

/-- Writes responses. -/
def encode (rs : Responses) : Json :=
  .obj (rs.map (fun e => (e.1.text, e.2.encode Response.encode)))

/-- How responses are read from a text. -/
def shape : Shape := .codeMap .whole

end Responses

end RpcOpenApi
