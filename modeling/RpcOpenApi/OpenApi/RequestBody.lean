import RpcOpenApi.OpenApi.MediaType

/-!
# Request bodies
-/

namespace RpcOpenApi

/-- The body of a request, by media type. -/
structure RequestBody where
  description : Option String := none
  content : OrderedMap String MediaType := []
  required : Option Bool := none
  extensions : OrderedMap String Json := []

namespace RequestBody

/-- A required JSON body with the given schema. -/
def json (s : SchemaOrRef) : RequestBody :=
  { content := [(MediaType.jsonName, MediaType.ofSchema s)], required := some true }

/-- The names of the declared fields. -/
def fieldNames : List String := ["description", "content", "required"]

/-- Reads a body from the members of an object. -/
def read (ms : Members) : Reading RequestBody :=
  RequestBody.mk
    <$> ms.optional "description" Decode.text
    <*> ms.required "content" (Decode.map MediaType.decode)
    <*> ms.optional "required" Decode.boolean
    <*> ms.extensions fieldNames

/-- Reads a body. -/
def decode : Json → Except DecodeError RequestBody := Decode.record "RequestBody" read

/-- Writes a body. -/
def encode (b : RequestBody) : Json :=
  .obj (Encode.optional "description" .str b.description
    ++ ("content", Encode.map MediaType.encode b.content)
      :: Encode.optional "required" .bool b.required
    ++ b.extensions)

/-- How a body is read from a text. -/
def shape : Shape :=
  .record [("description", .optional .text), ("content", .map MediaType.shape),
    ("required", .optional .boolean)] (some .whole)

end RequestBody

end RpcOpenApi
