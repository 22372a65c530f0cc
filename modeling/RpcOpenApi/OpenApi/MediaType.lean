import RpcOpenApi.OpenApi.Schema

/-!
# Media types

A media type describes the content of a body: its schema, examples, and how its parts are encoded.
-/

namespace RpcOpenApi

/-- The content of a body. -/
structure MediaType where
  schema : Option SchemaOrRef := none
  example? : Option Json := none
  examples : Option (OrderedMap String Json) := none
  encoding : Option (OrderedMap String Json) := none
  extensions : OrderedMap String Json := []

namespace MediaType

/-- The media type of the bodies that are generated. -/
def jsonName : String := "application/json"

/-- A media type with nothing but a schema. -/
def ofSchema (s : SchemaOrRef) : MediaType := { schema := some s }

/-- Nothing is said about the content. -/
def isEmpty (m : MediaType) : Bool :=
  m.schema.isNone && m.example?.isNone && m.examples.isNone && m.encoding.isNone
    && m.extensions.isEmpty

/-- The names of the declared fields. -/
def fieldNames : List String := ["schema", "example", "examples", "encoding"]

/-- Reads a media type from the members of an object. -/
def read (ms : Members) : Reading MediaType :=
  MediaType.mk
    <$> ms.optional "schema" SchemaOrRef.decode
    <*> ms.optional "example" Decode.free
    <*> ms.optional "examples" (Decode.map Decode.free)
    <*> ms.optional "encoding" (Decode.map Decode.free)
    <*> ms.extensions fieldNames

/-- Reads a media type. -/
def decode : Json → Except DecodeError MediaType := Decode.record "MediaType" read

/-- The members that a media type is written as. -/
def members (m : MediaType) : Members :=
  Encode.optional "schema" SchemaOrRef.encode m.schema
    ++ Encode.optional "example" id m.example?
    ++ Encode.optional "examples" Encode.free m.examples
    ++ Encode.optional "encoding" Encode.free m.encoding
    ++ m.extensions

/-- Writes a media type. -/
def encode (m : MediaType) : Json := .obj m.members

/-- How a media type is read from a text. -/
def shape : Shape :=
  .record [("schema", .optional .whole), ("example", .optional .free),
    ("examples", .optional (.map .free)), ("encoding", .optional (.map .free))] (some .whole)

end MediaType

end RpcOpenApi
