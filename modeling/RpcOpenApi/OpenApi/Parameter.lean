import RpcOpenApi.OpenApi.MediaType

/-!
# Parameters

A parameter is a part of a request outside of its body: in the path, the query, a header or a
cookie.
-/

namespace RpcOpenApi

/-- Where a parameter is carried. -/
inductive ParameterLocation where
  | path
  | query
  | header
  | cookie
  deriving DecidableEq

namespace ParameterLocation

/-- The name of a location. -/
def text : ParameterLocation → String
  | path => "path"
  | query => "query"
  | header => "header"
  | cookie => "cookie"

/-- The locations with their names. -/
def variants : List (String × ParameterLocation) :=
  [path, query, header, cookie].map (fun l => (l.text, l))

/-- Reads a location. -/
def decode : Json → Except DecodeError ParameterLocation := Decode.variant variants

/-- Writes a location. -/
def encode (l : ParameterLocation) : Json := .str l.text

end ParameterLocation

/-- A parameter of an operation. -/
structure Parameter where
  name : String
  location : ParameterLocation
  description : Option String := none
  required : Option Bool := none
  deprecated : Option Bool := none
  allowEmptyValue : Option Bool := none
  style : Option String := none
  explode : Option Bool := none
  allowReserved : Option Bool := none
  schema : Option SchemaOrRef := none
  example? : Option Json := none
  examples : Option (OrderedMap String Json) := none
  content : Option (OrderedMap String MediaType) := none
  extensions : OrderedMap String Json := []

namespace Parameter

/-- A parameter of which nothing but the name and the location is said. -/
def named (name : String) (location : ParameterLocation) : Parameter := { name, location }

/-- The names of the declared fields. -/
def fieldNames : List String :=
  ["name", "in", "description", "required", "deprecated", "allowEmptyValue", "style", "explode",
    "allowReserved", "schema", "example", "examples", "content"]

/-- Reads a parameter from the members of an object. -/
def read (ms : Members) : Reading Parameter :=
  Parameter.mk
    <$> ms.required "name" Decode.text
    <*> ms.required "in" ParameterLocation.decode
    <*> ms.optional "description" Decode.text
    <*> ms.optional "required" Decode.boolean
    <*> ms.optional "deprecated" Decode.boolean
    <*> ms.optional "allowEmptyValue" Decode.boolean
    <*> ms.optional "style" Decode.text
    <*> ms.optional "explode" Decode.boolean
    <*> ms.optional "allowReserved" Decode.boolean
    <*> ms.optional "schema" SchemaOrRef.decode
    <*> ms.optional "example" Decode.free
    <*> ms.optional "examples" (Decode.map Decode.free)
    <*> ms.optional "content" (Decode.map MediaType.decode)
    <*> ms.extensions fieldNames

/-- Reads a parameter. -/
def decode : Json → Except DecodeError Parameter := Decode.record "Parameter" read

/-- Writes a parameter. -/
def encode (p : Parameter) : Json :=
  .obj (("name", .str p.name) :: ("in", p.location.encode)
    :: Encode.optional "description" .str p.description
    ++ Encode.optional "required" .bool p.required
    ++ Encode.optional "deprecated" .bool p.deprecated
    ++ Encode.optional "allowEmptyValue" .bool p.allowEmptyValue
    ++ Encode.optional "style" .str p.style
    ++ Encode.optional "explode" .bool p.explode
    ++ Encode.optional "allowReserved" .bool p.allowReserved
    ++ Encode.optional "schema" SchemaOrRef.encode p.schema
    ++ Encode.optional "example" id p.example?
    ++ Encode.optional "examples" Encode.free p.examples
    ++ Encode.optional "content" (Encode.map MediaType.encode) p.content
    ++ p.extensions)

/-- How a parameter is read from a text. -/
def shape : Shape :=
  .record [("name", .text), ("in", .variant), ("description", .optional .text),
    ("required", .optional .boolean), ("deprecated", .optional .boolean),
    ("allowEmptyValue", .optional .boolean), ("style", .optional .text),
    ("explode", .optional .boolean), ("allowReserved", .optional .boolean),
    ("schema", .optional .whole), ("example", .optional .free),
    ("examples", .optional (.map .free)), ("content", .optional (.map MediaType.shape))]
    (some .whole)

end Parameter

end RpcOpenApi
