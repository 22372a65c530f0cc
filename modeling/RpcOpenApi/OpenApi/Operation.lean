import RpcOpenApi.OpenApi.Parameter
import RpcOpenApi.OpenApi.RequestBody
import RpcOpenApi.OpenApi.Response
import RpcOpenApi.OpenApi.Server

/-!
# Operations

An operation is what a method of a path does. Its parameters, body and responses are what the
compiler builds; the remaining fields are carried along (`OperationExtras`).
-/

namespace RpcOpenApi

/-- The names of the scopes that an operation needs, by security scheme. -/
abbrev SecurityRequirement := OrderedMap String (List String)

/-- The fields of an operation that are carried along. -/
structure OperationExtras where
  summary : Option String := none
  tags : Option (List String) := none
  externalDocs : Option Json := none
  deprecated : Option Bool := none
  security : Option (List SecurityRequirement) := none
  servers : Option (List Server) := none
  callbacks : Option (OrderedMap String Json) := none
  extensions : OrderedMap String Json := []

namespace OperationExtras

/-- The names of the declared fields. -/
def fieldNames : List String :=
  ["summary", "tags", "externalDocs", "deprecated", "security", "servers", "callbacks"]

/-- Reads the fields from the members of an object. -/
def read (server : Json → Except DecodeError Server) (ms : Members) : Reading OperationExtras :=
  OperationExtras.mk
    <$> ms.optional "summary" Decode.text
    <*> ms.optional "tags" (Decode.list Decode.text)
    <*> ms.optional "externalDocs" Decode.free
    <*> ms.optional "deprecated" Decode.boolean
    <*> ms.optional "security" (Decode.list (Decode.map (Decode.list Decode.text)))
    <*> ms.optional "servers" (Decode.list server)
    <*> ms.optional "callbacks" (Decode.map Decode.free)
    <*> ms.extensions fieldNames

/-- Reads the fields of an operation that are carried along. -/
def decode : Json → Except DecodeError OperationExtras :=
  Decode.record "OperationExtras" (read Server.decodeAlone)

/-- The members that the fields are written as. -/
def members (e : OperationExtras) : Members :=
  Encode.optional "summary" .str e.summary
    ++ Encode.optional "tags" (Encode.list .str) e.tags
    ++ Encode.optional "externalDocs" id e.externalDocs
    ++ Encode.optional "deprecated" .bool e.deprecated
    ++ Encode.optional "security" (Encode.list (Encode.map (Encode.list .str))) e.security
    ++ Encode.optional "servers" (Encode.list Server.encode) e.servers
    ++ Encode.optional "callbacks" Encode.free e.callbacks
    ++ e.extensions

/-- Writes the fields. -/
def encode (e : OperationExtras) : Json := .obj e.members

/-- How the fields are read from a text. -/
def shape : Shape :=
  .record [("summary", .optional .text), ("tags", .optional (.list .text)),
    ("externalDocs", .optional .free), ("deprecated", .optional .boolean),
    ("security", .optional (.list (.map (.list .text)))),
    ("servers", .optional (.list Server.shape)), ("callbacks", .optional (.map .free))]
    (some .whole)

end OperationExtras

/-- The parameters of an operation or a path. -/
abbrev Parameters := List (RefOr Parameter)

namespace Parameters

/-- Reads parameters. -/
def decode : Json → Except DecodeError Parameters := Decode.list (RefOr.decode Parameter.decode)

/-- Writes parameters. -/
def encode (ps : Parameters) : Json := Encode.list (RefOr.encode Parameter.encode) ps

end Parameters

/-- What a method of a path does. -/
structure Operation where
  operationId : Option String := none
  description : Option String := none
  parameters : Option Parameters := none
  requestBody : Option (RefOr RequestBody) := none
  responses : Responses := []
  extras : OperationExtras := {}

namespace Operation

/-- The names of the declared fields. -/
def fieldNames : List String :=
  ["operationId", "description", "parameters", "requestBody", "responses"]

/-- Reads an operation from the members of an object. -/
def read (ms : Members) : Reading Operation :=
  Operation.mk
    <$> ms.optional "operationId" Decode.text
    <*> ms.optional "description" Decode.text
    <*> ms.optional "parameters" Parameters.decode
    <*> ms.optional "requestBody" (RefOr.decode RequestBody.decode)
    <*> ms.defaulted "responses" Responses.decode []
    <*> ms.flattened fieldNames (OperationExtras.read Server.decodeWithin)

/-- Reads an operation. -/
def decode : Json → Except DecodeError Operation := Decode.record "Operation" read

/-- Writes an operation; the responses are always written. -/
def encode (o : Operation) : Json :=
  .obj (Encode.optional "operationId" .str o.operationId
    ++ Encode.optional "description" .str o.description
    ++ Encode.optional "parameters" Parameters.encode o.parameters
    ++ Encode.optional "requestBody" (RefOr.encode RequestBody.encode) o.requestBody
    ++ ("responses", Responses.encode o.responses) :: o.extras.members)

/-- How an operation is read from a text. -/
def shape : Shape :=
  .record [("operationId", .optional .text), ("description", .optional .text),
    ("parameters", .optional (.list .whole)), ("requestBody", .optional .whole),
    ("responses", Responses.shape), ("servers", Server.wholeShapes)] (some .whole)

/-- How an operation is read from a text as a part of a value that is read as a whole. -/
def wholeShape : Shape :=
  .generic [("responses", .genericCodes), ("servers", Server.wholeShapes)]

end Operation

end RpcOpenApi
