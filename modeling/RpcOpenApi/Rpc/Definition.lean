import RpcOpenApi.Rpc.Kind

/-!
# Definitions of operations

An operation of a service is defined by its input, its output and its errors. The input is an
object whose fields may be placed one by one (`ParameterOverride`).
-/

namespace RpcOpenApi

/-- What is said about one field of the input: its place and any attributes of a parameter. -/
structure ParameterOverride where
  location : Option InputLocation := none
  description : Option String := none
  required : Option Bool := none
  deprecated : Option Bool := none
  allowEmptyValue : Option Bool := none
  style : Option String := none
  explode : Option Bool := none
  allowReserved : Option Bool := none
  example? : Option Json := none
  examples : Option (OrderedMap String Json) := none
  content : Option (OrderedMap String MediaType) := none
  extensions : OrderedMap String Json := []

namespace ParameterOverride

/-- Places a field and says nothing else about it. -/
def located (l : InputLocation) : ParameterOverride := { location := some l }

/-- The names of the declared fields. -/
def fieldNames : List String :=
  ["in", "description", "required", "deprecated", "allowEmptyValue", "style", "explode",
    "allowReserved", "example", "examples", "content"]

/-- Reads an override from the members of an object. -/
def read (ms : Members) : Reading ParameterOverride :=
  ParameterOverride.mk
    <$> ms.optional "in" InputLocation.decode
    <*> ms.optional "description" Decode.text
    <*> ms.optional "required" Decode.boolean
    <*> ms.optional "deprecated" Decode.boolean
    <*> ms.optional "allowEmptyValue" Decode.boolean
    <*> ms.optional "style" Decode.text
    <*> ms.optional "explode" Decode.boolean
    <*> ms.optional "allowReserved" Decode.boolean
    <*> ms.optional "example" Decode.free
    <*> ms.optional "examples" (Decode.map Decode.free)
    <*> ms.optional "content" (Decode.map MediaType.decode)
    <*> ms.extensions fieldNames

/-- Reads an override. -/
def decode : Json → Except DecodeError ParameterOverride :=
  Decode.record "ParameterOverride" read

/-- Writes an override. -/
def encode (o : ParameterOverride) : Json :=
  .obj (Encode.optional "in" InputLocation.encode o.location
    ++ Encode.optional "description" .str o.description
    ++ Encode.optional "required" .bool o.required
    ++ Encode.optional "deprecated" .bool o.deprecated
    ++ Encode.optional "allowEmptyValue" .bool o.allowEmptyValue
    ++ Encode.optional "style" .str o.style
    ++ Encode.optional "explode" .bool o.explode
    ++ Encode.optional "allowReserved" .bool o.allowReserved
    ++ Encode.optional "example" id o.example?
    ++ Encode.optional "examples" Encode.free o.examples
    ++ Encode.optional "content" (Encode.map MediaType.encode) o.content
    ++ o.extensions)

/-- How an override is read from a text. -/
def shape : Shape :=
  .record [("in", .optional .variant), ("description", .optional .text),
    ("required", .optional .boolean), ("deprecated", .optional .boolean),
    ("allowEmptyValue", .optional .boolean), ("style", .optional .text),
    ("explode", .optional .boolean), ("allowReserved", .optional .boolean),
    ("example", .optional .free), ("examples", .optional (.map .free)),
    ("content", .optional (.map MediaType.shape))] (some .whole)

end ParameterOverride

/-- What is said about the fields of the input, by name. -/
abbrev Overrides := OrderedMap String ParameterOverride

/-- The input of an operation: the schema of an object, and the placement of its fields. Members
other than the fields are not kept. -/
structure InputDef where
  schema : SchemaOrRef
  parameters : Overrides := []

namespace InputDef

/-- An input whose fields are not placed. -/
def ofSchema (s : SchemaOrRef) : InputDef := { schema := s }

/-- Says something about a field. -/
def withOverride (i : InputDef) (field : String) (o : ParameterOverride) : InputDef :=
  { i with parameters := i.parameters.insert field o }

/-- Reads overrides. -/
def decodeOverrides : Json → Except DecodeError Overrides := Decode.map ParameterOverride.decode

/-- Reads an input from the members of an object. -/
def read (ms : Members) : Reading InputDef :=
  InputDef.mk
    <$> ms.required "schema" SchemaOrRef.decode
    <*> ms.defaulted "parameters" decodeOverrides []

/-- Reads an input from an array of its fields, of which only the first has to be there. -/
def ofItems : List Json → Except DecodeError InputDef
  | [] => .error (.tooFewItems 0 "InputDef" 2)
  | [schema] => return { schema := ← SchemaOrRef.decode schema }
  | [schema, parameters] => do
    let schema ← SchemaOrRef.decode schema
    return { schema, parameters := ← decodeOverrides parameters }
  | schema :: parameters :: _ => do
    let _ ← SchemaOrRef.decode schema
    let _ ← decodeOverrides parameters
    .error .surplusItems

/-- Reads an input. -/
def decode : Json → Except DecodeError InputDef
  | .obj ms => (read ms).toExcept
  | .arr js => ofItems js
  | j => .error (.wrongType j (.record "InputDef"))

/-- Writes an input. -/
def encode (i : InputDef) : Json :=
  .obj (("schema", i.schema.encode)
    :: if i.parameters.isEmpty then []
      else [("parameters", Encode.map ParameterOverride.encode i.parameters)])

/-- How an input is read from a text. -/
def shape : Shape :=
  .record [("schema", .whole), ("parameters", .map ParameterOverride.shape)] none

end InputDef

/-- The answer of an operation that succeeds. -/
structure OutputDef where
  description : Option String := none
  statusCode : Option Nat := none
  media : MediaType := {}

namespace OutputDef

/-- An output with nothing but a schema. -/
def ofSchema (s : SchemaOrRef) : OutputDef := { media := MediaType.ofSchema s }

/-- The names of the declared fields. -/
def fieldNames : List String := ["description", "statusCode"]

/-- Reads an output from the members of an object. -/
def read (ms : Members) : Reading OutputDef :=
  OutputDef.mk
    <$> ms.optional "description" Decode.text
    <*> ms.optional "statusCode" Decode.word16
    <*> ms.flattened fieldNames MediaType.read

/-- Reads an output. -/
def decode : Json → Except DecodeError OutputDef := Decode.record "OutputDef" read

/-- Writes an output. -/
def encode (o : OutputDef) : Json :=
  .obj (Encode.optional "description" .str o.description
    ++ Encode.optional "statusCode" (fun n : Nat => Json.ofInt n) o.statusCode
    ++ o.media.members)

/-- How an output is read from a text. -/
def shape : Shape :=
  .record [("description", .optional .text), ("statusCode", .optional .integer)] (some .whole)

end OutputDef

/-- The definition of an operation. -/
structure OperationDef where
  description : Option String := none
  method : Option HttpMethod := none
  path : Option String := none
  input : Option InputDef := none
  output : Option OutputDef := none
  errors : Option Responses := none
  extras : OperationExtras := {}

namespace OperationDef

/-- The names of the declared fields. -/
def fieldNames : List String := ["description", "method", "path", "input", "output", "errors"]

/-- Reads a definition from the members of an object. -/
def read (ms : Members) : Reading OperationDef :=
  OperationDef.mk
    <$> ms.optional "description" Decode.text
    <*> ms.optional "method" HttpMethod.decode
    <*> ms.optional "path" Decode.text
    <*> ms.optional "input" InputDef.decode
    <*> ms.optional "output" OutputDef.decode
    <*> ms.optional "errors" Responses.decode
    <*> ms.flattened fieldNames (OperationExtras.read Server.decodeWithin)

/-- Reads a definition. -/
def decode : Json → Except DecodeError OperationDef := Decode.record "OperationDef" read

/-- Writes a definition. -/
def encode (d : OperationDef) : Json :=
  .obj (Encode.optional "description" .str d.description
    ++ Encode.optional "method" HttpMethod.encode d.method
    ++ Encode.optional "path" .str d.path
    ++ Encode.optional "input" InputDef.encode d.input
    ++ Encode.optional "output" OutputDef.encode d.output
    ++ Encode.optional "errors" Responses.encode d.errors
    ++ d.extras.members)

/-- How a definition is read from a text. -/
def shape : Shape :=
  .record [("description", .optional .text), ("method", .optional .variant),
    ("path", .optional .text), ("input", .optional InputDef.shape),
    ("output", .optional OutputDef.shape), ("errors", .optional Responses.shape),
    ("servers", Server.wholeShapes)] (some .whole)

end OperationDef

end RpcOpenApi
