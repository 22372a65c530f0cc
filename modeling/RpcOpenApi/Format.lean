import RpcOpenApi.Error
import RpcOpenApi.Json.Reader
import RpcOpenApi.Yaml.Printer
import RpcOpenApi.Yaml.Reader

/-!
# The formats of documents

Documents and their parts are written in JSON or in YAML. Reading a text gives a tree, from which
the part is decoded; writing a part gives a tree, whose text is laid out in the format.
-/

namespace RpcOpenApi

/-- The format of a text. -/
inductive TextFormat where
  | json
  | yaml
  deriving DecidableEq, Repr

namespace TextFormat

/-- The name of a format. -/
def name : TextFormat → String
  | json => "json"
  | yaml => "yaml"

/-- The name of a format in capitals. -/
def title : TextFormat → String
  | json => "JSON"
  | yaml => "YAML"

/-- The format with a name. -/
def ofName? (name : String) : Option TextFormat := [json, yaml].find? (fun f => f.name = name)

/-- Reads a text as a part of a document. A JSON text with a fault in a member that is not kept is
accepted, but if anything else is wrong with it, the fault is told. -/
def read {α : Type} (f : TextFormat) (shape : Shape) (decode : Json → Except DecodeError α)
    (text : String) : Except ReadError α :=
  match f with
  | json =>
    match Json.read? .whole text with
    | some j => (decode j).mapError .unfitJson
    | none =>
      match (Json.read? shape text).map decode with
      | some (.ok a) => .ok a
      | _ => .error .malformedJson
  | yaml =>
    match Yaml.read? shape text with
    | none => .error .unreadableYaml
    | some j => (decode j).mapError (fun _ => .unreadableYaml)

/-- The text of a tree, over several lines. -/
def render (f : TextFormat) (j : Json) : String :=
  match f with
  | json => j.pretty
  | yaml => Yaml.render j

end TextFormat

namespace RpcDocument

/-- Reads a description of a service. -/
def ofText (f : TextFormat) (text : String) : Except ServiceError RpcDocument :=
  (f.read shape decode text).mapError .unreadableDocument

end RpcDocument

namespace OpenApiDocument

/-- The text of a document. -/
def render (f : TextFormat) (d : OpenApiDocument) : String := f.render d.encode

end OpenApiDocument

end RpcOpenApi
