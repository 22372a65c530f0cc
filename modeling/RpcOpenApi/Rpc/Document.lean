import RpcOpenApi.OpenApi.Document
import RpcOpenApi.Rpc.Definition

/-!
# Service descriptions

A service description is a document like an OpenAPI document, except that it declares queries and
mutations. It may have paths as well, which are then written by hand.
-/

namespace RpcOpenApi

/-- The operations of a service by their ids, in order of declaration. Members other than the
fields are not kept. -/
structure RpcOperations where
  queries : OrderedMap String OperationDef := []
  mutations : OrderedMap String OperationDef := []

namespace RpcOperations

/-- Reads definitions by id. -/
def decodeSet : Json → Except DecodeError (OrderedMap String OperationDef) :=
  Decode.map OperationDef.decode

/-- Reads operations from the members of an object. -/
def read (ms : Members) : Reading RpcOperations :=
  RpcOperations.mk
    <$> ms.defaulted "queries" decodeSet []
    <*> ms.defaulted "mutations" decodeSet []

/-- Reads operations from an array of the fields. -/
def ofItems : List Json → Except DecodeError RpcOperations
  | [] => return {}
  | [queries] => return { queries := ← decodeSet queries }
  | [queries, mutations] => do
    let queries ← decodeSet queries
    return { queries, mutations := ← decodeSet mutations }
  | queries :: mutations :: _ => do
    let _ ← decodeSet queries
    let _ ← decodeSet mutations
    .error .surplusItems

/-- Reads operations. -/
def decode : Json → Except DecodeError RpcOperations
  | .obj ms => (read ms).toExcept
  | .arr js => ofItems js
  | j => .error (.wrongType j (.record "RpcOperations"))

/-- Writes operations; both sets are always written. -/
def encode (o : RpcOperations) : Json :=
  .obj [("queries", Encode.map OperationDef.encode o.queries),
    ("mutations", Encode.map OperationDef.encode o.mutations)]

/-- How operations are read from a text. -/
def shape : Shape :=
  .record [("queries", .map OperationDef.shape), ("mutations", .map OperationDef.shape)] none

/-- All operations with their kinds and ids: the queries, then the mutations. -/
def declared (o : RpcOperations) : List (OperationKind × String × OperationDef) :=
  o.queries.map (fun e => (.query, e.1, e.2)) ++ o.mutations.map (fun e => (.mutation, e.1, e.2))

end RpcOperations

/-- The description of a service. -/
structure RpcDocument where
  /-- The version of the description format, which need not be a text. -/
  yarpc : Option Json := none
  info : Info
  components : Components := {}
  operations : RpcOperations := {}
  paths : Option Paths := none
  extra : OrderedMap String Json := []

namespace RpcDocument

/-- The version of the description format that the compiler accepts. -/
def supportedVersion : String := "1.0.0"

/-- The declared version of the format, if it is a text. -/
def version (d : RpcDocument) : Option String := d.yarpc.bind Json.text?

/-- The name under which the version may be written as well. -/
def versionAliases : List String := ["version"]

/-- The names of the declared fields. -/
def fieldNames : List String :=
  "yarpc" :: versionAliases ++ ["info", "components", "operations", "paths"]

/-- Reads a description from the members of an object. -/
def read (ms : Members) : Reading RpcDocument :=
  RpcDocument.mk
    <$> (ms.field? "yarpc" (Decode.optional Decode.free) versionAliases).orElse none
    <*> ms.required "info" Info.decode
    <*> ms.defaulted "components" Components.decode {}
    <*> ms.defaulted "operations" RpcOperations.decode {}
    <*> ms.optional "paths" Paths.decode
    <*> ms.extensions fieldNames

/-- Reads a description. -/
def decode : Json → Except DecodeError RpcDocument := Decode.record "RpcDocument" read

/-- Writes a description; components and operations are always written. -/
def encode (d : RpcDocument) : Json :=
  .obj (Encode.optional "yarpc" id d.yarpc
    ++ ("info", d.info.encode) :: ("components", d.components.encode)
      :: ("operations", d.operations.encode) :: Encode.optional "paths" Paths.encode d.paths
    ++ d.extra)

/-- How a description is read from a text. -/
def shape : Shape :=
  .record [("yarpc", .optional .free), ("version", .optional .free), ("info", Info.shape),
    ("components", Components.shape), ("operations", RpcOperations.shape),
    ("paths", .optional Paths.shape)] (some .whole)

end RpcDocument

end RpcOpenApi
