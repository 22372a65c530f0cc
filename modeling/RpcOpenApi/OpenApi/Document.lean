import RpcOpenApi.OpenApi.PathItem

/-!
# OpenAPI documents
-/

namespace RpcOpenApi

/-- What a service is called, and the like. -/
structure Info where
  title : String
  version : String
  summary : Option String := none
  description : Option String := none
  termsOfService : Option String := none
  contact : Option Json := none
  license : Option Json := none
  extensions : OrderedMap String Json := []

namespace Info

/-- A title and a version, and nothing else. -/
def titled (title version : String) : Info := { title, version }

/-- The names of the declared fields. -/
def fieldNames : List String :=
  ["title", "version", "summary", "description", "termsOfService", "contact", "license"]

/-- Reads the information from the members of an object. -/
def read (ms : Members) : Reading Info :=
  Info.mk
    <$> ms.required "title" Decode.text
    <*> ms.required "version" Decode.text
    <*> ms.optional "summary" Decode.text
    <*> ms.optional "description" Decode.text
    <*> ms.optional "termsOfService" Decode.text
    <*> ms.optional "contact" Decode.free
    <*> ms.optional "license" Decode.free
    <*> ms.extensions fieldNames

/-- Reads the information on a service. -/
def decode : Json → Except DecodeError Info := Decode.record "Info" read

/-- Writes the information on a service. -/
def encode (i : Info) : Json :=
  .obj (("title", .str i.title) :: ("version", .str i.version)
    :: Encode.optional "summary" .str i.summary
    ++ Encode.optional "description" .str i.description
    ++ Encode.optional "termsOfService" .str i.termsOfService
    ++ Encode.optional "contact" id i.contact
    ++ Encode.optional "license" id i.license
    ++ i.extensions)

/-- How the information is read from a text. -/
def shape : Shape :=
  .record [("title", .text), ("version", .text), ("summary", .optional .text),
    ("description", .optional .text), ("termsOfService", .optional .text),
    ("contact", .optional .free), ("license", .optional .free)] (some .whole)

end Info

/-- The definitions that references point at, by section. -/
structure Components where
  schemas : OrderedMap String SchemaOrRef := []
  responses : OrderedMap String (RefOr Response) := []
  parameters : OrderedMap String (RefOr Parameter) := []
  requestBodies : OrderedMap String (RefOr RequestBody) := []
  others : OrderedMap String Json := []

namespace Components

/-- The names of the declared sections. -/
def fieldNames : List String := ["schemas", "responses", "parameters", "requestBodies"]

/-- Reads the sections from the members of an object. -/
def read (ms : Members) : Reading Components :=
  Components.mk
    <$> ms.defaulted "schemas" (Decode.map SchemaOrRef.decode) []
    <*> ms.defaulted "responses" (Decode.map (RefOr.decode Response.decode)) []
    <*> ms.defaulted "parameters" (Decode.map (RefOr.decode Parameter.decode)) []
    <*> ms.defaulted "requestBodies" (Decode.map (RefOr.decode RequestBody.decode)) []
    <*> ms.extensions fieldNames

/-- Reads the components of a document. -/
def decode : Json → Except DecodeError Components := Decode.record "Components" read

/-- The member of a section: none if the section is empty. -/
def sectionMember {α : Type} (name : String) (encode : α → Json) (m : OrderedMap String α) :
    Members := if m.isEmpty then [] else [(name, Encode.map encode m)]

/-- Writes the components of a document. -/
def encode (c : Components) : Json :=
  .obj (sectionMember "schemas" SchemaOrRef.encode c.schemas
    ++ sectionMember "responses" (RefOr.encode Response.encode) c.responses
    ++ sectionMember "parameters" (RefOr.encode Parameter.encode) c.parameters
    ++ sectionMember "requestBodies" (RefOr.encode RequestBody.encode) c.requestBodies
    ++ c.others)

/-- How the components are read from a text. -/
def shape : Shape :=
  .record [("schemas", .map .whole), ("responses", .map .whole), ("parameters", .map .whole),
    ("requestBodies", .map .whole)] (some .whole)

end Components

/-- An OpenAPI document. -/
structure OpenApiDocument where
  openapi : String
  info : Info
  paths : Paths := []
  components : Components := {}
  extra : OrderedMap String Json := []

namespace OpenApiDocument

/-- The version of OpenAPI that generated documents follow. -/
def generatedVersion : String := "3.1.0"

/-- The names of the declared fields. -/
def fieldNames : List String := ["openapi", "info", "paths", "components"]

/-- Reads a document from the members of an object. -/
def read (ms : Members) : Reading OpenApiDocument :=
  OpenApiDocument.mk
    <$> ms.required "openapi" Decode.text
    <*> ms.required "info" Info.decode
    <*> ms.defaulted "paths" Paths.decode []
    <*> ms.defaulted "components" Components.decode {}
    <*> ms.extensions fieldNames

/-- Reads a document. -/
def decode : Json → Except DecodeError OpenApiDocument := Decode.record "OpenApiDocument" read

/-- Writes a document; paths and components are always written. -/
def encode (d : OpenApiDocument) : Json :=
  .obj (("openapi", .str d.openapi) :: ("info", d.info.encode)
    :: ("paths", Paths.encode d.paths) :: ("components", d.components.encode) :: d.extra)

/-- How a document is read from a text. -/
def shape : Shape :=
  .record [("openapi", .text), ("info", Info.shape), ("paths", Paths.shape),
    ("components", Components.shape)] (some .whole)

end OpenApiDocument

end RpcOpenApi
