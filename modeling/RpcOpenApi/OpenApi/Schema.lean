import RpcOpenApi.OpenApi.Reference

/-!
# Schemas

A schema describes a set of values. Only its type, its properties and the names of the required ones
are looked at; all other keywords are carried along. Wherever a schema may stand, a reference or one
of the boolean schemas may stand as well (`SchemaOrRef`): `true` describes every value and `false`
none.
-/

namespace RpcOpenApi

/-- The type of a schema: one name or several. -/
inductive SchemaType where
  | single (name : String)
  | union (names : List String)
  deriving DecidableEq

namespace SchemaType

/-- The type has the name, alone or among others. -/
def includes : SchemaType → String → Bool
  | single t, name => t = name
  | union ts, name => name ∈ ts

/-- Reads a type. -/
def decode (j : Json) : Except DecodeError SchemaType :=
  match j with
  | .str s => .ok (.single s)
  | j =>
    match Decode.list Decode.text j with
    | .ok names => .ok (.union names)
    | .error _ => .error (.noAlternative "SchemaType")

/-- Writes a type. -/
def encode : SchemaType → Json
  | single t => .str t
  | union ts => Encode.list .str ts

end SchemaType

mutual

/-- A schema. `none` says that the keyword is not written. The properties are a map in the order
of their names (`OrderedMap`). -/
structure Schema where
  type : Option SchemaType := none
  properties : Option (List (String × SchemaOrRef)) := none
  required : Option (List String) := none
  keywords : OrderedMap String Json := []

/-- A schema, a reference to one, or a boolean schema. -/
inductive SchemaOrRef where
  | reference (r : Reference)
  | boolean (all : Bool)
  | inline (schema : Schema)

end

namespace Schema

/-- A schema with nothing but a type. -/
def ofType (name : String) : Schema := { type := some (.single name) }

/-- The schema of objects with the given properties, some of them required. -/
def object (properties : List (String × SchemaOrRef)) (required : List String) : Schema :=
  { type := some (.single "object")
    properties := some (OrderedMap.ofPairs properties)
    required := some required }

/-- Sets a keyword other than those that are looked at. -/
def withKeyword (s : Schema) (key : String) (value : Json) : Schema :=
  { s with keywords := s.keywords.insert key value }

/-- The schema is one of objects. -/
def isObject (s : Schema) : Bool :=
  match s.type with
  | some t => t.includes "object"
  | none => false

/-- A property is required. -/
def isRequired (s : Schema) (name : String) : Bool :=
  match s.required with
  | some names => name ∈ names
  | none => false

/-- The names of the declared fields. -/
def fieldNames : List String := ["type", "properties", "required"]

/-- Reads a schema from the members of an object, with what its `properties` members are read as. -/
def assemble (ms : Members)
    (properties : List (Nat × Except DecodeError (Option (OrderedMap String SchemaOrRef)))) :
    Reading Schema :=
  Schema.mk
    <$> ms.optional "type" SchemaType.decode
    <*> (Reading.single "properties" properties).orElse none
    <*> ms.optional "required" (Decode.list Decode.text)
    <*> ms.extensions fieldNames

end Schema

mutual

/-- Reads a reference, a boolean schema, or a schema. Why none of them fits is not told. -/
def SchemaOrRef.decode : Json → Except DecodeError SchemaOrRef
  | .bool b => .ok (.boolean b)
  | .obj ms =>
    match Reference.read ms with
    | .ok r => .ok (.reference r)
    | .problem _ =>
      match Schema.assemble ms (Schema.propertyEntries 0 ms) with
      | .ok s => .ok (.inline s)
      | .problem _ => .error (.noAlternative "SchemaOrRef")
  | _ => .error (.noAlternative "SchemaOrRef")

/-- The `properties` members of an object, with their places and what they are read as. -/
def Schema.propertyEntries :
    Nat → Members → List (Nat × Except DecodeError (Option (OrderedMap String SchemaOrRef)))
  | _, [] => []
  | place, (k, j) :: ms =>
    if k = "properties" then
      (place, Schema.decodeProperties j) :: Schema.propertyEntries (place + 1) ms
    else Schema.propertyEntries (place + 1) ms

/-- Reads a map of schemas; `null` says that there is none. -/
def Schema.decodeProperties : Json → Except DecodeError (Option (OrderedMap String SchemaOrRef))
  | .null => .ok none
  | .obj ms => return some (OrderedMap.ofPairs (← Schema.decodeEach ms))
  | j => .error (.wrongType j .map)

/-- Reads the values of some members as schemas, in order. -/
def Schema.decodeEach : Members → Except DecodeError (List (String × SchemaOrRef))
  | [] => .ok []
  | (k, j) :: ms => do
    let s ← SchemaOrRef.decode j
    let rest ← Schema.decodeEach ms
    return (k, s) :: rest

end

namespace Schema

/-- Reads a schema from the members of an object. -/
def read (ms : Members) : Reading Schema := assemble ms (propertyEntries 0 ms)

/-- Reads a schema. -/
def decode : Json → Except DecodeError Schema := Decode.record "Schema" read

end Schema

mutual

/-- Writes a schema, a reference or a boolean schema. -/
def SchemaOrRef.encode : SchemaOrRef → Json
  | .reference r => r.encode
  | .boolean b => .bool b
  | .inline s => Schema.encode s

/-- Writes a schema: the declared fields, then the other keywords. -/
def Schema.encode : Schema → Json
  | ⟨type, none, required, keywords⟩ =>
    .obj (Encode.optional "type" SchemaType.encode type
      ++ Encode.optional "required" (Encode.list .str) required ++ keywords)
  | ⟨type, some properties, required, keywords⟩ =>
    .obj (Encode.optional "type" SchemaType.encode type
      ++ ("properties", .obj (Schema.encodeEach properties))
        :: Encode.optional "required" (Encode.list .str) required ++ keywords)

/-- Writes the schemas of a map as members. -/
def Schema.encodeEach : List (String × SchemaOrRef) → Members
  | [] => []
  | (k, s) :: rest => (k, SchemaOrRef.encode s) :: Schema.encodeEach rest

end

/-- How a schema is read from a text. -/
def Schema.shape : Shape :=
  .record [("type", .optional .whole), ("properties", .optional (.map .whole)),
    ("required", .optional (.list .text))] (some .whole)

/-- The reference, if it is one. -/
def SchemaOrRef.reference? : SchemaOrRef → Option Reference
  | .reference r => some r
  | _ => none

end RpcOpenApi
