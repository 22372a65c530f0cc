import RpcOpenApi.Decode.Basic
import RpcOpenApi.Decode.Shape

/-!
# References

A reference names a definition elsewhere in the document by a pointer such as
`#/components/schemas/Widget`. It may stand wherever an inline definition may (`RefOr`); an object
with a `$ref` text is read as a reference, and everything else as an inline definition.
-/

namespace RpcOpenApi

/-- A reference, with the keywords that are written next to it. -/
structure Reference where
  target : String
  summary : Option String := none
  description : Option String := none
  siblings : OrderedMap String Json := []

namespace Reference

/-- The names of the declared fields. -/
def fieldNames : List String := ["$ref", "summary", "description"]

/-- Reads a reference from the members of an object. -/
def read (ms : Members) : Reading Reference :=
  Reference.mk
    <$> ms.required "$ref" Decode.text
    <*> ms.optional "summary" Decode.text
    <*> ms.optional "description" Decode.text
    <*> ms.extensions fieldNames

/-- Reads a reference. -/
def decode : Json → Except DecodeError Reference := Decode.record "Reference" read

/-- The members that a reference is written as. -/
def members (r : Reference) : Members :=
  ("$ref", .str r.target) :: Encode.optional "summary" .str r.summary
    ++ Encode.optional "description" .str r.description ++ r.siblings

/-- Writes a reference. -/
def encode (r : Reference) : Json := .obj r.members

/-- How a reference is read from a text. -/
def shape : Shape :=
  .record [("$ref", .text), ("summary", .optional .text), ("description", .optional .text)]
    (some .whole)

end Reference

/-- A reference or an inline definition. -/
inductive RefOr (α : Type) where
  | reference (r : Reference)
  | inline (value : α)

namespace RefOr

variable {α : Type}

/-- Reads a reference, else an inline definition. Why neither fits is not told. -/
def decode (inner : Json → Except DecodeError α) (j : Json) : Except DecodeError (RefOr α) :=
  match Reference.decode j with
  | .ok r => .ok (.reference r)
  | .error _ =>
    match inner j with
    | .ok a => .ok (.inline a)
    | .error _ => .error (.noAlternative "RefOr")

/-- Writes a reference or an inline definition. -/
def encode (inner : α → Json) : RefOr α → Json
  | reference r => r.encode
  | inline a => inner a

/-- The reference, if it is one. -/
def reference? : RefOr α → Option Reference
  | reference r => some r
  | inline _ => none

end RefOr

end RpcOpenApi
