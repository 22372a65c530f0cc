import RpcOpenApi.OpenApi.PathItem

/-!
# Kinds of operations

A service offers queries, which only read, and mutations, which have effects. The kind of an
operation decides where it is found and where its input goes, unless its definition says otherwise.
-/

namespace RpcOpenApi

/-- Where a field of the input is carried. -/
inductive InputLocation where
  | path
  | query
  | header
  | cookie
  | body
  deriving DecidableEq

namespace InputLocation

/-- The name of a location. -/
def text : InputLocation → String
  | path => "path"
  | query => "query"
  | header => "header"
  | cookie => "cookie"
  | body => "body"

/-- The locations with their names. -/
def variants : List (String × InputLocation) :=
  [path, query, header, cookie, body].map (fun l => (l.text, l))

/-- Reads a location. -/
def decode : Json → Except DecodeError InputLocation := Decode.variant variants

/-- Writes a location. -/
def encode (l : InputLocation) : Json := .str l.text

/-- The location of the parameter that carries the field; none if the body carries it. -/
def parameterLocation? : InputLocation → Option ParameterLocation
  | path => some .path
  | query => some .query
  | header => some .header
  | cookie => some .cookie
  | body => none

end InputLocation

/-- The kind of an operation. -/
inductive OperationKind where
  | query
  | mutation
  deriving DecidableEq

namespace OperationKind

/-- The name of a kind. -/
def text : OperationKind → String
  | query => "query"
  | mutation => "mutation"

/-- The method of an operation that declares none. -/
def defaultMethod : OperationKind → HttpMethod
  | query => .get
  | mutation => .post

/-- The path of an operation that declares none. -/
def defaultPath : OperationKind → String → String
  | query, id => "/queries/" ++ id
  | mutation, id => "/mutations/" ++ id

/-- Where the fields of the input go unless they are placed one by one. -/
def defaultLocation : OperationKind → InputLocation
  | query => .query
  | mutation => .body

end OperationKind

end RpcOpenApi
