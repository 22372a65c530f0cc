import RpcOpenApi.Error
import RpcOpenApi.Text.Segments

/-!
# Resolving references

A reference to a schema is resolved by walking from the components of the document along the
segments of the reference (`Resolver.ofComponents`). What is found has to be a schema; a reference
that is found is not followed.
-/

namespace RpcOpenApi

/-- Finds the schema of a reference. -/
abbrev Resolver := Reference → Except ServiceError Schema

namespace Resolver

/-- What every reference that can be resolved begins with. -/
def root : List Char := "#/components/".toList

/-- The rest of a text that begins with another one. -/
def below? : List Char → List Char → Option (List Char)
  | [], cs => some cs
  | r :: rs, c :: cs => if r = c then below? rs cs else none
  | _ :: _, [] => none

/-- The index that a segment names: decimal digits, possibly after a plus sign. -/
def index? (segment : List Char) : Option Nat :=
  let digits := match segment with
    | '+' :: ds => ds
    | ds => ds
  if digits.isEmpty ∨ ¬digits.all Char.isDigit then none
  else some (digits.foldl (fun n c => 10 * n + (c.toNat - 48)) 0)

/-- The value that a segment names within another one: the value of a key, or an item. -/
def child? (j : Json) (segment : List Char) : Option Json :=
  match j with
  | .obj ms => OrderedMap.get? ms (String.ofList segment)
  | .arr items => do items[← index? segment]?
  | _ => none

/-- The value at the end of a walk. -/
def walk? (j : Json) (path : List (List Char)) : Option Json := path.foldlM child? j

/-- A value that counts as present: `null`, `false`, zero and the empty text do not. -/
def isPresent : Json → Bool
  | .null => false
  | .bool b => b
  | .num (.int i) => i ≠ 0
  | .num (.float d) => !d.isZero
  | .num .nonFinite => true
  | .str s => s ≠ ""
  | .arr _ | .obj _ => true

/-- Resolves references within a tree of components. -/
def ofTree (components : Json) : Resolver := fun r =>
  match below? root r.target.toList with
  | none => .error (.unsupportedReference r.target)
  | some path =>
    match walk? components (Text.segments path) with
    | none => .error (.unresolvedReference r.target none)
    | some j =>
      if isPresent j then
        match Schema.decode j with
        | .ok s => .ok s
        | .error e => .error (.unresolvedReference r.target (some e))
      else .error (.unresolvedReference r.target none)

/-- Resolves references within the components of a document. -/
def ofComponents (c : Components) : Resolver := ofTree c.encode.normalize

/-- Resolves the references of a table, and no others. -/
def ofTable (table : OrderedMap String Schema) : Resolver := fun r =>
  match table.get? r.target with
  | some s => .ok s
  | none => .error (.unresolvedReference r.target none)

end Resolver

end RpcOpenApi
