import RpcOpenApi.OrderedMap
import RpcOpenApi.Number.Basic

/-!
# JSON trees

A tree is what a text says, member by member: an object keeps repeated keys, each with its value,
in the order of the text. A free-form value of a document is a tree in normal form
(`Json.normalize`): no object repeats a key, and a number that JSON cannot spell is `null`.
-/

namespace RpcOpenApi

/-- A tree of values. An object is the list of its members as written. -/
inductive Json where
  | null
  | bool (value : Bool)
  | num (value : Number)
  | str (text : String)
  | arr (items : List Json)
  | obj (members : List (String × Json))
  deriving Repr, BEq, Inhabited

namespace Json

/-- An integer. -/
def ofInt (i : Int) : Json := .num (.int i)

mutual

/-- The normal form of a tree: of several members with one key, the first gives the place and the
last the value, at every level; a number without a JSON spelling becomes `null`. -/
def normalize : Json → Json
  | .null => .null
  | .bool b => .bool b
  | .num .nonFinite => .null
  | .num n => .num n
  | .str s => .str s
  | .arr items => .arr (normalizeItems items)
  | .obj members => .obj (OrderedMap.ofPairs (normalizeMembers members))

/-- The normal forms of the items of an array. -/
def normalizeItems : List Json → List Json
  | [] => []
  | j :: js => normalize j :: normalizeItems js

/-- The members of an object with the normal forms of their values. -/
def normalizeMembers : List (String × Json) → List (String × Json)
  | [] => []
  | (k, j) :: ms => (k, normalize j) :: normalizeMembers ms

end

mutual

/-- No object of the tree has two members with the same key. -/
def KeysDistinct : Json → Prop
  | .arr items => ItemsKeysDistinct items
  | .obj members => (members.map Prod.fst).Nodup ∧ MembersKeysDistinct members
  | _ => True

/-- No object within the items of an array repeats a key. -/
def ItemsKeysDistinct : List Json → Prop
  | [] => True
  | j :: js => KeysDistinct j ∧ ItemsKeysDistinct js

/-- No object within the values of some members repeats a key. -/
def MembersKeysDistinct : List (String × Json) → Prop
  | [] => True
  | (_, j) :: ms => KeysDistinct j ∧ MembersKeysDistinct ms

end

/-- The text of a string value. -/
def text? : Json → Option String
  | .str s => some s
  | _ => none

end Json

end RpcOpenApi
