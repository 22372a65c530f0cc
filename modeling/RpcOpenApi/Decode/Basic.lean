import RpcOpenApi.Decode.Reading

/-!
# Reading the basic parts of a document

Each function reads one kind of value from a tree, or says why it cannot. A map keeps the position
of the first and the value of the last of several members with one key.
-/

namespace RpcOpenApi

namespace Decode

variable {α : Type}

/-- A string. -/
def text : Json → Except DecodeError String
  | .str s => .ok s
  | j => .error (.wrongType j .text)

/-- A boolean. -/
def boolean : Json → Except DecodeError Bool
  | .bool b => .ok b
  | j => .error (.wrongType j .boolean)

/-- An integer of sixteen bits. -/
def word16 : Json → Except DecodeError Nat
  | .num (.int i) => if 0 ≤ i ∧ i < 65536 then .ok i.toNat else .error (.outOfRange i .word16)
  | j => .error (.wrongType j .word16)

/-- A value that is kept as it is. -/
def free (j : Json) : Except DecodeError Json := .ok j.normalize

/-- `null`. -/
def unit : Json → Except DecodeError Unit
  | .null => .ok ()
  | j => .error (.wrongType j .unit)

/-- The items of an array, in order. -/
def items (decode : Json → Except DecodeError α) : List Json → Except DecodeError (List α)
  | [] => .ok []
  | j :: js => do
    let a ← decode j
    let as ← items decode js
    return a :: as

/-- An array. -/
def list (decode : Json → Except DecodeError α) : Json → Except DecodeError (List α)
  | .arr js => items decode js
  | j => .error (.wrongType j .sequence)

/-- The values of some members, in order. -/
def members (decode : Json → Except DecodeError α) :
    Members → Except DecodeError (List (String × α))
  | [] => .ok []
  | (k, j) :: ms => do
    let a ← decode j
    let as ← members decode ms
    return (k, a) :: as

/-- A map from texts. -/
def map (decode : Json → Except DecodeError α) : Json → Except DecodeError (OrderedMap String α)
  | .obj ms => return OrderedMap.ofPairs (← members decode ms)
  | j => .error (.wrongType j .map)

/-- One of some named variants. -/
def variantNamed (variants : List (String × α)) (name : String) : Except DecodeError α :=
  match variants.lookup name with
  | some a => .ok a
  | none => .error (.unknownVariant name (variants.map Prod.fst))

/-- A variant: its name, or an object with its name as the only key and nothing as the value. -/
def variant (variants : List (String × α)) : Json → Except DecodeError α
  | .str name => variantNamed variants name
  | .obj ((name, j) :: rest) => do
    let a ← variantNamed variants name
    unit j
    if rest.isEmpty then return a else .error .notAVariant
  | _ => .error .notAVariant

/-- A record: an object whose members are read as its parts. -/
def record (name : String) (read : Members → Reading α) : Json → Except DecodeError α
  | .obj ms => (read ms).toExcept
  | j => .error (.wrongType j (.record name))

end Decode

namespace Encode

/-- The member of an optional field: none if there is no value. -/
def optional {α : Type} (name : String) (encode : α → Json) : Option α → Members
  | none => []
  | some a => [(name, encode a)]

/-- A map from texts. -/
def map {α : Type} (encode : α → Json) (m : OrderedMap String α) : Json :=
  .obj (m.map (fun e => (e.1, encode e.2)))

/-- An array. -/
def list {α : Type} (encode : α → Json) (as : List α) : Json := .arr (as.map encode)

/-- A map of free-form values. -/
def free (m : OrderedMap String Json) : Json := .obj m

end Encode

end RpcOpenApi
