import RpcOpenApi.Json.Printer
import RpcOpenApi.Text.Quoted

/-!
# Why a tree is not a document

A part of a document is read from a JSON tree. The reasons for which that fails are the values of
`DecodeError`; `DecodeError.message` is their wording.
-/

namespace RpcOpenApi

/-- What a part of a document has to be. -/
inductive Wanted where
  | text
  | boolean
  | map
  | sequence
  /-- An integer of sixteen bits. -/
  | word16
  | statusCode
  | record (name : String)
  /-- Nothing at all, which `null` stands for. -/
  | unit
  deriving Repr

/-- Why a tree could not be read as a part of a document. -/
inductive DecodeError where
  | missingField (name : String)
  | duplicateField (name : String)
  | wrongType (found : Json) (wanted : Wanted)
  | outOfRange (found : Int) (wanted : Wanted)
  | unknownVariant (name : String) (known : List String)
  /-- A value that cannot name a variant. -/
  | notAVariant
  /-- None of the alternatives of a type fits. -/
  | noAlternative (type : String)
  /-- An array ends before all required fields of a record have been given. -/
  | tooFewItems (given : Nat) (type : String) (fields : Nat)
  /-- An array goes on after the last field of a record. -/
  | surplusItems
  /-- The same for an array that is a part of a larger value which had been read before. -/
  | surplusItemsOf (given taken : Nat)
  deriving Repr

namespace Wanted

/-- The wording of what is wanted. -/
def message : Wanted → String
  | .text => "a string"
  | .boolean => "a boolean"
  | .map => "a map"
  | .sequence => "a sequence"
  | .word16 => "u16"
  | .statusCode => "an HTTP status code"
  | .record name => "struct " ++ name
  | .unit => "unit"

end Wanted

namespace DecodeError

/-- The wording of what was found. -/
def describe : Json → String
  | .null => "null"
  | .bool b => "boolean `" ++ (if b then "true" else "false") ++ "`"
  | .num (.int i) => "integer `" ++ String.ofList (intText i) ++ "`"
  | .num n => "floating point `" ++ String.ofList (Json.numberText n) ++ "`"
  | .str s => "string " ++ Text.quoted s
  | .arr _ => "sequence"
  | .obj _ => "map"

/-- Names in backticks, with commas between them. -/
def nameList (names : List String) : String :=
  ", ".intercalate (names.map (fun n => "`" ++ n ++ "`"))

/-- The wording of an error. -/
def message : DecodeError → String
  | .missingField name => "missing field `" ++ name ++ "`"
  | .duplicateField name => "duplicate field `" ++ name ++ "`"
  | .wrongType found wanted => "invalid type: " ++ describe found ++ ", expected " ++ wanted.message
  | .outOfRange found wanted =>
    "invalid value: integer `" ++ String.ofList (intText found) ++ "`, expected " ++ wanted.message
  | .unknownVariant name known =>
    "unknown variant `" ++ name ++ "`, expected one of " ++ nameList known
  | .notAVariant => "expected value"
  | .noAlternative type => "data did not match any variant of untagged enum " ++ type
  | .tooFewItems given type fields =>
    "invalid length " ++ toString given ++ ", expected struct " ++ type ++ " with "
      ++ toString fields ++ " elements"
  | .surplusItems => "trailing characters"
  | .surplusItemsOf given taken =>
    "invalid length " ++ toString given ++ ", expected " ++ toString taken
      ++ " elements in sequence"

end DecodeError

end RpcOpenApi
