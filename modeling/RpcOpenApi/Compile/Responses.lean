import RpcOpenApi.Error

/-!
# Responses of an operation

The responses of an operation are the one for success, which its output describes, and its declared
errors. A declared error with the code of success replaces that response as a whole.
-/

namespace RpcOpenApi

namespace Responses

/-- The code of success if the output gives none. -/
def defaultCode : Nat := 200

/-- The description of success if the output gives none. -/
def defaultDescription : String := "OK"

/-- The code of success. -/
def successCode (output : OutputDef) : Nat := output.statusCode.getD defaultCode

/-- The response for success. It has a JSON body iff the output says anything about one. -/
def success (output : OutputDef) : Response :=
  { description := output.description.getD defaultDescription
    content := if output.media.isEmpty then none
      else some [(MediaType.jsonName, output.media)] }

/-- The responses of an operation. -/
def build (output : Option OutputDef) (errors : Option Responses) :
    Except ServiceError Responses :=
  let output := output.getD {}
  let code := successCode output
  if 100 ≤ code ∧ code ≤ 599 then
    .ok (OrderedMap.insertAll [(StatusCode.ofNat code, RefOr.inline (success output))]
      (errors.getD []))
  else .error (.invalidStatusCode code)

end Responses

end RpcOpenApi
