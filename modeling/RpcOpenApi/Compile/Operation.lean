import RpcOpenApi.Compile.Notice
import RpcOpenApi.Compile.Resolver
import RpcOpenApi.Compile.Split
import RpcOpenApi.Compile.Responses

/-!
# Compiling one operation

A definition becomes an operation: its input is split into parameters and a body, its output and
errors become the responses, and its other fields are carried along (`compileOperation`).
-/

namespace RpcOpenApi

namespace ServiceError

/-- The same result, an error being one in a phase of an operation. -/
def inPhase {α : Type} (id : String) (phase : Phase) : Except ServiceError α →
    Except ServiceError α
  | .ok a => .ok a
  | .error e => .error (.inOperation id phase e)

end ServiceError

namespace OperationExtras

/-- The keys of an operation that are always computed. -/
def computedKeys : List String := ["operationId", "parameters", "requestBody", "responses"]

/-- The fields without extensions that would shadow a computed key. -/
def withoutComputed (e : OperationExtras) : OperationExtras :=
  { e with extensions := e.extensions.filter (fun m => m.1 ∉ computedKeys) }

/-- Some extension would shadow a computed key. -/
def shadowsComputed (e : OperationExtras) : Bool := e.extensions.any (fun m => m.1 ∈ computedKeys)

end OperationExtras

namespace InputDef

/-- The schema of an input: what its reference resolves to, or the schema itself. -/
def resolve (resolver : Resolver) : SchemaOrRef → Except ServiceError Schema
  | .reference r => resolver r
  | .boolean _ => .error .notObjectSchema
  | .inline s => .ok s

/-- Splits an input after resolving its schema. -/
def split (resolver : Resolver) (default : InputLocation) (i : InputDef) :
    Except ServiceError SplitInput := do
  let schema ← resolve resolver i.schema
  splitInput i.schema schema default i.parameters

end InputDef

namespace OperationDef

/-- The path of an operation. -/
def effectivePath (kind : OperationKind) (id : String) (d : OperationDef) : String :=
  d.path.getD (kind.defaultPath id)

/-- The method of an operation. -/
def effectiveMethod (kind : OperationKind) (d : OperationDef) : HttpMethod :=
  d.method.getD kind.defaultMethod

/-- The parameters and the body of an operation. -/
def compileInput (resolver : Resolver) (kind : OperationKind) (id : String) (d : OperationDef) :
    Logged SplitInput :=
  match d.input with
  | none => pure {}
  | some i => do
    Logged.note [.input i kind.defaultLocation]
    Logged.ofExcept (ServiceError.inPhase id .input (i.split resolver kind.defaultLocation))

/-- The operation of a definition whose input and responses are compiled. -/
def assemble (id : String) (d : OperationDef) (split : SplitInput) (responses : Responses) :
    Operation :=
  { operationId := some id
    description := d.description.filter (fun s => s ≠ "")
    parameters := split.parameters.map (fun ps => ps.map .inline)
    requestBody := split.requestBody.map .inline
    responses
    extras := d.extras.withoutComputed }

end OperationDef

/-- Compiles the definition of an operation. -/
def compileOperation (resolver : Resolver) (kind : OperationKind) (id : String)
    (d : OperationDef) : Logged Operation := do
  Logged.note [.operation kind id d]
  let split ← d.compileInput resolver kind id
  let responses ←
    Logged.ofExcept (ServiceError.inPhase id .responses (Responses.build d.output d.errors))
  Logged.note (if d.extras.shadowsComputed then [.shadowed id] else [])
  return d.assemble id split responses

end RpcOpenApi
