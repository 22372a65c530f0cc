import RpcOpenApi.Compile.Operation

/-!
# Compiling a description

Every declared operation is compiled and put at its path and method, queries first; an operation
replaces an earlier one at the same place (`derivePaths`). The derived paths are then merged into
those that are written by hand, where again the derived operation wins (`mergePaths`). Replacing an
operation is always reported.
-/

namespace RpcOpenApi

namespace Paths

/-- The operations of a path; none if there is no such path. -/
def operationsAt (ps : Paths) (path : String) : Operations :=
  match ps.get? path with
  | some item => item.operations
  | none => []

/-- The operation at a path and a method. -/
def operation? (ps : Paths) (path : String) (method : HttpMethod) : Option Operation :=
  (ps.operationsAt path).get? method

/-- Puts an operation at a path and a method. -/
def put (ps : Paths) (path : String) (method : HttpMethod) (o : Operation) : Paths :=
  let item := (ps.get? path).getD {}
  ps.insert path { item with operations := item.operations.insert method o }

end Paths

/-- Compiles one operation. -/
abbrev OperationCompiler := OperationKind → String → OperationDef → Logged Operation

/-- The notice that is due when an operation is put where there may be one. -/
def collisionNotice (ps : Paths) (path : String) (method : HttpMethod) : List Notice :=
  if (ps.operation? path method).isSome then [.overwritten path [method]] else []

/-- Compiles declared operations one after the other and adds them to the paths. -/
def deriveInto (compile : OperationCompiler) :
    Paths → List (OperationKind × String × OperationDef) → Logged Paths
  | ps, [] => pure ps
  | ps, (kind, id, d) :: rest => do
    Logged.note [.declared kind id]
    let path := d.effectivePath kind id
    let method := d.effectiveMethod kind
    let operation ← compile kind id d
    Logged.note (collisionNotice ps path method)
    deriveInto compile (ps.put path method operation) rest

/-- The paths of all declared operations. -/
def derivePaths (compile : OperationCompiler) (operations : RpcOperations) : Logged Paths :=
  deriveInto compile [] operations.declared

/-- The methods of one map of operations that another one has as well. -/
def sharedMethods (base derived : Operations) : List HttpMethod :=
  derived.keys.filter base.contains

/-- Adds one derived path: its operations replace those of a present path, or it is new. -/
def mergePath (base : Paths) (path : String) (item : PathItem) : Paths :=
  match base.get? path with
  | none => base.insert path item
  | some present =>
    base.insert path
      { present with operations := present.operations.insertAll item.operations }

/-- The notice that is due when a derived path is added. -/
def mergeNotice (base : Paths) (path : String) (item : PathItem) : List Notice :=
  let shared := sharedMethods (base.operationsAt path) item.operations
  if shared.isEmpty then [] else [.overwritten path shared]

/-- Adds derived paths one after the other. -/
def mergeInto : Paths → Paths → Logged Paths
  | base, [] => pure base
  | base, (path, item) :: rest => do
    Logged.note (mergeNotice base path item)
    mergeInto (mergePath base path item) rest

/-- Merges derived paths into those written by hand. -/
def mergePaths (base derived : Paths) : Logged Paths := do
  Logged.note [.merging base.keys derived.keys]
  mergeInto base derived

/-- The member of a description that its compiled form has of its own. -/
def openapiKey : String := "openapi"

/-- The other members of a description that are carried along. -/
def passthroughFields (extra : OrderedMap String Json) : Logged (OrderedMap String Json) := do
  Logged.note (match extra.get? openapiKey with
    | some version => [.ignoredVersion version]
    | none => [])
  return extra.erase openapiKey

/-- The version of a description is the supported one. -/
def checkVersion : Option String → Except ServiceError Unit
  | none => .error .missingVersion
  | some v => if v = RpcDocument.supportedVersion then .ok () else .error (.unsupportedVersion v)

/-- Compiles a description, given a compiler for its operations. -/
def compileWith (compile : OperationCompiler) (d : RpcDocument) : Logged OpenApiDocument := do
  Logged.ofExcept (checkVersion d.version)
  let derived ← derivePaths compile d.operations
  let paths ← mergePaths (d.paths.getD []) derived
  let extra ← passthroughFields d.extra
  return {
    openapi := OpenApiDocument.generatedVersion
    info := d.info
    paths := paths
    components := d.components
    extra := extra }

/-- Compiles a description, resolving references with a given resolver. -/
def compileResolving (resolver : Resolver) (d : RpcDocument) : Logged OpenApiDocument :=
  compileWith (compileOperation resolver) d

/-- Compiles a description, resolving references within its components. -/
def compile (d : RpcDocument) : Logged OpenApiDocument :=
  compileResolving (Resolver.ofComponents d.components) d

end RpcOpenApi
