import RpcOpenApi.Error

/-!
# Building a description in steps

A description can be put together part by part. Schemas, responses and paths replace earlier ones of
the same name; an operation whose id is already taken by one of its kind is refused
(`ServiceBuilder.add`). A refused step gives the description back as well, so that further steps
follow on it (`ServiceBuilder.run`).
-/

namespace RpcOpenApi

/-- A description that is being built. -/
structure ServiceBuilder where
  info : Info
  components : Components := {}
  paths : Option Paths := none
  operations : RpcOperations := {}

namespace RpcOperations

/-- The operations of a kind. -/
def ofKind (o : RpcOperations) : OperationKind → OrderedMap String OperationDef
  | .query => o.queries
  | .mutation => o.mutations

/-- Adds an operation of a kind at the end. -/
def insert (o : RpcOperations) (kind : OperationKind) (id : String) (d : OperationDef) :
    RpcOperations :=
  match kind with
  | .query => { o with queries := OrderedMap.insert o.queries id d }
  | .mutation => { o with mutations := OrderedMap.insert o.mutations id d }

end RpcOperations

namespace ServiceBuilder

/-- A description without any parts. -/
def new (info : Info) : ServiceBuilder := { info }

/-- Sets a schema of the components. -/
def withSchema (b : ServiceBuilder) (name : String) (s : SchemaOrRef) : ServiceBuilder :=
  { b with components.schemas := OrderedMap.insert b.components.schemas name s }

/-- Sets a response of the components. -/
def withResponse (b : ServiceBuilder) (name : String) (r : Response) : ServiceBuilder :=
  { b with components.responses := OrderedMap.insert b.components.responses name (.inline r) }

/-- Sets a path written by hand. -/
def withPath (b : ServiceBuilder) (path : String) (item : PathItem) : ServiceBuilder :=
  { b with paths := some (OrderedMap.insert (b.paths.getD []) path item) }

/-- Adds an operation, unless one of its kind has the id. -/
def add (b : ServiceBuilder) (kind : OperationKind) (id : String) (d : OperationDef) :
    Except ServiceError Unit × ServiceBuilder :=
  if OrderedMap.contains (b.operations.ofKind kind) id then
    (.error (.duplicateOperation kind id), b)
  else (.ok (), { b with operations := b.operations.insert kind id d })

/-- Adds a query. -/
def addQuery (b : ServiceBuilder) (id : String) (d : OperationDef) :
    Except ServiceError Unit × ServiceBuilder := b.add .query id d

/-- Adds a mutation. -/
def addMutation (b : ServiceBuilder) (id : String) (d : OperationDef) :
    Except ServiceError Unit × ServiceBuilder := b.add .mutation id d

/-- The description, marked with the version of the format that the compiler accepts. -/
def build (b : ServiceBuilder) : RpcDocument :=
  { yarpc := some (.str RpcDocument.supportedVersion)
    info := b.info
    components := b.components
    operations := b.operations
    paths := b.paths }

end ServiceBuilder

/-! ## Steps -/

/-- A step of putting a description together. -/
inductive BuildStep where
  | schema (name : String) (s : SchemaOrRef)
  | response (name : String) (r : Response)
  | path (path : String) (item : PathItem)
  | operation (kind : OperationKind) (id : String) (d : OperationDef)

namespace ServiceBuilder

/-- Tries a step. -/
def attempt (b : ServiceBuilder) : BuildStep → Except ServiceError Unit × ServiceBuilder
  | .schema name s => (.ok (), b.withSchema name s)
  | .response name r => (.ok (), b.withResponse name r)
  | .path p item => (.ok (), b.withPath p item)
  | .operation .query id d => b.addQuery id d
  | .operation .mutation id d => b.addMutation id d

/-- Why a step is refused, if it is. -/
def refusal? (b : ServiceBuilder) (s : BuildStep) : Option ServiceError :=
  match (b.attempt s).1 with
  | .ok _ => none
  | .error e => some e

/-- The description after a step. -/
def after (b : ServiceBuilder) (s : BuildStep) : ServiceBuilder := (b.attempt s).2

/-- The description after some steps. -/
def run (b : ServiceBuilder) (steps : List BuildStep) : ServiceBuilder := steps.foldl after b

/-- What becomes of each of some steps. -/
def refusals (b : ServiceBuilder) : List BuildStep → List (Option ServiceError)
  | [] => []
  | s :: steps => b.refusal? s :: (b.after s).refusals steps

@[simp] theorem run_nil (b : ServiceBuilder) : b.run [] = b := rfl
@[simp] theorem run_cons (b : ServiceBuilder) (s : BuildStep) (steps : List BuildStep) :
    b.run (s :: steps) = (b.after s).run steps := rfl

end ServiceBuilder

end RpcOpenApi
