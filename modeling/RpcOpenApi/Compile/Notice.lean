import RpcOpenApi.Error

/-!
# What the compiler reports

The compiler reports what it does and warns of operations that replace others. A report changes
nothing in the result: a computation that reports is a list of notices beside its result
(`Logged`).
-/

namespace RpcOpenApi

/-- How important a notice is. -/
inductive Level where
  | debug
  | warn
  deriving DecidableEq

/-- A report of the compiler. -/
inductive Notice where
  /-- The definition of an operation is taken up. -/
  | declared (kind : OperationKind) (id : String)
  /-- An operation is compiled. -/
  | operation (kind : OperationKind) (id : String) (definition : OperationDef)
  /-- The input of an operation is compiled. -/
  | input (input : InputDef) (default : InputLocation)
  /-- Fields of a definition were left out because the compiler sets them itself. -/
  | shadowed (id : String)
  /-- The derived paths are merged into those written by hand. -/
  | merging (base derived : List String)
  /-- Operations of a path were replaced. -/
  | overwritten (path : String) (methods : List HttpMethod)
  /-- The description had an OpenAPI version, which was left out. -/
  | ignoredVersion (version : Json)

namespace Notice

/-- Only what replaces operations is a warning. -/
def level : Notice → Level
  | overwritten _ _ => .warn
  | _ => .debug

/-- The notice is a warning. -/
def isWarning (n : Notice) : Bool := n.level = .warn

/-- The wording of a notice. -/
def message : Notice → String
  | declared .query _ => "Transforming query"
  | declared .mutation _ => "Transforming mutation"
  | operation _ id _ => "Transforming operation \"" ++ id ++ "\""
  | input _ _ => "Transforming input"
  | shadowed _ => "Ignoring passthrough fields that shadow generated ones"
  | merging _ _ => "Merging paths"
  | overwritten _ _ => "Duplicate operation(s) will be overwritten"
  | ignoredVersion _ => "Ignoring openapi version from source document"

/-- The object with the default location of the input. -/
def locationObject (l : InputLocation) : Json := .obj [("in", l.encode)]

/-- What a notice is about. -/
def context : Notice → Json
  | declared kind id => .obj [("operationId", .str id), ("kind", .str kind.text)]
  | operation kind id definition =>
    .obj [("operationId", .str id), ("kind", .str kind.text),
      ("operation", definition.encode.normalize),
      ("parameterDefaults", locationObject kind.defaultLocation)]
  | input i default =>
    .obj [("input", i.encode.normalize), ("defaults", locationObject default)]
  | shadowed id => .obj [("operationId", .str id)]
  | merging base derived =>
    .obj [("base", .arr (base.map .str)), ("derived", .arr (derived.map .str))]
  | overwritten path methods =>
    .obj [("path", .str path), ("duplicate", .arr (methods.map (fun m => .str m.text)))]
  | ignoredVersion version => .obj [("openapi", version)]

end Notice

/-- A result, or why there is none, with the notices that were given on the way. -/
structure Logged (α : Type) where
  log : List Notice
  result : Except ServiceError α

namespace Logged

variable {α β : Type}

/-- Goes on with the result, if there is one. -/
def bind (x : Logged α) (f : α → Logged β) : Logged β :=
  match x.result with
  | .ok a => ⟨x.log ++ (f a).log, (f a).result⟩
  | .error e => ⟨x.log, .error e⟩

instance : Monad Logged where
  pure a := ⟨[], .ok a⟩
  bind := bind

/-- Gives notices. -/
def note (ns : List Notice) : Logged Unit := ⟨ns, .ok ()⟩

/-- A result without notices. -/
def ofExcept (r : Except ServiceError α) : Logged α := ⟨[], r⟩

/-- The same result without notices. -/
def silent (x : Logged α) : Logged α := ⟨[], x.result⟩

end Logged

end RpcOpenApi
