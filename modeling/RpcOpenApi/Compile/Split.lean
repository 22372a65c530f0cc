import RpcOpenApi.Error

/-!
# Splitting an input

The fields of an input go to parameters or into the body of the request, each where its override
places it, else to the default location (`splitInput`). If all fields go into the body and nothing
is said about any of them, the body is the input as it is written; else the schema of the body is
built from its fields.
-/

namespace RpcOpenApi

/-- The parameters and the body of a request. `none` says that the operation has no such part. -/
structure SplitInput where
  parameters : Option (List Parameter) := none
  requestBody : Option RequestBody := none

namespace SplitInput

/-- The extensions of an override that are not carried over: the input gives these itself. -/
def reservedKeys : List String := ["name", "schema"]

/-- Where a field goes. -/
def location (default : InputLocation) (overrides : Overrides) (name : String) : InputLocation :=
  match overrides.get? name with
  | some o => o.location.getD default
  | none => default

/-- The parameter of a field. What the override says about it is carried over; it is required if
the override or else the input says so. -/
def parameter (name : String) (l : ParameterLocation) (schema : SchemaOrRef) (required : Bool)
    (o : ParameterOverride) : Parameter :=
  { name
    location := l
    description := o.description
    required := o.required <|> (if required then some true else none)
    deprecated := o.deprecated
    allowEmptyValue := o.allowEmptyValue
    style := o.style
    explode := o.explode
    allowReserved := o.allowReserved
    schema := some schema
    example? := o.example?
    examples := o.examples
    content := o.content
    extensions := o.extensions.filter (fun e => e.1 ∉ reservedKeys) }

/-- The parameters of the fields that are not placed in the body, in order. -/
def parameterFields (schema : Schema) (default : InputLocation) (overrides : Overrides)
    (fields : OrderedMap String SchemaOrRef) : List Parameter :=
  fields.filterMap (fun f =>
    (location default overrides f.1).parameterLocation?.map (fun l =>
      parameter f.1 l f.2 (schema.isRequired f.1) ((overrides.get? f.1).getD {})))

/-- The fields that are placed in the body, in order. -/
def bodyFields (default : InputLocation) (overrides : Overrides)
    (fields : OrderedMap String SchemaOrRef) : OrderedMap String SchemaOrRef :=
  fields.filter (fun f => location default overrides f.1 = .body)

/-- The schema of a body with the given fields. -/
def bodySchema (schema : Schema) (fields : OrderedMap String SchemaOrRef) : Schema :=
  { type := some (.single "object")
    properties := some (OrderedMap.ofPairs fields)
    required := some ((fields.map Prod.fst).filter schema.isRequired) }

end SplitInput

/-- Splits an input. `written` is its schema as it is written, `schema` what that stands for. -/
def splitInput (written : SchemaOrRef) (schema : Schema) (default : InputLocation)
    (overrides : Overrides) : Except ServiceError SplitInput :=
  if !schema.isObject then .error .notObjectSchema else
  match schema.properties with
  | none => .error .missingProperties
  | some fields =>
    if overrides.isEmpty ∧ default = .body then
      .ok { requestBody := some (RequestBody.json written) }
    else
      let parameters := SplitInput.parameterFields schema default overrides fields
      let body := SplitInput.bodyFields default overrides fields
      .ok
        { parameters := if parameters.isEmpty then none else some parameters
          requestBody := if body.isEmpty then none
            else some (RequestBody.json (.inline (SplitInput.bodySchema schema body))) }

end RpcOpenApi
