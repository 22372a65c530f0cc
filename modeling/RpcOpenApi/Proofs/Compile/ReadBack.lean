import RpcOpenApi.Proofs.Codec.Service
import RpcOpenApi.Proofs.Compile.Placement

/-!
# What is compiled is read back

Every part of a compiled document is a part of the description, moved into a record with other
fields, or it is built from such parts. `decode_encode_compile` says that the result is read back
all the same. Two things could go wrong. The extensions of a definition or an override could meet a
field of their new record: the fields that the old record does not have are left out on the way
(`Outside.filter_notMem`). And an inline definition could be read back as a reference: of the
parameters, bodies and responses that the compiler builds, only a parameter can have a `$ref`, and
only if an override has one (`SplitInput.not_refers_parameter`).
-/

namespace RpcOpenApi

section
variable {names names' removed : List String} {m : OrderedMap String Json}

/-- Members that stand outside of some fields stand outside of some of them. -/
theorem Outside.mono (h : Outside names m) (hsub : names' ⊆ names) : Outside names' m :=
  ⟨h.normal, fun k hk hmem => h.notMem k hk (hsub hmem)⟩

/-- Leaving out the members with some names makes room for fields with these names. -/
theorem Outside.filter_notMem (h : Outside names m) :
    Outside (names ++ removed) (m.filter (fun e => e.1 ∉ removed)) := by
  refine ⟨h.normal.filter _, fun k hk hmem => ?_⟩
  obtain ⟨e, he, rfl⟩ := List.mem_map.1 hk
  rcases List.mem_append.1 hmem with hmem | hmem
  · exact (h.filter _).notMem _ hk hmem
  · have hkept := List.of_mem_filter he
    exact absurd hmem (by simpa using hkept)

end

/-! ## Schemas -/

namespace Resolver

/-- The resolver finds schemas that are read back. -/
def Stable (resolver : Resolver) : Prop := ∀ r s, resolver r = .ok s → s.Stable

/-- A schema that is found within a tree in normal form is read back. -/
theorem stable_ofTree {components : Json} (hn : components.Normal) :
    Stable (ofTree components) := by
  intro r s h
  obtain ⟨path, j, hwalk, hs⟩ := exists_of_ofTree h
  exact Schema.stable j (of_walk? (fun _ _ => Json.Normal.part) hn hwalk) s hs

/-- What is resolved within components is stable, since it is read from a tree in normal form. -/
theorem stable_ofComponents (c : Components) : Stable (ofComponents c) :=
  stable_ofTree (Json.normal_normalize _)

end Resolver

/-- The schema of an input is stable, whether it is written there or resolved. -/
theorem InputDef.stable_resolve {resolver : Resolver} (hresolver : resolver.Stable)
    {written : SchemaOrRef} {s : Schema} (hw : written.Stable)
    (h : InputDef.resolve resolver written = .ok s) : s.Stable := by
  cases written with
  | reference r => exact hresolver r s h
  | boolean b => cases h
  | inline s' =>
    cases h
    exact hw.1

/-! ## Inputs -/

/-- An override that says nothing is stable. -/
theorem ParameterOverride.stable_empty : Stable {} := ⟨nofun, nofun, nofun, outside_nil _⟩

namespace SplitInput

/-- The parameters and the body are read back as inline definitions. -/
structure Stable (split : SplitInput) : Prop where
  parameters : ∀ ps ∈ split.parameters, ∀ p ∈ ps,
    ReadsBack (RefOr.decode Parameter.decode) (RefOr.encode Parameter.encode) (.inline p)
  requestBody : ∀ b ∈ split.requestBody,
    ReadsBack (RefOr.decode RequestBody.decode) (RefOr.encode RequestBody.encode) (.inline b)

variable {name : String} {l : ParameterLocation} {s : SchemaOrRef} {required : Bool}
  {o : ParameterOverride}

/-- The parameter of a field is read back if the schema of the field and the override are. -/
theorem stable_parameter (hs : ReadsBack SchemaOrRef.decode SchemaOrRef.encode s)
    (ho : o.Stable) : (parameter name l s required o).Stable where
  schema := optionReadsBack_some hs s.encode_ne_null
  example? := ho.example?
  examples := ho.examples
  content := ho.content
  extensions := ho.extensions.filter_notMem.mono (by decide)

/-- The parameter of a field is no reference unless the override has a `$ref`. -/
theorem not_refers_parameter (ho : "$ref" ∉ OrderedMap.keys o.extensions) :
    ¬Reference.Refers (parameter name l s required o).encode := by
  have hext : Members.values ["$ref"] (parameter name l s required o).extensions = [] :=
    Members.values_eq_nil fun e he hk =>
      ho (List.mem_singleton.1 hk ▸ List.mem_map_of_mem (List.mem_of_mem_filter he))
  exact Reference.not_refers_of_values (by simp [hext])

/-- The body with a schema is read back if the schema is. -/
theorem readsBack_json (hs : ReadsBack SchemaOrRef.decode SchemaOrRef.encode s) :
    ReadsBack (RefOr.decode RequestBody.decode) (RefOr.encode RequestBody.encode)
      (.inline (RequestBody.json s)) := by
  have hstable : (RequestBody.json s).Stable :=
    { content := readsBack_map (.singleton (MediaType.readsBack (MediaType.stable_ofSchema hs)))
      extensions := outside_nil _ }
  refine RefOr.readsBack_inline (RequestBody.readsBack hstable) ?_
  exact Reference.not_refers_of_values (by simp [RequestBody.json])

/-- The schema of a body that is built from fields is read back if the schemas of the fields are. -/
theorem stable_bodySchema (schema : Schema) {fields : OrderedMap String SchemaOrRef}
    (h : MapOf (ReadsBack SchemaOrRef.decode SchemaOrRef.encode) fields) :
    (SchemaOrRef.inline (bodySchema schema fields)).Stable := by
  have hstable : (bodySchema schema fields).Stable :=
    { properties := by
        intro ps hps
        cases hps
        rwa [h.distinct.ofPairs_eq]
      keywords := outside_nil _ }
  refine ⟨hstable, ?_⟩
  rw [Schema.encode_eq]
  exact Reference.not_refers_of_values (by simp [Schema.members, bodySchema])

end SplitInput

/-- No override of the input has a `$ref`. -/
def InputDef.OverridesPlain (i : InputDef) : Prop :=
  ∀ e ∈ i.parameters, "$ref" ∉ OrderedMap.keys e.2.extensions

namespace InputDef

variable {i : InputDef}

/-- What is said about a field is read back and has no `$ref`; if nothing is said, neither. -/
theorem override_getD (hi : i.Stable) (hplain : i.OverridesPlain) (name : String) :
    ((i.parameters.get? name).getD {}).Stable ∧
      "$ref" ∉ OrderedMap.keys ((i.parameters.get? name).getD {}).extensions := by
  cases h : i.parameters.get? name with
  | none => exact ⟨ParameterOverride.stable_empty, List.not_mem_nil⟩
  | some o =>
    have hmem := OrderedMap.mem_of_get? h
    exact ⟨hi.parameters.values _ hmem, hplain _ hmem⟩

variable {schema : Schema} {default : InputLocation} {fields : OrderedMap String SchemaOrRef}

/-- The parameters of an input are read back if the schemas of its fields are. -/
theorem readsBack_of_mem_parameterFields (hi : i.Stable) (hplain : i.OverridesPlain)
    (hfields : MapOf (ReadsBack SchemaOrRef.decode SchemaOrRef.encode) fields) {p : Parameter}
    (hp : p ∈ SplitInput.parameterFields schema default i.parameters fields) :
    ReadsBack (RefOr.decode Parameter.decode) (RefOr.encode Parameter.encode) (.inline p) := by
  obtain ⟨f, hf, l, rfl⟩ := SplitInput.exists_of_mem_parameterFields hp
  obtain ⟨ho, href⟩ := override_getD hi hplain f.1
  exact RefOr.readsBack_inline
    (Parameter.readsBack (SplitInput.stable_parameter (hfields.values f hf) ho))
    (SplitInput.not_refers_parameter href)

/-- What an input is split into is read back. -/
theorem stable_splitInput {split : SplitInput} (hi : i.Stable) (hplain : i.OverridesPlain)
    (hschema : schema.Stable)
    (h : splitInput i.schema schema default i.parameters = .ok split) : split.Stable := by
  obtain ⟨fields, hfields, hparameters, hbody⟩ := splitInput_ok h
  have hf := hschema.properties fields hfields
  refine ⟨fun ps hps p hp => ?_, fun b hb => ?_⟩
  · obtain rfl := hparameters ps hps
    exact readsBack_of_mem_parameterFields hi hplain hf hp
  · rcases hbody b hb with rfl | rfl
    · exact SplitInput.readsBack_json (SchemaOrRef.readsBack hi.schema)
    · exact SplitInput.readsBack_json
        (SchemaOrRef.readsBack (SplitInput.stable_bodySchema schema (hf.filter _)))

end InputDef

/-! ## Responses -/

namespace Responses

/-- The response of success is stable if the output is. -/
theorem stable_success {output : OutputDef} (h : output.Stable) : (success output).Stable where
  headers := nofun
  content := by
    intro content hcontent
    rw [success] at hcontent
    split at hcontent
    · cases hcontent
    · cases hcontent
      exact ⟨readsBack_map (.singleton (MediaType.readsBack h.media)), nofun⟩
  links := nofun
  extensions := outside_nil _

/-- The responses of an operation are read back if its output and its errors are. -/
theorem stable_build {output : Option OutputDef} {errors : Option Responses} {rs : Responses}
    (houtput : ∀ o ∈ output, o.Stable) (herrors : ∀ es ∈ errors, es.Stable)
    (h : build output errors = .ok rs) : rs.Stable := by
  have ho : (output.getD {}).Stable := by
    cases output with
    | none => exact ⟨nofun, ⟨nofun, nofun, nofun, nofun, outside_nil _⟩, outside_nil _⟩
    | some o => exact houtput o rfl
  have he : (errors.getD []).Stable := by
    cases errors with
    | none => exact .nil
    | some es => exact herrors es rfl
  obtain ⟨code, rfl⟩ := build_ok h
  refine MapOf.insertAll (.singleton (RefOr.readsBack_inline (Response.readsBack
    (stable_success ho)) ?_)) he
  exact Reference.not_refers_of_values (by simp [success])

end Responses

/-! ## Operations -/

/-- Leaving out what would shadow a computed key leaves extensions that stand outside of the fields
of an operation. -/
theorem OperationExtras.outside_withoutComputed {e : OperationExtras}
    (h : Outside OperationDef.fieldNames e.extensions) :
    Outside Operation.fieldNames e.withoutComputed.extensions :=
  h.filter_notMem.mono (by decide)

/-- Without the fields that the compiler sets, what is carried along stays stable. -/
theorem OperationExtras.Stable.withoutComputed {e : OperationExtras} (h : e.Stable) :
    e.withoutComputed.Stable :=
  { h with extensions := h.extensions.filter _ }

namespace OperationDef

variable {id : String} {d : OperationDef} {split : SplitInput} {responses : Responses}

/-- An operation that is put together of stable parts is stable. -/
theorem stable_assemble (hd : d.Stable) (hsplit : split.Stable) (hresponses : responses.Stable) :
    (d.assemble id split responses).Stable where
  parameters := by
    intro ps hps
    obtain ⟨ps', hps', rfl⟩ := Option.map_eq_some_iff.1 hps
    exact ⟨readsBack_list (List.forall_mem_map.2 (hsplit.parameters ps' hps')), nofun⟩
  requestBody := by
    intro b hb
    obtain ⟨b', hb', rfl⟩ := Option.map_eq_some_iff.1 hb
    exact ⟨hsplit.requestBody b' hb', nofun⟩
  responses := hresponses
  extras := hd.extras.withoutComputed
  outside := OperationExtras.outside_withoutComputed hd.outside

/-- The input of a stable definition is split into stable parts, if its overrides are plain. -/
theorem stable_compileInput {resolver : Resolver} {kind : OperationKind} (hd : d.Stable)
    (hplain : ∀ i ∈ d.input, i.OverridesPlain) (hresolver : resolver.Stable)
    (h : (d.compileInput resolver kind id).result = .ok split) : split.Stable := by
  rcases compileInput_ok h with rfl | ⟨i, hi, schema, hschema, h⟩
  · exact ⟨by simp, by simp⟩
  · have hstable := hd.input i hi
    exact InputDef.stable_splitInput hstable (hplain i hi)
      (InputDef.stable_resolve hresolver hstable.schema hschema) h

end OperationDef

/-- An operation that is compiled from a definition that is read back is read back. -/
theorem stable_compileOperation {resolver : Resolver} {kind : OperationKind} {id : String}
    {d : OperationDef} {o : Operation} (hd : d.Stable)
    (hplain : ∀ i ∈ d.input, i.OverridesPlain) (hresolver : resolver.Stable)
    (h : (compileOperation resolver kind id d).result = .ok o) : o.Stable := by
  obtain ⟨split, responses, hsplit, hresponses, rfl⟩ := compileOperation_ok h
  exact OperationDef.stable_assemble hd
    (OperationDef.stable_compileInput hd hplain hresolver hsplit)
    (Responses.stable_build hd.output hd.errors hresponses)

/-! ## Documents -/

/-- No override of a declared operation has a `$ref`. -/
def RpcDocument.OverridesPlain (d : RpcDocument) : Prop :=
  ∀ e ∈ d.operations.declared, ∀ i ∈ e.2.2.input, i.OverridesPlain

/-- Each declared operation of stable ones has a stable definition. -/
theorem RpcOperations.stable_of_mem_declared {o : RpcOperations} (h : o.Stable) :
    ∀ e ∈ o.declared, e.2.2.Stable := by
  intro e he
  rcases List.mem_append.1 he with he | he
  · obtain ⟨q, hq, rfl⟩ := List.mem_map.1 he
    exact h.queries.values q hq
  · obtain ⟨m, hm, rfl⟩ := List.mem_map.1 he
    exact h.mutations.values m hm

/-- Without an OpenAPI version, the other members of a description can stand beside the fields of an
OpenAPI document. -/
theorem outside_erase_openapi {extra : OrderedMap String Json}
    (h : Outside RpcDocument.fieldNames extra) :
    Outside OpenApiDocument.fieldNames (extra.erase openapiKey) := by
  have herase : extra.erase openapiKey = extra.filter (fun e => e.1 ∉ [openapiKey]) := by
    simp [OrderedMap.erase]
  rw [herase]
  exact h.filter_notMem.mono (by decide)

/-- Paths are read back iff what is common to the operations of each of them is, and its operations
are. -/
theorem Paths.stable_iff_has {ps : Paths} : ps.Stable ↔ ps.Has
    (fun item => OptionReadsBack Parameters.decode Parameters.encode item.parameters ∧
      ∀ ss ∈ item.servers, ∀ s ∈ ss, s.Stable)
    (ReadsBack Operation.decode Operation.encode) :=
  ⟨fun h => h.imp fun _ hp => ⟨⟨hp.parameters, hp.servers⟩, hp.operations⟩,
    fun h => h.imp fun _ hp => ⟨hp.fields.1, hp.fields.2, hp.operations⟩⟩

/-- What is compiled from a description that is read back is read back. -/
theorem stable_compileResolving {resolver : Resolver} {d : RpcDocument} {out : OpenApiDocument}
    (hd : d.Stable) (hplain : d.OverridesPlain) (hresolver : resolver.Stable)
    (h : (compileResolving resolver d).result = .ok out) : out.Stable := by
  have hpaths : out.paths.Stable := by
    refine Paths.stable_iff_has.2 (has_paths_compileResolving ⟨nofun, nofun⟩
      (fun ps hps => Paths.stable_iff_has.1 (hd.paths ps hps)) (fun e he o ho => ?_) h)
    exact Operation.readsBack (stable_compileOperation
      (RpcOperations.stable_of_mem_declared hd.operations e he) (hplain e he) hresolver ho)
  obtain ⟨-, -, rfl, -⟩ := compileWith_ok h
  exact
    { info := hd.info
      paths := hpaths
      components := hd.components
      extra := outside_erase_openapi hd.extra }

/-- **What is compiled is read back.** The document that a description from a tree without repeated
keys is compiled to is read, the same in every part, from what it is written as, unless an override
of the description has a `$ref`. -/
theorem decode_encode_compile {v : Json} {d : RpcDocument} {out : OpenApiDocument}
    (hkeys : v.KeysDistinct) (hnumbers : v.NumbersFinite) (hd : RpcDocument.decode v = .ok d)
    (hplain : d.OverridesPlain) (h : (compile d).result = .ok out) :
    OpenApiDocument.decode out.encode = .ok out := by
  have hstable : d.Stable := RpcDocument.stable v (Json.normal_of_keysDistinct hkeys hnumbers) d hd
  exact OpenApiDocument.readsBack
    (stable_compileResolving hstable hplain (Resolver.stable_ofComponents d.components) h)

/-- A service whose query takes its input from the components, has an override with a reserved key
and one for the body, and extras with a computed key; its own version of OpenAPI is an old one. -/
def movingService : Json :=
  .obj
    [("yarpc", .str "1.0.0"), ("openapi", .str "3.0.0"),
      ("info", .obj [("title", .str "Moving"), ("version", .str "1")]),
      ("components", .obj [("schemas", .obj [("Input", .obj
        [("type", .str "object"), ("required", .arr [.str "id"]),
          ("properties", .obj
            [("id", .obj [("$ref", .str "#/components/schemas/Id")]),
              ("note", .obj [("type", .str "string")])])])])]),
      ("operations", .obj [("queries", .obj [("find", .obj
        [("x-rank", .str "1"), ("requestBody", .null),
          ("input", .obj
            [("schema", .obj [("$ref", .str "#/components/schemas/Input")]),
              ("parameters", .obj
                [("id", .obj [("name", .str "key"), ("x-kept", .bool true)]),
                  ("note", .obj [("in", .str "body")])])]),
          ("output", .obj [("schema", .bool true), ("x-media", .null)])])])])]

/-- The moving service is compiled, and the result is read back. -/
theorem decode_encode_movingService : ∃ d out,
    RpcDocument.decode movingService = .ok d ∧ (compile d).result = .ok out ∧
      out.paths.keys = ["/queries/find"] ∧ out.extra.keys = [] ∧
      OpenApiDocument.decode out.encode = .ok out := by
  refine ⟨_, _, rfl, rfl, rfl, rfl, decode_encode_compile (v := movingService) ?_ ?_ rfl ?_ rfl⟩
  · simp [movingService, Json.KeysDistinct, Json.ItemsKeysDistinct, Json.MembersKeysDistinct]
  · simp [movingService, Json.NumbersFinite, Json.ItemsNumbersFinite, Json.MembersNumbersFinite]
  · unfold RpcDocument.OverridesPlain InputDef.OverridesPlain
    decide

end RpcOpenApi
