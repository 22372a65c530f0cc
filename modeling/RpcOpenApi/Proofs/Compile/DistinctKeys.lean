import RpcOpenApi.Proofs.Codec.NormalForm
import RpcOpenApi.Proofs.Compile.ReadBack
import RpcOpenApi.Proofs.Lookup
import RpcOpenApi.Format

/-!
# No key is written twice

The compiler writes the fields that it computes beside members that the description has brought
along, and it does not look for repetitions. `keysDistinct_compile` says that there are none,
whatever text the description was read from. What is read has parts that are written in normal form
(`RpcDocument.tidy`), and each stage keeps this: where extensions are put beside other fields than
those that they were read beside, the names of the new fields have been left out of them
(`SplitInput.tidy_parameter`, `OperationExtras.outside_withoutComputed`, `outside_erase_openapi`).
-/

namespace RpcOpenApi

/-! ## Inputs -/

namespace Resolver

/-- The resolver finds schemas that are written in normal form. -/
def Tidy (resolver : Resolver) : Prop := ∀ r s, resolver r = .ok s → s.encode.Normal

/-- What is resolved within components is in normal form, since it is read from a tree. -/
theorem tidy_ofComponents (c : Components) : Tidy (ofComponents c) := by
  intro r s h
  obtain ⟨path, j, -, hs⟩ := exists_of_ofTree h
  exact Schema.tidy j s hs

end Resolver

/-- The schema of an input is in normal form, whether it is written there or resolved. -/
theorem InputDef.normal_resolve {resolver : Resolver} (hresolver : resolver.Tidy)
    {written : SchemaOrRef} {s : Schema} (hw : written.encode.Normal)
    (h : InputDef.resolve resolver written = .ok s) : s.encode.Normal := by
  cases written with
  | reference r => exact hresolver r s h
  | boolean b => cases h
  | inline s' =>
    cases h
    exact hw

namespace ParameterOverride

/-- An override that says nothing is tidy. -/
theorem tidy_empty : Tidy {} := ⟨by simp, by simp, by simp, outside_nil _⟩

end ParameterOverride

namespace SplitInput

/-- The parameters have schemas, and they and the body are written in normal form. -/
structure Tidy (split : SplitInput) : Prop where
  parameters : ∀ ps ∈ split.parameters, ∀ p ∈ ps, p.Tidy ∧ p.schema.isSome
  requestBody : ∀ b ∈ split.requestBody, b.encode.Normal

/-- A parameter is tidy if the schema of its field is in normal form and its override is tidy. -/
theorem tidy_parameter {name : String} {l : ParameterLocation} {s : SchemaOrRef} {required : Bool}
    {o : ParameterOverride} (hs : s.encode.Normal) (ho : o.Tidy) :
    (parameter name l s required o).Tidy where
  schema := by
    intro s' hs'
    cases hs'
    exact hs
  example? := ho.example?
  examples := ho.examples
  content := ho.content
  extensions := ho.extensions.filter_notMem.mono (by decide)

/-- A body is in normal form if its schema is. -/
theorem normal_json {s : SchemaOrRef} (h : s.encode.Normal) : (RequestBody.json s).encode.Normal :=
  RequestBody.normal_encode (normal_map (.singleton (MediaType.normal_ofSchema h))) (outside_nil _)

/-- The schema of a body is in normal form if its fields are. -/
theorem normal_bodySchema (schema : Schema) {fields : OrderedMap String SchemaOrRef}
    (h : MapOf (fun x => x.encode.Normal) fields) :
    (SchemaOrRef.inline (bodySchema schema fields)).encode.Normal := by
  refine Schema.normal_encode (fun ps hps => ?_) (outside_nil _)
  cases hps
  rwa [h.distinct.ofPairs_eq]

end SplitInput

namespace InputDef

variable {i : InputDef} {schema : Schema} {default : InputLocation}

/-- What is said about a field is tidy, also if nothing is. -/
theorem tidy_override_getD (hi : i.Tidy) (name : String) :
    ((i.parameters.get? name).getD {}).Tidy := by
  cases h : i.parameters.get? name with
  | none => exact ParameterOverride.tidy_empty
  | some o => exact hi.parameters _ (OrderedMap.mem_of_get? h)

/-- What an input is split into is written in normal form. -/
theorem tidy_splitInput {split : SplitInput} (hi : i.Tidy) (hschema : schema.encode.Normal)
    (h : splitInput i.schema schema default i.parameters = .ok split) : split.Tidy := by
  obtain ⟨fields, hfields, hparameters, hbody⟩ := splitInput_ok h
  have hf := Schema.properties_of_normal hschema fields hfields
  refine ⟨fun ps hps p hp => ?_, fun b hb => ?_⟩
  · obtain rfl := hparameters ps hps
    obtain ⟨f, hmem, l, rfl⟩ := SplitInput.exists_of_mem_parameterFields hp
    exact ⟨SplitInput.tidy_parameter (hf.values f hmem) (tidy_override_getD hi f.1), rfl⟩
  · rcases hbody b hb with rfl | rfl
    · exact SplitInput.normal_json hi.schema
    · exact SplitInput.normal_json (SplitInput.normal_bodySchema schema (hf.filter _))

end InputDef

/-! ## Responses -/

namespace Responses

/-- The response of success is in normal form if the media type of the output is. -/
theorem normal_success {output : OutputDef} (h : output.media.encode.Normal) :
    (success output).encode.Normal := by
  refine Response.normal_encode (by simp [success]) (fun c hc => ?_) (by simp [success])
    (outside_nil _)
  rw [success] at hc
  split at hc
  · cases hc
  · cases hc
    exact normal_map (.singleton h)

/-- The responses of an operation are written in normal form if its output and its errors are. -/
theorem tidy_build {output : Option OutputDef} {errors : Option Responses} {rs : Responses}
    (houtput : ∀ o ∈ output, o.media.encode.Normal) (herrors : ∀ es ∈ errors, es.Tidy)
    (h : build output errors = .ok rs) : rs.Tidy := by
  have ho : (output.getD {}).media.encode.Normal := by
    cases output with
    | none => exact MediaType.normal_encode (by simp) (by simp) (by simp) (by simp) (outside_nil _)
    | some o => exact houtput o rfl
  have he : (errors.getD []).Tidy := by
    cases errors with
    | none => exact .nil
    | some es => exact herrors es rfl
  obtain ⟨code, rfl⟩ := build_ok h
  have hsuccess : Tidy [(code, .inline (success (output.getD {})))] :=
    .singleton (normal_success ho)
  exact hsuccess.insertAll he

end Responses

/-! ## Operations -/

/-- Without the fields that the compiler sets, what is carried along stays tidy. -/
theorem OperationExtras.Tidy.withoutComputed {e : OperationExtras} (h : e.Tidy) :
    e.withoutComputed.Tidy :=
  { h with extensions := h.extensions.filter _ }

namespace OperationDef

variable {id : String} {d : OperationDef} {split : SplitInput} {responses : Responses}

/-- The input of a tidy definition is split into tidy parts. -/
theorem tidy_compileInput {resolver : Resolver} {kind : OperationKind} (hd : d.Tidy)
    (hresolver : resolver.Tidy) (h : (d.compileInput resolver kind id).result = .ok split) :
    split.Tidy := by
  rcases compileInput_ok h with rfl | ⟨i, hi, schema, hschema, h⟩
  · exact ⟨by simp, by simp⟩
  · have htidy := hd.input i hi
    exact InputDef.tidy_splitInput htidy
      (InputDef.normal_resolve hresolver htidy.schema hschema) h

/-- An operation that is put together of tidy parts is tidy. -/
theorem tidy_assemble (hd : d.Tidy) (hsplit : split.Tidy) (hresponses : responses.Tidy) :
    (d.assemble id split responses).Tidy where
  parameters := by
    intro ps hps
    obtain ⟨ps', hps', rfl⟩ := Option.map_eq_some_iff.1 hps
    exact normal_list (List.forall_mem_map.2 fun p hp => (hsplit.parameters ps' hps' p hp).1.normal)
  requestBody := by
    intro b hb
    obtain ⟨b', hb', rfl⟩ := Option.map_eq_some_iff.1 hb
    exact hsplit.requestBody b' hb'
  responses := hresponses
  extras := hd.extras.withoutComputed
  outside := OperationExtras.outside_withoutComputed hd.outside

end OperationDef

/-- The parameters are inline definitions that have schemas and are written in normal form. -/
def Parameters.Computed (ps : Parameters) : Prop :=
  ∀ x ∈ ps, ∃ p : Parameter, x = .inline p ∧ p.Tidy ∧ p.schema.isSome

/-- An operation is compiled to one that is written in normal form, with its id and with computed
parameters. -/
theorem tidy_compileOperation {resolver : Resolver} {kind : OperationKind} {id : String}
    {d : OperationDef} {o : Operation} (hd : d.Tidy) (hresolver : resolver.Tidy)
    (h : (compileOperation resolver kind id d).result = .ok o) :
    o.Tidy ∧ o.operationId = some id ∧ ∀ ps ∈ o.parameters, ps.Computed := by
  obtain ⟨split, responses, hsplit, hresponses, rfl⟩ := compileOperation_ok h
  have hs := OperationDef.tidy_compileInput hd hresolver hsplit
  have hr := Responses.tidy_build hd.output hd.errors hresponses
  refine ⟨OperationDef.tidy_assemble hd hs hr, rfl, fun ps hps => ?_⟩
  obtain ⟨ps', hps', rfl⟩ := Option.map_eq_some_iff.1 hps
  exact List.forall_mem_map.2 fun p hp => ⟨p, rfl, hs.parameters ps' hps' p hp⟩

/-! ## Documents -/

/-- Paths are tidy iff what is common to the operations of each of them is written in normal form,
and its operations are tidy. -/
theorem Paths.tidy_iff_has {ps : Paths} : ps.Tidy ↔ ps.Has
    (fun item => (∀ qs ∈ item.parameters, (Parameters.encode qs).Normal) ∧
      ∀ ss ∈ item.servers, (Encode.list Server.encode ss).Normal) Operation.Tidy :=
  ⟨fun h => h.imp fun _ hp => ⟨⟨hp.parameters, hp.servers⟩, hp.operations⟩,
    fun h => h.imp fun _ hp => ⟨hp.fields.1, hp.fields.2, hp.operations⟩⟩

/-- What is compiled from a description whose parts are written in normal form is written in normal
form. -/
theorem normal_compileResolving {resolver : Resolver} {d : RpcDocument} {out : OpenApiDocument}
    (hd : d.Tidy) (hresolver : resolver.Tidy)
    (h : (compileResolving resolver d).result = .ok out) : out.encode.Normal := by
  have hpaths : out.paths.Tidy := by
    refine Paths.tidy_iff_has.2 (has_paths_compileResolving ⟨by simp, by simp⟩
      (fun ps hps => Paths.tidy_iff_has.1 (hd.paths ps hps)) (fun e he o ho => ?_) h)
    exact (tidy_compileOperation (hd.operations e he) hresolver ho).1
  obtain ⟨-, -, rfl, -⟩ := compileWith_ok h
  exact normal_fields OpenApiDocument.fieldNames (by decide)
    ((((fields_member hd.components).cons hpaths.normal).cons hd.info).cons (normal_text _))
    (outside_erase_openapi hd.extra)

namespace Operation

/-- Under a key of an operation that is written in normal form there is at most one value. -/
theorem Tidy.length_valuesOf_le {o : Operation} (h : o.Tidy) (k : String) :
    (o.encode.valuesOf k).length ≤ 1 := by
  rw [h.normal.valuesOf_eq]
  cases o.encode.member? k <;> simp

/-- The parameters of a tidy operation are what its tree has under their name. -/
theorem member?_encode_parameters {o : Operation} (h : o.Tidy) :
    o.encode.member? "parameters" = o.parameters.map Parameters.encode := by
  have hextras := (h.extras.outside_members h.outside (by decide)).get?_eq_none
    (show "parameters" ∈ fieldNames by decide)
  simp [encode, hextras]

end Operation

/-- A parameter with a schema that is written in normal form has each of these fields once. -/
theorem Parameter.Tidy.length_valuesOf {p : Parameter} (h : p.Tidy) (hs : p.schema.isSome)
    {k : String} (hk : k ∈ ["name", "in", "schema"]) : (p.encode.valuesOf k).length = 1 := by
  obtain ⟨s, hs⟩ := Option.isSome_iff_exists.1 hs
  rw [h.normal.valuesOf_eq]
  rcases List.mem_cons.1 hk with rfl | hk
  · simp [encode]
  rcases List.mem_cons.1 hk with rfl | hk
  · simp [encode]
  obtain rfl := List.mem_singleton.1 hk
  simp [encode, hs]

/-- What is read from a text is read from a tree. -/
theorem RpcDocument.exists_of_ofText {f : TextFormat} {text : String} {d : RpcDocument}
    (h : ofText f text = .ok d) : ∃ v, decode v = .ok d := by
  rw [ofText, Decode.mapError_eq_ok] at h
  cases f with
  | json =>
    rw [TextFormat.read] at h
    split at h
    · next v _ => exact ⟨v, Decode.mapError_eq_ok.1 h⟩
    · split at h
      · next d' hd =>
        cases h
        obtain ⟨v, -, hv⟩ := Option.map_eq_some_iff.1 hd
        exact ⟨v, hv⟩
      · cases h
  | yaml =>
    rw [TextFormat.read] at h
    split at h
    · cases h
    · next v _ => exact ⟨v, Decode.mapError_eq_ok.1 h⟩

/-- **No key is written twice.** If a description, read from any text in any format, is compiled,
no object of the result repeats a key. At the top stands the one version of OpenAPI. The operation
that is generated at a place has its id and its responses once, and its description, its parameters
and its body at most once; and each of its parameters has its name, its location and its schema
once. -/
theorem keysDistinct_compile (f : TextFormat) (text : String) (d : RpcDocument)
    (out : OpenApiDocument) (hd : RpcDocument.ofText f text = .ok d)
    (h : (compile d).result = .ok out) :
    out.encode.KeysDistinct ∧
    out.encode.valuesOf "openapi" = [.str "3.1.0"] ∧
    ∀ p m kind id definition,
      (d.operations.declared.filter (fun e => Declaration.place e = (p, m))).getLast?
        = some (kind, id, definition) →
      ∃ o, out.encode.at? ["paths", p, m.text] = some o ∧
        o.valuesOf "operationId" = [.str id] ∧
        (∀ k ∈ ["description", "parameters", "requestBody"], (o.valuesOf k).length ≤ 1) ∧
        (o.valuesOf "responses").length = 1 ∧
        ∀ ps ∈ o.valuesOf "parameters", ∃ items, ps = .arr items ∧
          ∀ q ∈ items, ∀ k ∈ ["name", "in", "schema"], (q.valuesOf k).length = 1 := by
  obtain ⟨v, hv⟩ := RpcDocument.exists_of_ofText hd
  have htidy := RpcDocument.tidy v d hv
  have hresolver := Resolver.tidy_ofComponents d.components
  have hnormal := normal_compileResolving htidy hresolver h
  refine ⟨hnormal.keysDistinct, ?_, fun p m kind id definition hlast => ?_⟩
  · obtain ⟨-, -, rfl, -⟩ := compileWith_ok h
    rw [hnormal.valuesOf_eq]
    rfl
  · have hmem := List.mem_of_mem_filter (List.mem_of_getLast? hlast)
    obtain ⟨ho, hid, hcomputed⟩ := tidy_compileOperation (htidy.operations _ hmem) hresolver
      (compileOperation_of_mem_declared h hmem)
    have hat := out.at?_operation p m []
    rw [operation?_compileResolving h, hlast] at hat
    refine ⟨_, hat, ?_, fun k _ => ho.length_valuesOf_le k, ?_, fun ps hps => ?_⟩
    · rw [ho.normal.valuesOf_eq]
      simp [Operation.encode, hid]
    · rw [ho.normal.valuesOf_eq]
      simp [Operation.encode]
    · rw [ho.normal.valuesOf_eq, Operation.member?_encode_parameters ho, Option.mem_toList] at hps
      obtain ⟨qs, hqs, rfl⟩ := Option.map_eq_some_iff.1 hps
      refine ⟨_, rfl, List.forall_mem_map.2 fun x hx k hk => ?_⟩
      obtain ⟨q, rfl, hq, hs⟩ := hcomputed qs hqs x hx
      exact hq.length_valuesOf hs hk

/-- A query whose definition has a member with the name of a computed one and repeats another one,
in a description with an OpenAPI version of its own. -/
def shadowingText : String :=
"yarpc: 1.0.0
openapi: 3.0.0
info:
  title: T
  version: v
operations:
  queries:
    find:
      operationId: mine
      x-rank: low
      x-rank: high"

/-- In what the shadowing text is compiled to no key is repeated, and the query has its own id. -/
theorem keysDistinct_shadowingText : ∃ d out, RpcDocument.ofText .yaml shadowingText = .ok d ∧
    (compile d).result = .ok out ∧ out.encode.KeysDistinct ∧
    ∃ o, out.encode.at? ["paths", "/queries/find", "get"] = some o ∧
      o.valuesOf "operationId" = [.str "find"] := by
  have hrun : (RpcDocument.ofText .yaml shadowingText).toOption.any (fun d =>
      (compile d).result.toOption.isSome && decide ((d.operations.declared.filter (fun e =>
        Declaration.place e = ("/queries/find", .get))).getLast?.map (fun e => (e.1, e.2.1))
          = some (.query, "find"))) = true := by decide +kernel
  cases hd : RpcDocument.ofText .yaml shadowingText with
  | error e => simp [hd, Except.toOption] at hrun
  | ok d =>
    simp only [hd, Except.toOption, Option.any_some, Bool.and_eq_true, decide_eq_true_eq] at hrun
    obtain ⟨hout, hlast⟩ := hrun
    cases h : (compile d).result with
    | error e => simp [h] at hout
    | ok out =>
      obtain ⟨e, he, hid⟩ := Option.map_eq_some_iff.1 hlast
      obtain ⟨kind, id, definition⟩ := e
      cases hid
      obtain ⟨hkeys, -, hgenerated⟩ := keysDistinct_compile .yaml shadowingText d out hd h
      obtain ⟨o, hat, ho, -⟩ := hgenerated _ _ _ _ _ he
      exact ⟨d, out, rfl, h, hkeys, o, hat, ho⟩

end RpcOpenApi
