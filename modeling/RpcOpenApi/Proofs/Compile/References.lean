import RpcOpenApi.Proofs.Codec.Inheritance
import RpcOpenApi.Proofs.Compile.Placement

/-!
# No reference is invented

The compiler takes a description apart and puts its parts into operations: the properties of an
input, which may lie in the components, become parameters and the schema of a body, outputs become
responses, and extensions are carried along. Wherever a reference stands in the result, it is copied
from the description (`targets_compile`). So a reference into the components that points at
something still does so in the result, which has the same components (`Resolver.Points`).

What is carried through the stages is that everything is written within the bounds of the
description, where nothing is said about the depth of nesting (`within_compileOperation`).
-/

namespace RpcOpenApi

open Json (MembersWithin)

namespace Json

mutual

/-- The texts that stand under a key `$ref` anywhere in a tree. -/
def targets : Json → List String
  | .arr items => itemsTargets items
  | .obj members => membersTargets members
  | _ => []

/-- The texts that stand under `$ref` within the items of an array. -/
def itemsTargets : List Json → List String
  | [] => []
  | j :: js => targets j ++ itemsTargets js

/-- The texts that stand under `$ref` within the members of an object. -/
def membersTargets : List (String × Json) → List String
  | [] => []
  | (k, j) :: ms => (if k = "$ref" then j.text?.toList else []) ++ targets j ++ membersTargets ms

end

/-- Nothing is asked of a tree but that the texts under `$ref` have a property. -/
def referring (P : String → Prop) : Bounds := ⟨P, fun _ => True⟩

/-- A tree is within bounds that ask for the texts under `$ref` only iff these have the property. -/
theorem within_referring_iff {P : String → Prop} {j : Json} :
    j.Within (referring P) .unlimited ↔ ∀ s ∈ j.targets, P s := by
  induction j using induction with
  | null | bool | str => simp [targets]
  | num x => simp [targets, referring]
  | arr js ih =>
    have htargets : itemsTargets js = js.flatMap targets := by
      clear ih
      induction js with
      | nil => rfl
      | cons j js ih => rw [itemsTargets, ih, List.flatMap_cons]
    simp only [within_arr, Depth.allows_unlimited, true_and, Depth.inside_unlimited, targets,
      htargets, List.mem_flatMap, forall_exists_index, and_imp]
    exact ⟨fun h s j hj hs => (ih j hj).1 (h j hj) s hs,
      fun h j hj => (ih j hj).2 fun s hs => h s j hj hs⟩
  | obj ms ih =>
    simp only [within_obj, Depth.allows_unlimited, true_and, Depth.inside_unlimited, targets]
    induction ms with
    | nil => simp [membersTargets]
    | cons m ms ihms =>
      obtain ⟨k, j⟩ := m
      obtain ⟨hj, hms⟩ := List.forall_mem_cons.1 ih
      rw [membersWithin_cons, ihms hms, MemberWithin, hj, membersTargets]
      simp only [List.mem_append, or_imp, forall_and]
      refine and_congr_left' (and_congr_left' ?_)
      by_cases hk : k = "$ref" <;> simp [hk, referring]

end Json

/-! ## References into the components -/

/-- If the text begins like a reference into the components, the walk along its segments ends at a
value of them. -/
def Resolver.Points (components : Json) (target : String) : Prop :=
  ∀ path, below? root target.toList = some path →
    (walk? components (Text.segments path)).isSome

/-- Whether a target leads somewhere within components is decided by walking there. -/
instance (components : Json) (target : String) : Decidable (Resolver.Points components target) :=
  decidable_of_iff
    ((Resolver.below? Resolver.root target.toList).all fun path =>
      (Resolver.walk? components (Text.segments path)).isSome)
    (by cases h : Resolver.below? Resolver.root target.toList <;> simp [Resolver.Points, h])

/-! ## The stages of compiling an operation -/

section
variable {b : Bounds}

namespace Resolver

/-- The resolver finds schemas that are written within the bounds. -/
def Within (b : Bounds) (resolver : Resolver) : Prop :=
  ∀ r s, resolver r = .ok s → s.encode.Within b .unlimited

/-- What is resolved within components is within the bounds that these are within. -/
theorem within_ofComponents {c : Components} (h : c.encode.Within b .unlimited) :
    Within b (ofComponents c) := by
  intro r s hs
  obtain ⟨path, j, hwalk, hdecode⟩ := exists_of_ofTree hs
  have hj : j.Within b .unlimited := of_walk? (P := fun j => j.Within b .unlimited)
    (fun _ _ => Json.Within.part) h.normalize hwalk
  exact Schema.inherits j hj s hdecode

end Resolver

/-- The schema of an input is within the bounds, whether it is written there or resolved. -/
theorem InputDef.within_resolve {resolver : Resolver} (hresolver : resolver.Within b)
    {written : SchemaOrRef} {s : Schema} (hw : written.encode.Within b .unlimited)
    (h : InputDef.resolve resolver written = .ok s) : s.encode.Within b .unlimited := by
  cases written with
  | reference r => exact hresolver r s h
  | boolean x => cases h
  | inline s' =>
    cases h
    exact hw

namespace SplitInput

/-- The parameters and the body are written within the bounds. -/
structure Within (b : Bounds) (split : SplitInput) : Prop where
  parameters : ∀ ps ∈ split.parameters, ∀ p ∈ ps, p.encode.Within b .unlimited
  requestBody : ∀ r ∈ split.requestBody, r.encode.Within b .unlimited

/-- A parameter is within the bounds if the schema of its field and its override are. -/
theorem within_parameter {name : String} {l : ParameterLocation} {s : SchemaOrRef} {required : Bool}
    {o : ParameterOverride} (hs : s.encode.Within b .unlimited)
    (ho : o.encode.Within b .unlimited) :
    (parameter name l s required o).encode.Within b .unlimited := by
  obtain ⟨h1, he, hes, hc, hext⟩ := ParameterOverride.within_encode.1 ho
  refine Parameter.within_encode.2 ⟨h1, fun s' hs' => ?_, he, hes, hc, hext.filter _⟩
  cases hs'
  exact hs

/-- A body is within the bounds if its schema is. -/
theorem within_json {s : SchemaOrRef} (h : s.encode.Within b .unlimited) :
    (RequestBody.json s).encode.Within b .unlimited := by
  refine RequestBody.within_encode.2 ⟨trivial, ?_, trivial⟩
  simp [RequestBody.json, Encode.map, MediaType.encode, MediaType.jsonName,
    MediaType.within_ofSchema, h]

/-- The schema of a body is within the bounds if its fields are. -/
theorem within_bodySchema (schema : Schema) {fields : OrderedMap String SchemaOrRef}
    (h : ∀ f ∈ fields, f.2.encode.Within b .unlimited) :
    (SchemaOrRef.inline (bodySchema schema fields)).encode.Within b .unlimited := by
  refine Schema.within_encode.2
    ⟨trivial, ?_, fun ps hps => ?_, fun l hl => ?_, Json.membersWithin_nil⟩
  · simp [bodySchema, SchemaType.encode]
  · cases hps
    exact (within_map_iff SchemaOrRef.text?_encode).2
      ⟨trivial, fun f hf => h f (OrderedMap.mem_ofPairs hf)⟩
  · simp [Encode.list]

end SplitInput

namespace InputDef

variable {i : InputDef} {schema : Schema} {default : InputLocation}

/-- What is said about a field is within the bounds, also if nothing is. -/
theorem within_override_getD (hi : i.encode.Within b .unlimited) (name : String) :
    ((i.parameters.get? name).getD {}).encode.Within b .unlimited := by
  cases h : i.parameters.get? name with
  | none => exact ParameterOverride.within_encode.2 (by simp)
  | some o =>
    have hmem := OrderedMap.mem_of_get? h
    have hall := (within_encode.1 hi).2.2 (List.ne_nil_of_mem hmem)
    exact (within_overrides.1 hall).2 (name, o) hmem

/-- What an input is split into is written within the bounds. -/
theorem within_splitInput {split : SplitInput} (hi : i.encode.Within b .unlimited)
    (hschema : schema.encode.Within b .unlimited)
    (h : splitInput i.schema schema default i.parameters = .ok split) : split.Within b := by
  obtain ⟨fields, hfields, hparameters, hbody⟩ := splitInput_ok h
  have hproperties := (Schema.within_encode.1 hschema).2.2.1 fields hfields
  have hf : ∀ f ∈ fields, f.2.encode.Within b .unlimited :=
    ((within_map_iff SchemaOrRef.text?_encode).1 hproperties).2
  refine ⟨fun ps hps p hp => ?_, fun r hr => ?_⟩
  · obtain rfl := hparameters ps hps
    obtain ⟨f, hmem, l, rfl⟩ := SplitInput.exists_of_mem_parameterFields hp
    exact SplitInput.within_parameter (hf f hmem) (within_override_getD hi f.1)
  · rcases hbody r hr with rfl | rfl
    · exact SplitInput.within_json (within_encode.1 hi).2.1
    · exact SplitInput.within_json (SplitInput.within_bodySchema schema fun f hmem =>
        hf f (List.mem_of_mem_filter hmem))

end InputDef

namespace Responses

/-- The response of success is within the bounds if the media type of the output is. -/
theorem within_success {output : OutputDef} (h : MembersWithin b .unlimited output.media.members) :
    (success output).encode.Within b .unlimited := by
  refine Response.within_encode.2 ⟨trivial, nofun, fun c hc => ?_, nofun, trivial⟩
  rw [success] at hc
  split at hc
  · cases hc
  · cases hc
    simpa [Encode.map, MediaType.encode, MediaType.jsonName] using h

/-- The responses of an operation are written within the bounds. -/
theorem within_build {output : Option OutputDef} {errors : Option Responses} {rs : Responses}
    (houtput : ∀ o ∈ output, o.encode.Within b .unlimited)
    (herrors : ∀ es ∈ errors, es.encode.Within b .unlimited)
    (h : build output errors = .ok rs) : rs.encode.Within b .unlimited := by
  obtain ⟨code, rfl⟩ := build_ok h
  refine within_encode.2 ⟨trivial, fun e he => ?_⟩
  rcases OrderedMap.mem_insertAll he with he | he
  · cases herr : errors with
    | none => simp [herr] at he
    | some es =>
      rw [herr] at he
      exact (within_encode.1 (herrors es herr)).2 e he
  · obtain rfl := List.mem_singleton.1 he
    refine within_success ?_
    cases hout : output with
    | none => exact MediaType.within_members.2 (by simp)
    | some o => exact (OutputDef.within_encode.1 (houtput o hout)).2.2

end Responses

/-- **An operation is written within the bounds of its definition and of the schemas that are
found.** -/
theorem within_compileOperation {resolver : Resolver} {kind : OperationKind} {id : String}
    {d : OperationDef} {o : Operation} (hresolver : resolver.Within b)
    (hd : d.encode.Within b .unlimited)
    (h : (compileOperation resolver kind id d).result = .ok o) : o.encode.Within b .unlimited := by
  obtain ⟨split, responses, hsplit, hresponses, rfl⟩ := compileOperation_ok h
  obtain ⟨-, hinput, houtput, herrors, hextras⟩ := OperationDef.within_encode.1 hd
  have hwithin : split.Within b := by
    rcases OperationDef.compileInput_ok hsplit with rfl | ⟨i, hi, schema, hschema, hs⟩
    · exact ⟨nofun, nofun⟩
    · have hi := hinput i hi
      exact InputDef.within_splitInput hi
        (InputDef.within_resolve hresolver (InputDef.within_encode.1 hi).2.1 hschema) hs
  refine Operation.within_encode.2 ⟨trivial, fun ps hps => ?_, fun r hr => ?_,
    Responses.within_build houtput herrors hresponses, ?_⟩
  · obtain ⟨ps', hps', rfl⟩ := Option.map_eq_some_iff.1 hps
    refine Json.within_arr.2 ⟨trivial, List.forall_mem_map.2 (List.forall_mem_map.2 fun p hp => ?_)⟩
    exact hwithin.parameters ps' hps' p hp
  · obtain ⟨r', hr', rfl⟩ := Option.map_eq_some_iff.1 hr
    exact hwithin.requestBody r' hr'
  · obtain ⟨htags, hdocs, hsecurity, hservers, hcallbacks, hext⟩ :=
      OperationExtras.within_members.1 hextras
    exact OperationExtras.within_members.2
      ⟨htags, hdocs, hsecurity, hservers, hcallbacks, hext.filter _⟩

/-! ## Whole descriptions -/

/-- Each declared operation of those within the bounds has a definition within them. -/
theorem RpcOperations.within_of_mem_declared {o : RpcOperations} (h : o.encode.Within b .unlimited)
    {e : Declaration} (he : e ∈ o.declared) : e.2.2.encode.Within b .unlimited := by
  obtain ⟨-, hqueries, hmutations⟩ := within_encode.1 h
  rcases List.mem_append.1 he with he | he
  · obtain ⟨q, hq, rfl⟩ := List.mem_map.1 he
    exact (within_set.1 hqueries).2 q hq
  · obtain ⟨m, hm, rfl⟩ := List.mem_map.1 he
    exact (within_set.1 hmutations).2 m hm

/-- Distinct paths are within the bounds iff what is common to the operations of each path and these
operations are. -/
theorem Paths.within_iff_has {ps : Paths} (hps : ps.Tidy) : ps.encode.Within b .unlimited ↔
    ps.Has (fun item => item.encode.Within b .unlimited)
      (fun o => o.encode.Within b .unlimited) := by
  have hitem (item : PathItem) (hd : OrderedMap.Distinct item.operations) :
      item.encode.Within b .unlimited ↔ item.Has (fun item => item.encode.Within b .unlimited)
        (fun o => o.encode.Within b .unlimited) := by
    constructor
    · intro h
      obtain ⟨h1, hparameters, hservers, hoperations⟩ := PathItem.within_encode.1 h
      exact ⟨PathItem.within_encode.2 ⟨h1, hparameters, hservers, List.forall_mem_nil _⟩,
        hd, hoperations⟩
    · rintro ⟨hfields, hoperations⟩
      obtain ⟨h1, hparameters, hservers, -⟩ := PathItem.within_encode.1 hfields
      exact PathItem.within_encode.2 ⟨h1, hparameters, hservers, hoperations.values⟩
  simp only [Paths.within_encode, Depth.allows_unlimited, true_and, Depth.inside_unlimited]
  exact ⟨fun h => ⟨hps.distinct, fun e he =>
      (hitem e.2 (hps.values e he).operations.distinct).1 (h e he)⟩,
    fun h e he => (hitem e.2 (hps.values e he).operations.distinct).2 (h.values e he)⟩

/-- What is compiled from a description is written within its bounds. -/
theorem within_compileResolving {resolver : Resolver} {d : RpcDocument} {out : OpenApiDocument}
    (htidy : d.Tidy) (hresolver : resolver.Within b) (hd : d.encode.Within b .unlimited)
    (h : (compileResolving resolver d).result = .ok out) : out.encode.Within b .unlimited := by
  obtain ⟨-, -, hinfo, hcomponents, hoperations, hpaths, hextra⟩ := RpcDocument.within_encode.1 hd
  have hhas := has_paths_compileResolving (F := fun item => item.encode.Within b .unlimited)
    (O := fun o => o.encode.Within b .unlimited) (PathItem.within_encode.2 (by simp))
    (fun ps hps => (Paths.within_iff_has (htidy.paths ps hps)).1 (hpaths ps hps))
    (fun e he o ho => within_compileOperation hresolver
      (RpcOperations.within_of_mem_declared hoperations he) ho) h
  obtain ⟨-, -, rfl, -⟩ := compileWith_ok h
  refine OpenApiDocument.within_encode.2 ⟨trivial, hinfo, ?_, hcomponents, hextra.filter _⟩
  refine Paths.within_encode.2 ⟨trivial, fun e he => ?_⟩
  obtain ⟨hfields, hoperations⟩ := hhas.values e he
  obtain ⟨h1, hparameters, hservers, -⟩ := PathItem.within_encode.1 hfields
  exact PathItem.within_encode.2 ⟨h1, hparameters, hservers, hoperations.values⟩

end

/-- **No reference is invented.** If a description that is read from a tree is compiled, every text
that stands under `$ref` in the result stands under `$ref` in the description and in the tree, and
the components are those of the description. So if every reference of the description into its
components points at a value of them, this is true of every such reference of the result. -/
theorem targets_compile (v : Json) (d : RpcDocument) (out : OpenApiDocument)
    (hd : RpcDocument.decode v = .ok d) (h : (compile d).result = .ok out) :
    (∀ s ∈ out.encode.targets, s ∈ d.encode.targets) ∧
    (∀ s ∈ d.encode.targets, s ∈ v.targets) ∧
    out.components = d.components ∧
    ((∀ s ∈ d.encode.targets, Resolver.Points d.components.encode s) →
      ∀ s ∈ out.encode.targets, Resolver.Points out.components.encode s) := by
  have hcomponents : out.components = d.components := by
    obtain ⟨-, -, rfl, -⟩ := compileWith_ok h
    rfl
  have hout : ∀ s ∈ out.encode.targets, s ∈ d.encode.targets := by
    have hself : d.encode.Within (Json.referring (· ∈ d.encode.targets)) .unlimited :=
      Json.within_referring_iff.2 fun _ hs => hs
    have hresolver := Resolver.within_ofComponents (RpcDocument.within_encode.1 hself).2.2.2.1
    exact Json.within_referring_iff.1
      (within_compileResolving (RpcDocument.tidy v d hd) hresolver hself h)
  have hsource : ∀ s ∈ d.encode.targets, s ∈ v.targets := by
    have hself : v.Within (Json.referring (· ∈ v.targets)) .unlimited :=
      Json.within_referring_iff.2 fun _ hs => hs
    exact Json.within_referring_iff.1
      (RpcDocument.inherits Depth.allows_unlimited v hself d hd)
  refine ⟨hout, hsource, hcomponents, fun hpoints s hs => ?_⟩
  rw [hcomponents]
  exact hpoints s (hout s hs)

/-- A query whose input is a definition with a reference of its own, and a mutation that keeps one
of its two fields in the body and declares an error. -/
def linkedService : Json :=
  .obj [("yarpc", .str "1.0.0"),
    ("info", .obj [("title", .str "Linked"), ("version", .str "1")]),
    ("components", .obj [
      ("schemas", .obj [
        ("Find", .obj [("type", .str "object"), ("properties", .obj [
          ("id", .obj [("$ref", .str "#/components/schemas/Id")]),
          ("tags", .obj [("type", .str "array"),
            ("items", .obj [("$ref", .str "#/components/schemas/Find/properties/id")])])])]),
        ("Id", .obj [("type", .str "string")])]),
      ("responses", .obj [("Gone", .obj [("description", .str "gone")])])]),
    ("operations", .obj [
      ("queries", .obj [("find", .obj [("input", .obj [
        ("schema", .obj [("$ref", .str "#/components/schemas/Find")])])])]),
      ("mutations", .obj [("drop", .obj [
        ("input", .obj [("schema", .obj [("$ref", .str "#/components/schemas/Find")]),
          ("parameters", .obj [("id", .obj [("in", .str "path")])])]),
        ("errors", .obj [("410",
          .obj [("$ref", .str "#/components/responses/Gone")])])])])])]

/-- In what the linked service is compiled to, every reference points into the components. -/
theorem targets_linkedService : ∃ d out, RpcDocument.decode linkedService = .ok d ∧
    (compile d).result = .ok out ∧
    (∀ s ∈ d.encode.targets, Resolver.Points d.components.encode s) ∧
    (∀ s ∈ out.encode.targets, s ∈ linkedService.targets) ∧
    ∀ s ∈ out.encode.targets, Resolver.Points out.components.encode s := by
  have hpoints : ∀ d, RpcDocument.decode linkedService = .ok d →
      ∀ s ∈ d.encode.targets, Resolver.Points d.components.encode s := by
    intro d hd
    cases hd
    decide +kernel
  refine ⟨_, _, rfl, rfl, hpoints _ rfl, ?_⟩
  obtain ⟨hout, hsource, -, hresult⟩ := targets_compile linkedService _ _ rfl rfl
  exact ⟨fun s hs => hsource s (hout s hs), hresult (hpoints _ rfl)⟩

end RpcOpenApi
