import RpcOpenApi.Proofs.Codec.OrderOfDescriptions
import RpcOpenApi.Proofs.Compile.DistinctKeys
import RpcOpenApi.Proofs.Rearranged

/-!
# Operations do not depend on the order of members

Alike definitions are compiled to operations that are written as trees with the same content
(`exists_compileOperation`). The order of the members of a schema is seen in two lists only: the
parameters, which stand in the order of the properties that they are made from, and the required
properties of a body schema that is built from some of the properties. A body that is given by the
schema as it is written has neither. One of the runs is enough to tell that the other one succeeds
as well, since every stage of it is followed by the same stage of the other one: a reference is
resolved to alike schemas (`Resolver.alike_ofComponents`), an input is split in the same way
(`InputDef.exists_split`), and the responses are built from the same codes
(`Responses.exists_build`).
-/

namespace RpcOpenApi

/-! ## Resolving references -/

/-- Related lists have related items at the same positions. -/
theorem exists_getElem?_of_forall₂ {α β : Type} {R : α → β → Prop} {as : List α} {bs : List β}
    (h : List.Forall₂ R as bs) {n : Nat} {a : α} (ha : as[n]? = some a) :
    ∃ b, bs[n]? = some b ∧ R a b := by
  induction h generalizing n with
  | nil => cases ha
  | cons hab _ ih =>
    cases n with
    | zero =>
      cases ha
      exact ⟨_, rfl, hab⟩
    | succ n => exact ih ha

namespace Json.Alike

variable {j j' x : Json}

/-- What a segment names in a tree has an alike value in alike trees. -/
theorem exists_child? (h : j.Alike j') {segment : List Char}
    (hx : Resolver.child? j segment = some x) :
    ∃ x', Resolver.child? j' segment = some x' ∧ x.Alike x' := by
  cases j with
  | obj ms =>
    obtain ⟨ms', rfl⟩ := h.exists_obj
    exact h.members.exists_get? hx
  | arr js =>
    obtain ⟨js', rfl, hjs⟩ := h.exists_arr
    obtain ⟨n, hn, hx⟩ := Option.bind_eq_some_iff.1 hx
    obtain ⟨x', hx', halike⟩ := exists_getElem?_of_forall₂ hjs hx
    exact ⟨x', Option.bind_eq_some_iff.2 ⟨n, hn, hx'⟩, halike⟩
  | null | bool | num | str => cases hx

/-- A walk through alike trees leads to alike trees. -/
theorem exists_walk? (h : j.Alike j') {path : List (List Char)}
    (hx : Resolver.walk? j path = some x) :
    ∃ x', Resolver.walk? j' path = some x' ∧ x.Alike x' := by
  induction path generalizing j j' with
  | nil =>
    cases hx
    exact ⟨j', rfl, h⟩
  | cons segment path ih =>
    obtain ⟨child, hchild, hx⟩ := Option.bind_eq_some_iff.1 hx
    obtain ⟨child', hchild', halike⟩ := h.exists_child? hchild
    obtain ⟨x', hx', hrel⟩ := ih halike hx
    exact ⟨x', Option.bind_eq_some_iff.2 ⟨child', hchild', hx'⟩, hrel⟩

/-- Of alike trees both count as present or none does. -/
theorem isPresent_eq (h : j.Alike j') : Resolver.isPresent j = Resolver.isPresent j' := by
  obtain rfl | ⟨js, js', rfl, rfl⟩ | ⟨ms, ms', rfl, rfl⟩ := h.eq_or_containers <;> rfl

end Json.Alike

namespace Resolver

/-- Where the one resolver finds a schema, the other one finds an alike schema. -/
def Alike (resolver resolver' : Resolver) : Prop :=
  ∀ r r' : Reference, r.target = r'.target → ∀ s, resolver r = .ok s →
    ∃ s', resolver' r' = .ok s' ∧ s.Alike s'

/-- Resolving within alike trees is alike. -/
theorem alike_ofTree {j j' : Json} (h : j.Alike j') : Alike (ofTree j) (ofTree j') := by
  intro r r' htarget s hs
  rw [ofTree] at hs
  rw [ofTree, ← htarget]
  cases hpath : below? root r.target.toList with
  | none => simp [hpath] at hs
  | some path =>
    cases hwalk : walk? j (Text.segments path) with
    | none => simp [hpath, hwalk] at hs
    | some x =>
      obtain ⟨x', hwalk', halike⟩ := h.exists_walk? hwalk
      simp only [hpath, hwalk] at hs
      simp only [hwalk', ← halike.isPresent_eq]
      split at hs
      · next hpresent =>
        split at hs
        · next s₁ hs₁ =>
          cases hs
          obtain ⟨s', hs', hrel⟩ := Schema.respects x x' halike s hs₁
          exact ⟨s', by rw [if_pos hpresent, hs'], hrel⟩
        · cases hs
      · cases hs

/-- Components that are written as alike trees have alike schemas for the same references. -/
theorem alike_ofComponents {c c' : Components} (h : WrittenAlike Components.encode c c') :
    Alike (ofComponents c) (ofComponents c') := by
  rw [ofComponents, ofComponents, show c.encode.normalize = c.encode from h.normal,
    show c'.encode.normalize = c'.encode from h.normal']
  exact alike_ofTree h

end Resolver

/-! ## Splitting inputs -/

namespace ParameterOverride

/-- Overrides that say nothing are alike. -/
theorem alike_empty : Alike {} {} :=
  ⟨rfl, rfl, rfl, rfl, rfl, rfl, rfl, rfl, .none, .none, .none, .refl []⟩

end ParameterOverride

namespace SplitInput

variable {default : InputLocation} {os os' : Overrides} {s s' : Schema}
  {fields fields' : OrderedMap String SchemaOrRef} {places : Places}

/-- With alike overrides each field goes to the same location. -/
theorem location_eq (h : OrderedMap.Alike ParameterOverride.Alike os os') :
    location default os = location default os' := by
  funext name
  rw [location, location]
  have hget := h.get? name
  generalize os.get? name = o at hget
  generalize os'.get? name = o' at hget
  cases hget with
  | none => rfl
  | some ho => simp only [ho.location]

/-- What is said about a field by alike overrides is alike. -/
theorem alike_override_getD (h : OrderedMap.Alike ParameterOverride.Alike os os') (name : String) :
    ((os.get? name).getD {}).Alike ((os'.get? name).getD {}) :=
  OptionRel.getD (h.get? name) ParameterOverride.alike_empty

/-- The parameters of a field are written as similar trees. -/
theorem similar_parameter {name : String} {l : ParameterLocation} {x x' : SchemaOrRef}
    {required : Bool} {o o' : ParameterOverride} (hx : WrittenAlike SchemaOrRef.encode x x')
    (ho : o.Alike o') (ht' : o'.Tidy) :
    (parameter name l x required o).encode.Similar (parameter name l x' required o').encode := by
  have hn' : (parameter name l x' required o').encode.Normal :=
    (tidy_parameter hx.normal' ht').normal
  refine Json.similar_obj ?_ (Json.normal_obj_iff.1 hn').1
  simp only [parameter, ho.description, ho.required, ho.deprecated, ho.allowEmptyValue, ho.style,
    ho.explode, ho.allowReserved]
  exact (((((Members.Same.refl _).append (Members.same_optional (.some hx))).append
    (Members.same_optional ho.example?)).append (Members.same_optional ho.examples)).append
    (Members.same_optional ho.content)).append
    (ho.extensions.filter fun k => decide (k ∉ reservedKeys))

/-- The parameters of alike fields are the same ones up to their order. -/
theorem parameterFields_perm (default : InputLocation) (hs : s.Alike s')
    (hos : OrderedMap.Alike ParameterOverride.Alike os os')
    (ht' : ∀ e ∈ os', ParameterOverride.Tidy e.2)
    (hfields : OrderedMap.Alike (WrittenAlike SchemaOrRef.encode) fields fields') :
    ((parameterFields s default os fields).map fun p => p.encode.ordered).Perm
      ((parameterFields s' default os' fields').map fun p => p.encode.ordered) := by
  obtain ⟨fields₁, hperm, hrel⟩ := hfields.exists_perm
  refine ((hperm.filterMap _).map _).trans (.of_eq ?_)
  rw [← List.forall₂_eq_eq_eq, List.forall₂_map_left_iff, List.forall₂_map_right_iff]
  refine List.rel_filterMap (fun f f' hf => ?_) hrel
  obtain ⟨hname, hx⟩ := hf
  have ho := alike_override_getD hos f'.1
  have hto : ((os'.get? f'.1).getD {}).Tidy :=
    InputDef.tidy_override_getD (i := ⟨f'.2, os'⟩) ⟨hx.normal', ht'⟩ f'.1
  rw [hname, location_eq hos, hs.isRequired_eq]
  cases (location default os' f'.1).parameterLocation? with
  | none => exact .none
  | some l => exact .some (similar_parameter hx ho hto)

/-- With alike overrides and fields, the fields of the body are alike. -/
theorem alike_bodyFields (default : InputLocation)
    (hos : OrderedMap.Alike ParameterOverride.Alike os os')
    (hfields : OrderedMap.Alike (WrittenAlike SchemaOrRef.encode) fields fields') :
    OrderedMap.Alike (WrittenAlike SchemaOrRef.encode) (bodyFields default os fields)
      (bodyFields default os' fields') := by
  rw [bodyFields, bodyFields, location_eq hos]
  exact hfields.filter fun name => decide (location default os' name = .body)

/-- The schemas of bodies with alike fields differ in nothing but the order of their required
properties. -/
theorem rearranged_bodySchema (hplace : places ["required"]) (hs : s.Alike s')
    (hfields : OrderedMap.Alike (WrittenAlike SchemaOrRef.encode) fields fields') :
    Json.Rearranged places (SchemaOrRef.encode (.inline (bodySchema s fields)))
      (SchemaOrRef.encode (.inline (bodySchema s' fields'))) := by
  have hn := normal_bodySchema s (mapOf_written hfields)
  have hn' := normal_bodySchema s'
    (mapOf_written (hfields.symm.imp fun _ _ h => Json.Alike.symm h))
  simp only [SchemaOrRef.encode, Schema.encode_eq] at hn hn' ⊢
  have hproperties : Json.Similar (Encode.map SchemaOrRef.encode (OrderedMap.ofPairs fields))
      (Encode.map SchemaOrRef.encode (OrderedMap.ofPairs fields')) := by
    rw [hfields.distinct.ofPairs_eq, hfields.distinct'.ofPairs_eq]
    exact (written_map hfields).similar
  have hrequired : Json.Rearranged (places.below "required")
      (Encode.list .str ((fields.map Prod.fst).filter s.isRequired))
      (Encode.list .str ((fields'.map Prod.fst).filter s'.isRequired)) := by
    rw [hs.isRequired_eq]
    exact .items hplace (((hfields.keys_perm.filter _).map _).map _)
  exact (((((Members.Rearranged.refl _).append (.member (.similar hproperties))).append
    (.member hrequired)).append (.refl _))).obj (Json.normal_obj_iff.1 hn).1
    (Json.normal_obj_iff.1 hn').1

/-- The bodies with the given schemas differ as these do. -/
theorem rearranged_json {x x' : SchemaOrRef}
    (h : Json.Rearranged (((places.below "content").below "application/json").below "schema")
      x.encode x'.encode) :
    Json.Rearranged places (RequestBody.json x).encode (RequestBody.json x').encode := by
  have hmedia : Json.Rearranged ((places.below "content").below "application/json")
      (MediaType.ofSchema x).encode (MediaType.ofSchema x').encode :=
    Members.Rearranged.obj (.member h) (List.nodup_singleton _) (List.nodup_singleton _)
  have hcontent : Json.Rearranged (places.below "content")
      (Encode.map MediaType.encode (RequestBody.json x).content)
      (Encode.map MediaType.encode (RequestBody.json x').content) :=
    Members.Rearranged.obj (.member hmedia) (List.nodup_singleton _) (List.nodup_singleton _)
  exact Members.Rearranged.obj ((Members.Rearranged.member hcontent).append (.refl _))
    (by simp [OrderedMap.Distinct, RequestBody.json, Encode.optional])
    (by simp [OrderedMap.Distinct, RequestBody.json, Encode.optional])

/-- The parameters are the same ones up to their order, and the bodies differ in nothing but the
order of the required properties, and this only where the schema of the body is built. -/
structure Alike (built : Prop) (x x' : SplitInput) : Prop where
  parameters : Option.Rel (fun ps ps' => (ps.map fun p => p.encode.ordered).Perm
    (ps'.map fun p => p.encode.ordered)) x.parameters x'.parameters
  requestBody : ∀ places : Places,
    (built → places ["content", "application/json", "schema", "required"]) →
      Option.Rel (fun b b' => Json.Rearranged places b.encode b'.encode) x.requestBody
        x'.requestBody

/-- Alike inputs are split in the same way. -/
theorem exists_splitInput {written written' : SchemaOrRef} {x : SplitInput}
    (hwritten : written.Alike written') (hs : s.Alike s')
    (hos : OrderedMap.Alike ParameterOverride.Alike os os')
    (ht' : ∀ e ∈ os', ParameterOverride.Tidy e.2) (h : splitInput written s default os = .ok x) :
    ∃ x', splitInput written' s' default os' = .ok x' ∧
      Alike (¬(os.isEmpty ∧ default = .body)) x x' := by
  rw [splitInput] at h
  rw [splitInput, ← hs.isObject_eq]
  split at h
  · cases h
  next hobject =>
  rw [if_neg hobject]
  split at h
  · cases h
  next fields hfields =>
  obtain ⟨fields', hfields', hrel⟩ := OptionRel.exists_of_eq_some hs.properties hfields
  have hps := parameterFields_perm default hs hos ht' hrel
  have hbody := alike_bodyFields default hos hrel
  simp only [hfields', ← hos.isEmpty_eq]
  split at h
  · next hfast =>
    cases h
    exact ⟨_, if_pos hfast, .none, fun places _ =>
      .some (rearranged_json (.similar hwritten.written.similar))⟩
  · next hgeneral =>
    cases h
    refine ⟨_, if_neg hgeneral, ?_, fun places hplaces => ?_⟩
    · have hempty := hps.isEmpty_eq
      rw [List.isEmpty_map, List.isEmpty_map] at hempty
      simp only [hempty]
      split
      · exact .none
      · exact .some hps
    · simp only [hbody.isEmpty_eq]
      split
      · exact .none
      · exact .some (rearranged_json (rearranged_bodySchema (hplaces hgeneral) hs hbody))

end SplitInput

namespace InputDef

/-- The schema of the body is built from some of the fields, and is not the one that is written. -/
def BuildsBody (default : InputLocation) (i : InputDef) : Prop :=
  ¬(i.parameters.isEmpty ∧ default = .body)

variable {resolver resolver' : Resolver} {i i' : InputDef}

/-- Alike inputs resolve to alike schemas. -/
theorem exists_resolve {x x' : SchemaOrRef} {s : Schema} (hresolver : resolver.Alike resolver')
    (hx : x.Alike x') (h : resolve resolver x = .ok s) :
    ∃ s', resolve resolver' x' = .ok s' ∧ s.Alike s' := by
  cases hx with
  | reference hr => exact hresolver _ _ hr.target s h
  | boolean b => cases h
  | inline hs =>
    cases h
    exact ⟨_, rfl, hs⟩

/-- Alike inputs are split alike, but for the required list of a body that is built from the
fields. -/
theorem exists_split {default : InputLocation} {x : SplitInput}
    (hresolver : resolver.Alike resolver') (hi : i.Alike i') (ht' : i'.Tidy)
    (h : i.split resolver default = .ok x) :
    ∃ x', i'.split resolver' default = .ok x' ∧ SplitInput.Alike (i.BuildsBody default) x x' := by
  obtain ⟨s, hs, h⟩ := Decode.bind_eq_ok.1 h
  obtain ⟨s', hs', halike⟩ := exists_resolve hresolver hi.schema hs
  obtain ⟨x', hx', hrel⟩ :=
    SplitInput.exists_splitInput hi.schema halike hi.parameters ht'.parameters h
  exact ⟨x', Decode.bind_eq_ok.2 ⟨s', hs', hx'⟩, hrel⟩

end InputDef

/-! ## Building responses -/

/-- A media type is empty iff it has no members. -/
theorem MediaType.isEmpty_iff {m : MediaType} : m.isEmpty = true ↔ m.members = [] := by
  obtain ⟨s, e, es, en, ext⟩ := m
  cases s <;> cases e <;> cases es <;> cases en <;> simp [isEmpty, members, Encode.optional]

/-- Media types that are written alike are both empty or none is. -/
theorem MediaType.isEmpty_eq {m m' : MediaType} (h : WrittenAlike encode m m') :
    m.isEmpty = m'.isEmpty := by
  have hlength := h.same.length_eq
  rw [Json.orderedMembers_eq_map, Json.orderedMembers_eq_map, List.length_map,
    List.length_map] at hlength
  rw [Bool.eq_iff_iff, isEmpty_iff, isEmpty_iff, ← List.length_eq_zero_iff, hlength,
    List.length_eq_zero_iff]

namespace Responses

/-- Outputs that may be left out are alike with their defaults. -/
theorem alike_output_getD {o o' : Option OutputDef} (h : Option.Rel OutputDef.Alike o o') :
    (o.getD {}).Alike (o'.getD {}) :=
  OptionRel.getD h ⟨rfl, rfl, .refl rfl⟩

/-- The responses for success of alike outputs are written as alike trees. -/
theorem written_success {o o' : OutputDef} (h : o.Alike o') :
    WrittenAlike Response.encode (success o) (success o') := by
  have hn' := normal_success h.media.normal'
  refine ⟨normal_success h.media.normal, hn',
    Json.similar_obj ?_ (Json.normal_obj_iff.1 hn').1⟩
  have hcontent : Members.Same
      (Encode.optional "content" (Encode.map MediaType.encode) (success o).content)
      (Encode.optional "content" (Encode.map MediaType.encode) (success o').content) := by
    rw [success, success, MediaType.isEmpty_eq h.media]
    split
    · exact .refl _
    · exact Members.same_optional (.some (written_map (.singleton h.media)))
  have hdescription : (success o).description = (success o').description := by
    rw [success, success, h.description]
  rw [hdescription]
  exact (((Members.Same.refl _).append hcontent).append (.refl _)).append (.refl _)

/-- Responses are built from alike outputs and errors in the same way. -/
theorem exists_build {output output' : Option OutputDef} {errors errors' : Option Responses}
    {rs : Responses} (houtput : Option.Rel OutputDef.Alike output output')
    (herrors : Option.Rel (OrderedMap.Alike (WrittenAlike (RefOr.encode Response.encode))) errors
      errors')
    (h : build output errors = .ok rs) : ∃ rs', build output' errors' = .ok rs' ∧
      OrderedMap.Alike (WrittenAlike (RefOr.encode Response.encode)) rs rs' := by
  have ho := alike_output_getD houtput
  have hes := OptionRel.getD herrors .nil
  have hcode : successCode (output.getD {}) = successCode (output'.getD {}) := by
    rw [successCode, successCode, ho.statusCode]
  rw [build] at h
  rw [build, ← hcode]
  split at h
  · next hrange =>
    cases h
    have hsuccess : WrittenAlike (RefOr.encode Response.encode) (.inline (success (output.getD {})))
        (.inline (success (output'.getD {}))) := written_success ho
    exact ⟨_, if_pos hrange, (OrderedMap.Alike.singleton hsuccess).insertAll hes⟩
  · cases h

end Responses

/-! ## Compiling operations -/

namespace OperationExtras

/-- Without the extensions that would shadow a computed key, the fields are written as the members
with other keys. -/
theorem members_withoutComputed (e : OperationExtras) :
    e.withoutComputed.members = e.members.filter fun m => decide (m.1 ∉ computedKeys) := by
  have hoptional {α : Type} (name : String) (encode : α → Json) (o : Option α)
      (h : name ∉ computedKeys) :
      (Encode.optional name encode o).filter (fun m => decide (m.1 ∉ computedKeys))
        = Encode.optional name encode o := by
    cases o with
    | none => rfl
    | some a => exact List.filter_cons_of_pos (by simpa using h)
  simp only [members, withoutComputed, List.filter_append]
  repeat rw [hoptional _ _ _ (by decide)]

end OperationExtras

namespace OperationDef

variable {resolver resolver' : Resolver} {kind : OperationKind} {id : String}
  {d d' : OperationDef}

/-- The definition has an input from which the schema of the body is built. -/
def BuildsBody (kind : OperationKind) (d : OperationDef) : Prop :=
  ∃ i ∈ d.input, i.BuildsBody kind.defaultLocation

/-- The inputs of alike definitions are compiled alike, but for the required list of a body that is
built. -/
theorem exists_compileInput {x : SplitInput} (hresolver : resolver.Alike resolver')
    (hd : d.Alike d') (ht' : d'.Tidy) (h : (d.compileInput resolver kind id).result = .ok x) :
    ∃ x', (d'.compileInput resolver' kind id).result = .ok x' ∧
      SplitInput.Alike (d.BuildsBody kind) x x' := by
  rw [compileInput] at h
  rw [compileInput]
  have hinput := hd.input
  cases hi : d.input with
  | none =>
    rw [hi] at h hinput
    cases h
    cases hi' : d'.input with
    | none => exact ⟨{}, rfl, .none, fun _ _ => .none⟩
    | some i' =>
      rw [hi'] at hinput
      cases hinput
  | some i =>
    obtain ⟨i', hi', halike⟩ := OptionRel.exists_of_eq_some hinput hi
    rw [hi] at h
    obtain ⟨-, -, h⟩ := Logged.result_bind_eq_ok.1 h
    rw [Logged.result_ofExcept, ServiceError.inPhase_eq_ok] at h
    obtain ⟨x', hx', hrel⟩ := InputDef.exists_split hresolver halike (ht'.input i' hi') h
    simp only [hi']
    refine ⟨x', Logged.result_bind_eq_ok.2 ⟨(), rfl, ?_⟩, hrel.parameters, fun places hplaces =>
      hrel.requestBody places fun hbuilds => hplaces ⟨i, hi, hbuilds⟩⟩
    rw [Logged.result_ofExcept, ServiceError.inPhase_eq_ok]
    exact hx'

/-- Operations that are put together from alike parts differ in nothing but the order of their
parameters, and of the required properties of a body that is built. -/
theorem rearranged_assemble {x x' : SplitInput} {rs rs' : Responses} {places : Places}
    {built : Prop} (hd : d.Alike d') (hx : SplitInput.Alike built x x')
    (hrs : OrderedMap.Alike (WrittenAlike (RefOr.encode Response.encode)) rs rs')
    (hn : (d.assemble id x rs).encode.Normal) (hn' : (d'.assemble id x' rs').encode.Normal)
    (hparameters : places ["parameters"])
    (hrequired : built →
      places ["requestBody", "content", "application/json", "schema", "required"]) :
    Json.Rearranged places (d.assemble id x rs).encode (d'.assemble id x' rs').encode := by
  obtain ⟨hdistinct, -⟩ := Json.normal_obj_iff.1 hn
  obtain ⟨hdistinct', -⟩ := Json.normal_obj_iff.1 hn'
  have hps : Members.Rearranged places
      (Encode.optional "parameters" Parameters.encode (d.assemble id x rs).parameters)
      (Encode.optional "parameters" Parameters.encode (d'.assemble id x' rs').parameters) := by
    refine .optional (OptionRel.map hx.parameters fun ps ps' hperm => .items hparameters ?_)
    simpa only [List.map_map, Function.comp_def, RefOr.encode] using hperm
  have hbody : Members.Rearranged places
      (Encode.optional "requestBody" (RefOr.encode RequestBody.encode)
        (d.assemble id x rs).requestBody)
      (Encode.optional "requestBody" (RefOr.encode RequestBody.encode)
        (d'.assemble id x' rs').requestBody) :=
    .optional (OptionRel.map (hx.requestBody (places.below "requestBody") hrequired)
      fun _ _ h => h)
  have hrest : Members.Same
      (("responses", Responses.encode rs) :: d.extras.withoutComputed.members)
      (("responses", Responses.encode rs') :: d'.extras.withoutComputed.members) := by
    rw [OperationExtras.members_withoutComputed, OperationExtras.members_withoutComputed]
    exact (Members.same_member (Responses.written_of_alike hrs).similar).append
      (hd.extras.filter fun k => decide (k ∉ OperationExtras.computedKeys))
  have hrest' : OrderedMap.Distinct
      (("responses", Responses.encode rs') :: d'.extras.withoutComputed.members) :=
    ((List.sublist_append_right _ _).map _).nodup hdistinct'
  have hdescription : (d.assemble id x rs).description = (d'.assemble id x' rs').description := by
    rw [assemble, assemble, hd.description]
  refine Members.Rearranged.obj ?_ hdistinct hdistinct'
  rw [hdescription]
  exact (((Members.Rearranged.refl _).append hps).append hbody).append (.of_same hrest hrest')

end OperationDef

/-- An operation is compiled if its input is split and its responses are built. -/
theorem compileOperation_of_ok {resolver : Resolver} {kind : OperationKind} {id : String}
    {d : OperationDef} {x : SplitInput} {rs : Responses}
    (hx : (d.compileInput resolver kind id).result = .ok x)
    (hrs : Responses.build d.output d.errors = .ok rs) :
    (compileOperation resolver kind id d).result = .ok (d.assemble id x rs) := by
  refine Logged.result_bind_eq_ok.2 ⟨(), rfl, Logged.result_bind_eq_ok.2 ⟨x, hx,
    Logged.result_bind_eq_ok.2 ⟨rs, ?_, Logged.result_bind_eq_ok.2 ⟨(), rfl, rfl⟩⟩⟩⟩
  rw [Logged.result_ofExcept, ServiceError.inPhase_eq_ok]
  exact hrs

/-- **Operations do not depend on the order of members.** If an operation is compiled, alike
definitions are compiled as well, to an operation that differs in nothing but the order of the
parameters, and of the required properties of a body that is built. -/
theorem exists_compileOperation {resolver resolver' : Resolver} {kind : OperationKind}
    {id : String} {d d' : OperationDef} {o : Operation} (hresolver : resolver.Alike resolver')
    (hd : d.Alike d') (ht : d.Tidy) (ht' : d'.Tidy) (htidy : resolver.Tidy)
    (htidy' : resolver'.Tidy) (h : (compileOperation resolver kind id d).result = .ok o) :
    ∃ o', (compileOperation resolver' kind id d').result = .ok o' ∧
      ∀ places : Places, places ["parameters"] →
        (d.BuildsBody kind →
          places ["requestBody", "content", "application/json", "schema", "required"]) →
        Json.Rearranged places o.encode o'.encode := by
  obtain ⟨x, rs, hx, hrs, rfl⟩ := compileOperation_ok h
  obtain ⟨x', hx', halike⟩ := OperationDef.exists_compileInput hresolver hd ht' hx
  obtain ⟨rs', hrs', hresponses⟩ := Responses.exists_build hd.output hd.errors hrs
  have h' := compileOperation_of_ok hx' hrs'
  obtain ⟨hn, -⟩ := tidy_compileOperation ht htidy h
  obtain ⟨hn', -⟩ := tidy_compileOperation ht' htidy' h'
  exact ⟨_, h', fun places hparameters hrequired =>
    OperationDef.rearranged_assemble hd halike hresponses hn.normal hn'.normal hparameters
      hrequired⟩

end RpcOpenApi
