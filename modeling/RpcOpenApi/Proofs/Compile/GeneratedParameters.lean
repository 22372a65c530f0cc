import RpcOpenApi.Proofs.Codec.Readable
import RpcOpenApi.Proofs.Compile.DistinctKeys
import RpcOpenApi.Proofs.Compile.Splitting

/-!
# What a generated parameter is read back as

The parameter of a field is written with the extensions of its override. Among the parameters of an
operation a parameter may be given by reference, so these extensions can make a reference of what is
written (`ParameterOverride.Refers`): if they have a text under `$ref`, the parameter is read back
as a reference and says nothing of its field. Otherwise it is read back as a parameter with the
name, the location and the schema of its field (`decode_encode_parameter`).
-/

namespace RpcOpenApi

/-! ## Overrides -/

namespace ParameterOverride

/-- The extensions of the override make a reference of what they are written in: they have a text
under `$ref`, and also under `summary` if they have something there. -/
structure Refers (o : ParameterOverride) : Prop where
  target : ∃ t, OrderedMap.get? o.extensions "$ref" = some (.str t)
  summary : ∀ j ∈ OrderedMap.get? o.extensions "summary", j = .null ∨ ∃ s, j = .str s

/-- The content of an override can be read again, whatever the override was read from. -/
theorem readable_content (v : Json) : Yields decode (fun o => ∀ c ∈ o.content,
    Readable (Decode.map MediaType.decode) (Encode.map MediaType.encode) c) v := by
  refine yields_record (fun ms o h => ?_) v
  obtain ⟨-, -, -, -, -, -, -, -, -, -, hcontent, -⟩ := read_eq_ok.1 h
  exact Members.yields_optional (fun e _ _ => RpcOpenApi.readable_content e.2) hcontent

end ParameterOverride

/-- What is said about a field of an input was read as an override. -/
theorem InputDef.exists_decode_of_mem {v : Json} {i : InputDef} (hi : decode v = .ok i) :
    ∀ e ∈ i.parameters, ∃ v', ParameterOverride.decode v' = .ok e.2 := by
  have hoverrides (v : Json) : Yields decodeOverrides
      (fun os => ∀ e ∈ os, ∃ v', ParameterOverride.decode v' = .ok e.2) v :=
    fun os h => (yields_map (P := fun o => ∃ v', ParameterOverride.decode v' = .ok o)
      (fun _ _ e _ _ ho => ⟨e.2, ho⟩) os h).values
  obtain ⟨-, hparameters⟩ := yields (P := fun _ => True) (fun _ _ _ _ => trivial)
    (fun j _ => hoverrides j) (by simp) i hi
  exact hparameters

/-- The content that is given for a field, if any, can be read. -/
theorem InputDef.readable_override_getD {v : Json} {i : InputDef} (hi : decode v = .ok i)
    (name : String) : ∀ c ∈ ((i.parameters.get? name).getD {}).content,
      Readable (Decode.map MediaType.decode) (Encode.map MediaType.encode) c := by
  cases h : i.parameters.get? name with
  | none => simp
  | some o =>
    obtain ⟨v', ho⟩ := exists_decode_of_mem hi _ (OrderedMap.mem_of_get? h)
    exact ParameterOverride.readable_content v' o ho

/-! ## Texts that may be left out -/

/-- A text that may be left out is read iff what is written there, if anything, is a text or
`null`. -/
theorem Members.exists_optional_text {ms : Members} {name : String} {o : Option Json}
    (hv : values [name] ms = o.toList) : (∃ t, ms.optional name Decode.text = .ok t) ↔
      ∀ j ∈ o, j = .null ∨ ∃ s, j = .str s := by
  simp only [optional_eq_ok, hv]
  cases o with
  | none => simp
  | some j => cases j <;> simp [Decode.optional, Decode.text, bind, Except.bind, pure, Except.pure]

/-! ## Parameters of fields -/

namespace SplitInput

variable (name : String) (l : ParameterLocation) (s : SchemaOrRef) (required : Bool)
  {o : ParameterOverride} {r : Reference}

/-- The extensions of a parameter stand outside of its fields. -/
theorem outside_parameter (ho : o.Tidy) :
    Outside Parameter.fieldNames (parameter name l s required o).extensions :=
  ho.extensions.filter_notMem.mono (by decide)

/-- Under a key that is not reserved, a parameter has the extension of the override. -/
theorem values_extensions (ho : o.Tidy) {k : String} (hk : k ∉ reservedKeys) :
    Members.values [k] (parameter name l s required o).extensions
      = (OrderedMap.get? o.extensions k).toList := by
  have hdistinct := (Json.normal_obj_iff.1 (outside_parameter name l s required ho).normal).1
  rw [Members.values_of_distinct hdistinct, parameter,
    OrderedMap.get?_filter (fun k => decide (k ∉ reservedKeys))]
  simp [hk]

/-- What a reader of references finds in the parameter of a field. -/
theorem exists_members_parameter (ho : o.Tidy) :
    ∃ ms, (parameter name l s required o).encode = .obj ms ∧
      Members.values ["$ref"] ms = (OrderedMap.get? o.extensions "$ref").toList ∧
      Members.values ["summary"] ms = (OrderedMap.get? o.extensions "summary").toList ∧
      Members.values ["description"] ms = o.description.toList.map .str := by
  have hout := outside_parameter name l s required ho
  have hvalues {k : String} (hk : k ∉ reservedKeys) := values_extensions name l s required ho hk
  refine ⟨_, rfl, ?_, ?_, ?_⟩
  · simp [hvalues, reservedKeys]
  · simp [hvalues, reservedKeys]
  · simp (disch := decide) only [Members.values_cons, Members.values_append,
      Members.values_optional, hout.values_eq_nil]
    simp [parameter]

variable {name} {l} {s} {required}

/-- The parameter of a field is read as a reference only with the target that its override has. -/
theorem target_of_decode_parameter (ho : o.Tidy)
    (h : Reference.decode (parameter name l s required o).encode = .ok r) :
    OrderedMap.get? o.extensions "$ref" = some (.str r.target) := by
  obtain ⟨ms, hms, href, -, -⟩ := exists_members_parameter name l s required ho
  rw [hms, Reference.decode_obj] at h
  obtain ⟨htarget, -⟩ := Reference.read_eq_ok.1 h
  obtain ⟨j, hj, hread⟩ := Members.required_eq_ok.1 htarget
  have hget : OrderedMap.get? o.extensions "$ref" = some j := by simpa [href] using hj
  obtain rfl := Decode.text_eq_ok.1 hread
  exact hget

/-- The parameter of a field is read as a reference iff the extensions of its override make one of
it. -/
theorem refers_parameter_iff (ho : o.Tidy) :
    Reference.Refers (parameter name l s required o).encode ↔ o.Refers := by
  obtain ⟨ms, hms, href, hsummary, hdescription⟩ :=
    exists_members_parameter name l s required ho
  have htext := Members.exists_optional_text hsummary
  constructor
  · rintro ⟨r, hr⟩
    refine ⟨⟨r.target, target_of_decode_parameter ho hr⟩, ?_⟩
    rw [hms, Reference.decode_obj] at hr
    obtain ⟨-, hread, -⟩ := Reference.read_eq_ok.1 hr
    exact htext.1 ⟨_, hread⟩
  · rintro ⟨⟨t, ht⟩, htexts⟩
    obtain ⟨summary, hread⟩ := htext.2 htexts
    rw [hms]
    refine ⟨⟨t, summary, o.description, _⟩,
      Reference.decode_obj.2 (Reference.read_eq_ok.2 ⟨?_, hread, ?_, rfl⟩)⟩
    · exact Members.required_of_readsBack (readsBack_text t) (by simp [href, ht])
    · exact Members.optional_of_readsBack (optionReadsBack_text _) hdescription

end SplitInput

/-- A parameter whose schema is read back and whose content can be read is read as a parameter with
its name, its location and its schema. -/
theorem Parameter.exists_decode {p : Parameter}
    (hs : OptionReadsBack SchemaOrRef.decode SchemaOrRef.encode p.schema)
    (hcontent : ∀ c ∈ p.content,
      Readable (Decode.map MediaType.decode) (Encode.map MediaType.encode) c)
    (hout : Outside fieldNames p.extensions) :
    ∃ p', decode p.encode = .ok p' ∧
      p'.name = p.name ∧ p'.location = p.location ∧ p'.schema = p.schema := by
  obtain ⟨ms, hms⟩ : ∃ ms, p.encode = .obj ms := ⟨_, rfl⟩
  have hmembers := Json.obj.inj hms
  obtain ⟨ex, hexample⟩ := Members.exists_optional ms "example"
    (fun j (_ : j ∈ p.example?) => readable_free j)
    (by rw [← hmembers]; simp (disch := decide) [hout.values_eq_nil])
  obtain ⟨examples, hexamples⟩ := Members.exists_optional ms "examples"
    (fun es (_ : es ∈ p.examples) => readable_freeMap es)
    (by rw [← hmembers]; simp (disch := decide) [hout.values_eq_nil])
  obtain ⟨content, hcontent⟩ := Members.exists_optional ms "content" hcontent
    (by rw [← hmembers]; simp (disch := decide) [hout.values_eq_nil])
  exact ⟨{ p with example? := ex, examples, content },
    decode_encode_of_parts hms hs hout hexample hexamples hcontent, rfl, rfl, rfl⟩

/-- The schema of a parameter that is read from what one is written as is read back. -/
theorem Parameter.readsBack_schema_of_decode {p p' : Parameter} {s : SchemaOrRef}
    (hout : Outside fieldNames p.extensions) (hs : p.schema = some s)
    (h : decode p.encode = .ok p') (hs' : p'.schema = some s) :
    ReadsBack SchemaOrRef.decode SchemaOrRef.encode s := by
  obtain ⟨ms, hms, hread⟩ := Decode.record_eq_ok.1 h
  obtain ⟨-, -, -, -, -, -, -, -, -, hschema, -⟩ := read_eq_ok.1 hread
  have hvalues : Members.values ["schema"] ms = [s.encode] := by
    rw [← Json.obj.inj hms]
    simp (disch := decide) [hout.values_eq_nil, hs]
  rw [hs', Members.optional_eq_ok, hvalues] at hschema
  rcases hschema with ⟨hnil, -⟩ | ⟨j, hj, hread⟩
  · cases hnil
  · obtain rfl : s.encode = j := by simpa using hj
    exact (Decode.optional_eq_ok_some.1 hread).2

/-- **What a generated parameter is read back as.** Whatever an input is read from, each parameter
that it is split into is that of a field: it has the name and the schema of the field and is carried
where the field is placed. What it is written as is read back as a parameter of the field iff the
schema of the field is read back, as in any schema that is read from a tree without repeated keys,
and the extensions of the override do not make a reference of it. If they do, it is read as the
reference that they have. -/
theorem decode_encode_parameter (v : Json) (i : InputDef) (schema : Schema)
    (default : InputLocation) (split : SplitInput) (p : Parameter)
    (hi : InputDef.decode v = .ok i)
    (hsplit : splitInput i.schema schema default i.parameters = .ok split)
    (hp : p ∈ split.parameters.getD []) :
    ∃ field ∈ schema.properties.getD [],
      let o := (OrderedMap.get? i.parameters field.1).getD {}
      let back := RefOr.decode Parameter.decode p.encode
      p.name = field.1 ∧ p.schema = some field.2 ∧
      p.location.text
        = (((OrderedMap.get? i.parameters field.1).bind (·.location)).getD default).text ∧
      (∀ v' : Json, v'.KeysDistinct → v'.NumbersFinite → Schema.decode v' = .ok schema →
        ReadsBack SchemaOrRef.decode SchemaOrRef.encode field.2) ∧
      ((∃ q, back = .ok (.inline q) ∧ q.name = p.name ∧ q.location = p.location ∧
          q.schema = p.schema) ↔
        ReadsBack SchemaOrRef.decode SchemaOrRef.encode field.2 ∧ ¬o.Refers) ∧
      ((∃ r, back = .ok (.reference r)) ↔ o.Refers) ∧
      ∀ r, back = .ok (.reference r) →
        OrderedMap.get? o.extensions "$ref" = some (.str r.target) := by
  obtain ⟨fields, hfields, hparameters, -⟩ := splitInput_ok hsplit
  obtain ⟨f, hf, l, hl, rfl⟩ : ∃ f ∈ fields, ∃ l,
      (SplitInput.location default i.parameters f.1).parameterLocation? = some l ∧
        SplitInput.parameter f.1 l f.2 (schema.isRequired f.1)
          ((OrderedMap.get? i.parameters f.1).getD {}) = p := by
    cases hps : split.parameters with
    | none => simp [hps] at hp
    | some ps =>
      rw [hps, Option.getD_some, hparameters ps hps] at hp
      obtain ⟨f, hf, hmap⟩ := List.mem_filterMap.1 hp
      exact ⟨f, hf, Option.map_eq_some_iff.1 hmap⟩
  have hlocation := SplitInput.text_parameterLocation? hl
  rw [SplitInput.location_eq_getD] at hlocation
  have ho := InputDef.tidy_override_getD (InputDef.tidy v i hi) f.1
  have hcontent := InputDef.readable_override_getD hi f.1
  have hout := SplitInput.outside_parameter f.1 l f.2 (schema.isRequired f.1) ho
  -- the encoded parameter holds a text under `$ref` only if the override puts it there
  have hrefers : Reference.Refers
      (SplitInput.parameter f.1 l f.2 (schema.isRequired f.1) _).encode ↔ _ :=
    SplitInput.refers_parameter_iff ho
  refine ⟨f, by rwa [hfields], rfl, rfl, hlocation, fun v' hkeys hfinite hv' => ?_, ⟨?_, ?_⟩, ?_,
    fun r hr => ?_⟩
  · have hstable := Schema.stable v' (Json.normal_of_keysDistinct hkeys hfinite) schema hv'
    exact (hstable.properties fields hfields).values f hf
  · rintro ⟨q, hq, -, -, hs⟩
    obtain ⟨hnot, hread⟩ := RefOr.decode_eq_inline.1 hq
    exact ⟨Parameter.readsBack_schema_of_decode hout rfl hread hs, fun h => hnot (hrefers.2 h)⟩
  · rintro ⟨hs, hnot⟩
    obtain ⟨q, hread, hq⟩ :=
      Parameter.exists_decode (optionReadsBack_some hs f.2.encode_ne_null) hcontent hout
    exact ⟨q, RefOr.decode_eq_inline.2 ⟨fun h => hnot (hrefers.1 h), hread⟩, hq⟩
  · exact (exists_congr fun r => RefOr.decode_eq_reference).trans hrefers
  · exact SplitInput.target_of_decode_parameter ho (RefOr.decode_eq_reference.1 hr)

/-- An input of one field whose override places it and has extensions under both reserved keys and,
under `$ref`, one that is no text. -/
def taggedInput : Json :=
  .obj
    [("schema", .obj [("type", .str "object"),
      ("properties", .obj [("id", .obj [("type", .str "string")])])]),
    ("parameters", .obj [("id", .obj
      [("in", .str "path"), ("name", .str "key"), ("schema", .bool true),
        ("$ref", .num (.int 1))])])]

/-- The parameter of the tagged input is read back as that of its field. -/
theorem decode_encode_taggedInput : ∃ i s split p q, InputDef.decode taggedInput = .ok i ∧
    i.schema = .inline s ∧ splitInput i.schema s .query i.parameters = .ok split ∧
    split.parameters = some [p] ∧ RefOr.decode Parameter.decode p.encode = .ok (.inline q) ∧
    q.name = "id" ∧ q.location = .path ∧ q.schema = some (.inline (.ofType "string")) := by
  obtain ⟨field, hfield, -, -, -, -, hback, -⟩ := decode_encode_parameter taggedInput _
    { type := some (.single "object"), properties := some [("id", .inline (.ofType "string"))] }
    .query _ _ rfl rfl (.head _)
  obtain rfl := List.mem_singleton.1 hfield
  obtain ⟨q, hq, hname, hlocation, hschema⟩ := hback.2 ⟨rfl, fun h => by
    obtain ⟨t, ht⟩ := h.target
    cases ht⟩
  exact ⟨_, _, _, _, q, rfl, rfl, rfl, rfl, hq, hname, hlocation, hschema⟩

/-- An input of one field whose override has a text under `$ref`. -/
def pointedInput : Json :=
  .obj
    [("schema", .obj [("type", .str "object"),
      ("properties", .obj [("id", .obj [("type", .str "string")])])]),
    ("parameters", .obj [("id", .obj [("$ref", .str "#/components/parameters/Id")])])]

/-- The parameter of the pointed input is read back as a reference. -/
theorem reference_pointedInput : ∃ i s split p r, InputDef.decode pointedInput = .ok i ∧
    i.schema = .inline s ∧ splitInput i.schema s .query i.parameters = .ok split ∧
    split.parameters = some [p] ∧ p.name = "id" ∧
    RefOr.decode Parameter.decode p.encode = .ok (.reference r) ∧
    r.target = "#/components/parameters/Id" ∧
    ∀ q, RefOr.decode Parameter.decode p.encode ≠ .ok (.inline q) := by
  refine ⟨_, _, _, _, _, rfl, rfl, rfl, rfl, rfl, rfl, rfl, fun q hq => ?_⟩
  cases hq

end RpcOpenApi
