import RpcOpenApi.Proofs.Compile.Run

/-!
# Where the fields of an input go

Unless an input is the body as it is written, each of its fields goes to one place: to a parameter,
or into the schema that the body is built with (`partition_splitInput`). Only what is said about the
fields of the input matters for that, so something that is said about another name is ignored
(`parameterFields_insert`, `bodyFields_insert`). But the input is the body as it is written only if
nothing is said about any name, and there such a saying is noticed (`splitInput_insert_iff`).
-/

namespace RpcOpenApi

namespace SplitInput

section
variable {schema : Schema} {default : InputLocation} {overrides : Overrides}
  {fields : OrderedMap String SchemaOrRef} {name : String}

/-- A field goes where its override places it, else to the default location. -/
theorem location_eq_getD (default : InputLocation) (overrides : Overrides) (name : String) :
    location default overrides name
      = ((OrderedMap.get? overrides name).bind (·.location)).getD default := by
  rw [location]
  cases OrderedMap.get? overrides name <;> rfl

/-- A field is required iff its name is listed. -/
theorem isRequired_eq (schema : Schema) (name : String) :
    schema.isRequired name = decide (name ∈ schema.required.getD []) := by
  rw [Schema.isRequired]
  cases schema.required <;> simp

/-- A parameter is carried where its field is placed. -/
theorem text_parameterLocation? {l : InputLocation} {l' : ParameterLocation}
    (h : l.parameterLocation? = some l') : l'.text = l.text := by
  cases l <;> cases h <;> rfl

/-- The names of the parameters are those of the fields that are not placed in the body. -/
theorem map_name_parameterFields (schema : Schema) (default : InputLocation) (overrides : Overrides)
    (fields : OrderedMap String SchemaOrRef) :
    (parameterFields schema default overrides fields).map (·.name)
      = (OrderedMap.keys fields).filter (location default overrides · ≠ .body) := by
  have hfield (f : String × SchemaOrRef) :
      ((location default overrides f.1).parameterLocation?.map (fun l =>
        parameter f.1 l f.2 (schema.isRequired f.1)
          ((OrderedMap.get? overrides f.1).getD {}))).map (·.name)
        = if location default overrides f.1 ≠ .body then some f.1 else none := by
    rw [Option.map_map]
    cases location default overrides f.1 <;> rfl
  rw [parameterFields, List.map_filterMap, OrderedMap.keys, List.filter_map,
    ← List.filterMap_eq_filter, List.map_filterMap]
  refine List.filterMap_congr fun f _ => (hfield f).trans ?_
  simp only [Option.guard, Function.comp_apply, decide_eq_true_eq]
  split <;> rfl

/-- The names of the fields of the body are those of the fields that are placed in it. -/
theorem keys_bodyFields (default : InputLocation) (overrides : Overrides)
    (fields : OrderedMap String SchemaOrRef) :
    OrderedMap.keys (bodyFields default overrides fields)
      = (OrderedMap.keys fields).filter (location default overrides · = .body) := by
  rw [OrderedMap.keys, OrderedMap.keys, bodyFields, List.filter_map]
  rfl

/-- What a parameter says of its field. -/
theorem of_mem_parameterFields {p : Parameter} (hfields : OrderedMap.Distinct fields)
    (hp : p ∈ parameterFields schema default overrides fields) :
    p.schema = OrderedMap.get? fields p.name ∧
    p.location.text = (location default overrides p.name).text ∧
    p.required = ((OrderedMap.get? overrides p.name).bind (·.required)).or
      (if p.name ∈ schema.required.getD [] then some true else none) := by
  obtain ⟨f, hf, hmap⟩ := List.mem_filterMap.1 hp
  obtain ⟨l, hl, rfl⟩ := Option.map_eq_some_iff.1 hmap
  refine ⟨(hfields.get?_of_mem hf).symm, text_parameterLocation? hl, ?_⟩
  rw [parameter, isRequired_eq]
  cases OrderedMap.get? overrides f.1 with
  | none => simp
  | some o => cases ho : o.required <;> simp [ho]

/-- The schema of a body has its fields and lists the required ones, in their order. -/
theorem bodySchema_eq (hfields : OrderedMap.Distinct fields) :
    bodySchema schema fields =
      { type := some (.single "object")
        properties := some fields
        required := some ((OrderedMap.keys fields).filter (· ∈ schema.required.getD [])) } := by
  have hrequired : schema.isRequired = fun name => decide (name ∈ schema.required.getD []) :=
    funext (isRequired_eq schema)
  rw [bodySchema, hfields.ofPairs_eq, hrequired]
  rfl

/-! ## Names that are not fields -/

/-- What is said about a name that is none of the fields does not change where a field goes. -/
theorem get?_insert_of_mem {o : ParameterOverride} (hname : name ∉ OrderedMap.keys fields)
    {f : String × SchemaOrRef} (hf : f ∈ fields) :
    OrderedMap.get? (overrides.insert name o) f.1 = OrderedMap.get? overrides f.1 := by
  have hne : name ≠ f.1 := fun h => hname (h ▸ List.mem_map_of_mem hf)
  rw [OrderedMap.get?_insert, if_neg hne]

/-- What is said about another name does not matter for the parameters. -/
theorem parameterFields_insert {o : ParameterOverride} (hname : name ∉ OrderedMap.keys fields) :
    parameterFields schema default (overrides.insert name o) fields
      = parameterFields schema default overrides fields := by
  refine List.filterMap_congr fun f hf => ?_
  rw [location, location, get?_insert_of_mem hname hf]

/-- Nor does it for the fields of the body. -/
theorem bodyFields_insert {o : ParameterOverride} (hname : name ∉ OrderedMap.keys fields) :
    bodyFields default (overrides.insert name o) fields = bodyFields default overrides fields := by
  refine List.filter_congr fun f hf => ?_
  rw [location, location, get?_insert_of_mem hname hf]

end

end SplitInput

/-! ## Inputs -/

section
variable {written : SchemaOrRef} {schema : Schema} {default : InputLocation} {overrides : Overrides}
  {fields : OrderedMap String SchemaOrRef}

/-- What is made of fields that are placed one by one. -/
def SplitInput.ofFields (schema : Schema) (default : InputLocation) (overrides : Overrides)
    (fields : OrderedMap String SchemaOrRef) : SplitInput :=
  let parameters := parameterFields schema default overrides fields
  let body := bodyFields default overrides fields
  { parameters := if parameters.isEmpty then none else some parameters
    requestBody := if body.isEmpty then none
      else some (RequestBody.json (.inline (bodySchema schema body))) }

namespace SplitInput

/-- The parameters are those of the fields that go into parameters. -/
theorem getD_parameters_ofFields : (ofFields schema default overrides fields).parameters.getD []
    = parameterFields schema default overrides fields := by
  rw [ofFields]
  cases parameterFields schema default overrides fields <;> rfl

/-- There are no parameters iff no field goes into one. -/
theorem parameters_ofFields_eq_none : (ofFields schema default overrides fields).parameters = none ↔
    parameterFields schema default overrides fields = [] := by
  rw [ofFields]
  cases parameterFields schema default overrides fields <;> simp

/-- There is no body iff no field goes into it. -/
theorem requestBody_ofFields_eq_none :
    (ofFields schema default overrides fields).requestBody = none ↔
      bodyFields default overrides fields = [] := by
  rw [ofFields]
  cases bodyFields default overrides fields <;> simp

/-- The schema of the body is built from the fields that go into it. -/
theorem of_mem_requestBody_ofFields {body : RequestBody}
    (h : body ∈ (ofFields schema default overrides fields).requestBody) :
    body = RequestBody.json
      (.inline (bodySchema schema (bodyFields default overrides fields))) := by
  rw [ofFields] at h
  simp only at h
  split at h
  · cases h
  · exact (Option.some.inj h).symm

end SplitInput

/-- The whole input is not the body if something is said or the body is not the default. -/
theorem SplitInput.not_whole (h : overrides ≠ [] ∨ default ≠ .body) :
    ¬(overrides.isEmpty ∧ default = .body) := by
  rintro ⟨hempty, hbody⟩
  exact h.elim (fun h => h (List.isEmpty_iff.1 hempty)) (fun h => h hbody)

/-- An input that is not the body as it is written is split by its fields. -/
theorem splitInput_of_general (hobject : schema.isObject)
    (hfields : schema.properties = some fields) (hgeneral : overrides ≠ [] ∨ default ≠ .body) :
    splitInput written schema default overrides
      = .ok (SplitInput.ofFields schema default overrides fields) := by
  have hguard := SplitInput.not_whole hgeneral
  rw [splitInput, hobject, hfields]
  simp only [Bool.not_true, Bool.false_eq_true, ↓reduceIte, hguard]
  rfl

/-- An input about whose fields nothing is said and whose default is the body is the body. -/
theorem splitInput_of_fast (hobject : schema.isObject) (hfields : schema.properties = some fields) :
    splitInput written schema .body []
      = .ok { requestBody := some (RequestBody.json written) } := by
  rw [splitInput, hobject, hfields]
  simp

/-- **Each field of an input goes to one place.** If something is said about its fields or they do
not go to the body by default, an input of objects with properties is split: the fields that are
placed outside of the body are the parameters, one each and in their order, with their schema and
their location, and required as the override or else the input says; those that are placed in the
body are the properties of its schema, which lists the required ones among them in their order and
once. What gets no field is absent. -/
theorem partition_splitInput (written : SchemaOrRef) (schema : Schema) (default : InputLocation)
    (overrides : Overrides) (fields : OrderedMap String SchemaOrRef) (hobject : schema.isObject)
    (hfields : schema.properties = some fields) (hdistinct : OrderedMap.Distinct fields)
    (hgeneral : overrides ≠ [] ∨ default ≠ .body) :
    let place (name : String) : InputLocation :=
      ((OrderedMap.get? overrides name).bind (·.location)).getD default
    let inBody := fields.filter (fun f => place f.1 = .body)
    ∃ split, splitInput written schema default overrides = .ok split ∧
      (split.parameters.getD []).map (·.name)
        = (OrderedMap.keys fields).filter (place · ≠ .body) ∧
      ((split.parameters.getD []).map (·.name)).Nodup ∧
      (∀ p ∈ split.parameters.getD [], p.schema = OrderedMap.get? fields p.name ∧
        p.location.text = (place p.name).text ∧
        p.required = ((OrderedMap.get? overrides p.name).bind (·.required)).or
          (if p.name ∈ schema.required.getD [] then some true else none)) ∧
      (split.parameters = none ↔ ∀ name ∈ OrderedMap.keys fields, place name = .body) ∧
      (∀ body ∈ split.requestBody, body = RequestBody.json (.inline
        { type := some (.single "object")
          properties := some inBody
          required := some ((OrderedMap.keys inBody).filter (· ∈ schema.required.getD [])) })) ∧
      ((OrderedMap.keys inBody).filter (· ∈ schema.required.getD [])).Nodup ∧
      (split.requestBody = none ↔ ∀ name ∈ OrderedMap.keys fields, place name ≠ .body) := by
  intro place inBody
  have hplace : place = SplitInput.location default overrides :=
    funext fun name => (SplitInput.location_eq_getD default overrides name).symm
  have hinBody : inBody = SplitInput.bodyFields default overrides fields := by
    rw [SplitInput.bodyFields, ← hplace]
  have hinBodyDistinct : OrderedMap.Distinct inBody := (List.filter_sublist.map _).nodup hdistinct
  have hnames := SplitInput.map_name_parameterFields schema default overrides fields
  refine ⟨_, splitInput_of_general hobject hfields hgeneral, ?_⟩
  rw [SplitInput.getD_parameters_ofFields, hplace]
  refine ⟨hnames, ?_, fun p hp => SplitInput.of_mem_parameterFields hdistinct hp, ?_,
    fun body hbody => ?_, hinBodyDistinct.filter _, ?_⟩
  · rw [hnames]
    exact hdistinct.filter _
  · rw [SplitInput.parameters_ofFields_eq_none, ← List.map_eq_nil_iff, hnames]
    simp
  · rw [← SplitInput.bodySchema_eq hinBodyDistinct, hinBody]
    exact SplitInput.of_mem_requestBody_ofFields hbody
  · rw [SplitInput.requestBody_ofFields_eq_none, ← List.map_eq_nil_iff]
    exact (SplitInput.keys_bodyFields default overrides fields ▸ List.filter_eq_nil_iff).trans
      (by simp)

/-- An input of four fields, the list of whose required ones repeats one and has another name. -/
def orderInput : Schema :=
  { type := some (.union ["null", "object"])
    properties := some [("id", .boolean true), ("note", .boolean true), ("lang", .boolean false),
      ("items", .boolean true)]
    required := some ["items", "ghost", "id", "items", "lang"] }

/-- One field of the order goes into the path, one into a header, and something is said about a name
that is none of them. -/
def orderOverrides : Overrides :=
  let input := (InputDef.ofSchema (.inline orderInput)).withOverride "lang"
    { location := some .header, required := some false }
  ((input.withOverride "ghost" (.located .query)).withOverride "id" (.located .path)).parameters

/-- The order is split into two parameters and a body of two fields, of which one is required. -/
theorem partition_orderInput : ∃ split,
    splitInput (.boolean true) orderInput .body orderOverrides = .ok split ∧
    (split.parameters.getD []).map (·.name) = ["id", "lang"] ∧
    (∀ p ∈ split.parameters.getD [], p.name = "lang" → p.location.text = "header" ∧
      p.required = some false) ∧
    ∀ body ∈ split.requestBody, body = RequestBody.json (.inline
      { type := some (.single "object")
        properties := some [("note", .boolean true), ("items", .boolean true)]
        required := some ["items"] }) := by
  obtain ⟨split, hsplit, hnames, -, hparameters, -, hbody, -⟩ :=
    partition_splitInput (.boolean true) orderInput .body orderOverrides _ rfl rfl
      (by simp [OrderedMap.Distinct])
      (.inl nofun)
  refine ⟨split, hsplit, hnames.trans (by decide), fun p hp hname => ?_, hbody⟩
  obtain ⟨-, hlocation, hrequired⟩ := hparameters p hp
  rw [hname] at hlocation hrequired
  exact ⟨hlocation, hrequired⟩

/-! ## Overrides of other names -/

/-- A body of JSON has one schema. -/
theorem RequestBody.json_injective {s s' : SchemaOrRef}
    (h : RequestBody.json s = RequestBody.json s') :
    s = s' := by
  simpa [RequestBody.json, MediaType.ofSchema] using h

/-- If all fields are placed in the body, they make up its schema. -/
theorem SplitInput.ofFields_of_body
    (h : ∀ name ∈ OrderedMap.keys fields, location default overrides name = .body) :
    ofFields schema default overrides fields =
      { requestBody := if fields.isEmpty then none
          else some (RequestBody.json (.inline (bodySchema schema fields))) } := by
  have hparameters : parameterFields schema default overrides fields = [] := by
    refine List.map_eq_nil_iff.1 ((map_name_parameterFields ..).trans ?_)
    exact List.filter_eq_nil_iff.2 fun name hname => by simp [h name hname]
  have hbody : bodyFields default overrides fields = fields :=
    List.filter_eq_self.2 fun f hf => decide_eq_true (h f.1 (List.mem_map_of_mem hf))
  rw [ofFields, hparameters, hbody]
  rfl

/-- If nothing is said about the fields, they all go into the body. -/
theorem SplitInput.ofFields_body (schema : Schema) (fields : OrderedMap String SchemaOrRef) :
    ofFields schema .body [] fields =
      { requestBody := if fields.isEmpty then none
          else some (RequestBody.json (.inline (bodySchema schema fields))) } :=
  ofFields_of_body fun _ _ => rfl

/-- **What is said about a name that is none of the fields is ignored**, unless it is the first
thing that is said and the fields go to the body by default: then the body is no longer the input as
it is written, but is built from the fields. That makes no difference iff it is written so. -/
theorem splitInput_insert_iff (written : SchemaOrRef) (schema : Schema) (default : InputLocation)
    (overrides : Overrides) (name : String) (o : ParameterOverride)
    (hname : ∀ fields ∈ schema.properties, name ∉ OrderedMap.keys fields) :
    splitInput written schema default (overrides.insert name o)
        = splitInput written schema default overrides ↔
      overrides ≠ [] ∨ default ≠ .body ∨ schema.isObject = false ∨
        ∀ fields ∈ schema.properties, fields ≠ [] ∧
          written = .inline (SplitInput.bodySchema schema fields) := by
  cases hobject : schema.isObject with
  | false => simp [splitInput, hobject]
  | true =>
    cases hfields : schema.properties with
    | none => simp [splitInput, hobject, hfields]
    | some fields =>
      have hnotMem := hname fields hfields
      have hinserted : overrides.insert name o ≠ [] := by
        cases overrides with
        | nil => simp [OrderedMap.insert]
        | cons e overrides =>
          rw [OrderedMap.insert]
          split <;> simp
      have hofFields : SplitInput.ofFields schema default (overrides.insert name o) fields
          = SplitInput.ofFields schema default overrides fields := by
        rw [SplitInput.ofFields, SplitInput.parameterFields_insert hnotMem,
          SplitInput.bodyFields_insert hnotMem]
        rfl
      rw [splitInput_of_general hobject hfields (.inl hinserted), hofFields]
      by_cases hgeneral : overrides ≠ [] ∨ default ≠ .body
      · rw [splitInput_of_general hobject hfields hgeneral]
        exact iff_of_true rfl (hgeneral.imp_right .inl)
      · obtain ⟨rfl, rfl⟩ := not_or.1 hgeneral |>.imp not_not.1 not_not.1
        rw [splitInput_of_fast hobject hfields, SplitInput.ofFields_body]
        have hbody : (if fields.isEmpty then none
            else some (RequestBody.json (.inline (SplitInput.bodySchema schema fields))))
              = some (RequestBody.json written) ↔
            fields ≠ [] ∧ written = .inline (SplitInput.bodySchema schema fields) := by
          cases fields with
          | nil => simp
          | cons f fields =>
            simpa using ⟨fun h => (RequestBody.json_injective h).symm, fun h => h ▸ rfl⟩
        simpa using hbody

/-- An input of objects that have no other properties. -/
def closedInput : Schema :=
  Schema.withKeyword { Schema.ofType "object" with properties := some [("id", .boolean true)] }
    "additionalProperties" (.bool false)

/-- For a query something that is said about a name that is no field of the closed input is ignored,
and for a mutation it is if something else is said. -/
theorem splitInput_insert_closedInput :
    splitInput (.inline closedInput) closedInput .query [("ghost", .located .query)]
      = splitInput (.inline closedInput) closedInput .query [] ∧
    splitInput (.inline closedInput) closedInput .body
        [("id", .located .path), ("ghost", .located .query)]
      = splitInput (.inline closedInput) closedInput .body [("id", .located .path)] := by
  have hname : ∀ fields ∈ closedInput.properties, "ghost" ∉ OrderedMap.keys fields := by
    rintro _ ⟨⟩
    decide
  exact ⟨(splitInput_insert_iff _ _ .query [] "ghost" (.located .query) hname).2
      (.inr (.inl (by decide))),
    (splitInput_insert_iff _ _ .body [("id", .located .path)] "ghost" (.located .query) hname).2
      (.inl (by simp))⟩

/-- For a mutation about whose input nothing else is said, it is noticed: the body is built from the
field and allows other properties. -/
theorem splitInput_noticed_closedInput :
    "ghost" ∉ OrderedMap.keys (closedInput.properties.getD []) ∧
    splitInput (.inline closedInput) closedInput .body []
      = .ok { requestBody := some (RequestBody.json (.inline closedInput)) } ∧
    splitInput (.inline closedInput) closedInput .body
        (OrderedMap.insert [] "ghost" (.located .query))
      = .ok { requestBody := some (RequestBody.json (.inline
          { type := some (.single "object")
            properties := some [("id", .boolean true)]
            required := some [] })) } ∧
    splitInput (.inline closedInput) closedInput .body
        (OrderedMap.insert [] "ghost" (.located .query))
      ≠ splitInput (.inline closedInput) closedInput .body [] := by
  refine ⟨by decide, rfl, rfl, fun h => ?_⟩
  cases h

end

end RpcOpenApi
