import RpcOpenApi.Proofs.Compile.Splitting

/-!
# Inputs that are rebuilt as they are written

A body about whose fields nothing is said is the input as it is written. If something is said about
them, the body is built from its fields, even if each of them stays in the body. Both bodies are the
same iff the input is *plain* (`Schema.Plain`): then it says nothing that is lost by rebuilding it
(`splitInput_eq_written_iff`).
-/

namespace RpcOpenApi

/-- The schema says nothing but that it is one of objects with these properties, of which there are
some, and which of them are required: it lists these in the order of the properties and each
once. -/
structure Schema.Plain (s : Schema) (fields : OrderedMap String SchemaOrRef) : Prop where
  type : s.type = some (.single "object")
  nonempty : fields ≠ []
  required : s.required = some ((OrderedMap.keys fields).filter (· ∈ s.required.getD []))
  keywords : s.keywords = []

section
variable {schema : Schema} {fields : OrderedMap String SchemaOrRef}

namespace Schema

/-- What is asked of a plain schema: it has fields, and says nothing but what a body of them says. -/
theorem plain_iff : schema.Plain fields ↔
    schema.type = some (.single "object") ∧ fields ≠ [] ∧
      schema.required = some ((OrderedMap.keys fields).filter (· ∈ schema.required.getD [])) ∧
      schema.keywords = [] :=
  ⟨fun h => ⟨h.type, h.nonempty, h.required, h.keywords⟩,
    fun ⟨htype, hne, hrequired, hkeywords⟩ => ⟨htype, hne, hrequired, hkeywords⟩⟩

/-- Whether a schema is plain is decided by comparing its fields. -/
instance : Decidable (schema.Plain fields) := decidable_of_iff' _ plain_iff

end Schema

/-- A schema is the one that is built from all of its properties iff it is plain. -/
theorem SplitInput.bodySchema_eq_self_iff (hfields : schema.properties = some fields)
    (hdistinct : OrderedMap.Distinct fields) (hne : fields ≠ []) :
    bodySchema schema fields = schema ↔ schema.Plain fields := by
  rw [bodySchema_eq hdistinct]
  constructor
  · intro h
    exact ⟨(congrArg Schema.type h).symm, hne, (congrArg Schema.required h).symm,
      (congrArg Schema.keywords h).symm⟩
  · rintro ⟨htype, -, hrequired, hkeywords⟩
    obtain ⟨type, properties, required, keywords⟩ := schema
    obtain rfl : type = some (.single "object") := htype
    obtain rfl : properties = some fields := hfields
    obtain rfl : keywords = [] := hkeywords
    rw [← hrequired]

/-- **When rebuilding a body changes nothing.** If nothing is said about the fields of an input, its
body is the schema as it is written. If something is said that leaves each field in the body, then
the input is split in the same way iff its schema is plain. -/
theorem splitInput_eq_written_iff (schema : Schema) (overrides : Overrides)
    (fields : OrderedMap String SchemaOrRef) (hobject : schema.isObject)
    (hfields : schema.properties = some fields) (hdistinct : OrderedMap.Distinct fields)
    (hsaid : overrides ≠ [])
    (hbody : ∀ name ∈ OrderedMap.keys fields, ∀ o ∈ OrderedMap.get? overrides name,
      o.location = none ∨ o.location = some .body) :
    splitInput (.inline schema) schema .body []
        = .ok { requestBody := some (RequestBody.json (.inline schema)) } ∧
      (splitInput (.inline schema) schema .body overrides
          = splitInput (.inline schema) schema .body [] ↔ schema.Plain fields) := by
  have hfast : splitInput (.inline schema) schema .body [] = _ :=
    splitInput_of_fast hobject hfields
  have hplace : ∀ name ∈ OrderedMap.keys fields,
      SplitInput.location .body overrides name = .body := by
    intro name hname
    rw [SplitInput.location_eq_getD]
    cases ho : OrderedMap.get? overrides name with
    | none => rfl
    | some o => rcases hbody name hname o ho with h | h <;> simp [h]
  refine ⟨hfast, ?_⟩
  rw [hfast, splitInput_of_general hobject hfields (.inl hsaid), SplitInput.ofFields_of_body hplace]
  by_cases hne : fields = []
  · -- without fields there is no body to build
    subst hne
    simpa using fun h : schema.Plain [] => h.nonempty rfl
  · have hiff := SplitInput.bodySchema_eq_self_iff hfields hdistinct hne
    rw [if_neg (by simpa using hne), ← hiff]
    constructor
    · intro h
      have hjson : RequestBody.json (.inline (SplitInput.bodySchema schema fields))
          = RequestBody.json (.inline schema) := by simpa using h
      exact SchemaOrRef.inline.inj (RequestBody.json_injective hjson)
    · intro h
      rw [h]

/-- An input of two fields that is plain iff what is said to be required is in their order. -/
def noteInput (required : List String) : Schema :=
  { type := some (.single "object")
    properties := some [("id", .boolean true), ("text", .boolean true)]
    required := some required }

/-- Something is said about a field that leaves it in the body, and something about another name. -/
def noteOverrides : Overrides :=
  [("text", { location := some .body, required := some false }), ("ghost", .located .path)]

/-- What is said about the note is ignored if its required fields are listed in their order, and it
is noticed if they are not. -/
theorem splitInput_eq_written_noteInput :
    splitInput (.inline (noteInput ["id", "text"])) (noteInput ["id", "text"]) .body noteOverrides
        = .ok { requestBody := some (RequestBody.json (.inline (noteInput ["id", "text"]))) } ∧
    splitInput (.inline (noteInput ["text", "id"])) (noteInput ["text", "id"]) .body noteOverrides
        ≠ splitInput (.inline (noteInput ["text", "id"])) (noteInput ["text", "id"]) .body [] := by
  have hiff (required : List String) := splitInput_eq_written_iff (noteInput required) noteOverrides
    _ rfl rfl (by simp [OrderedMap.Distinct]) (by simp [noteOverrides]) (by decide)
  constructor
  · obtain ⟨hfast, hplain⟩ := hiff ["id", "text"]
    rw [← hfast]
    exact hplain.2 (by decide)
  · obtain ⟨-, hplain⟩ := hiff ["text", "id"]
    exact fun h => absurd (hplain.1 h) (by decide)

end

end RpcOpenApi
