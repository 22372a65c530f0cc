import RpcOpenApi.Proofs.Codec.Operation
import RpcOpenApi.OpenApi.Document

/-!
# Reading back OpenAPI documents

A section of the components is left out if it is empty, and a section that is left out is read as an
empty one. The paths and the components of a document are always written.
-/

namespace RpcOpenApi

/-! ## Information -/

namespace Info

variable {ms : Members} {i : Info}

/-- The free-form fields are read back, and the extensions stand outside of the fields. -/
structure Stable (i : Info) : Prop where
  contact : OptionReadsBack Decode.free id i.contact
  license : OptionReadsBack Decode.free id i.license
  extensions : Outside fieldNames i.extensions

/-- The general information is read iff each of its fields is, and all else is extensions. -/
theorem read_eq_ok : read ms = .ok i ↔
    ms.required "title" Decode.text = .ok i.title ∧
      ms.required "version" Decode.text = .ok i.version ∧
      ms.optional "summary" Decode.text = .ok i.summary ∧
      ms.optional "description" Decode.text = .ok i.description ∧
      ms.optional "termsOfService" Decode.text = .ok i.termsOfService ∧
      ms.optional "contact" Decode.free = .ok i.contact ∧
      ms.optional "license" Decode.free = .ok i.license ∧
      ms.extensions fieldNames = .ok i.extensions := by
  rw [Reading.eq_ok_iff_gives, read]
  simp only [Reading.gives_seq, Reading.gives_map]
  cases i
  simp only [Reading.Gives, mk.injEq, ← and_assoc, exists_eq_right]

/-- Stable information is read back. -/
theorem readsBack (h : i.Stable) : ReadsBack decode encode i := by
  refine Decode.record_eq_ok.2 ⟨_, rfl, read_eq_ok.2
    ⟨Members.required_of_readsBack (readsBack_text _) ?_,
      Members.required_of_readsBack (readsBack_text _) ?_,
      Members.optional_of_readsBack (optionReadsBack_text _) ?_,
      Members.optional_of_readsBack (optionReadsBack_text _) ?_,
      Members.optional_of_readsBack (optionReadsBack_text _) ?_,
      Members.optional_of_readsBack h.contact ?_, Members.optional_of_readsBack h.license ?_,
      Members.extensions_of_outside h.extensions ?_⟩⟩
  all_goals simp (disch := decide) [fieldNames, h.extensions.values_eq_nil,
    h.extensions.others_eq_self]

/-- Information that is read from members in normal form is stable. -/
theorem stable_of_read (hn : Json.Normal (.obj ms)) (h : read ms = .ok i) : i.Stable := by
  obtain ⟨-, -, -, -, -, hcontact, hlicense, hextensions⟩ := read_eq_ok.1 h
  exact
    { contact := Members.optionReadsBack_of_free hn hcontact
      license := Members.optionReadsBack_of_free hn hlicense
      extensions := Members.outside_of_extensions hextensions }

/-- What is read as information is stable. -/
theorem stable (v : Json) : Ensures decode Stable v := ensures_record (fun _ _ => stable_of_read) v

end Info

/-! ## Components -/

namespace Components

section
variable {α : Type} {ms : Members} {decode : Json → Except DecodeError α} {encode : α → Json}
  {names : List String} {name : String} {m : OrderedMap String α}

/-- A section stands under its name, and only if it is not empty. -/
@[simp] theorem values_sectionMember :
    Members.values names (sectionMember name encode m)
      = if name ∈ names ∧ m ≠ [] then [Encode.map encode m] else [] := by
  rw [sectionMember]
  cases m <;> simp

/-- A section is not among the members with other names than its own. -/
@[simp] theorem others_sectionMember :
    Members.others names (sectionMember name encode m)
      = if name ∈ names then [] else sectionMember name encode m := by
  rw [sectionMember]
  cases m <;> simp

/-- A section is read where it is written, or left out because it is empty. -/
theorem section_of_readsBack (h : MapOf (ReadsBack decode encode) m)
    (hv : Members.values [name] ms = if m ≠ [] then [Encode.map encode m] else []) :
    ms.defaulted name (Decode.map decode) [] = .ok m := by
  refine Members.defaulted_eq_ok.2 ?_
  by_cases hm : m = []
  · rw [hv, hm]
    exact .inl ⟨rfl, rfl⟩
  · rw [hv, if_pos hm]
    exact .inr ⟨_, rfl, readsBack_map h⟩

/-- What is read as a section is read back. -/
theorem mapOf_of_section (hn : Json.Normal (.obj ms)) (hf : ∀ v, Faithful decode encode v)
    (h : ms.defaulted name (Decode.map decode) [] = .ok m) : MapOf (ReadsBack decode encode) m :=
  Members.ensures_defaulted hn (fun e _ => ensures_map hf e.2) .nil h

end

variable {ms : Members} {c : Components}

/-- The definitions of all sections are read back, and the other sections have other names. -/
structure Stable (c : Components) : Prop where
  schemas : MapOf (ReadsBack SchemaOrRef.decode SchemaOrRef.encode) c.schemas
  responses : MapOf (ReadsBack (RefOr.decode Response.decode) (RefOr.encode Response.encode))
    c.responses
  parameters : MapOf (ReadsBack (RefOr.decode Parameter.decode) (RefOr.encode Parameter.encode))
    c.parameters
  requestBodies :
    MapOf (ReadsBack (RefOr.decode RequestBody.decode) (RefOr.encode RequestBody.encode))
      c.requestBodies
  others : Outside fieldNames c.others

/-- The components are read iff each section is, an absent one as empty, and all else is kept. -/
theorem read_eq_ok : read ms = .ok c ↔
    ms.defaulted "schemas" (Decode.map SchemaOrRef.decode) [] = .ok c.schemas ∧
      ms.defaulted "responses" (Decode.map (RefOr.decode Response.decode)) []
        = .ok c.responses ∧
      ms.defaulted "parameters" (Decode.map (RefOr.decode Parameter.decode)) []
        = .ok c.parameters ∧
      ms.defaulted "requestBodies" (Decode.map (RefOr.decode RequestBody.decode)) []
        = .ok c.requestBodies ∧
      ms.extensions fieldNames = .ok c.others := by
  rw [Reading.eq_ok_iff_gives, read]
  simp only [Reading.gives_seq, Reading.gives_map]
  cases c
  simp only [Reading.Gives, mk.injEq, ← and_assoc, exists_eq_right]

/-- Stable components are read back. -/
theorem readsBack (h : c.Stable) : ReadsBack decode encode c := by
  refine Decode.record_eq_ok.2 ⟨_, rfl, read_eq_ok.2 ⟨section_of_readsBack h.schemas ?_,
    section_of_readsBack h.responses ?_, section_of_readsBack h.parameters ?_,
    section_of_readsBack h.requestBodies ?_, Members.extensions_of_outside h.others ?_⟩⟩
  all_goals simp (disch := decide) [fieldNames, h.others.values_eq_nil, h.others.others_eq_self]

/-- Components that are read from members in normal form are stable. -/
theorem stable_of_read (hn : Json.Normal (.obj ms)) (h : read ms = .ok c) : c.Stable := by
  obtain ⟨hschemas, hresponses, hparameters, hbodies, hothers⟩ := read_eq_ok.1 h
  exact
    { schemas := mapOf_of_section hn SchemaOrRef.faithful hschemas
      responses := mapOf_of_section hn Response.faithful_orReference hresponses
      parameters := mapOf_of_section hn Parameter.faithful_orReference hparameters
      requestBodies := mapOf_of_section hn RequestBody.faithful_orReference hbodies
      others := Members.outside_of_extensions hothers }

/-- What is read as components is stable. -/
theorem stable (v : Json) : Ensures decode Stable v := ensures_record (fun _ _ => stable_of_read) v

/-- Components without any definition are stable. -/
theorem stable_empty : Stable {} := ⟨.nil, .nil, .nil, .nil, outside_nil _⟩

end Components

/-! ## Documents -/

namespace OpenApiDocument

variable {ms : Members} {d : OpenApiDocument}

/-- The parts of the document are read back, and its other members stand outside of its fields. -/
structure Stable (d : OpenApiDocument) : Prop where
  info : d.info.Stable
  paths : d.paths.Stable
  components : d.components.Stable
  extra : Outside fieldNames d.extra

/-- A document is read iff each of its fields is, and all else is kept. -/
theorem read_eq_ok : read ms = .ok d ↔
    ms.required "openapi" Decode.text = .ok d.openapi ∧
      ms.required "info" Info.decode = .ok d.info ∧
      ms.defaulted "paths" Paths.decode [] = .ok d.paths ∧
      ms.defaulted "components" Components.decode {} = .ok d.components ∧
      ms.extensions fieldNames = .ok d.extra := by
  rw [Reading.eq_ok_iff_gives, read]
  simp only [Reading.gives_seq, Reading.gives_map]
  cases d
  simp only [Reading.Gives, mk.injEq, ← and_assoc, exists_eq_right]

/-- A stable document is read back. -/
theorem readsBack (h : d.Stable) : ReadsBack decode encode d := by
  refine Decode.record_eq_ok.2 ⟨_, rfl, read_eq_ok.2
    ⟨Members.required_of_readsBack (readsBack_text _) ?_,
      Members.required_of_readsBack (Info.readsBack h.info) ?_,
      Members.defaulted_of_readsBack (Paths.readsBack h.paths) ?_,
      Members.defaulted_of_readsBack (Components.readsBack h.components) ?_,
      Members.extensions_of_outside h.extra ?_⟩⟩
  all_goals simp (disch := decide) [fieldNames, h.extra.values_eq_nil, h.extra.others_eq_self]

/-- A document that is read from members in normal form is stable. -/
theorem stable_of_read (hn : Json.Normal (.obj ms)) (h : read ms = .ok d) : d.Stable := by
  obtain ⟨-, hinfo, hpaths, hcomponents, hextra⟩ := read_eq_ok.1 h
  exact
    { info := Members.ensures_required hn (fun e _ => Info.stable e.2) hinfo
      paths := Members.ensures_defaulted hn (fun e _ => Paths.stable e.2) .nil hpaths
      components := Members.ensures_defaulted hn (fun e _ => Components.stable e.2)
        Components.stable_empty hcomponents
      extra := Members.outside_of_extensions hextra }

/-- What is read as a document is stable. -/
theorem stable (v : Json) : Ensures decode Stable v := ensures_record (fun _ _ => stable_of_read) v

end OpenApiDocument

end RpcOpenApi
