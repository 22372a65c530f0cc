import RpcOpenApi.Proofs.Codec.Document
import RpcOpenApi.Rpc.Document

/-!
# Reading back service descriptions

`decode_encode_of_decode`: a description that was read from a tree is read again from what it is
written as, and nothing of it has changed. The parts of a description that it shares with OpenAPI
documents are those of the preceding modules. An input, an operation set and a server may be given
as an array of their fields, which is written as an object.
-/

namespace RpcOpenApi

/-- The location of a field is read back. -/
theorem InputLocation.readsBack (l : InputLocation) :
    ReadsBack InputLocation.decode InputLocation.encode l := by
  cases l <;> rfl

/-- A method is read back. -/
theorem HttpMethod.readsBack (m : HttpMethod) :
    ReadsBack HttpMethod.decode HttpMethod.encode m := by
  cases m <;> rfl

/-! ## Inputs -/

namespace ParameterOverride

variable {ms : Members} {o : ParameterOverride}

/-- The fields of the override are read back, and its extensions stand outside of them. -/
structure Stable (o : ParameterOverride) : Prop where
  example? : OptionReadsBack Decode.free id o.example?
  examples : OptionReadsBack (Decode.map Decode.free) Encode.free o.examples
  content : OptionReadsBack (Decode.map MediaType.decode) (Encode.map MediaType.encode) o.content
  extensions : Outside fieldNames o.extensions

/-- An override is read iff each of its fields is, and all else is extensions. -/
theorem read_eq_ok : read ms = .ok o ↔
    ms.optional "in" InputLocation.decode = .ok o.location ∧
      ms.optional "description" Decode.text = .ok o.description ∧
      ms.optional "required" Decode.boolean = .ok o.required ∧
      ms.optional "deprecated" Decode.boolean = .ok o.deprecated ∧
      ms.optional "allowEmptyValue" Decode.boolean = .ok o.allowEmptyValue ∧
      ms.optional "style" Decode.text = .ok o.style ∧
      ms.optional "explode" Decode.boolean = .ok o.explode ∧
      ms.optional "allowReserved" Decode.boolean = .ok o.allowReserved ∧
      ms.optional "example" Decode.free = .ok o.example? ∧
      ms.optional "examples" (Decode.map Decode.free) = .ok o.examples ∧
      ms.optional "content" (Decode.map MediaType.decode) = .ok o.content ∧
      ms.extensions fieldNames = .ok o.extensions := by
  rw [Reading.eq_ok_iff_gives, read]
  simp only [Reading.gives_seq, Reading.gives_map]
  cases o
  simp only [Reading.Gives, mk.injEq, ← and_assoc, exists_eq_right]

/-- A stable override is read back. -/
theorem readsBack (h : o.Stable) : ReadsBack decode encode o := by
  refine Decode.record_eq_ok.2 ⟨_, rfl, read_eq_ok.2
    ⟨Members.optional_of_readsBack
        (optionReadsBack_of_forall (fun l _ => l.readsBack) (fun _ => nofun)) ?_,
      Members.optional_of_readsBack (optionReadsBack_text _) ?_,
      Members.optional_of_readsBack (optionReadsBack_boolean _) ?_,
      Members.optional_of_readsBack (optionReadsBack_boolean _) ?_,
      Members.optional_of_readsBack (optionReadsBack_boolean _) ?_,
      Members.optional_of_readsBack (optionReadsBack_text _) ?_,
      Members.optional_of_readsBack (optionReadsBack_boolean _) ?_,
      Members.optional_of_readsBack (optionReadsBack_boolean _) ?_,
      Members.optional_of_readsBack h.example? ?_, Members.optional_of_readsBack h.examples ?_,
      Members.optional_of_readsBack h.content ?_,
      Members.extensions_of_outside h.extensions ?_⟩⟩
  all_goals simp (disch := decide) [fieldNames, h.extensions.values_eq_nil,
    h.extensions.others_eq_self]

/-- An override that is read from members in normal form is stable. -/
theorem stable_of_read (hn : Json.Normal (.obj ms)) (h : read ms = .ok o) : o.Stable := by
  obtain ⟨-, -, -, -, -, -, -, -, hexample, hexamples, hcontent, hextensions⟩ := read_eq_ok.1 h
  exact
    { example? := Members.optionReadsBack_of_free hn hexample
      examples := Members.optionReadsBack_of_freeMap hn hexamples
      content := Members.optionReadsBack_of_content hn hcontent
      extensions := Members.outside_of_extensions hextensions }

/-- What is read as an override is stable. -/
theorem stable (v : Json) : Ensures decode Stable v := ensures_record (fun _ _ => stable_of_read) v

end ParameterOverride

namespace InputDef

variable {ms : Members} {i : InputDef}

/-- The schema of the input and what is said about its fields are read back. -/
structure Stable (i : InputDef) : Prop where
  schema : i.schema.Stable
  parameters : MapOf ParameterOverride.Stable i.parameters

/-- An input is read iff its schema is and the overrides are; without any there are none. -/
theorem read_eq_ok : read ms = .ok i ↔
    ms.required "schema" SchemaOrRef.decode = .ok i.schema ∧
      ms.defaulted "parameters" decodeOverrides [] = .ok i.parameters := by
  rw [Reading.eq_ok_iff_gives, read]
  simp only [Reading.gives_seq, Reading.gives_map]
  cases i
  simp only [Reading.Gives, mk.injEq, ← and_assoc, exists_eq_right]

/-- An input is written as its schema and, if there are any, its overrides. -/
theorem encode_eq (i : InputDef) : i.encode = .obj (("schema", i.schema.encode)
    :: Components.sectionMember "parameters" ParameterOverride.encode i.parameters) := rfl

/-- A stable input is read back. -/
theorem readsBack (h : i.Stable) : ReadsBack decode encode i := by
  rw [ReadsBack, encode_eq]
  refine Reading.toExcept_eq_ok.2 (read_eq_ok.2
    ⟨Members.required_of_readsBack (SchemaOrRef.readsBack h.schema) ?_,
      Components.section_of_readsBack (h.parameters.imp fun _ => ParameterOverride.readsBack) ?_⟩)
  all_goals simp

/-- An array that an input is read from has a schema, and overrides or nothing else. -/
theorem ofItems_ok {js : List Json} (h : ofItems js = .ok i) :
    (∃ schema, js = [schema] ∧ SchemaOrRef.decode schema = .ok i.schema ∧ i.parameters = []) ∨
      ∃ schema parameters, js = [schema, parameters] ∧
        SchemaOrRef.decode schema = .ok i.schema ∧
          decodeOverrides parameters = .ok i.parameters := by
  rcases js with - | ⟨schema, - | ⟨parameters, - | ⟨surplus, js⟩⟩⟩
  · cases h
  · obtain ⟨s, hs, h⟩ := Decode.bind_eq_ok.1 h
    cases h
    exact .inl ⟨schema, rfl, hs, rfl⟩
  · obtain ⟨s, hs, h⟩ := Decode.bind_eq_ok.1 h
    obtain ⟨ps, hps, h⟩ := Decode.bind_eq_ok.1 h
    cases h
    exact .inr ⟨schema, parameters, rfl, hs, hps⟩
  · obtain ⟨-, -, h⟩ := Decode.bind_eq_ok.1 h
    obtain ⟨-, -, h⟩ := Decode.bind_eq_ok.1 h
    cases h

/-- The schema and the overrides of an input have what their readers yield of the parts of the
tree. -/
theorem yields {P : SchemaOrRef → Prop} {Q : Overrides → Prop} {v : Json}
    (hP : ∀ j ∈ v.parts, Yields SchemaOrRef.decode P j)
    (hQ : ∀ j ∈ v.parts, Yields decodeOverrides Q j) (hnil : Q []) :
    Yields decode (fun i => P i.schema ∧ Q i.parameters) v := by
  intro i hi
  cases v with
  | obj ms =>
    obtain ⟨hschema, hparameters⟩ := read_eq_ok.1 (Reading.toExcept_eq_ok.1 hi)
    exact ⟨Members.yields_required (fun e he => hP e.2 (List.mem_map_of_mem he)) hschema,
      Members.yields_defaulted (fun e he => hQ e.2 (List.mem_map_of_mem he)) hnil hparameters⟩
  | arr js =>
    obtain ⟨schema, rfl, hs, hp⟩ | ⟨schema, parameters, rfl, hs, hp⟩ := ofItems_ok hi
    · exact ⟨hP _ (.head _) _ hs, hp ▸ hnil⟩
    · exact ⟨hP _ (.head _) _ hs, hQ _ (.tail _ (.head _)) _ hp⟩
  | null | bool | num | str => cases hi

/-- What is read as an input is stable, also from an array of its fields. -/
theorem stable (v : Json) : Ensures decode Stable v := by
  intro hn i hi
  obtain ⟨hschema, hparameters⟩ := yields (fun j hj => SchemaOrRef.stable j (hn.part hj))
    (fun j hj => ensures_map ParameterOverride.stable j (hn.part hj)) .nil i hi
  exact ⟨hschema, hparameters⟩

end InputDef

/-! ## Definitions of operations -/

namespace OutputDef

variable {ms : Members} {o : OutputDef}

/-- The fields of the output are read back, and what is said about the content stands outside of
them. -/
structure Stable (o : OutputDef) : Prop where
  statusCode : OptionReadsBack Decode.word16 (fun n : Nat => Json.ofInt n) o.statusCode
  media : o.media.Stable
  outside : Outside fieldNames o.media.extensions

/-- An output is read iff each of its fields is, and its media type from the other members. -/
theorem read_eq_ok : read ms = .ok o ↔
    ms.optional "description" Decode.text = .ok o.description ∧
      ms.optional "statusCode" Decode.word16 = .ok o.statusCode ∧
      MediaType.read (ms.others fieldNames) = .ok o.media := by
  rw [Reading.eq_ok_iff_gives, read]
  simp only [Reading.gives_seq, Reading.gives_map]
  cases o
  simp only [Reading.Gives, mk.injEq, ← and_assoc, exists_eq_right, Members.flattened_eq_ok]

/-- A stable output is read back. -/
theorem readsBack (h : o.Stable) : ReadsBack decode encode o := by
  refine Decode.record_eq_ok.2 ⟨_, rfl, read_eq_ok.2
    ⟨Members.optional_of_readsBack (optionReadsBack_text _) ?_,
      Members.optional_of_readsBack h.statusCode ?_, ?_⟩⟩
  case refine_3 =>
    rw [← MediaType.read_members h.media]
    congr 1
    simp (disch := decide) [MediaType.members, fieldNames, h.outside.others_eq_self]
  all_goals simp (disch := decide) [MediaType.members, h.outside.values_eq_nil]

/-- An output that is read from members in normal form is stable. -/
theorem stable_of_read (hn : Json.Normal (.obj ms)) (h : read ms = .ok o) : o.Stable := by
  obtain ⟨-, hcode, hmedia⟩ := read_eq_ok.1 h
  exact
    { statusCode := Members.optionReadsBack_of_optional hn (fun e _ => faithful_word16 e.2)
        (fun _ => nofun) hcode
      media := MediaType.stable_of_read (hn.others fieldNames) hmedia
      outside := Members.outside_of_inner (MediaType.read_eq_ok.1 hmedia).2.2.2.2 }

/-- What is read as an output is stable. -/
theorem stable (v : Json) : Ensures decode Stable v := ensures_record (fun _ _ => stable_of_read) v

end OutputDef

namespace OperationDef

variable {ms : Members} {d : OperationDef}

/-- The fields of the definition are read back, and the extensions stand outside of them as well as
of the fields that are carried along. -/
structure Stable (d : OperationDef) : Prop where
  input : ∀ i ∈ d.input, i.Stable
  output : ∀ o ∈ d.output, o.Stable
  errors : ∀ rs ∈ d.errors, rs.Stable
  extras : d.extras.Stable
  outside : Outside fieldNames d.extras.extensions

/-- The definition of an operation is read iff each of its fields is, and what is carried along from
the other members. -/
theorem read_eq_ok : read ms = .ok d ↔
    ms.optional "description" Decode.text = .ok d.description ∧
      ms.optional "method" HttpMethod.decode = .ok d.method ∧
      ms.optional "path" Decode.text = .ok d.path ∧
      ms.optional "input" InputDef.decode = .ok d.input ∧
      ms.optional "output" OutputDef.decode = .ok d.output ∧
      ms.optional "errors" Responses.decode = .ok d.errors ∧
      OperationExtras.read Server.decodeWithin (ms.others fieldNames) = .ok d.extras := by
  rw [Reading.eq_ok_iff_gives, read]
  simp only [Reading.gives_seq, Reading.gives_map]
  cases d
  simp only [Reading.Gives, mk.injEq, ← and_assoc, exists_eq_right, Members.flattened_eq_ok]

/-- A stable definition of an operation is read back. -/
theorem readsBack (h : d.Stable) : ReadsBack decode encode d := by
  have hmethod := optionReadsBack_of_forall (o := d.method) (fun m _ => m.readsBack)
    (fun _ => nofun)
  have hinput := optionReadsBack_of_forall (fun i hi => InputDef.readsBack (h.input i hi))
    (fun _ => nofun)
  have houtput := optionReadsBack_of_forall (fun o ho => OutputDef.readsBack (h.output o ho))
    (fun _ => nofun)
  have herrors := optionReadsBack_of_forall (fun rs hrs => Responses.readsBack (h.errors rs hrs))
    (fun _ => nofun)
  have hextras : OperationExtras.read Server.decodeWithin d.extras.members = .ok d.extras :=
    OperationExtras.read_members h.extras
  refine Decode.record_eq_ok.2 ⟨_, rfl, read_eq_ok.2
    ⟨Members.optional_of_readsBack (optionReadsBack_text _) ?_,
      Members.optional_of_readsBack hmethod ?_,
      Members.optional_of_readsBack (optionReadsBack_text _) ?_,
      Members.optional_of_readsBack hinput ?_, Members.optional_of_readsBack houtput ?_,
      Members.optional_of_readsBack herrors ?_, ?_⟩⟩
  case refine_7 =>
    rw [← hextras]
    congr 1
    simp (disch := decide) [OperationExtras.members, fieldNames, h.outside.others_eq_self]
  all_goals simp (disch := decide) [OperationExtras.members, h.outside.values_eq_nil]

/-- A definition that is read from members in normal form is stable. -/
theorem stable_of_read (hn : Json.Normal (.obj ms)) (h : read ms = .ok d) : d.Stable := by
  obtain ⟨-, -, -, hinput, houtput, herrors, hextras⟩ := read_eq_ok.1 h
  exact
    { input := Members.ensures_optional hn (fun e _ _ => InputDef.stable e.2) hinput
      output := Members.ensures_optional hn (fun e _ _ => OutputDef.stable e.2) houtput
      errors := Members.ensures_optional hn (fun e _ _ => Responses.stable e.2) herrors
      extras := OperationExtras.stable_of_read (hn.others fieldNames) hextras
      outside := OperationExtras.outside_of_read hextras }

/-- What is read as the definition of an operation is stable. -/
theorem stable (v : Json) : Ensures decode Stable v := ensures_record (fun _ _ => stable_of_read) v

end OperationDef

/-! ## Descriptions -/

namespace RpcOperations

variable {ms : Members} {o : RpcOperations}

/-- The ids of the queries are distinct, and so are those of the mutations; their definitions are
read back. -/
structure Stable (o : RpcOperations) : Prop where
  queries : MapOf OperationDef.Stable o.queries
  mutations : MapOf OperationDef.Stable o.mutations

/-- All operations are read iff those of both kinds are; a kind that is missing has none. -/
theorem read_eq_ok : read ms = .ok o ↔
    ms.defaulted "queries" decodeSet [] = .ok o.queries ∧
      ms.defaulted "mutations" decodeSet [] = .ok o.mutations := by
  rw [Reading.eq_ok_iff_gives, read]
  simp only [Reading.gives_seq, Reading.gives_map]
  cases o
  simp only [Reading.Gives, mk.injEq, ← and_assoc, exists_eq_right]

/-- The operations of a kind are read back if their definitions are stable. -/
theorem readsBack_set {m : OrderedMap String OperationDef} (h : MapOf OperationDef.Stable m) :
    ReadsBack decodeSet (Encode.map OperationDef.encode) m :=
  readsBack_map (h.imp fun _ => OperationDef.readsBack)

/-- What is read as the operations of a kind is stable. -/
theorem stable_set (v : Json) : Ensures decodeSet (MapOf OperationDef.Stable) v :=
  ensures_map OperationDef.stable v

/-- Stable operations are read back. -/
theorem readsBack (h : o.Stable) : ReadsBack decode encode o := by
  refine Reading.toExcept_eq_ok.2 (read_eq_ok.2
    ⟨Members.defaulted_of_readsBack (readsBack_set h.queries) ?_,
      Members.defaulted_of_readsBack (readsBack_set h.mutations) ?_⟩)
  all_goals simp

/-- An array that operations are read from has queries and mutations, or only queries, or none. -/
theorem ofItems_ok {js : List Json} (h : ofItems js = .ok o) :
    (js = [] ∧ o.queries = [] ∧ o.mutations = []) ∨
      (∃ queries, js = [queries] ∧ decodeSet queries = .ok o.queries ∧ o.mutations = []) ∨
      ∃ queries mutations, js = [queries, mutations] ∧ decodeSet queries = .ok o.queries ∧
        decodeSet mutations = .ok o.mutations := by
  rcases js with - | ⟨queries, - | ⟨mutations, - | ⟨surplus, js⟩⟩⟩
  · cases h
    exact .inl ⟨rfl, rfl, rfl⟩
  · obtain ⟨qs, hqs, h⟩ := Decode.bind_eq_ok.1 h
    cases h
    exact .inr (.inl ⟨queries, rfl, hqs, rfl⟩)
  · obtain ⟨qs, hqs, h⟩ := Decode.bind_eq_ok.1 h
    obtain ⟨mus, hmus, h⟩ := Decode.bind_eq_ok.1 h
    cases h
    exact .inr (.inr ⟨queries, mutations, rfl, hqs, hmus⟩)
  · obtain ⟨-, -, h⟩ := Decode.bind_eq_ok.1 h
    obtain ⟨-, -, h⟩ := Decode.bind_eq_ok.1 h
    cases h

/-- The queries and the mutations have what their reader yields of the parts of the tree. -/
theorem yields {P : OrderedMap String OperationDef → Prop} {v : Json}
    (hP : ∀ j ∈ v.parts, Yields decodeSet P j) (hnil : P []) :
    Yields decode (fun o => P o.queries ∧ P o.mutations) v := by
  intro o ho
  cases v with
  | obj ms =>
    obtain ⟨hqueries, hmutations⟩ := read_eq_ok.1 (Reading.toExcept_eq_ok.1 ho)
    have hmembers : ∀ e ∈ ms, Yields decodeSet P e.2 :=
      fun e he => hP e.2 (List.mem_map_of_mem he)
    exact ⟨Members.yields_defaulted hmembers hnil hqueries,
      Members.yields_defaulted hmembers hnil hmutations⟩
  | arr js =>
    obtain ⟨-, hq, hm⟩ | ⟨queries, rfl, hq, hm⟩ | ⟨queries, mutations, rfl, hq, hm⟩ := ofItems_ok ho
    · exact ⟨hq ▸ hnil, hm ▸ hnil⟩
    · exact ⟨hP _ (.head _) _ hq, hm ▸ hnil⟩
    · exact ⟨hP _ (.head _) _ hq, hP _ (.tail _ (.head _)) _ hm⟩
  | null | bool | num | str => cases ho

/-- What is read as all operations is stable, also from an array of both kinds. -/
theorem stable (v : Json) : Ensures decode Stable v := by
  intro hn o ho
  obtain ⟨hqueries, hmutations⟩ := yields (fun j hj => stable_set j (hn.part hj)) .nil o ho
  exact ⟨hqueries, hmutations⟩

end RpcOperations

namespace RpcDocument

variable {ms : Members} {d : RpcDocument}

/-- The parts of the description are read back, and its other members stand outside of its
fields. -/
structure Stable (d : RpcDocument) : Prop where
  yarpc : OptionReadsBack Decode.free id d.yarpc
  info : d.info.Stable
  components : d.components.Stable
  operations : d.operations.Stable
  paths : ∀ ps ∈ d.paths, ps.Stable
  extra : Outside fieldNames d.extra

/-- A description is read iff each of its fields is, its version under any of its names, and all
else is kept. -/
theorem read_eq_ok : read ms = .ok d ↔
    (ms.field? "yarpc" (Decode.optional Decode.free) versionAliases).orElse none = .ok d.yarpc ∧
      ms.required "info" Info.decode = .ok d.info ∧
      ms.defaulted "components" Components.decode {} = .ok d.components ∧
      ms.defaulted "operations" RpcOperations.decode {} = .ok d.operations ∧
      ms.optional "paths" Paths.decode = .ok d.paths ∧
      ms.extensions fieldNames = .ok d.extra := by
  rw [Reading.eq_ok_iff_gives, read]
  simp only [Reading.gives_seq, Reading.gives_map]
  cases d
  simp only [Reading.Gives, mk.injEq, ← and_assoc, exists_eq_right]

/-- A stable description is read back. -/
theorem readsBack (h : d.Stable) : ReadsBack decode encode d := by
  have hpaths := optionReadsBack_of_forall (fun ps hps => Paths.readsBack (h.paths ps hps))
    (fun _ => nofun)
  refine Decode.record_eq_ok.2 ⟨_, rfl, read_eq_ok.2
    ⟨Members.aliased_of_readsBack h.yarpc ?_,
      Members.required_of_readsBack (Info.readsBack h.info) ?_,
      Members.defaulted_of_readsBack (Components.readsBack h.components) ?_,
      Members.defaulted_of_readsBack (RpcOperations.readsBack h.operations) ?_,
      Members.optional_of_readsBack hpaths ?_, Members.extensions_of_outside h.extra ?_⟩⟩
  all_goals simp (disch := decide) [fieldNames, versionAliases, h.extra.values_eq_nil,
    h.extra.others_eq_self]

/-- A description that is read from members in normal form is stable. -/
theorem stable_of_read (hn : Json.Normal (.obj ms)) (h : read ms = .ok d) : d.Stable := by
  obtain ⟨hyarpc, hinfo, hcomponents, hoperations, hpaths, hextra⟩ := read_eq_ok.1 h
  exact
    { yarpc := Members.optionReadsBack_of_aliasedFree hn hyarpc
      info := Members.ensures_required hn (fun e _ => Info.stable e.2) hinfo
      components := Members.ensures_defaulted hn (fun e _ => Components.stable e.2)
        Components.stable_empty hcomponents
      operations := Members.ensures_defaulted hn (fun e _ => RpcOperations.stable e.2)
        ⟨.nil, .nil⟩ hoperations
      paths := Members.ensures_optional hn (fun e _ _ => Paths.stable e.2) hpaths
      extra := Members.outside_of_extensions hextra }

/-- What is read as a description is stable. -/
theorem stable (v : Json) : Ensures decode Stable v := ensures_record (fun _ _ => stable_of_read) v

/-- A tree, read as a description and written again. -/
def rewrite (v : Json) : Except DecodeError Json := (decode v).map encode

/-- **A description is read back.** What is read from a tree without repeated keys is read again,
the same in every part, from what it is written as. So writing what was read changes a tree at most
once. -/
theorem decode_encode_of_decode {v : Json} {d : RpcDocument} (hkeys : v.KeysDistinct)
    (hnumbers : v.NumbersFinite) (h : decode v = .ok d) :
    decode d.encode = .ok d ∧ rewrite v = .ok d.encode ∧ rewrite d.encode = .ok d.encode := by
  have hback : decode d.encode = .ok d :=
    readsBack (stable v (Json.normal_of_keysDistinct hkeys hnumbers) d h)
  refine ⟨hback, ?_, ?_⟩
  · rw [rewrite, h]
    rfl
  · rw [rewrite, hback]
    rfl

/-- A description with the version under its other name, with the operations as an array, with
fields that are `null`, and with a `$ref` that is no text and a property that is a reference. -/
def terseService : Json :=
  .obj
    [("operations", .arr
        [.obj
          [("find", .obj
            [("path", .null), ("x-rank", .ofInt 1),
              ("input", .arr
                [.obj
                  [("$ref", .bool true), ("type", .str "object"),
                    ("properties", .obj
                      [("id", .obj [("$ref", .str "#/components/schemas/Id")])])]])])]]),
      ("version", .str "1.0.0"), ("info", .obj [("version", .str "1"), ("title", .str "Terse")])]

/-- The terse service is read, its inline schema stays one, and it is read back. -/
theorem decode_terseService : ∃ d, decode terseService = .ok d ∧
    d.yarpc = some (.str "1.0.0") ∧
    d.operations.queries.map (fun e => (e.1, e.2.input.map (fun i => i.schema.reference?.isNone)))
      = [("find", some true)] ∧
    decode d.encode = .ok d := by
  refine ⟨_, rfl, rfl, rfl, (decode_encode_of_decode (v := terseService) ?_ ?_ rfl).1⟩
  · simp [terseService, Json.ofInt, Json.KeysDistinct, Json.ItemsKeysDistinct,
      Json.MembersKeysDistinct]
  · simp [terseService, Json.ofInt, Json.NumbersFinite, Json.ItemsNumbersFinite,
      Json.MembersNumbersFinite]

end RpcDocument

end RpcOpenApi
