import RpcOpenApi.Proofs.Codec.Schema
import RpcOpenApi.OpenApi.Operation

/-!
# Reading back the parts of an operation

Media types, parameters, bodies, responses and servers, each with what it has to be in order to be
read back (`Stable`), that this suffices (`readsBack`), and that its reader ensures it (`stable`).
Parameters, bodies and responses may be given by reference. None of them has a field `$ref`, so a
`$ref` that was not a reference when it was read is an extension, and it is none when it is read
again (`addsNoReference`).
-/

namespace RpcOpenApi

/-- A schema as a field that may be left out. -/
theorem Members.optionReadsBack_of_schema {ms : Members} {name : String} {o : Option SchemaOrRef}
    (hn : Json.Normal (.obj ms)) (h : ms.optional name SchemaOrRef.decode = .ok o) :
    OptionReadsBack SchemaOrRef.decode SchemaOrRef.encode o :=
  optionReadsBack_of_optional hn (fun e _ => SchemaOrRef.faithful e.2) SchemaOrRef.encode_ne_null h

/-! ## Media types -/

namespace MediaType

variable {ms : Members} {m : MediaType}

/-- The fields of the media type are read back, and its extensions stand outside of them. -/
structure Stable (m : MediaType) : Prop where
  schema : OptionReadsBack SchemaOrRef.decode SchemaOrRef.encode m.schema
  example? : OptionReadsBack Decode.free id m.example?
  examples : OptionReadsBack (Decode.map Decode.free) Encode.free m.examples
  encoding : OptionReadsBack (Decode.map Decode.free) Encode.free m.encoding
  extensions : Outside fieldNames m.extensions

/-- A media type is read iff each of its fields is, and all else is extensions. -/
theorem read_eq_ok : read ms = .ok m ↔
    ms.optional "schema" SchemaOrRef.decode = .ok m.schema ∧
      ms.optional "example" Decode.free = .ok m.example? ∧
      ms.optional "examples" (Decode.map Decode.free) = .ok m.examples ∧
      ms.optional "encoding" (Decode.map Decode.free) = .ok m.encoding ∧
      ms.extensions fieldNames = .ok m.extensions := by
  rw [Reading.eq_ok_iff_gives, read]
  simp only [Reading.gives_seq, Reading.gives_map]
  cases m
  simp only [Reading.Gives, mk.injEq, ← and_assoc, exists_eq_right]

/-- A stable media type is read from the members that it is written as. -/
theorem read_members (h : m.Stable) : read m.members = .ok m := by
  refine read_eq_ok.2 ⟨Members.optional_of_readsBack h.schema ?_,
    Members.optional_of_readsBack h.example? ?_, Members.optional_of_readsBack h.examples ?_,
    Members.optional_of_readsBack h.encoding ?_,
    Members.extensions_of_outside h.extensions ?_⟩
  all_goals simp (disch := decide) [members, fieldNames, h.extensions.values_eq_nil,
    h.extensions.others_eq_self]

/-- A stable media type is read back. -/
theorem readsBack (h : m.Stable) : ReadsBack decode encode m :=
  Decode.record_eq_ok.2 ⟨_, rfl, read_members h⟩

/-- A media type that is read from members in normal form is stable. -/
theorem stable_of_read (hn : Json.Normal (.obj ms)) (h : read ms = .ok m) : m.Stable := by
  obtain ⟨hschema, hexample, hexamples, hencoding, hextensions⟩ := read_eq_ok.1 h
  exact
    { schema := Members.optionReadsBack_of_schema hn hschema
      example? := Members.optionReadsBack_of_free hn hexample
      examples := Members.optionReadsBack_of_freeMap hn hexamples
      encoding := Members.optionReadsBack_of_freeMap hn hencoding
      extensions := Members.outside_of_extensions hextensions }

/-- Media types are faithful. -/
theorem faithful (v : Json) : Faithful decode encode v :=
  ensures_record (fun _ _ hn h => readsBack (stable_of_read hn h)) v

/-- A media type with nothing but a schema is read back if the schema is. -/
theorem stable_ofSchema {s : SchemaOrRef} (h : ReadsBack SchemaOrRef.decode SchemaOrRef.encode s) :
    (ofSchema s).Stable where
  schema := optionReadsBack_some h s.encode_ne_null
  example? := nofun
  examples := nofun
  encoding := nofun
  extensions := outside_nil _

end MediaType

/-- The content of a body, by media type, as a field that may be left out. -/
theorem Members.optionReadsBack_of_content {ms : Members} {name : String}
    {o : Option (OrderedMap String MediaType)} (hn : Json.Normal (.obj ms))
    (h : ms.optional name (Decode.map MediaType.decode) = .ok o) :
    OptionReadsBack (Decode.map MediaType.decode) (Encode.map MediaType.encode) o :=
  optionReadsBack_of_optional hn (fun e _ => faithful_map MediaType.faithful e.2) (fun _ => nofun) h

/-! ## Parameters -/

/-- The location of a parameter is read back. -/
theorem ParameterLocation.readsBack (l : ParameterLocation) :
    ReadsBack ParameterLocation.decode ParameterLocation.encode l := by
  cases l <;> rfl

namespace Parameter

variable {ms : Members} {p : Parameter}

/-- The fields of the parameter are read back, and its extensions stand outside of them. -/
structure Stable (p : Parameter) : Prop where
  schema : OptionReadsBack SchemaOrRef.decode SchemaOrRef.encode p.schema
  example? : OptionReadsBack Decode.free id p.example?
  examples : OptionReadsBack (Decode.map Decode.free) Encode.free p.examples
  content : OptionReadsBack (Decode.map MediaType.decode) (Encode.map MediaType.encode) p.content
  extensions : Outside fieldNames p.extensions

/-- A parameter is read iff each of its fields is, and all else is extensions. -/
theorem read_eq_ok : read ms = .ok p ↔
    ms.required "name" Decode.text = .ok p.name ∧
      ms.required "in" ParameterLocation.decode = .ok p.location ∧
      ms.optional "description" Decode.text = .ok p.description ∧
      ms.optional "required" Decode.boolean = .ok p.required ∧
      ms.optional "deprecated" Decode.boolean = .ok p.deprecated ∧
      ms.optional "allowEmptyValue" Decode.boolean = .ok p.allowEmptyValue ∧
      ms.optional "style" Decode.text = .ok p.style ∧
      ms.optional "explode" Decode.boolean = .ok p.explode ∧
      ms.optional "allowReserved" Decode.boolean = .ok p.allowReserved ∧
      ms.optional "schema" SchemaOrRef.decode = .ok p.schema ∧
      ms.optional "example" Decode.free = .ok p.example? ∧
      ms.optional "examples" (Decode.map Decode.free) = .ok p.examples ∧
      ms.optional "content" (Decode.map MediaType.decode) = .ok p.content ∧
      ms.extensions fieldNames = .ok p.extensions := by
  rw [Reading.eq_ok_iff_gives, read]
  simp only [Reading.gives_seq, Reading.gives_map]
  cases p
  simp only [Reading.Gives, mk.injEq, ← and_assoc, exists_eq_right]

/-- What the parameter is written as is read as a parameter that has what is read as the example,
the examples and the content, and that is the same otherwise. -/
theorem decode_encode_of_parts {example? : Option Json} {examples : Option (OrderedMap String Json)}
    {content : Option (OrderedMap String MediaType)} (hms : p.encode = .obj ms)
    (hschema : OptionReadsBack SchemaOrRef.decode SchemaOrRef.encode p.schema)
    (hextensions : Outside fieldNames p.extensions)
    (hexample : ms.optional "example" Decode.free = .ok example?)
    (hexamples : ms.optional "examples" (Decode.map Decode.free) = .ok examples)
    (hcontent : ms.optional "content" (Decode.map MediaType.decode) = .ok content) :
    decode p.encode = .ok { p with example?, examples, content } := by
  have hmembers := Json.obj.inj hms
  refine Decode.record_eq_ok.2 ⟨ms, hms, read_eq_ok.2
    ⟨Members.required_of_readsBack (readsBack_text _) ?_,
      Members.required_of_readsBack (ParameterLocation.readsBack _) ?_,
      Members.optional_of_readsBack (optionReadsBack_text _) ?_,
      Members.optional_of_readsBack (optionReadsBack_boolean _) ?_,
      Members.optional_of_readsBack (optionReadsBack_boolean _) ?_,
      Members.optional_of_readsBack (optionReadsBack_boolean _) ?_,
      Members.optional_of_readsBack (optionReadsBack_text _) ?_,
      Members.optional_of_readsBack (optionReadsBack_boolean _) ?_,
      Members.optional_of_readsBack (optionReadsBack_boolean _) ?_,
      Members.optional_of_readsBack hschema ?_, hexample, hexamples, hcontent,
      Members.extensions_of_outside hextensions ?_⟩⟩
  all_goals
    rw [← hmembers]
    simp (disch := decide) [fieldNames, hextensions.values_eq_nil, hextensions.others_eq_self]

/-- A stable parameter is read back. -/
theorem readsBack (h : p.Stable) : ReadsBack decode encode p := by
  refine decode_encode_of_parts rfl h.schema h.extensions
    (Members.optional_of_readsBack h.example? ?_) (Members.optional_of_readsBack h.examples ?_)
    (Members.optional_of_readsBack h.content ?_)
  all_goals simp (disch := decide) [h.extensions.values_eq_nil]

/-- A parameter that is read from members in normal form is stable. -/
theorem stable_of_read (hn : Json.Normal (.obj ms)) (h : read ms = .ok p) : p.Stable := by
  obtain ⟨-, -, -, -, -, -, -, -, -, hschema, hexample, hexamples, hcontent, hextensions⟩ :=
    read_eq_ok.1 h
  exact
    { schema := Members.optionReadsBack_of_schema hn hschema
      example? := Members.optionReadsBack_of_free hn hexample
      examples := Members.optionReadsBack_of_freeMap hn hexamples
      content := Members.optionReadsBack_of_content hn hcontent
      extensions := Members.outside_of_extensions hextensions }

/-- Parameters are faithful. -/
theorem faithful (v : Json) : Faithful decode encode v :=
  ensures_record (fun _ _ hn h => readsBack (stable_of_read hn h)) v

/-- A parameter is written as a reference only if the tree is one that it was read from. -/
theorem addsNoReference (v : Json) : AddsNoReference decode encode v := by
  refine addsNoReference_record fieldNames (by decide) (by decide) (fun ms p hn h => ?_) v
  obtain ⟨-, -, hdescription, -, -, -, -, -, -, -, -, -, -, hextensions⟩ := read_eq_ok.1 h
  have hext := (stable_of_read hn h).extensions
  refine ⟨_, rfl, ?_, fun _ => ⟨_, hdescription⟩⟩
  rw [← Members.extensions_of_normal hn hextensions]
  simp (disch := decide) [fieldNames, hext.others_eq_self]

/-- Parameters are faithful where a reference may stand as well. -/
theorem faithful_orReference (v : Json) :
    Faithful (RefOr.decode decode) (RefOr.encode encode) v :=
  RefOr.faithful (faithful v) (addsNoReference v)

end Parameter

/-! ## Bodies of requests -/

namespace RequestBody

variable {ms : Members} {b : RequestBody}

/-- The content of the body is read back, and its extensions stand outside of its fields. -/
structure Stable (b : RequestBody) : Prop where
  content : ReadsBack (Decode.map MediaType.decode) (Encode.map MediaType.encode) b.content
  extensions : Outside fieldNames b.extensions

/-- A request body is read iff each of its fields is, and all else is extensions. -/
theorem read_eq_ok : read ms = .ok b ↔
    ms.optional "description" Decode.text = .ok b.description ∧
      ms.required "content" (Decode.map MediaType.decode) = .ok b.content ∧
      ms.optional "required" Decode.boolean = .ok b.required ∧
      ms.extensions fieldNames = .ok b.extensions := by
  rw [Reading.eq_ok_iff_gives, read]
  simp only [Reading.gives_seq, Reading.gives_map]
  cases b
  simp only [Reading.Gives, mk.injEq, ← and_assoc, exists_eq_right]

/-- A stable request body is read back. -/
theorem readsBack (h : b.Stable) : ReadsBack decode encode b := by
  refine Decode.record_eq_ok.2 ⟨_, rfl, read_eq_ok.2
    ⟨Members.optional_of_readsBack (optionReadsBack_text _) ?_,
      Members.required_of_readsBack h.content ?_,
      Members.optional_of_readsBack (optionReadsBack_boolean _) ?_,
      Members.extensions_of_outside h.extensions ?_⟩⟩
  all_goals simp (disch := decide) [fieldNames, h.extensions.values_eq_nil,
    h.extensions.others_eq_self]

/-- A request body that is read from members in normal form is stable. -/
theorem stable_of_read (hn : Json.Normal (.obj ms)) (h : read ms = .ok b) : b.Stable := by
  obtain ⟨-, hcontent, -, hextensions⟩ := read_eq_ok.1 h
  exact
    { content := Members.ensures_required hn (fun e _ => faithful_map MediaType.faithful e.2)
        hcontent
      extensions := Members.outside_of_extensions hextensions }

/-- Request bodies are faithful. -/
theorem faithful (v : Json) : Faithful decode encode v :=
  ensures_record (fun _ _ hn h => readsBack (stable_of_read hn h)) v

/-- A request body is written as a reference only if the tree is one that it was read from. -/
theorem addsNoReference (v : Json) : AddsNoReference decode encode v := by
  refine addsNoReference_record fieldNames (by decide) (by decide) (fun ms b hn h => ?_) v
  obtain ⟨hdescription, -, -, hextensions⟩ := read_eq_ok.1 h
  have hext := (stable_of_read hn h).extensions
  refine ⟨_, rfl, ?_, fun _ => ⟨_, hdescription⟩⟩
  rw [← Members.extensions_of_normal hn hextensions]
  simp (disch := decide) [fieldNames, hext.others_eq_self]

/-- Request bodies are faithful where a reference may stand as well. -/
theorem faithful_orReference (v : Json) :
    Faithful (RefOr.decode decode) (RefOr.encode encode) v :=
  RefOr.faithful (faithful v) (addsNoReference v)

end RequestBody

/-! ## Responses -/

namespace Response

variable {ms : Members} {r : Response}

/-- The fields of the response are read back, and its extensions stand outside of them. -/
structure Stable (r : Response) : Prop where
  headers : OptionReadsBack (Decode.map Decode.free) Encode.free r.headers
  content : OptionReadsBack (Decode.map MediaType.decode) (Encode.map MediaType.encode) r.content
  links : OptionReadsBack (Decode.map Decode.free) Encode.free r.links
  extensions : Outside fieldNames r.extensions

/-- A response is read iff each of its fields is, and all else is extensions. -/
theorem read_eq_ok : read ms = .ok r ↔
    ms.required "description" Decode.text = .ok r.description ∧
      ms.optional "headers" (Decode.map Decode.free) = .ok r.headers ∧
      ms.optional "content" (Decode.map MediaType.decode) = .ok r.content ∧
      ms.optional "links" (Decode.map Decode.free) = .ok r.links ∧
      ms.extensions fieldNames = .ok r.extensions := by
  rw [Reading.eq_ok_iff_gives, read]
  simp only [Reading.gives_seq, Reading.gives_map]
  cases r
  simp only [Reading.Gives, mk.injEq, ← and_assoc, exists_eq_right]

/-- A stable response is read back. -/
theorem readsBack (h : r.Stable) : ReadsBack decode encode r := by
  refine Decode.record_eq_ok.2 ⟨_, rfl, read_eq_ok.2
    ⟨Members.required_of_readsBack (readsBack_text _) ?_,
      Members.optional_of_readsBack h.headers ?_, Members.optional_of_readsBack h.content ?_,
      Members.optional_of_readsBack h.links ?_,
      Members.extensions_of_outside h.extensions ?_⟩⟩
  all_goals simp (disch := decide) [fieldNames, h.extensions.values_eq_nil,
    h.extensions.others_eq_self]

/-- A response that is read from members in normal form is stable. -/
theorem stable_of_read (hn : Json.Normal (.obj ms)) (h : read ms = .ok r) : r.Stable := by
  obtain ⟨-, hheaders, hcontent, hlinks, hextensions⟩ := read_eq_ok.1 h
  exact
    { headers := Members.optionReadsBack_of_freeMap hn hheaders
      content := Members.optionReadsBack_of_content hn hcontent
      links := Members.optionReadsBack_of_freeMap hn hlinks
      extensions := Members.outside_of_extensions hextensions }

/-- Responses are faithful. -/
theorem faithful (v : Json) : Faithful decode encode v :=
  ensures_record (fun _ _ hn h => readsBack (stable_of_read hn h)) v

/-- A response is written as a reference only if the tree is one that it was read from. -/
theorem addsNoReference (v : Json) : AddsNoReference decode encode v := by
  refine addsNoReference_record fieldNames (by decide) (by decide) (fun ms r hn h => ?_) v
  obtain ⟨hdescription, -, -, -, hextensions⟩ := read_eq_ok.1 h
  have hext := (stable_of_read hn h).extensions
  -- The description has to be a text, so it is a text where it need not be there, too.
  refine ⟨_, rfl, ?_, fun _ => ⟨_, Members.optional_of_required nofun hdescription⟩⟩
  rw [← Members.extensions_of_normal hn hextensions]
  simp (disch := decide) [fieldNames, hext.others_eq_self]

/-- Responses are faithful where a reference may stand as well. -/
theorem faithful_orReference (v : Json) :
    Faithful (RefOr.decode decode) (RefOr.encode encode) v :=
  RefOr.faithful (faithful v) (addsNoReference v)

end Response

/-- Different texts are different codes. -/
theorem StatusCode.mk_injective : Function.Injective StatusCode.mk := fun _ _ => StatusCode.mk.inj

namespace Responses

/-- The responses are given under distinct codes, and each of them is read back. -/
abbrev Stable (rs : Responses) : Prop :=
  MapOf (ReadsBack (RefOr.decode Response.decode) (RefOr.encode Response.encode)) rs

/-- Responses are read from an object, each of them under its code. -/
theorem decode_eq_ok {v : Json} {rs : Responses} : decode v = .ok rs ↔
    ∃ ms, v = .obj ms ∧ ∃ es, Decode.members (RefOr.decode Response.decode) ms = .ok es ∧
      OrderedMap.ofPairs (es.map fun e => (StatusCode.mk e.1, e.2)) = rs := by
  cases v with
  | obj ms =>
    simp only [decode, Decode.bind_eq_ok, Json.obj.injEq, exists_eq_left']
    exact exists_congr fun es => and_congr_right' ⟨Except.ok.inj, congrArg _⟩
  | null | bool | num | str | arr => simp [decode]

/-- Responses have what their reader yields of the values that they are read from. -/
theorem yields {P : RefOr Response → Prop} {v : Json}
    (h : ∀ ms, v = .obj ms → ∀ e ∈ ms, Yields (RefOr.decode Response.decode) P e.2) :
    Yields decode (MapOf P) v := by
  intro rs hrs
  obtain ⟨ms, rfl, es, hes, rfl⟩ := decode_eq_ok.1 hrs
  refine ⟨OrderedMap.distinct_ofPairs _, fun e he => ?_⟩
  obtain ⟨e', he', rfl⟩ := List.mem_map.1 (OrderedMap.mem_ofPairs he)
  obtain ⟨m, hm, -, hread⟩ := Decode.exists_of_mem_members hes he'
  exact h ms rfl m hm e'.2 hread

/-- Stable responses of an operation are read back. -/
theorem readsBack {rs : Responses} (h : rs.Stable) : ReadsBack decode encode rs := by
  have hmembers : Decode.members (RefOr.decode Response.decode)
      (rs.map (fun e => (e.1.text, e.2.encode Response.encode)))
        = .ok (rs.map (fun e => (e.1.text, e.2))) := by
    rw [Decode.members_eq_ok, List.map_map, List.map_map, List.map_inj_left]
    exact fun e he => Prod.ext rfl (h.values e he)
  refine decode_eq_ok.2 ⟨_, rfl, _, hmembers, ?_⟩
  rw [List.map_map]
  exact (congrArg _ rs.map_id).trans h.distinct.ofPairs_eq

/-- What is read as the responses of an operation is stable. -/
theorem stable (v : Json) : Ensures decode Stable v := by
  intro hn
  refine yields fun ms hms e he => Response.faithful_orReference e.2 ?_
  subst hms
  exact (Json.normal_obj_iff.1 hn).2 e he

end Responses

/-! ## Servers -/

namespace Server

variable {ms : Members} {s : Server} {surplus : Nat → DecodeError}

/-- The bindings of the server are read back. -/
def Stable (s : Server) : Prop :=
  OptionReadsBack (Decode.map Decode.free) Encode.free s.bindings

/-- A server is read iff each of its fields is; all else is dropped. -/
theorem read_eq_ok : read ms = .ok s ↔
    ms.required "url" Decode.text = .ok s.url ∧
      ms.optional "description" Decode.text = .ok s.description ∧
      ms.optional "variables" (Decode.map Decode.free) = .ok s.bindings := by
  rw [Reading.eq_ok_iff_gives, read]
  simp only [Reading.gives_seq, Reading.gives_map]
  cases s
  simp only [Reading.Gives, mk.injEq, ← and_assoc, exists_eq_right]

/-- A stable server is read back, whatever is said of surplus items. -/
theorem readsBack (surplus : Nat → DecodeError) (h : s.Stable) :
    ReadsBack (decode surplus) encode s := by
  refine Reading.toExcept_eq_ok.2 (read_eq_ok.2
    ⟨Members.required_of_readsBack (readsBack_text _) ?_,
      Members.optional_of_readsBack (optionReadsBack_text _) ?_,
      Members.optional_of_readsBack h ?_⟩)
  all_goals simp

/-- The bindings of a server that is given as an array of its fields are read from an item. -/
theorem exists_of_ofItems {js : List Json} (h : ofItems surplus js = .ok s) :
    ∀ bs ∈ s.bindings, ∃ j ∈ js, Decode.map Decode.free j = .ok bs := by
  rcases js with - | ⟨url, rest⟩
  · cases h
  · rw [ofItems] at h
    obtain ⟨u, -, h⟩ := Decode.bind_eq_ok.1 h
    obtain ⟨d, -, h⟩ := Decode.bind_eq_ok.1 h
    obtain ⟨b, hb, h⟩ := Decode.bind_eq_ok.1 h
    split at h
    · cases h
    · cases h
      intro bs hbs
      obtain ⟨j, hj, hread⟩ := Decode.exists_of_mapM hb (Option.join_eq_some_iff.1 hbs)
      exact ⟨j, .tail _ (List.mem_of_mem_tail (List.mem_of_mem_head? hj)),
        (Decode.optional_eq_ok_some.1 hread).2⟩

/-- The bindings of a server have what the reader of maps yields of the parts of the tree. -/
theorem yields {P : OrderedMap String Json → Prop} {v : Json}
    (hP : ∀ j ∈ v.parts, Yields (Decode.map Decode.free) P j) :
    Yields (decode surplus) (fun s => ∀ bs ∈ s.bindings, P bs) v := by
  intro s hs
  cases v with
  | obj ms =>
    obtain ⟨-, -, hbindings⟩ := read_eq_ok.1 (Reading.toExcept_eq_ok.1 hs)
    exact Members.yields_optional (fun e he _ => hP e.2 (List.mem_map_of_mem he)) hbindings
  | arr js =>
    intro bs hbs
    obtain ⟨j, hj, hread⟩ := exists_of_ofItems hs bs hbs
    exact hP j hj bs hread
  | null | bool | num | str => cases hs

/-- What is read as a server is stable. -/
theorem stable (v : Json) : Ensures (decode surplus) Stable v := by
  intro hn s hs
  have hbindings := yields (fun j hj => faithful_freeMap j (hn.part hj)) s hs
  exact optionReadsBack_of_forall hbindings fun _ => nofun

/-- A list of stable servers is read back. -/
theorem optionReadsBack_list (surplus : Nat → DecodeError) {o : Option (List Server)}
    (h : ∀ ss ∈ o, ∀ s ∈ ss, s.Stable) :
    OptionReadsBack (Decode.list (decode surplus)) (Encode.list encode) o :=
  optionReadsBack_of_forall
    (fun ss hss => readsBack_list fun s hs => readsBack surplus (h ss hss s hs)) (fun _ => nofun)

end Server

end RpcOpenApi
