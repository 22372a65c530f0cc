import RpcOpenApi.Proofs.Codec.Service

/-!
# What is read is written in normal form

A tree may repeat keys, and a YAML text may have numbers that JSON cannot spell. Whatever is read
from such a tree as a part of a document is written as a tree in normal form all the same (`Tidy`),
in which no key is repeated. This needs no assumption on the tree, so it is not a consequence of
the fact that parts are read back, which holds of normal trees alone.

A record is written as its fields, each of them under a name of its own (`Fields`), and its other
members, which have none of these names (`Outside`); such members are in normal form together
(`normal_fields`). Where a record may be taken apart and its parts put into another one, what its
parts have to be is a structure (`Parameter.Tidy`, `OperationDef.Tidy`).
-/

namespace RpcOpenApi

section
variable {α : Type} {decode : Json → Except DecodeError α} {encode : α → Json}

/-- Whatever is read is written in normal form. -/
def Tidy (decode : Json → Except DecodeError α) (encode : α → Json) : Prop :=
  ∀ v, Yields decode (fun a => (encode a).Normal) v

/-! ## Members in normal form -/

/-- Members with names among the given ones, in their order, and with values in normal form. -/
structure Fields (names : List String) (ms : Members) : Prop where
  keys : (OrderedMap.keys ms).Sublist names
  values : ∀ m ∈ ms, m.2.Normal

variable {name : String} {names names' : List String} {ms ms' : Members} {j : Json}
  {m : OrderedMap String Json} {o : Option α}

/-- No members are the fields of no names. -/
theorem fields_nil : Fields names [] := ⟨List.nil_sublist _, nofun⟩

/-- A field that is always written stands under its name. -/
theorem fields_member (h : j.Normal) : Fields [name] [(name, j)] :=
  ⟨.refl _, fun _ hm => List.mem_singleton.1 hm ▸ h⟩

/-- A field that may be left out stands under its name, or nowhere. -/
theorem fields_optional (h : ∀ a ∈ o, (encode a).Normal) :
    Fields [name] (Encode.optional name encode o) := by
  cases o with
  | none => exact fields_nil
  | some a => exact fields_member (h a rfl)

/-- A section of the components stands under its name, or nowhere. -/
theorem fields_section {m : OrderedMap String α} (h : (Encode.map encode m).Normal) :
    Fields [name] (Components.sectionMember name encode m) := by
  rw [Components.sectionMember]
  split
  · exact fields_nil
  · exact fields_member h

/-- A text is in normal form. -/
theorem normal_text (s : String) : Json.Normal (.str s) := rfl

/-- A text that may be left out is a field in normal form. -/
theorem fields_text {o : Option String} : Fields [name] (Encode.optional name .str o) :=
  fields_optional fun _ _ => rfl

/-- A boolean that may be left out is a field in normal form. -/
theorem fields_boolean {o : Option Bool} : Fields [name] (Encode.optional name .bool o) :=
  fields_optional fun _ _ => rfl

/-- Fields with some names and fields with further names are fields with all of them. -/
theorem Fields.append (h : Fields names ms) (h' : Fields names' ms') :
    Fields (names ++ names') (ms ++ ms') := by
  refine ⟨?_, fun m hm => (List.mem_append.1 hm).elim (h.values m) (h'.values m)⟩
  rw [OrderedMap.keys_append]
  exact h.keys.append h'.keys

/-- A field in front of others is one more field. -/
theorem Fields.cons (hj : j.Normal) (h : Fields names ms) :
    Fields (name :: names) ((name, j) :: ms) :=
  (fields_member hj).append h

/-- Fields under distinct names and members that stand outside of them are in normal form
together. -/
theorem normal_fields (names : List String) (hnames : names.Nodup) (h : Fields names ms)
    (hm : Outside names m) : Json.Normal (.obj (ms ++ m)) := by
  obtain ⟨hd, hv⟩ := Json.normal_obj_iff.1 hm.normal
  refine Json.normal_obj_iff.2
    ⟨?_, fun e he => (List.mem_append.1 he).elim (h.values e) (hv e)⟩
  rw [OrderedMap.Distinct, OrderedMap.keys_append, List.nodup_append]
  exact ⟨h.keys.nodup hnames, hd,
    fun k hk k' hk' heq => hm.notMem k' hk' (heq ▸ h.keys.subset hk)⟩

/-- Fields can stand outside of other ones, together with their other members. -/
theorem outside_fields (hnames : names.Nodup) (h : Fields names ms) (hm : Outside names m)
    (hm' : Outside names' m) (hdisjoint : ∀ n ∈ names, n ∉ names') : Outside names' (ms ++ m) := by
  refine ⟨normal_fields names hnames h hm, fun k hk => ?_⟩
  rw [OrderedMap.keys_append, List.mem_append] at hk
  exact hk.elim (fun hk => hdisjoint k (h.keys.subset hk)) (hm'.notMem k)

/-! ## Lists and maps -/

/-- A list is written in normal form if its items are. -/
theorem normal_list {as : List α} (h : ∀ a ∈ as, (encode a).Normal) :
    (Encode.list encode as).Normal :=
  Json.normal_arr_iff.2 (List.forall_mem_map.2 h)

/-- A map is written in normal form if its keys are distinct and its values are in normal form. -/
theorem normal_map {m : OrderedMap String α} (h : MapOf (fun a => (encode a).Normal) m) :
    (Encode.map encode m).Normal := by
  refine Json.normal_obj_iff.2 ⟨?_, List.forall_mem_map.2 h.values⟩
  rw [OrderedMap.Distinct, OrderedMap.keys_mapValues]
  exact h.distinct

/-- A map of trees is written in normal form if it is one of trees in normal form. -/
theorem normal_freeMap {m : OrderedMap String Json} (h : MapOf Json.Normal m) :
    (Encode.free m).Normal :=
  Json.normal_obj_iff.2 ⟨h.distinct, h.values⟩

/-- A list of texts is written in normal form. -/
theorem normal_texts (l : List String) : (Encode.list .str l).Normal :=
  normal_list fun _ _ => rfl

/-- Texts are written in normal form. -/
theorem tidy_text : Tidy Decode.text .str := fun _ _ _ => rfl

/-- Lists are written in normal form if their items are. -/
theorem tidy_list (h : Tidy decode encode) : Tidy (Decode.list decode) (Encode.list encode) :=
  fun _ as has => normal_list (yields_list (fun _ _ j _ => h j) as has)

/-- Maps are written in normal form if their values are. -/
theorem tidy_map (h : Tidy decode encode) : Tidy (Decode.map decode) (Encode.map encode) :=
  fun _ m hm => normal_map (yields_map (fun _ _ e _ => h e.2) m hm)

/-- A free-form value is kept in normal form. -/
theorem tidy_free : Tidy Decode.free id := by
  intro v a ha
  cases ha
  exact Json.normal_normalize v

/-- Maps of trees of any form are written in normal form. -/
theorem tidy_freeMap : Tidy (Decode.map Decode.free) Encode.free :=
  fun _ m hm => normal_freeMap (yields_map (fun _ _ e _ => tidy_free e.2) m hm)

/-- A required field is written in normal form. -/
theorem Members.tidy_required {a : α} (ht : Tidy decode encode)
    (h : ms.required name decode = .ok a) : (encode a).Normal :=
  yields_required (P := fun a => (encode a).Normal) (fun e _ => ht e.2) h

/-- A field that may be left out is written in normal form if it is there. -/
theorem Members.tidy_optional (ht : Tidy decode encode) (h : ms.optional name decode = .ok o) :
    ∀ a ∈ o, (encode a).Normal :=
  yields_optional (fun e _ _ => ht e.2) h

end

/-! ## References and schemas -/

namespace Reference

/-- A reference is in normal form if its siblings stand outside of its fields. -/
theorem normal_encode {r : Reference} (h : Outside fieldNames r.siblings) : r.encode.Normal :=
  normal_fields fieldNames (by decide) ((fields_text.cons (normal_text _)).append fields_text) h

/-- A reference that is read from any members is written in normal form. -/
theorem normal_of_read {ms : Members} {r : Reference} (h : read ms = .ok r) : r.encode.Normal :=
  normal_encode (outside_of_read h)

/-- References are written in normal form. -/
theorem tidy : Tidy decode encode := yields_record fun _ _ => normal_of_read

end Reference

/-- A definition that may be replaced by a reference is written in normal form if inline ones
are. -/
theorem RefOr.tidy {α : Type} {inner : Json → Except DecodeError α} {encode : α → Json}
    (h : Tidy inner encode) : Tidy (RefOr.decode inner) (RefOr.encode encode) := by
  intro v x hx
  rcases decode_eq_ok hx with ⟨r, hr, rfl⟩ | ⟨-, a, ha, rfl⟩
  · exact Reference.tidy v r hr
  · exact h v a ha

/-- The type of a schema is written in normal form. -/
theorem SchemaType.normal_encode (t : SchemaType) : t.encode.Normal := by
  cases t with
  | single name => rfl
  | union names => exact normal_texts names

namespace Schema

/-- The maps of schemas within a tree are written in normal form. -/
abbrev PropertiesTidy (v : Json) : Prop :=
  Yields (Decode.map SchemaOrRef.decode) (MapOf fun x => x.encode.Normal) v

/-- A schema is in normal form if its properties are and its keywords stand outside of its
fields. -/
theorem normal_encode {s : Schema}
    (hp : ∀ ps ∈ s.properties, MapOf (fun x => x.encode.Normal) ps)
    (hk : Outside fieldNames s.keywords) : s.encode.Normal := by
  rw [encode_eq]
  exact normal_fields fieldNames (by decide)
    (((fields_optional fun t _ => t.normal_encode).append
      (fields_optional fun ps hps => normal_map (hp ps hps))).append
      (fields_optional fun l _ => normal_texts l)) hk

/-- A schema that is read from any members is written in normal form, if its properties are. -/
theorem normal_of_read {ms : Members} {s : Schema} (hmaps : ∀ e ∈ ms, PropertiesTidy e.2)
    (h : read ms = .ok s) : s.encode.Normal := by
  obtain ⟨-, hp, -, hk⟩ := read_eq_ok.1 h
  exact normal_encode (Members.yields_optional (fun e he _ => hmaps e he) hp)
    (Members.outside_of_extensions hk)

/-- The properties of a schema that is written in normal form are so, too. -/
theorem properties_of_normal {s : Schema} (h : s.encode.Normal) :
    ∀ ps ∈ s.properties, MapOf (fun x => x.encode.Normal) ps := by
  intro ps hps
  rw [encode_eq, Json.normal_obj_iff] at h
  have hmem : ("properties", Encode.map SchemaOrRef.encode ps) ∈ s.members := by
    simp [members, Encode.optional, Option.mem_def.1 hps]
  obtain ⟨hd, hv⟩ := Json.normal_obj_iff.1 (h.2 _ hmem)
  rw [OrderedMap.Distinct, OrderedMap.keys_mapValues] at hd
  exact ⟨hd, fun e he => hv _ (List.mem_map_of_mem he)⟩

end Schema

namespace SchemaOrRef

/-- What is read from a tree is written in normal form if the maps of schemas among the members of
the tree are. -/
theorem normal_of_maps {v : Json}
    (hmaps : ∀ ms, v = .obj ms → ∀ e ∈ ms, Schema.PropertiesTidy e.2) :
    Yields SchemaOrRef.decode (fun x => x.encode.Normal) v := by
  intro x hx
  obtain ⟨b, rfl, rfl⟩ | ⟨ms, rfl, ⟨r, hr, rfl⟩ | ⟨-, s, hs, rfl⟩⟩ := decode_eq_ok hx
  · rfl
  · exact Reference.normal_of_read hr
  · exact Schema.normal_of_read (hmaps ms rfl) hs

/-- Schemas and references to them are written in normal form. -/
theorem tidy : Tidy SchemaOrRef.decode SchemaOrRef.encode := by
  intro v
  -- The properties of a schema are a part of the tree, the schemas in it are parts of this part.
  suffices h : Yields SchemaOrRef.decode (fun x => x.encode.Normal) v ∧
      Schema.PropertiesTidy v from h.1
  induction v using Json.induction with
  | null | num | str | arr => exact ⟨fun _ h => (nomatch h), fun _ h => (nomatch h)⟩
  | bool b => exact ⟨normal_of_maps fun _ h => (nomatch h), fun _ h => (nomatch h)⟩
  | obj ms ih =>
    refine ⟨normal_of_maps fun ms' hms _ he => ?_, yields_map fun ms' hms _ he => ?_⟩
    · cases hms
      exact (ih _ he).2
    · cases hms
      exact (ih _ he).1

end SchemaOrRef

/-- Schemas are written in normal form. -/
theorem Schema.tidy : Tidy Schema.decode Schema.encode :=
  yields_record fun _ _ =>
    Schema.normal_of_read fun _ _ => yields_map fun _ _ e _ => SchemaOrRef.tidy e.2

/-! ## The parts of an operation -/

namespace MediaType

/-- A media type is in normal form if its fields are and its extensions stand outside of them. -/
theorem normal_encode {m : MediaType} (hs : ∀ s ∈ m.schema, s.encode.Normal)
    (he : ∀ j ∈ m.example?, j.Normal) (hes : ∀ es ∈ m.examples, (Encode.free es).Normal)
    (hen : ∀ es ∈ m.encoding, (Encode.free es).Normal) (hext : Outside fieldNames m.extensions) :
    m.encode.Normal :=
  normal_fields fieldNames (by decide)
    ((((fields_optional hs).append (fields_optional he)).append (fields_optional hes)).append
      (fields_optional hen)) hext

/-- A media type that is read from any members is written in normal form. -/
theorem normal_of_read {ms : Members} {m : MediaType} (h : read ms = .ok m) :
    m.encode.Normal := by
  obtain ⟨hs, he, hes, hen, hext⟩ := read_eq_ok.1 h
  exact normal_encode (Members.tidy_optional SchemaOrRef.tidy hs)
    (Members.tidy_optional tidy_free he) (Members.tidy_optional tidy_freeMap hes)
    (Members.tidy_optional tidy_freeMap hen) (Members.outside_of_extensions hext)

/-- Media types are written in normal form. -/
theorem tidy : Tidy decode encode := yields_record fun _ _ => normal_of_read

/-- A media type with nothing but a schema is written in normal form if the schema is. -/
theorem normal_ofSchema {s : SchemaOrRef} (h : s.encode.Normal) : (ofSchema s).encode.Normal := by
  refine normal_encode (fun s' hs => ?_) nofun nofun nofun (outside_nil _)
  cases hs
  exact h

end MediaType

/-- Content by media type is written in normal form. -/
theorem tidy_content : Tidy (Decode.map MediaType.decode) (Encode.map MediaType.encode) :=
  tidy_map MediaType.tidy

namespace Parameter

/-- The fields of the parameter are written in normal form, and its extensions stand outside of
them. -/
structure Tidy (p : Parameter) : Prop where
  schema : ∀ s ∈ p.schema, s.encode.Normal
  example? : ∀ j ∈ p.example?, j.Normal
  examples : ∀ es ∈ p.examples, (Encode.free es).Normal
  content : ∀ c ∈ p.content, (Encode.map MediaType.encode c).Normal
  extensions : Outside fieldNames p.extensions

/-- A tidy parameter is in normal form. -/
theorem Tidy.normal {p : Parameter} (h : p.Tidy) : p.encode.Normal :=
  normal_fields fieldNames (by decide)
    (((((((((((((fields_text.cons (normal_text _)).cons (normal_text _)).append
      fields_boolean).append fields_boolean).append fields_boolean).append fields_text).append
      fields_boolean).append fields_boolean).append (fields_optional h.schema)).append
      (fields_optional h.example?)).append (fields_optional h.examples)).append
      (fields_optional h.content))) h.extensions

/-- Parameters are written in normal form. -/
theorem tidy : RpcOpenApi.Tidy decode encode := by
  refine yields_record fun ms p h => ?_
  obtain ⟨-, -, -, -, -, -, -, -, -, hs, he, hes, hc, hext⟩ := read_eq_ok.1 h
  exact Tidy.normal
    { schema := Members.tidy_optional SchemaOrRef.tidy hs
      example? := Members.tidy_optional tidy_free he
      examples := Members.tidy_optional tidy_freeMap hes
      content := Members.tidy_optional tidy_content hc
      extensions := Members.outside_of_extensions hext }

end Parameter

namespace RequestBody

/-- A request body is in normal form if its content is and its extensions stand outside of the
fields. -/
theorem normal_encode {b : RequestBody} (hc : (Encode.map MediaType.encode b.content).Normal)
    (hext : Outside fieldNames b.extensions) : b.encode.Normal :=
  normal_fields fieldNames (by decide) (fields_text.append (fields_boolean.cons hc)) hext

/-- Request bodies are written in normal form. -/
theorem tidy : Tidy decode encode := by
  refine yields_record fun ms b h => ?_
  obtain ⟨-, hc, -, hext⟩ := read_eq_ok.1 h
  exact normal_encode (Members.tidy_required tidy_content hc)
    (Members.outside_of_extensions hext)

end RequestBody

namespace Response

/-- A response is in normal form if its fields are and its extensions stand outside of them. -/
theorem normal_encode {r : Response} (hh : ∀ hs ∈ r.headers, (Encode.free hs).Normal)
    (hc : ∀ c ∈ r.content, (Encode.map MediaType.encode c).Normal)
    (hl : ∀ ls ∈ r.links, (Encode.free ls).Normal) (hext : Outside fieldNames r.extensions) :
    r.encode.Normal :=
  normal_fields fieldNames (by decide)
    ((((fields_optional hh).cons (normal_text _)).append (fields_optional hc)).append
      (fields_optional hl)) hext

/-- Responses are written in normal form. -/
theorem tidy : Tidy decode encode := by
  refine yields_record fun ms r h => ?_
  obtain ⟨-, hh, hc, hl, hext⟩ := read_eq_ok.1 h
  exact normal_encode (Members.tidy_optional tidy_freeMap hh)
    (Members.tidy_optional tidy_content hc) (Members.tidy_optional tidy_freeMap hl)
    (Members.outside_of_extensions hext)

end Response

namespace Responses

/-- The responses are given under distinct codes, and each of them is written in normal form. -/
abbrev Tidy (rs : Responses) : Prop :=
  MapOf (fun r => (r.encode Response.encode).Normal) rs

/-- Tidy responses of an operation are in normal form. -/
theorem Tidy.normal {rs : Responses} (h : rs.Tidy) : rs.encode.Normal := by
  refine Json.normal_obj_iff.2 ⟨?_, List.forall_mem_map.2 h.values⟩
  have hkeys : OrderedMap.keys (rs.map (fun e => (e.1.text, e.2.encode Response.encode)))
      = rs.keys.map StatusCode.text := by
    simp [OrderedMap.keys]
  rw [OrderedMap.Distinct, hkeys]
  refine h.distinct.map fun c c' hc => ?_
  cases c
  cases c'
  exact congrArg _ hc

/-- The responses of an operation are tidy, whatever they are read from. -/
theorem tidy (v : Json) : Yields decode Tidy v :=
  yields fun _ _ e _ => RefOr.tidy Response.tidy e.2

end Responses

namespace Server

variable {surplus : Nat → DecodeError}

/-- A server is in normal form if its variables are. -/
theorem normal_encode {s : Server} (h : ∀ b ∈ s.bindings, (Encode.free b).Normal) :
    s.encode.Normal := by
  have hfields : Fields fieldNames (("url", .str s.url)
      :: Encode.optional "description" .str s.description
      ++ Encode.optional "variables" Encode.free s.bindings) :=
    (fields_text.cons (normal_text _)).append (fields_optional h)
  simpa [encode] using normal_fields fieldNames (by decide) hfields (outside_nil _)

/-- Servers are written in normal form. -/
theorem tidy : Tidy (decode surplus) encode := by
  intro v s hs
  exact normal_encode (yields (fun j _ => tidy_freeMap j) s hs)

end Server

/-! ## Operations and paths -/

namespace OperationExtras

variable {names : List String} {ms : Members} {e : OperationExtras}

/-- The fields that are carried along are written in normal form, and the extensions stand outside
of them. -/
structure Tidy (e : OperationExtras) : Prop where
  externalDocs : ∀ j ∈ e.externalDocs, j.Normal
  security : ∀ rs ∈ e.security, (Encode.list (Encode.map (Encode.list .str)) rs).Normal
  servers : ∀ ss ∈ e.servers, (Encode.list Server.encode ss).Normal
  callbacks : ∀ cs ∈ e.callbacks, (Encode.free cs).Normal
  extensions : Outside fieldNames e.extensions

/-- The members that the fields are written as stand outside of the fields of another record if the
extensions do and no name is common to both. -/
theorem Tidy.outside_members (h : e.Tidy) (hext : Outside names e.extensions)
    (hdisjoint : ∀ n ∈ fieldNames, n ∉ names) : Outside names e.members :=
  outside_fields (by decide)
    (((((((fields_text).append (fields_optional fun l _ => normal_texts l)).append
      (fields_optional h.externalDocs)).append fields_boolean).append
      (fields_optional h.security)).append (fields_optional h.servers)).append
      (fields_optional h.callbacks)) h.extensions hext hdisjoint

/-- The fields that are carried along are tidy, whatever they are read from. -/
theorem tidy_of_read {surplus : Nat → DecodeError} (h : read (Server.decode surplus) ms = .ok e) :
    e.Tidy := by
  obtain ⟨-, -, hdocs, -, hsecurity, hservers, hcallbacks, hext⟩ := read_eq_ok.1 h
  exact
    { externalDocs := Members.tidy_optional tidy_free hdocs
      security := Members.tidy_optional (tidy_list (tidy_map (tidy_list tidy_text))) hsecurity
      servers := Members.tidy_optional (tidy_list Server.tidy) hservers
      callbacks := Members.tidy_optional tidy_freeMap hcallbacks
      extensions := Members.outside_of_extensions hext }

end OperationExtras

/-- Lists of parameters are written in normal form. -/
theorem Parameters.tidy : Tidy Parameters.decode Parameters.encode :=
  tidy_list (RefOr.tidy Parameter.tidy)

namespace Operation

/-- The fields of the operation are written in normal form, and the extensions stand outside of them
as well as of the fields that are carried along. -/
structure Tidy (o : Operation) : Prop where
  parameters : ∀ ps ∈ o.parameters, (Parameters.encode ps).Normal
  requestBody : ∀ b ∈ o.requestBody, (b.encode RequestBody.encode).Normal
  responses : o.responses.Tidy
  extras : o.extras.Tidy
  outside : Outside fieldNames o.extras.extensions

/-- A tidy operation is in normal form. -/
theorem Tidy.normal {o : Operation} (h : o.Tidy) : o.encode.Normal := by
  rw [encode, List.append_cons]
  exact normal_fields fieldNames (by decide)
    ((((fields_text.append fields_text).append (fields_optional h.parameters)).append
      (fields_optional h.requestBody)).append (fields_member h.responses.normal))
    (h.extras.outside_members h.outside (by decide))

/-- An operation that is read from any members is tidy. -/
theorem tidy_of_read {ms : Members} {o : Operation} (h : read ms = .ok o) : o.Tidy := by
  obtain ⟨-, -, hparameters, hbody, hresponses, hextras⟩ := read_eq_ok.1 h
  exact
    { parameters := Members.tidy_optional Parameters.tidy hparameters
      requestBody := Members.tidy_optional (RefOr.tidy RequestBody.tidy) hbody
      responses := Members.yields_defaulted (fun e _ => Responses.tidy e.2) .nil hresponses
      extras := OperationExtras.tidy_of_read hextras
      outside := OperationExtras.outside_of_read hextras }

/-- Operations are tidy, whatever they are read from. -/
theorem tidy (v : Json) : Yields decode Tidy v := yields_record (fun _ _ => tidy_of_read) v

end Operation

namespace PathItem

/-- The fields of the path are written in normal form, and so are its operations, which stand under
distinct methods. -/
structure Tidy (p : PathItem) : Prop where
  parameters : ∀ ps ∈ p.parameters, (Parameters.encode ps).Normal
  servers : ∀ ss ∈ p.servers, (Encode.list Server.encode ss).Normal
  operations : MapOf Operation.Tidy p.operations

/-- The operations of a path stand outside of its fields, since no method is one of their names. -/
theorem outside_encodeOperations {os : Operations} (h : MapOf Operation.Tidy os) :
    Outside fieldNames (encodeOperations os) := by
  exact ⟨Json.normal_obj_iff.2 ⟨distinct_encodeOperations.2 h.distinct,
    List.forall_mem_map.2 fun e he => (h.values e he).normal⟩,
    List.forall_mem_map.2 key_notMem_fieldNames⟩

/-- A tidy path is in normal form. -/
theorem Tidy.normal {p : PathItem} (h : p.Tidy) : p.encode.Normal :=
  normal_fields fieldNames (by decide)
    (((fields_text.append fields_text).append (fields_optional h.parameters)).append
      (fields_optional h.servers)) (outside_encodeOperations h.operations)

/-- A path that is read from any members is tidy. -/
theorem tidy_of_read {ms : Members} {p : PathItem} (h : read ms = .ok p) : p.Tidy := by
  obtain ⟨-, -, hparameters, hservers, hoperations⟩ := read_eq_ok.1 h
  exact
    { parameters := Members.tidy_optional Parameters.tidy hparameters
      servers := Members.tidy_optional (tidy_list Server.tidy) hservers
      operations := yields_operations (fun m _ => Operation.tidy m.2) hoperations }

/-- Paths are tidy, whatever they are read from. -/
theorem tidy (v : Json) : Yields decode Tidy v := yields_record (fun _ _ => tidy_of_read) v

end PathItem

/-- The paths are distinct, and each of them is written in normal form. -/
abbrev Paths.Tidy (ps : Paths) : Prop := MapOf PathItem.Tidy ps

/-- A map of tidy paths is in normal form. -/
theorem Paths.Tidy.normal {ps : Paths} (h : ps.Tidy) : (Paths.encode ps).Normal :=
  normal_map (h.imp fun _ => PathItem.Tidy.normal)

/-- All paths of a document are tidy, whatever they are read from. -/
theorem Paths.tidy (v : Json) : Yields decode Tidy v := yields_map fun _ _ e _ => PathItem.tidy e.2

/-! ## Documents -/

/-- The general information is written in normal form. -/
theorem Info.tidy : Tidy Info.decode Info.encode := by
  refine yields_record fun ms i h => ?_
  obtain ⟨-, -, -, -, -, hcontact, hlicense, hext⟩ := read_eq_ok.1 h
  exact normal_fields fieldNames (by decide)
    (((((((fields_text).cons (normal_text _)).cons (normal_text _)).append fields_text).append
      fields_text).append (fields_optional (Members.tidy_optional tidy_free hcontact))).append
      (fields_optional (Members.tidy_optional tidy_free hlicense)))
    (Members.outside_of_extensions hext)

namespace Components

/-- A section that is read from any members is a field in normal form. -/
theorem fields_of_section {α : Type} {decode : Json → Except DecodeError α} {encode : α → Json}
    {name : String} {ms : Members} {m : OrderedMap String α} (ht : Tidy decode encode)
    (h : ms.defaulted name (Decode.map decode) [] = .ok m) :
    Fields [name] (sectionMember name encode m) :=
  fields_section (Members.yields_defaulted (P := fun m => (Encode.map encode m).Normal)
    (fun e _ => tidy_map ht e.2) (normal_map .nil) h)

/-- The components are written in normal form. -/
theorem tidy : Tidy decode encode := by
  refine yields_record fun ms c h => ?_
  obtain ⟨hschemas, hresponses, hparameters, hbodies, hothers⟩ := read_eq_ok.1 h
  exact normal_fields fieldNames (by decide)
    ((((fields_of_section SchemaOrRef.tidy hschemas).append
      (fields_of_section (RefOr.tidy Response.tidy) hresponses)).append
      (fields_of_section (RefOr.tidy Parameter.tidy) hparameters)).append
      (fields_of_section (RefOr.tidy RequestBody.tidy) hbodies))
    (Members.outside_of_extensions hothers)

end Components

/-! ## Definitions of operations -/

namespace ParameterOverride

/-- The fields of the override are written in normal form, and its extensions stand outside of
them. -/
structure Tidy (o : ParameterOverride) : Prop where
  example? : ∀ j ∈ o.example?, j.Normal
  examples : ∀ es ∈ o.examples, (Encode.free es).Normal
  content : ∀ c ∈ o.content, (Encode.map MediaType.encode c).Normal
  extensions : Outside fieldNames o.extensions

/-- Overrides are tidy, whatever they are read from. -/
theorem tidy (v : Json) : Yields decode Tidy v := by
  refine yields_record (fun ms o h => ?_) v
  obtain ⟨-, -, -, -, -, -, -, -, he, hes, hc, hext⟩ := read_eq_ok.1 h
  exact
    { example? := Members.tidy_optional tidy_free he
      examples := Members.tidy_optional tidy_freeMap hes
      content := Members.tidy_optional tidy_content hc
      extensions := Members.outside_of_extensions hext }

end ParameterOverride

namespace InputDef

/-- The schema of the input and what is said about its fields are written in normal form. -/
structure Tidy (i : InputDef) : Prop where
  schema : i.schema.encode.Normal
  parameters : ∀ e ∈ i.parameters, e.2.Tidy

/-- All overrides of an input are tidy, whatever they are read from. -/
theorem overrides_tidy (v : Json) :
    Yields decodeOverrides (fun os => ∀ e ∈ os, ParameterOverride.Tidy e.2) v :=
  fun os h => (yields_map (fun _ _ e _ => ParameterOverride.tidy e.2) os h).values

/-- Inputs are tidy, whatever they are read from. -/
theorem tidy (v : Json) : Yields decode Tidy v := by
  intro i hi
  obtain ⟨hschema, hparameters⟩ :=
    yields (fun j _ => SchemaOrRef.tidy j) (fun j _ => overrides_tidy j) (by simp) i hi
  exact ⟨hschema, hparameters⟩

end InputDef

/-- The media type of an output is in normal form, whatever the output is read from. -/
theorem OutputDef.tidy (v : Json) : Yields decode (fun o => o.media.encode.Normal) v := by
  refine yields_record (fun ms o h => ?_) v
  obtain ⟨-, -, hmedia⟩ := read_eq_ok.1 h
  exact MediaType.normal_of_read hmedia

namespace OperationDef

/-- The parts of the definition are written in normal form, and the extensions stand outside of its
fields as well as of those that are carried along. -/
structure Tidy (d : OperationDef) : Prop where
  input : ∀ i ∈ d.input, i.Tidy
  output : ∀ o ∈ d.output, o.media.encode.Normal
  errors : ∀ rs ∈ d.errors, rs.Tidy
  extras : d.extras.Tidy
  outside : Outside fieldNames d.extras.extensions

/-- Definitions of operations are tidy, whatever they are read from. -/
theorem tidy (v : Json) : Yields decode Tidy v := by
  refine yields_record (fun ms d h => ?_) v
  obtain ⟨-, -, -, hinput, houtput, herrors, hextras⟩ := read_eq_ok.1 h
  exact
    { input := Members.yields_optional (fun e _ _ => InputDef.tidy e.2) hinput
      output := Members.yields_optional (fun e _ _ => OutputDef.tidy e.2) houtput
      errors := Members.yields_optional (fun e _ _ => Responses.tidy e.2) herrors
      extras := OperationExtras.tidy_of_read hextras
      outside := OperationExtras.outside_of_read hextras }

end OperationDef

/-! ## Descriptions -/

namespace RpcOperations

/-- The definitions of all declared operations have parts that are written in normal form. -/
abbrev Tidy (o : RpcOperations) : Prop := ∀ e ∈ o.declared, e.2.2.Tidy

/-- Operations are tidy if those of both kinds are. -/
theorem tidy_declared {o : RpcOperations} (hq : MapOf OperationDef.Tidy o.queries)
    (hm : MapOf OperationDef.Tidy o.mutations) : o.Tidy := by
  intro e he
  rcases List.mem_append.1 he with he | he
  · obtain ⟨q, hq', rfl⟩ := List.mem_map.1 he
    exact hq.values q hq'
  · obtain ⟨m, hm', rfl⟩ := List.mem_map.1 he
    exact hm.values m hm'

/-- The operations of a kind are tidy, whatever they are read from. -/
theorem set_tidy (v : Json) : Yields decodeSet (MapOf OperationDef.Tidy) v :=
  yields_map fun _ _ e _ => OperationDef.tidy e.2

/-- All operations are tidy, whatever they are read from. -/
theorem tidy (v : Json) : Yields decode Tidy v := by
  intro o ho
  obtain ⟨hqueries, hmutations⟩ := yields (fun j _ => set_tidy j) .nil o ho
  exact tidy_declared hqueries hmutations

end RpcOperations

namespace RpcDocument

/-- The parts of the description are written in normal form, and its other members stand outside of
its fields. -/
structure Tidy (d : RpcDocument) : Prop where
  info : d.info.encode.Normal
  components : d.components.encode.Normal
  operations : d.operations.Tidy
  paths : ∀ ps ∈ d.paths, ps.Tidy
  extra : Outside fieldNames d.extra

/-- **What is read as a description has parts that are written in normal form**, whatever the tree
is. -/
theorem tidy (v : Json) : Yields decode Tidy v := by
  refine yields_record (fun ms d h => ?_) v
  obtain ⟨-, hinfo, hcomponents, hoperations, hpaths, hextra⟩ := read_eq_ok.1 h
  exact
    { info := Members.tidy_required Info.tidy hinfo
      components := Members.yields_defaulted (P := fun c => c.encode.Normal)
        (fun e _ => Components.tidy e.2) rfl hcomponents
      operations := Members.yields_defaulted (fun e _ => RpcOperations.tidy e.2)
        (RpcOperations.tidy_declared .nil .nil) hoperations
      paths := Members.yields_optional (fun e _ _ => Paths.tidy e.2) hpaths
      extra := Members.outside_of_extensions hextra }

end RpcDocument

end RpcOpenApi
