import RpcOpenApi.Proofs.Codec.NormalForm

/-!
# What is written can be read

What was read from a tree in normal form is read back as what it is (`Faithful`). A tree that
repeats a key may be read as something that is not: an object with two `$ref` is no reference, but
the schema that is read from it is written with one of them, and then it is one. Still, what was
read from any tree is written as a tree that can be read, if only as something else (`Readable`).
This is shown of schemas, and of media types and their maps, which have schemas in them.
-/

namespace RpcOpenApi

section
variable {α : Type}

/-- What the value is written as can be read. -/
def Readable (decode : Json → Except DecodeError α) (encode : α → Json) (a : α) : Prop :=
  ∃ a', decode (encode a) = .ok a'

variable {decode : Json → Except DecodeError α} {encode : α → Json}

/-- A map can be read if its values can. -/
theorem readable_map {m : OrderedMap String α} (h : ∀ e ∈ m, Readable decode encode e.2) :
    Readable (Decode.map decode) (Encode.map encode) m := by
  have hvalues : ∀ m' ∈ m.map (fun e => (e.1, encode e.2)), ∃ a, decode m'.2 = .ok a :=
    List.forall_mem_map.2 h
  obtain ⟨es, hes⟩ := Decode.exists_members_eq_ok.2 hvalues
  exact ⟨_, Decode.map_eq_ok.2 ⟨_, rfl, es, hes, rfl⟩⟩

/-- A tree of any form can be read again. -/
theorem readable_free (j : Json) : Readable Decode.free id j := ⟨_, rfl⟩

/-- So can a map of trees. -/
theorem readable_freeMap (m : OrderedMap String Json) :
    Readable (Decode.map Decode.free) Encode.free m := by
  obtain ⟨es, hes⟩ := Decode.exists_members_eq_ok.2 fun e (_ : e ∈ m) => readable_free e.2
  exact ⟨_, Decode.map_eq_ok.2 ⟨_, rfl, es, hes, rfl⟩⟩

/-- A field that may be left out can be read if its value can, and also if this is `null`. -/
theorem Members.exists_optional (ms : Members) (name : String) {o : Option α}
    (h : ∀ a ∈ o, Readable decode encode a) (hv : values [name] ms = o.toList.map encode) :
    ∃ o', ms.optional name decode = .ok o' := by
  cases o with
  | none => exact ⟨none, optional_eq_ok.2 (.inl ⟨hv, rfl⟩)⟩
  | some a =>
    obtain ⟨a', ha'⟩ := h a rfl
    by_cases hnull : encode a = .null
    · exact ⟨none, optional_eq_ok.2 (.inr ⟨_, hv, by rw [hnull]; rfl⟩)⟩
    · exact ⟨some a', optional_eq_ok.2 (.inr ⟨_, hv, Decode.optional_eq_ok_some.2 ⟨hnull, ha'⟩⟩)⟩

end

/-! ## Schemas -/

/-- The maps of schemas within a tree can be read from what they are written as. -/
abbrev Schema.PropertiesReadable (v : Json) : Prop :=
  Yields (Decode.map SchemaOrRef.decode)
    (MapOf (Readable SchemaOrRef.decode SchemaOrRef.encode)) v

/-- The members of a schema can be read again if its properties can. -/
theorem Schema.exists_read_members {s : Schema}
    (hp : ∀ ps ∈ s.properties, MapOf (Readable SchemaOrRef.decode SchemaOrRef.encode) ps)
    (hk : Outside fieldNames s.keywords) : ∃ s', read s.members = .ok s' := by
  obtain ⟨properties, hproperties⟩ := Members.exists_optional s.members "properties"
    (fun ps hps => readable_map (hp ps hps).values)
    (by simp (disch := decide) [members, hk.values_eq_nil])
  refine ⟨⟨s.type, properties, s.required, s.keywords⟩, read_eq_ok.2 ⟨?_, hproperties, ?_, ?_⟩⟩
  · exact Members.optional_of_readsBack
      (optionReadsBack_of_forall (fun t _ => t.readsBack) SchemaType.encode_ne_null)
      (by simp (disch := decide) [members, hk.values_eq_nil])
  · exact Members.optional_of_readsBack (optionReadsBack_texts _)
      (by simp (disch := decide) [members, hk.values_eq_nil])
  · exact Members.extensions_of_outside hk
      (by simp (disch := decide) [members, fieldNames, hk.others_eq_self])

namespace SchemaOrRef

/-- What is read from a tree can be read again if the maps of schemas among the members of the tree
can. -/
theorem readable_of_maps {v : Json}
    (hmaps : ∀ ms, v = .obj ms → ∀ e ∈ ms, Schema.PropertiesReadable e.2) :
    Yields SchemaOrRef.decode (Readable SchemaOrRef.decode SchemaOrRef.encode) v := by
  intro x hx
  obtain ⟨b, rfl, rfl⟩ | ⟨ms, rfl, ⟨r, hr, rfl⟩ | ⟨-, s, hs, rfl⟩⟩ := decode_eq_ok hx
  · exact ⟨_, rfl⟩
  · have hsiblings := (Reference.read_eq_ok.1 hr).2.2.2
    exact ⟨_, readsBack (x := .reference r) (Members.outside_of_extensions hsiblings)⟩
  · obtain ⟨-, hp, -, hk⟩ := Schema.read_eq_ok.1 hs
    obtain ⟨s', hs'⟩ := Schema.exists_read_members
      (Members.yields_optional (fun e he _ => hmaps ms rfl e he) hp)
      (Members.outside_of_extensions hk)
    rw [Schema.read] at hs'
    rw [Readable, SchemaOrRef.encode, Schema.encode_eq, SchemaOrRef.decode]
    -- what was read as a schema may now be read as a reference
    cases Reference.read s.members with
    | ok r => exact ⟨_, rfl⟩
    | problem p => exact ⟨.inline s', by simp only [hs']⟩

/-- **What is read as a schema can be read again**, whatever the tree is. -/
theorem readable (v : Json) :
    Yields SchemaOrRef.decode (Readable SchemaOrRef.decode SchemaOrRef.encode) v := by
  -- The properties of a schema are a part of the tree, the schemas in it are parts of this part.
  suffices h : Yields SchemaOrRef.decode (Readable SchemaOrRef.decode SchemaOrRef.encode) v ∧
      Schema.PropertiesReadable v from h.1
  induction v using Json.induction with
  | null | num | str | arr => constructor <;> intro _ h <;> cases h
  | bool b =>
    refine ⟨readable_of_maps fun _ h => ?_, fun _ h => ?_⟩
    · cases h
    · cases h
  | obj ms ih =>
    refine ⟨readable_of_maps fun ms' hms _ he => ?_, yields_map fun ms' hms _ he => ?_⟩
    · cases hms
      exact (ih _ he).2
    · cases hms
      exact (ih _ he).1

end SchemaOrRef

/-! ## Media types -/

namespace MediaType

/-- A media type can be read again, whatever it was read from. -/
theorem readable (v : Json) : Yields decode (Readable decode encode) v := by
  refine yields_record (fun ms m h => ?_) v
  obtain ⟨hs, -, -, -, hext⟩ := read_eq_ok.1 h
  have hout := Members.outside_of_extensions hext
  obtain ⟨schema, hschema⟩ := Members.exists_optional m.members "schema"
    (Members.yields_optional (fun e _ _ => SchemaOrRef.readable e.2) hs)
    (by simp (disch := decide) [members, hout.values_eq_nil])
  obtain ⟨ex, hexample⟩ := Members.exists_optional m.members "example"
    (fun j (_ : j ∈ m.example?) => readable_free j)
    (by simp (disch := decide) [members, hout.values_eq_nil])
  obtain ⟨examples, hexamples⟩ := Members.exists_optional m.members "examples"
    (fun es (_ : es ∈ m.examples) => readable_freeMap es)
    (by simp (disch := decide) [members, hout.values_eq_nil])
  obtain ⟨encoding, hencoding⟩ := Members.exists_optional m.members "encoding"
    (fun es (_ : es ∈ m.encoding) => readable_freeMap es)
    (by simp (disch := decide) [members, hout.values_eq_nil])
  exact ⟨⟨schema, ex, examples, encoding, m.extensions⟩, Decode.record_eq_ok.2 ⟨_, rfl,
    read_eq_ok.2 ⟨hschema, hexample, hexamples, hencoding, Members.extensions_of_outside hout
      (by simp (disch := decide) [members, fieldNames, hout.others_eq_self])⟩⟩⟩

end MediaType

/-- Content by media type can be read again, whatever it was read from. -/
theorem readable_content (v : Json) : Yields (Decode.map MediaType.decode)
    (Readable (Decode.map MediaType.decode) (Encode.map MediaType.encode)) v :=
  fun c h => readable_map (yields_map (fun _ _ e _ => MediaType.readable e.2) c h).values

end RpcOpenApi
