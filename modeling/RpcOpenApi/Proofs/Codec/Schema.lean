import RpcOpenApi.Proofs.Codec.ReadBack
import RpcOpenApi.OpenApi.Schema

/-!
# Reading back references and schemas

A reference and an inline definition stand in the same place and are told apart by reading alone, so
an inline definition is read back only if what it is written as does not read as a reference
(`RefOr.readsBack_inline`). Whether an object does depends on three of its members, and these an
inline definition carries along or reads as a reference would (`Reference.refers_of_others`). So
writing an inline definition does not make a reference of it (`AddsNoReference`).

Schemas contain schemas. `SchemaOrRef.faithful` is by induction over the tree: the values of the
`properties` of a schema are parts of parts of the tree from which the schema is read, so the
induction carries the reader of maps of schemas along with that of schemas.
-/

namespace RpcOpenApi

/-! ## References -/

namespace Reference

/-- The tree is read as a reference. -/
def Refers (v : Json) : Prop := ∃ r, Reference.decode v = .ok r

variable {ms ms' : Members} {r : Reference}

/-- A reference is read iff each of its fields is, and its siblings are the other members. -/
theorem read_eq_ok : read ms = .ok r ↔
    ms.required "$ref" Decode.text = .ok r.target ∧
      ms.optional "summary" Decode.text = .ok r.summary ∧
      ms.optional "description" Decode.text = .ok r.description ∧
      ms.extensions fieldNames = .ok r.siblings := by
  rw [Reading.eq_ok_iff_gives, read]
  simp only [Reading.gives_seq, Reading.gives_map]
  cases r
  simp only [Reading.Gives, mk.injEq, ← and_assoc, exists_eq_right]

/-- A reference is read from an object as from its members. -/
theorem decode_obj : Reference.decode (.obj ms) = .ok r ↔ read ms = .ok r :=
  Reading.toExcept_eq_ok

/-- A reference whose other members stand outside of its fields is read back. -/
theorem readsBack (h : Outside fieldNames r.siblings) : ReadsBack decode encode r := by
  refine decode_obj.2 (read_eq_ok.2 ⟨?_, ?_, ?_, ?_⟩)
  · exact Members.required_of_readsBack (readsBack_text _)
      (by simp (disch := decide) [members, h.values_eq_nil])
  · exact Members.optional_of_readsBack (optionReadsBack_text _)
      (by simp (disch := decide) [members, h.values_eq_nil])
  · exact Members.optional_of_readsBack (optionReadsBack_text _)
      (by simp (disch := decide) [members, h.values_eq_nil])
  · exact Members.extensions_of_outside h
      (by simp (disch := decide) [members, fieldNames, h.others_eq_self])

/-- The siblings of a reference are none of its fields. -/
theorem outside_of_read (h : read ms = .ok r) : Outside fieldNames r.siblings := by
  obtain ⟨-, -, -, h⟩ := read_eq_ok.1 h
  exact Members.outside_of_extensions h

/-- References are faithful. -/
theorem faithful (v : Json) : Faithful decode encode v :=
  ensures_record (fun _ _ _ h => readsBack (outside_of_read h)) v

/-- An object with the same other members, beside some fields, as a reference is a reference itself.
Of the fields of a reference only the description may be among these fields, and then it has to be
a text. -/
theorem refers_of_others (names : List String) (h : Refers (.obj ms'))
    (hothers : Members.others names ms' = Members.others names ms) (htarget : "$ref" ∉ names)
    (hsummary : "summary" ∉ names)
    (hdescription : "description" ∈ names → ∃ o, ms.optional "description" Decode.text = .ok o) :
    Refers (.obj ms) := by
  have hvalues : ∀ n ∉ names, Members.values [n] ms' = Members.values [n] ms := by
    intro n hn
    have hsub : ∀ k ∈ [n], k ∉ names := fun k hk => List.mem_singleton.1 hk ▸ hn
    rw [← Members.values_others hsub, hothers, Members.values_others hsub]
  obtain ⟨r, hr⟩ := h
  obtain ⟨ht, hs, hd, -⟩ := read_eq_ok.1 (decode_obj.1 hr)
  rw [Members.required_eq_ok, hvalues _ htarget, ← Members.required_eq_ok] at ht
  rw [Members.optional_eq_ok, hvalues _ hsummary, ← Members.optional_eq_ok] at hs
  have hd' : ∃ o, ms.optional "description" Decode.text = .ok o := by
    by_cases hmem : "description" ∈ names
    · exact hdescription hmem
    · rw [Members.optional_eq_ok, hvalues _ hmem, ← Members.optional_eq_ok] at hd
      exact ⟨_, hd⟩
  obtain ⟨o, ho⟩ := hd'
  exact ⟨⟨r.target, r.summary, o, _⟩, decode_obj.2 (read_eq_ok.2 ⟨ht, hs, ho, rfl⟩)⟩

/-- An object without a `$ref` is no reference. -/
theorem not_refers_of_values (h : Members.values ["$ref"] ms = []) : ¬Refers (.obj ms) := by
  rintro ⟨r, hr⟩
  obtain ⟨ht, -⟩ := read_eq_ok.1 (decode_obj.1 hr)
  obtain ⟨j, hj, -⟩ := Members.required_eq_ok.1 ht
  rw [h] at hj
  cases hj

end Reference

/-! ## References or inline definitions -/

section
variable {α : Type} {inner : Json → Except DecodeError α} {encode : α → Json} {a : α} {v : Json}

/-- What is read from the tree as an inline definition is written as a reference only if the tree is
one. -/
def AddsNoReference (inner : Json → Except DecodeError α) (encode : α → Json) (v : Json) : Prop :=
  v.Normal → ∀ a, inner v = .ok a → Reference.Refers (encode a) → Reference.Refers v

/-- A record without a field for the target or the summary of a reference adds no reference, if the
other members are kept and a description is a text where it is a field. -/
theorem addsNoReference_record {name : String} {read : Members → Reading α} (names : List String)
    (htarget : "$ref" ∉ names) (hsummary : "summary" ∉ names)
    (h : ∀ ms a, Json.Normal (.obj ms) → read ms = .ok a → ∃ ms', encode a = .obj ms' ∧
      Members.others names ms' = Members.others names ms ∧
      ("description" ∈ names → ∃ o, Members.optional ms "description" Decode.text = .ok o))
    (v : Json) : AddsNoReference (Decode.record name read) encode v := by
  intro hn a ha href
  obtain ⟨ms, rfl, hread⟩ := Decode.record_eq_ok.1 ha
  obtain ⟨ms', hms', hothers, hdescription⟩ := h ms a hn hread
  rw [hms'] at href
  exact Reference.refers_of_others names href hothers htarget hsummary hdescription

namespace RefOr

/-- A reference that is read back is so where a definition may stand as well. -/
theorem readsBack_reference {r : Reference} (h : ReadsBack Reference.decode Reference.encode r) :
    ReadsBack (RefOr.decode inner) (RefOr.encode encode) (.reference r) := by
  rw [ReadsBack, RefOr.encode, RefOr.decode, h]

/-- An inline definition is read back where a reference may stand, if it is not written as one. -/
theorem readsBack_inline (h : ReadsBack inner encode a) (hr : ¬Reference.Refers (encode a)) :
    ReadsBack (RefOr.decode inner) (RefOr.encode encode) (.inline a) := by
  have hinner : inner (encode a) = .ok a := h
  rw [ReadsBack, RefOr.encode, RefOr.decode]
  cases hd : Reference.decode (encode a) with
  | ok r => exact (hr ⟨r, hd⟩).elim
  | error e => simp only [hinner]

/-- A tree that is no reference is read as an inline definition, if it is one. -/
theorem decode_eq_ok {x : RefOr α} (h : RefOr.decode inner v = .ok x) :
    (∃ r, Reference.decode v = .ok r ∧ x = .reference r) ∨
      ¬Reference.Refers v ∧ ∃ a, inner v = .ok a ∧ x = .inline a := by
  rw [RefOr.decode] at h
  split at h
  · next r hr =>
    cases h
    exact .inl ⟨r, hr, rfl⟩
  · next e he =>
    refine .inr ⟨fun ⟨r, hr⟩ => (nomatch he.symm.trans hr), ?_⟩
    split at h
    · next a ha =>
      cases h
      exact ⟨a, ha, rfl⟩
    · cases h

/-- What can be read as a reference is, and nothing else. -/
theorem decode_eq_reference {r : Reference} :
    RefOr.decode inner v = .ok (.reference r) ↔ Reference.decode v = .ok r := by
  rw [RefOr.decode]
  cases Reference.decode v with
  | ok r' => simp
  | error e => cases inner v <;> simp

/-- What cannot be read as a reference is read as an inline definition. -/
theorem decode_eq_inline :
    RefOr.decode inner v = .ok (.inline a) ↔ ¬Reference.Refers v ∧ inner v = .ok a := by
  rw [RefOr.decode, Reference.Refers]
  cases Reference.decode v with
  | ok r => simp
  | error e => cases inner v <;> simp

/-- A reader of references or inline definitions is faithful if that of the definitions is and what
it reads is not written as a reference. -/
theorem faithful (h : Faithful inner encode v) (hr : AddsNoReference inner encode v) :
    Faithful (RefOr.decode inner) (RefOr.encode encode) v := by
  intro hn x hx
  rcases decode_eq_ok hx with ⟨r, hr, rfl⟩ | ⟨hv, a, ha, rfl⟩
  · exact readsBack_reference (Reference.faithful v hn r hr)
  · exact readsBack_inline (h hn a ha) (fun he => hv (hr hn a ha he))

end RefOr

end

/-! ## Schemas -/

/-- A type is read from a name or from an array of names. -/
theorem SchemaType.decode_eq_ok {v : Json} {t : SchemaType} : decode v = .ok t ↔
    (∃ name, v = .str name ∧ t = .single name) ∨
    ∃ names, Decode.list Decode.text v = .ok names ∧ t = .union names := by
  cases v with
  | str name => simp [decode, Decode.list, eq_comm]
  | arr js => cases h : Decode.list Decode.text (.arr js) <;> simp [decode, h, eq_comm]
  | null | bool | num | obj => simp [decode, Decode.list]

/-- The type of a schema is read back. -/
theorem SchemaType.readsBack (t : SchemaType) :
    ReadsBack SchemaType.decode SchemaType.encode t := by
  cases t with
  | single name => rfl
  | union names =>
    have h : Decode.list Decode.text (.arr (names.map .str)) = .ok names := readsBack_texts names
    simp only [ReadsBack, SchemaType.encode, Encode.list, SchemaType.decode, h]

/-- The type of a schema is not written as `null`. -/
theorem SchemaType.encode_ne_null (t : SchemaType) : t.encode ≠ .null := by
  cases t <;> exact nofun

namespace Schema

variable {ms : Members} {s : Schema}

/-! ### The reader and the writer of schemas, by way of those of maps -/

/-- The properties of a schema are read as the members of an object are. -/
theorem decodeEach_eq (ms : Members) :
    Schema.decodeEach ms = Decode.members SchemaOrRef.decode ms := by
  induction ms with
  | nil => rw [Schema.decodeEach, Decode.members]
  | cons m ms ih => rw [Schema.decodeEach, Decode.members, ih]

/-- The properties of a schema are read as a map that may be left out. -/
theorem decodeProperties_eq (v : Json) :
    Schema.decodeProperties v = Decode.optional (Decode.map SchemaOrRef.decode) v := by
  cases v with
  | null => rw [Schema.decodeProperties, Decode.optional]
  | obj ms =>
    rw [Schema.decodeProperties, decodeEach_eq, Decode.optional_of_ne_null (by simp), Decode.map]
    cases Decode.members SchemaOrRef.decode ms <;> rfl
  | bool | num | str | arr => rfl

/-- The entries under `properties` are those that a map under this name has. -/
theorem propertyEntries_eq (place : Nat) (ms : Members) :
    propertyEntries place ms = (Members.entries ["properties"] place ms).map
      (fun e => (e.1, Decode.optional (Decode.map SchemaOrRef.decode) e.2)) := by
  induction ms generalizing place with
  | nil => rw [propertyEntries, Members.entries, List.map_nil]
  | cons m ms ih =>
    rw [propertyEntries, Members.entries, ih, decodeProperties_eq]
    by_cases h : m.1 = "properties" <;> simp [h]

/-- A schema is read iff each of its fields is, and its keywords are the other members. -/
theorem read_eq_ok : read ms = .ok s ↔
    ms.optional "type" SchemaType.decode = .ok s.type ∧
      ms.optional "properties" (Decode.map SchemaOrRef.decode) = .ok s.properties ∧
      ms.optional "required" (Decode.list Decode.text) = .ok s.required ∧
      ms.extensions fieldNames = .ok s.keywords := by
  have hproperties : (Reading.single "properties" (propertyEntries 0 ms)).orElse none
      = ms.optional "properties" (Decode.map SchemaOrRef.decode) := by
    rw [propertyEntries_eq]
    rfl
  rw [Reading.eq_ok_iff_gives, read, assemble, hproperties]
  simp only [Reading.gives_seq, Reading.gives_map]
  cases s
  simp only [Reading.Gives, mk.injEq, ← and_assoc, exists_eq_right]

/-- The properties of a schema are written as the members of an object are. -/
theorem encodeEach_eq (ps : List (String × SchemaOrRef)) :
    encodeEach ps = ps.map (fun e => (e.1, e.2.encode)) := by
  induction ps with
  | nil => rw [encodeEach, List.map_nil]
  | cons e ps ih => rw [encodeEach, ih, List.map_cons]

/-- The members that a schema is written as. -/
def members (s : Schema) : Members :=
  Encode.optional "type" SchemaType.encode s.type
    ++ Encode.optional "properties" (Encode.map SchemaOrRef.encode) s.properties
    ++ Encode.optional "required" (Encode.list .str) s.required
    ++ s.keywords

/-- A schema is written as the object of its members. -/
theorem encode_eq (s : Schema) : s.encode = .obj s.members := by
  obtain ⟨type, - | properties, required, keywords⟩ := s
  · rw [Schema.encode]
    simp [members, Encode.optional]
  · rw [Schema.encode, encodeEach_eq]
    simp [members, Encode.optional, Encode.map]

/-! ### Schemas that are read back -/

/-- The properties of the schema are read back, and its other keywords stand outside of the
fields. -/
structure Stable (s : Schema) : Prop where
  properties : ∀ ps ∈ s.properties, MapOf (ReadsBack SchemaOrRef.decode SchemaOrRef.encode) ps
  keywords : Outside fieldNames s.keywords

/-- A schema is read from an object as from its members. -/
theorem decode_obj : Schema.decode (.obj ms) = .ok s ↔ read ms = .ok s := Reading.toExcept_eq_ok

/-- The members of a stable schema other than the fields are its keywords. -/
theorem others_members (h : s.Stable) : Members.others fieldNames s.members = s.keywords := by
  simp (disch := decide) [members, fieldNames, h.keywords.others_eq_self]

/-- A stable schema is read from the members that it is written as. -/
theorem read_members (h : s.Stable) : read s.members = .ok s := by
  have hk := h.keywords
  refine read_eq_ok.2 ⟨?_, ?_, ?_, Members.extensions_of_outside hk (others_members h)⟩
  · exact Members.optional_of_readsBack
      (optionReadsBack_of_forall (fun t _ => t.readsBack) SchemaType.encode_ne_null)
      (by simp (disch := decide) [members, hk.values_eq_nil])
  · exact Members.optional_of_readsBack
      (optionReadsBack_of_forall (fun ps hps => readsBack_map (h.properties ps hps))
        (fun _ => nofun))
      (by simp (disch := decide) [members, hk.values_eq_nil])
  · exact Members.optional_of_readsBack (optionReadsBack_texts _)
      (by simp (disch := decide) [members, hk.values_eq_nil])

/-- A stable schema is read back. -/
theorem readsBack (h : s.Stable) : ReadsBack Schema.decode Schema.encode s := by
  rw [ReadsBack, encode_eq, decode_obj]
  exact read_members h

/-- A schema that is read from a normal object is read back if the maps of schemas in it are. -/
theorem stable_of_read (hn : Json.Normal (.obj ms))
    (hmaps : ∀ e ∈ ms, Ensures (Decode.map SchemaOrRef.decode)
      (MapOf (ReadsBack SchemaOrRef.decode SchemaOrRef.encode)) e.2)
    (h : read ms = .ok s) : s.Stable := by
  obtain ⟨-, hp, -, hk⟩ := read_eq_ok.1 h
  exact ⟨Members.ensures_optional hn (fun e he _ => hmaps e he) hp,
    Members.outside_of_extensions hk⟩

/-- A schema that is read from a normal object is written as a reference only if the object is
one. -/
theorem refers_of_read (hn : Json.Normal (.obj ms)) (h : read ms = .ok s) (hs : s.Stable)
    (href : Reference.Refers s.encode) : Reference.Refers (.obj ms) := by
  rw [encode_eq] at href
  have hothers : Members.others fieldNames s.members = Members.others fieldNames ms :=
    (others_members hs).trans (Members.extensions_of_normal hn (read_eq_ok.1 h).2.2.2)
  exact Reference.refers_of_others fieldNames href hothers (by decide) (by decide)
    (fun hd => absurd hd (by decide))

end Schema

namespace SchemaOrRef

variable {v : Json} {x : SchemaOrRef}

/-- A reference or schema that is read back, as what it is. -/
def Stable : SchemaOrRef → Prop
  | .reference r => Outside Reference.fieldNames r.siblings
  | .boolean _ => True
  | .inline s => s.Stable ∧ ¬Reference.Refers s.encode

/-- A schema or reference is read from a boolean, or from an object: as a reference if it is one,
and else as a schema. -/
theorem decode_eq_ok (h : SchemaOrRef.decode v = .ok x) :
    (∃ b, v = .bool b ∧ x = .boolean b) ∨ ∃ ms, v = .obj ms ∧
      ((∃ r, Reference.read ms = .ok r ∧ x = .reference r) ∨
        ¬Reference.Refers v ∧ ∃ s, Schema.read ms = .ok s ∧ x = .inline s) := by
  cases v with
  | bool b =>
    cases h
    exact .inl ⟨b, rfl, rfl⟩
  | obj ms =>
    refine .inr ⟨ms, rfl, ?_⟩
    rw [SchemaOrRef.decode] at h
    split at h
    · next r hr =>
      cases h
      exact .inl ⟨r, hr, rfl⟩
    · next p hp =>
      refine .inr ⟨fun ⟨r, hr⟩ => (nomatch hp.symm.trans (Reference.decode_obj.1 hr)), ?_⟩
      split at h
      · next s hs =>
        cases h
        exact ⟨s, hs, rfl⟩
      · cases h
  | null | num | str | arr => cases h

/-- An object that can be read as a reference is, and no other one. -/
theorem decode_eq_reference {ms : Members} {r : Reference} :
    decode (.obj ms) = .ok (.reference r) ↔ Reference.read ms = .ok r := by
  rw [decode]
  cases Reference.read ms with
  | ok r' => simp
  | problem p => cases Schema.assemble ms (Schema.propertyEntries 0 ms) <;> simp

/-- An object that cannot be read as a reference is read as a schema. -/
theorem decode_eq_inline {ms : Members} {s : Schema} : decode (.obj ms) = .ok (.inline s) ↔
    (∀ r, Reference.read ms ≠ .ok r) ∧ Schema.read ms = .ok s := by
  rw [decode, Schema.read]
  cases Reference.read ms with
  | ok r => simp
  | problem p => cases Schema.assemble ms (Schema.propertyEntries 0 ms) <;> simp

/-- Why a tree is refused is told in the same words for all trees. -/
theorem decode_eq_error {e : DecodeError} (h : decode v = .error e) :
    e = .noAlternative "SchemaOrRef" := by
  cases v with
  | bool b => cases h
  | obj ms =>
    rw [decode] at h
    split at h
    · cases h
    · split at h
      · cases h
      · exact (Except.error.inj h).symm
  | null | num | str | arr => exact (Except.error.inj h).symm

/-- A stable schema or reference is read back as what it is. -/
theorem readsBack (h : x.Stable) : ReadsBack SchemaOrRef.decode SchemaOrRef.encode x := by
  cases x with
  | reference r =>
    have hr : Reference.read r.members = .ok r := Reference.decode_obj.1 (Reference.readsBack h)
    rw [ReadsBack, SchemaOrRef.encode, Reference.encode, SchemaOrRef.decode, hr]
  | boolean b => rfl
  | inline s =>
    obtain ⟨hs, hrefers⟩ := h
    rw [Schema.encode_eq] at hrefers
    have hread : Schema.assemble s.members (Schema.propertyEntries 0 s.members) = .ok s :=
      Schema.read_members hs
    rw [ReadsBack, SchemaOrRef.encode, Schema.encode_eq, SchemaOrRef.decode]
    cases hr : Reference.read s.members with
    | ok r => exact (hrefers ⟨r, Reference.decode_obj.2 hr⟩).elim
    | problem p => simp only [hread]

/-- Neither a schema nor a reference is written as `null`. -/
theorem encode_ne_null (x : SchemaOrRef) : x.encode ≠ .null := by
  cases x with
  | reference r => exact nofun
  | boolean b => exact nofun
  | inline s =>
    rw [SchemaOrRef.encode, Schema.encode_eq]
    exact nofun

/-- What is read from a tree in normal form is read back if the maps of schemas among the members of
the tree are. -/
theorem stable_of_maps
    (hmaps : ∀ ms, v = .obj ms → ∀ e ∈ ms, Ensures (Decode.map SchemaOrRef.decode)
      (MapOf (ReadsBack SchemaOrRef.decode SchemaOrRef.encode)) e.2) :
    Ensures SchemaOrRef.decode Stable v := by
  intro hn x hx
  obtain ⟨b, rfl, rfl⟩ | ⟨ms, rfl, ⟨r, hr, rfl⟩ | ⟨hv, s, hs, rfl⟩⟩ := decode_eq_ok hx
  · trivial
  · exact Reference.outside_of_read hr
  · have hstable := Schema.stable_of_read hn (hmaps ms rfl) hs
    exact ⟨hstable, fun href => hv (Schema.refers_of_read hn hs hstable href)⟩

/-- **What is read as a schema is read back.** -/
theorem faithful (v : Json) : Faithful SchemaOrRef.decode SchemaOrRef.encode v := by
  -- The properties of a schema are a part of the tree, the schemas in it are parts of this part.
  suffices h : Faithful SchemaOrRef.decode SchemaOrRef.encode v ∧
      Ensures (Decode.map SchemaOrRef.decode)
        (MapOf (ReadsBack SchemaOrRef.decode SchemaOrRef.encode)) v from h.1
  induction v using Json.induction with
  | null | num | str | arr => exact ⟨fun _ _ h => (nomatch h), fun _ _ h => (nomatch h)⟩
  | bool b =>
    refine ⟨(stable_of_maps fun ms h => ?_).imp fun _ => readsBack, fun _ _ h => (nomatch h)⟩
    cases h
  | obj ms ih =>
    refine ⟨(stable_of_maps fun ms' hms e he => ?_).imp fun _ => readsBack,
      ensures_map_obj fun e he => (ih e he).1⟩
    cases hms
    exact (ih e he).2

/-- What is read as a schema or a reference is stable. -/
theorem stable (v : Json) : Ensures SchemaOrRef.decode Stable v :=
  stable_of_maps fun _ _ e _ => ensures_map faithful e.2

end SchemaOrRef

/-- What is read as a schema is stable. -/
theorem Schema.stable (v : Json) : Ensures Schema.decode Schema.Stable v :=
  ensures_record (fun _ _ hn h =>
    Schema.stable_of_read hn (fun e _ => ensures_map SchemaOrRef.faithful e.2) h) v

end RpcOpenApi
