import RpcOpenApi.Proofs.Codec.Document
import RpcOpenApi.Proofs.MemberOrder

/-!
# Writing what was read

A reader is lossless on a tree if what it reads from the tree is written as the tree again, up to
the order of members (`Lossless`). Two things can be lost. A field that may be left out is left out
when it is written as `null` (`Json.NonNull`), and a section of the components is left out when it
is empty; the trees in which neither occurs where it matters are the explicit ones
(`MediaType.Explicit`, `SchemaOrRef.Explicit`, `Components.Explicit`). A `null` in a place that is
not looked into is kept, so nothing is asked of such places.

That a record is lossless is put together field by field: each field carries the members with its
name (`Members.Carried`), and the extensions carry all others (`Members.Carried.same`).
-/

namespace RpcOpenApi

namespace Json

/-- None of the fields with some names is written as `null`. -/
def NonNull (names : List String) (v : Json) : Prop := ∀ name ∈ names, .null ∉ v.valuesOf name

/-- The values of an object have a property. -/
def Values (P : Json → Prop) (v : Json) : Prop := ∀ ms, v = .obj ms → ∀ m ∈ ms, P m.2

end Json

section
variable {α : Type} {decode : Json → Except DecodeError α} {encode : α → Json}

/-- What is read from the tree, if it is in normal form, is written as the tree up to the order of
members. -/
abbrev Lossless (decode : Json → Except DecodeError α) (encode : α → Json) (v : Json) : Prop :=
  Ensures decode (fun a => (encode a).Similar v) v

/-! ## Basic parts, lists and maps -/

/-- A text is written as the tree it was read from. -/
theorem lossless_text (v : Json) : Lossless Decode.text .str v := by
  intro _ s hs
  obtain rfl := Decode.text_eq_ok.1 hs
  exact .refl _

/-- So is a boolean. -/
theorem lossless_boolean (v : Json) : Lossless Decode.boolean .bool v := by
  intro _ b hb
  cases v with
  | bool b' =>
    cases hb
    exact .refl _
  | null | num | str | arr | obj => cases hb

/-- A tree of any form is written as one with the same members, each key once. -/
theorem lossless_free (v : Json) : Lossless Decode.free id v := by
  intro hn a ha
  obtain rfl : v = a := hn.symm.trans (Except.ok.inj ha)
  exact .refl _

/-- Items are written as the items that they are read from, after a change, if each of them is. -/
theorem Decode.map_ordered_items {f : Json → Json} {js : List Json} {as : List α}
    (h : items decode js = .ok as)
    (hl : ∀ j ∈ js, ∀ a, decode j = .ok a → (encode a).Similar (f j)) :
    (as.map encode).map Json.ordered = (js.map f).map Json.ordered := by
  induction js generalizing as with
  | nil =>
    cases h
    rfl
  | cons j js ih =>
    obtain ⟨a, ha, h⟩ := Decode.bind_eq_ok.1 h
    obtain ⟨as', has, h⟩ := Decode.bind_eq_ok.1 h
    cases h
    obtain ⟨hj, hjs⟩ := List.forall_mem_cons.1 hl
    simp only [List.map_cons, ih has hjs, show (encode a).ordered = (f j).ordered from hj a ha]

/-- A list is written as the array that it is read from if its items are written as the items. -/
theorem lossless_list {v : Json} (h : ∀ js, v = .arr js → ∀ j ∈ js, Lossless decode encode j) :
    Lossless (Decode.list decode) (Encode.list encode) v := by
  intro hn as has
  obtain ⟨js, rfl, has⟩ := Decode.list_eq_ok.1 has
  have hitems := Decode.map_ordered_items (f := id) has fun j hj =>
    h js rfl j hj (Json.normal_arr_iff.1 hn j hj)
  rw [List.map_id] at hitems
  exact Json.similar_arr hitems

/-- What is read from members is written as the members if their values are. -/
theorem Decode.orderedMembers_eq {ms : Members} {es : List (String × α)}
    (h : members decode ms = .ok es)
    (hl : ∀ m ∈ ms, ∀ a, decode m.2 = .ok a → (encode a).Similar m.2) :
    Json.orderedMembers (es.map (fun e => (e.1, encode e.2))) = Json.orderedMembers ms := by
  induction ms generalizing es with
  | nil =>
    cases h
    rfl
  | cons m ms ih =>
    obtain ⟨k, j⟩ := m
    obtain ⟨a, ha, h⟩ := Decode.bind_eq_ok.1 h
    obtain ⟨es', hes, h⟩ := Decode.bind_eq_ok.1 h
    cases h
    obtain ⟨hj, hms⟩ := List.forall_mem_cons.1 hl
    simp only [List.map_cons, Json.orderedMembers, ih hes hms,
      show (encode a).ordered = j.ordered from hj a ha]

/-- A map is written as the object that it is read from if its values are written as the values. -/
theorem lossless_map {v : Json} (h : v.Values (Lossless decode encode)) :
    Lossless (Decode.map decode) (Encode.map encode) v := by
  intro hn m hm
  obtain ⟨ms, rfl, es, hes, rfl⟩ := Decode.map_eq_ok.1 hm
  obtain ⟨hd, hv⟩ := Json.normal_obj_iff.1 hn
  rw [(Decode.distinct_of_members hd hes).ofPairs_eq]
  refine Json.similar_obj (.of_eq ?_) hd
  exact Decode.orderedMembers_eq hes fun m hm => h ms rfl m hm (hv m hm)

/-- A map of trees is written as the object it was read from, up to order. -/
theorem lossless_freeMap (v : Json) : Lossless (Decode.map Decode.free) Encode.free v := by
  rw [← Encode.map_id]
  exact lossless_map fun _ _ m _ => lossless_free m.2

/-- A list of texts is written as the array it was read from. -/
theorem lossless_texts (v : Json) : Lossless (Decode.list Decode.text) (Encode.list .str) v :=
  lossless_list fun _ _ j _ => lossless_text j

/-! ## Records -/

namespace Members

variable {names names' : List String} {name : String} {ms fs fs' : Members}

/-- The members with some names, name by name, are written as the given ones. -/
def Carried (names : List String) (ms fs : Members) : Prop :=
  fs.Same (names.flatMap (fun name => ms.filter (fun m => m.1 = name)))

/-- The members with one name are its values, each under that name. -/
theorem filter_eq_values (name : String) (ms : Members) :
    ms.filter (fun m => m.1 = name) = (values [name] ms).map (fun j => (name, j)) := by
  induction ms with
  | nil => rfl
  | cons m ms ih =>
    rw [List.filter_cons, values_cons, ih]
    by_cases h : m.1 = name
    · simp [← h]
    · simp [h]

/-- A field that is missing is carried as no member. -/
theorem carried_nil (h : values [name] ms = []) : Carried [name] ms [] := by
  rw [Carried, List.flatMap_singleton, filter_eq_values, h]
  exact .refl _

/-- A field that stands once is carried as a member with a similar value. -/
theorem carried_member {j j' : Json} (h : values [name] ms = [j']) (hj : j.Similar j') :
    Carried [name] ms [(name, j)] := by
  rw [Carried, List.flatMap_singleton, filter_eq_values, h]
  exact same_member hj

/-- Fields with some names and fields with further names are carried together. -/
theorem Carried.append (h : Carried names ms fs) (h' : Carried names' ms fs') :
    Carried (names ++ names') ms (fs ++ fs') := by
  rw [Carried, List.flatMap_append]
  exact Same.append h h'

/-- A field in front of others is carried with them. -/
theorem Carried.cons {m : String × Json} (h : Carried [name] ms [m]) (h' : Carried names ms fs) :
    Carried (name :: names) ms (m :: fs) :=
  h.append h'

/-- Only the values of the names count. -/
theorem Carried.congr {ms' : Members} (h : Carried names ms fs)
    (hvalues : ∀ name ∈ names, values [name] ms' = values [name] ms) : Carried names ms' fs := by
  have hfilter : names.flatMap (fun name => ms'.filter (fun m => m.1 = name))
      = names.flatMap (fun name => ms.filter (fun m => m.1 = name)) :=
    List.flatMap_congr fun name hname => by
      rw [filter_eq_values, filter_eq_values, hvalues name hname]
  rw [Carried, hfilter]
  exact h

/-- The members of some names, name by name, and the other ones are all members. -/
theorem perm_append_others (hnames : names.Nodup) (ms : Members) :
    (names.flatMap (fun name => ms.filter (fun m => m.1 = name)) ++ ms.others names).Perm ms := by
  induction names with
  | nil => exact .of_eq (others_eq_self fun _ _ => List.not_mem_nil)
  | cons name names ih =>
    obtain ⟨hname, hnames⟩ := List.nodup_cons.1 hnames
    have hothers : ms.filter (fun m => m.1 = name) ++ ms.others (name :: names)
        = (ms.others names).filter (fun m => m.1 = name)
          ++ (ms.others names).filter (fun m => !decide (m.1 = name)) := by
      simp only [others, List.filter_filter]
      congr 1
      · refine List.filter_congr fun m _ => ?_
        by_cases hm : m.1 = name <;> simp [hm, hname]
      · refine List.filter_congr fun m _ => ?_
        by_cases hm : m.1 = name <;> simp [hm]
    have hperm : (ms.filter (fun m => m.1 = name) ++ ms.others (name :: names)).Perm
        (ms.others names) := hothers ▸ List.filter_append_perm _ _
    rw [List.flatMap_cons, List.append_assoc]
    exact (List.perm_append_comm_assoc _ _ _).trans ((hperm.append_left _).trans (ih hnames))

/-- The members that the fields carry and those that the rest carries are all members. -/
theorem Carried.same (hnames : names.Nodup) (h : Carried names ms fs)
    (hrest : Same fs' (ms.others names)) : (fs ++ fs').Same ms :=
  (Same.append h hrest).trans (same_of_perm (perm_append_others hnames ms))

/-- The members that the fields carry are all members if there are no others. -/
theorem Carried.same_of_others (hnames : names.Nodup) (h : Carried names ms fs)
    (hothers : ms.others names = []) : fs.Same ms := by
  have hrest : Same [] (ms.others names) := by
    rw [hothers]
    exact .refl []
  simpa using h.same hnames hrest

/-- A record is written as the object that it is read from if its fields carry the members with
their names. -/
theorem Carried.similar {m : OrderedMap String Json} (hn : Json.Normal (.obj ms))
    (h : Carried names ms fs) (hnames : names.Nodup) (hm : ms.extensions names = .ok m) :
    Json.Similar (.obj (fs ++ m)) (.obj ms) := by
  refine Json.similar_obj (h.same hnames ?_) (Json.normal_obj_iff.1 hn).1
  rw [extensions_of_normal hn hm]
  exact .refl _

section
variable {a : α} {o : Option α} (hn : Json.Normal (.obj ms))
include hn

/-- In an object in normal form the values under a name are in normal form. -/
theorem normal_of_mem_values {j : Json} (h : j ∈ values [name] ms) : j.Normal := by
  obtain ⟨m, hm, rfl⟩ := exists_of_mem_values h
  exact (Json.normal_obj_iff.1 hn).2 m hm

/-- A field that has to be written carries the member with its name. -/
theorem carried_required (hl : ∀ j ∈ values [name] ms, Lossless decode encode j)
    (h : ms.required name decode = .ok a) : Carried [name] ms [(name, encode a)] := by
  obtain ⟨j, hj, hd⟩ := required_eq_ok.1 h
  have hmem : j ∈ values [name] ms := hj ▸ List.mem_singleton_self j
  exact carried_member hj (hl j hmem (normal_of_mem_values hn hmem) a hd)

/-- A field with a default carries the member with its name if there is one. -/
theorem carried_defaulted {default : α} (hne : values [name] ms ≠ [])
    (hl : ∀ j ∈ values [name] ms, Lossless decode encode j)
    (h : ms.defaulted name decode default = .ok a) : Carried [name] ms [(name, encode a)] := by
  rcases defaulted_eq_ok.1 h with ⟨hj, -⟩ | hj
  · exact (hne hj).elim
  · exact carried_required hn hl (required_eq_ok.2 hj)

/-- A field that may be left out carries the member with its name after a change of the members,
unless it is `null`. -/
theorem carried_optional_of {f : Json → Json} {ms' : Members}
    (hvalues : values [name] ms' = (values [name] ms).map f) (hnull : .null ∉ values [name] ms)
    (hl : ∀ j ∈ values [name] ms, Ensures decode (fun a => (encode a).Similar (f j)) j)
    (h : ms.optional name decode = .ok o) : Carried [name] ms' (Encode.optional name encode o) := by
  rcases optional_eq_ok.1 h with ⟨hj, rfl⟩ | ⟨j, hj, hd⟩
  · rw [hj] at hvalues
    exact carried_nil hvalues
  · have hmem : j ∈ values [name] ms := hj ▸ List.mem_singleton_self j
    have hne : j ≠ .null := fun he => hnull (he ▸ hmem)
    rw [Decode.optional_of_ne_null hne] at hd
    obtain ⟨a, ha, hd⟩ := Decode.bind_eq_ok.1 hd
    cases hd
    rw [hj] at hvalues
    exact carried_member hvalues (hl j hmem (normal_of_mem_values hn hmem) a ha)

/-- A field that may be left out carries the member with its name, unless this is `null`. -/
theorem carried_optional (hnull : .null ∉ values [name] ms)
    (hl : ∀ j ∈ values [name] ms, Lossless decode encode j) (h : ms.optional name decode = .ok o) :
    Carried [name] ms (Encode.optional name encode o) :=
  carried_optional_of hn (f := id) (List.map_id _).symm hnull hl h

/-- A section of the components carries the member with its name, unless this is empty. -/
theorem carried_section {m : OrderedMap String α} (hempty : .obj [] ∉ values [name] ms)
    (hl : ∀ j ∈ values [name] ms, j.Values (Lossless decode encode))
    (h : ms.defaulted name (Decode.map decode) [] = .ok m) :
    Carried [name] ms (Components.sectionMember name encode m) := by
  rcases defaulted_eq_ok.1 h with ⟨hj, rfl⟩ | ⟨j, hj, hd⟩
  · exact carried_nil hj
  · have hmem : j ∈ values [name] ms := hj ▸ List.mem_singleton_self j
    have hsimilar := lossless_map (hl j hmem) (normal_of_mem_values hn hmem) m hd
    rw [Components.sectionMember]
    split
    · next hm =>
      -- only the empty object is similar to an empty map
      obtain ⟨js, rfl, -⟩ := Decode.map_eq_ok.1 hd
      rw [List.isEmpty_iff.1 hm] at hsimilar
      have hnil : Json.orderedMembers js = [] := List.Perm.eq_nil hsimilar.same.symm
      rw [Json.orderedMembers_eq_map, List.map_eq_nil_iff] at hnil
      exact (hempty (hnil ▸ hmem)).elim
    · exact carried_member hj hsimilar

end

end Members

/-- A record ensures what its members ensure, which may be something about the tree. -/
theorem ensures_record_of {P : α → Prop} {name : String} {read : Members → Reading α} {v : Json}
    (h : ∀ ms a, v = .obj ms → Json.Normal (.obj ms) → read ms = .ok a → P a) :
    Ensures (Decode.record name read) P v := by
  intro hn a ha
  obtain ⟨ms, rfl, hread⟩ := Decode.record_eq_ok.1 ha
  exact h ms a rfl hn hread

end

/-! ## References and schemas -/

namespace Reference

/-- What stands beside the target is not written as `null`. -/
abbrev Explicit (v : Json) : Prop := v.NonNull fieldNames

/-- A reference is written as the tree it was read from, if no field of it is `null`. -/
theorem lossless {v : Json} (he : Explicit v) : Lossless decode encode v := by
  refine ensures_record_of fun ms r hv hn h => ?_
  subst hv
  obtain ⟨ht, hs, hd, hext⟩ := read_eq_ok.1 h
  have hfields : Members.Carried fieldNames ms (("$ref", .str r.target)
      :: Encode.optional "summary" .str r.summary
      ++ Encode.optional "description" .str r.description) :=
    ((Members.carried_required hn (fun j _ => lossless_text j) ht).cons
      (Members.carried_optional hn (he _ (by decide)) (fun j _ => lossless_text j) hs)).append
      (Members.carried_optional hn (he _ (by decide)) (fun j _ => lossless_text j) hd)
  exact hfields.similar hn (by decide) hext

end Reference

namespace RefOr

/-- A reference is explicit as one, and everything else as an inline definition. -/
structure Explicit (E : Json → Prop) (v : Json) : Prop where
  reference : Reference.Refers v → Reference.Explicit v
  inline : ¬Reference.Refers v → E v

/-- What may be a reference or a definition is carried as what it is. -/
theorem lossless {α : Type} {inner : Json → Except DecodeError α} {encode : α → Json}
    {E : Json → Prop} {v : Json} (he : Explicit E v) (h : E v → Lossless inner encode v) :
    Lossless (RefOr.decode inner) (RefOr.encode encode) v := by
  intro hn x hx
  rcases decode_eq_ok hx with ⟨r, hr, rfl⟩ | ⟨hv, a, ha, rfl⟩
  · exact Reference.lossless (he.reference ⟨r, hr⟩) hn r hr
  · exact h (he.inline hv) hn a ha

end RefOr

/-- The type of a schema is written as the tree it was read from. -/
theorem SchemaType.lossless (v : Json) : Lossless decode encode v := by
  intro hn t ht
  obtain ⟨_, rfl, rfl⟩ | ⟨names, hnames, rfl⟩ := decode_eq_ok.1 ht
  · exact .refl _
  · exact lossless_texts _ hn names hnames

namespace SchemaOrRef

/-- No field of a reference or a schema is written as `null`, nor is one of a schema among its
properties. All other keywords may have any value. -/
inductive Explicit : Json → Prop
  | atom {v : Json} (h : ∀ ms, v ≠ .obj ms) : Explicit v
  | reference {v : Json} (h : Reference.Refers v) (hfields : Reference.Explicit v) : Explicit v
  | inline {v : Json} (h : ¬Reference.Refers v) (hfields : v.NonNull Schema.fieldNames)
      (hproperties : ∀ j ∈ v.valuesOf "properties", ∀ ps, j = .obj ps → ∀ p ∈ ps, Explicit p.2) :
      Explicit v

end SchemaOrRef

namespace Schema

/-- A schema is carried if its properties are and no field of it is `null`. -/
theorem similar_of_read {ms : Members} {s : Schema} (hn : Json.Normal (.obj ms))
    (hfields : Json.NonNull fieldNames (.obj ms))
    (hproperties : ∀ j ∈ Members.values ["properties"] ms,
      Lossless (Decode.map SchemaOrRef.decode) (Encode.map SchemaOrRef.encode) j)
    (h : read ms = .ok s) : s.encode.Similar (.obj ms) := by
  obtain ⟨ht, hp, hr, hk⟩ := read_eq_ok.1 h
  have hcarried : Members.Carried fieldNames ms (Encode.optional "type" SchemaType.encode s.type
      ++ Encode.optional "properties" (Encode.map SchemaOrRef.encode) s.properties
      ++ Encode.optional "required" (Encode.list .str) s.required) :=
    ((Members.carried_optional hn (hfields "type" (by decide))
        (fun j _ => SchemaType.lossless j) ht).append
      (Members.carried_optional hn (hfields "properties" (by decide)) hproperties hp)).append
      (Members.carried_optional hn (hfields "required" (by decide))
        (fun j _ => lossless_texts j) hr)
  rw [encode_eq]
  exact hcarried.similar hn (by decide) hk

end Schema

namespace SchemaOrRef

/-- What is read as a schema is written as the tree if this holds of the maps of properties in
it. -/
theorem lossless_of_properties {v : Json} (he : Explicit v)
    (hproperties : ∀ j ∈ v.valuesOf "properties", j.Values Explicit →
      Lossless (Decode.map SchemaOrRef.decode) (Encode.map SchemaOrRef.encode) j) :
    Lossless SchemaOrRef.decode SchemaOrRef.encode v := by
  intro hn x hx
  obtain ⟨b, rfl, rfl⟩ | ⟨ms, rfl, ⟨r, hr, rfl⟩ | ⟨hv, s, hs, rfl⟩⟩ := decode_eq_ok hx
  · exact .refl _
  · have hrefers : Reference.Refers (.obj ms) := ⟨r, Reference.decode_obj.2 hr⟩
    have hexplicit : Reference.Explicit (.obj ms) := by
      cases he with
      | atom h => exact (h ms rfl).elim
      | reference _ hfields => exact hfields
      | inline h _ _ => exact (h hrefers).elim
    exact Reference.lossless hexplicit hn r (Reference.decode_obj.2 hr)
  · cases he with
    | atom h => exact (h ms rfl).elim
    | reference h _ => exact (hv h).elim
    | inline _ hfields hps =>
      exact Schema.similar_of_read hn hfields
        (fun j hj => hproperties j hj (fun ps hj' => hps j hj ps hj')) hs

/-- **What is read as a schema is written as the tree that it is read from**, if this is
explicit. -/
theorem lossless {v : Json} (he : Explicit v) :
    Lossless SchemaOrRef.decode SchemaOrRef.encode v := by
  -- The properties of a schema are a part of the tree, the schemas in it are parts of this part.
  suffices h : (Explicit v → Lossless SchemaOrRef.decode SchemaOrRef.encode v) ∧
      (v.Values Explicit →
        Lossless (Decode.map SchemaOrRef.decode) (Encode.map SchemaOrRef.encode) v) from h.1 he
  clear he
  induction v using Json.induction with
  | null | bool | num | str | arr =>
    exact ⟨fun he => lossless_of_properties he (by simp [Json.valuesOf]),
      fun _ _ _ h => (nomatch h)⟩
  | obj ms ih =>
    refine ⟨fun he => lossless_of_properties he fun j hj => ?_, fun hv => lossless_map ?_⟩
    · obtain ⟨m, hm, rfl⟩ := Members.exists_of_mem_values hj
      exact (ih m hm).2
    · intro ms' hms m hm
      cases hms
      exact (ih m hm).1 (hv ms rfl m hm)

end SchemaOrRef

/-! ## The parts of an operation -/

namespace MediaType

/-- No field of the media type is written as `null`, and its schema is explicit. -/
structure Explicit (v : Json) : Prop where
  fields : v.NonNull fieldNames
  schema : ∀ j ∈ v.valuesOf "schema", SchemaOrRef.Explicit j

/-- A media type is written as the tree it was read from, if it is explicit. -/
theorem lossless {v : Json} (he : Explicit v) : Lossless decode encode v := by
  refine ensures_record_of fun ms m hv hn h => ?_
  subst hv
  obtain ⟨hs, hx, hxs, hen, hext⟩ := read_eq_ok.1 h
  have hf := he.fields
  exact ((((Members.carried_optional hn (hf "schema" (by decide))
      (fun j hj => SchemaOrRef.lossless (he.schema j hj)) hs).append
    (Members.carried_optional hn (hf "example" (by decide)) (fun j _ => lossless_free j) hx)).append
    (Members.carried_optional hn (hf "examples" (by decide))
      (fun j _ => lossless_freeMap j) hxs)).append
    (Members.carried_optional hn (hf "encoding" (by decide))
      (fun j _ => lossless_freeMap j) hen)).similar hn (by decide) hext

/-- Content by media type is carried if each media type is explicit. -/
theorem lossless_content {v : Json} (h : v.Values Explicit) :
    Lossless (Decode.map decode) (Encode.map encode) v :=
  lossless_map fun ms hv m hm => lossless (h ms hv m hm)

end MediaType

/-- A location is written as the text that it is read from, unless this is an object with a
`null`. -/
theorem ParameterLocation.lossless {v : Json} (hv : v.Values (· ≠ .null)) :
    Lossless decode encode v := by
  intro _ l hl
  obtain ⟨name, hmem, rfl | rfl⟩ := Decode.variant_eq_ok hl
  · obtain ⟨l', -, heq⟩ := List.mem_map.1 hmem
    cases heq
    exact .refl _
  · exact (hv _ rfl _ (List.mem_singleton_self _) rfl).elim

namespace Parameter

/-- No field of the parameter is written as `null`, its schema and its content are explicit, and its
location is written as a text. -/
structure Explicit (v : Json) : Prop where
  fields : v.NonNull fieldNames
  location : ∀ j ∈ v.valuesOf "in", j.Values (· ≠ .null)
  schema : ∀ j ∈ v.valuesOf "schema", SchemaOrRef.Explicit j
  content : ∀ j ∈ v.valuesOf "content", j.Values MediaType.Explicit

/-- A parameter is written as the tree it was read from, if it is explicit. -/
theorem lossless {v : Json} (he : Explicit v) : Lossless decode encode v := by
  refine ensures_record_of fun ms p hv hn h => ?_
  subst hv
  obtain ⟨h1, h2, h3, h4, h5, h6, h7, h8, h9, h10, h11, h12, h13, hext⟩ := read_eq_ok.1 h
  have hf := he.fields
  have htext : ∀ j, Lossless Decode.text .str j := lossless_text
  exact (((((((((((((Members.carried_required hn (fun j _ => htext j) h1).cons
    ((Members.carried_required hn
      (fun j hj => ParameterLocation.lossless (he.location j hj)) h2).cons
    (Members.carried_optional hn (hf _ (by decide)) (fun j _ => htext j) h3))).append
    (Members.carried_optional hn (hf _ (by decide)) (fun j _ => lossless_boolean j) h4)).append
    (Members.carried_optional hn (hf _ (by decide)) (fun j _ => lossless_boolean j) h5)).append
    (Members.carried_optional hn (hf _ (by decide)) (fun j _ => lossless_boolean j) h6)).append
    (Members.carried_optional hn (hf _ (by decide)) (fun j _ => htext j) h7)).append
    (Members.carried_optional hn (hf _ (by decide)) (fun j _ => lossless_boolean j) h8)).append
    (Members.carried_optional hn (hf _ (by decide)) (fun j _ => lossless_boolean j) h9)).append
    (Members.carried_optional hn (hf _ (by decide))
      (fun j hj => SchemaOrRef.lossless (he.schema j hj)) h10)).append
    (Members.carried_optional hn (hf _ (by decide)) (fun j _ => lossless_free j) h11)).append
    (Members.carried_optional hn (hf _ (by decide)) (fun j _ => lossless_freeMap j) h12)).append
    (Members.carried_optional hn (hf _ (by decide))
      (fun j hj => MediaType.lossless_content (he.content j hj)) h13))).similar hn (by decide) hext

end Parameter

namespace RequestBody

/-- No field of the body is written as `null`, and its content is explicit. -/
structure Explicit (v : Json) : Prop where
  fields : v.NonNull fieldNames
  content : ∀ j ∈ v.valuesOf "content", j.Values MediaType.Explicit

/-- A request body is written as the tree it was read from, if it is explicit. -/
theorem lossless {v : Json} (he : Explicit v) : Lossless decode encode v := by
  refine ensures_record_of fun ms b hv hn h => ?_
  subst hv
  obtain ⟨hd, hc, hr, hext⟩ := read_eq_ok.1 h
  have hf := he.fields
  exact ((Members.carried_optional hn (hf _ (by decide)) (fun j _ => lossless_text j) hd).append
    ((Members.carried_required hn
        (fun j hj => MediaType.lossless_content (he.content j hj)) hc).cons
      (Members.carried_optional hn (hf _ (by decide)) (fun j _ => lossless_boolean j) hr))).similar
    hn (by decide) hext

end RequestBody

namespace Response

/-- No field of the response is written as `null`, and its content is explicit. -/
structure Explicit (v : Json) : Prop where
  fields : v.NonNull fieldNames
  content : ∀ j ∈ v.valuesOf "content", j.Values MediaType.Explicit

/-- A response is written as the tree it was read from, if it is explicit. -/
theorem lossless {v : Json} (he : Explicit v) : Lossless decode encode v := by
  refine ensures_record_of fun ms r hv hn h => ?_
  subst hv
  obtain ⟨hd, hh, hc, hl, hext⟩ := read_eq_ok.1 h
  have hf := he.fields
  exact ((((Members.carried_required hn (fun j _ => lossless_text j) hd).cons
      (Members.carried_optional hn (hf _ (by decide)) (fun j _ => lossless_freeMap j) hh)).append
    (Members.carried_optional hn (hf _ (by decide))
      (fun j hj => MediaType.lossless_content (he.content j hj)) hc)).append
    (Members.carried_optional hn (hf _ (by decide)) (fun j _ => lossless_freeMap j) hl)).similar
    hn (by decide) hext

end Response

/-! ## Components -/

namespace Components

/-- A section is not empty, and its definitions are explicit. -/
structure SectionExplicit (E : Json → Prop) (v : Json) : Prop where
  nonempty : v ≠ .obj []
  definitions : v.Values E

/-- The sections that are looked into are explicit. -/
structure Explicit (v : Json) : Prop where
  schemas : ∀ j ∈ v.valuesOf "schemas", SectionExplicit SchemaOrRef.Explicit j
  responses : ∀ j ∈ v.valuesOf "responses", SectionExplicit (RefOr.Explicit Response.Explicit) j
  parameters : ∀ j ∈ v.valuesOf "parameters", SectionExplicit (RefOr.Explicit Parameter.Explicit) j
  requestBodies : ∀ j ∈ v.valuesOf "requestBodies",
    SectionExplicit (RefOr.Explicit RequestBody.Explicit) j

/-- A section of the components is carried if it is not empty and its definitions are. -/
theorem carried_of_section {α : Type} {decode : Json → Except DecodeError α} {encode : α → Json}
    {E : Json → Prop} {name : String} {ms : Members} {m : OrderedMap String α}
    (hn : Json.Normal (.obj ms)) (hl : ∀ v, E v → Lossless decode encode v)
    (he : ∀ j ∈ Members.values [name] ms, SectionExplicit E j)
    (h : ms.defaulted name (Decode.map decode) [] = .ok m) :
    Members.Carried [name] ms (sectionMember name encode m) :=
  Members.carried_section hn (fun hj => (he _ hj).nonempty rfl)
    (fun j hj ps hps p hp => hl _ ((he j hj).definitions ps hps p hp)) h

/-- **What is read as the components is written as the tree that it is read from**, if this is
explicit. -/
theorem lossless {v : Json} (he : Explicit v) : Lossless decode encode v := by
  refine ensures_record_of fun ms c hv hn h => ?_
  subst hv
  obtain ⟨hs, hr, hp, hb, hext⟩ := read_eq_ok.1 h
  exact ((((carried_of_section hn (fun _ => SchemaOrRef.lossless) he.schemas hs).append
    (carried_of_section hn (fun _ he => RefOr.lossless he Response.lossless)
      he.responses hr)).append
    (carried_of_section hn (fun _ he => RefOr.lossless he Parameter.lossless)
      he.parameters hp)).append
    (carried_of_section hn (fun _ he => RefOr.lossless he RequestBody.lossless)
      he.requestBodies hb)).similar hn (by decide) hext

end Components

end RpcOpenApi
