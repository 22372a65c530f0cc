import RpcOpenApi.Proofs.Codec.NormalForm
import RpcOpenApi.Proofs.Compile.ReadBack
import RpcOpenApi.Proofs.Lookup

/-!
# References along the properties of schemas

The compiler resolves a reference within the tree that the components are written as, and reads what
it finds there as a schema. The components are a model of schemas, though, and a reference names a
component and then properties, one within the other (`Components.pointer`): it should lead where a
walk through the model leads (`Components.walk`). The two walks agree (`walk?_encode`), because each
schema on the way is written with its properties under a key that its other keywords do not have. So
a reference resolves to exactly the schema that the model has there (`resolve_pointer`).
-/

namespace RpcOpenApi

/-! ## Segments -/

namespace Text

variable {s cs : List Char}

/-- Every text has a first segment. -/
theorem exists_segments_eq (cs : List Char) : ∃ s ss, segments cs = s :: ss := by
  induction cs with
  | nil => exact ⟨[], [], rfl⟩
  | cons c cs ih =>
    obtain ⟨s, ss, h⟩ := ih
    simp only [segments, h]
    split
    · exact ⟨_, _, rfl⟩
    · exact ⟨_, _, rfl⟩

/-- A slash at the beginning is behind an empty segment. -/
theorem segments_slash (cs : List Char) : segments ('/' :: cs) = [] :: segments cs := by
  obtain ⟨s, ss, h⟩ := exists_segments_eq cs
  simp [segments, h]

/-- A text without a slash is one segment. -/
theorem segments_of_notMem (hs : '/' ∉ s) : segments s = [s] := by
  induction s with
  | nil => rfl
  | cons c s ih =>
    obtain ⟨hc, hs⟩ := List.ne_and_not_mem_of_not_mem_cons hs
    rw [segments, ih hs]
    exact if_neg hc.symm

/-- A slash ends the segment before it. -/
theorem segments_append_slash (hs : '/' ∉ s) (cs : List Char) :
    segments (s ++ '/' :: cs) = s :: segments cs := by
  induction s with
  | nil => exact segments_slash cs
  | cons c s ih =>
    obtain ⟨hc, hs⟩ := List.ne_and_not_mem_of_not_mem_cons hs
    rw [List.cons_append, segments, ih hs]
    exact if_neg hc.symm

/-- The segments of texts that are set apart by slashes, each of which stands behind a first one. -/
theorem segments_append_flatMap (hs : '/' ∉ s) {ss : List (List Char)} (hss : ∀ t ∈ ss, '/' ∉ t) :
    segments (s ++ ss.flatMap ('/' :: ·)) = s :: ss := by
  induction ss generalizing s with
  | nil => simpa using segments_of_notMem hs
  | cons t ss ih =>
    obtain ⟨ht, hss⟩ := List.forall_mem_cons.1 hss
    rw [List.flatMap_cons, List.cons_append, segments_append_slash hs, ih ht hss]

end Text

/-! ## The walk through the model -/

/-- Where a walk along the properties of schemas ends. -/
inductive PropertyWalk where
  /-- No names are left. -/
  | found (t : SchemaOrRef)
  /-- There is nothing with the next name. -/
  | missing
  /-- Names are left at a reference, which is not followed. -/
  | stopped (r : Reference) (rest : List String)

/-- Goes from a schema to one of its properties, from there to one of its properties, and so on. -/
def SchemaOrRef.walk : SchemaOrRef → List String → PropertyWalk
  | t, [] => .found t
  | .reference r, field :: fields => .stopped r (field :: fields)
  | .boolean _, _ :: _ => .missing
  | .inline s, field :: fields =>
    match OrderedMap.get? (s.properties.getD []) field with
    | some t => t.walk fields
    | none => .missing

namespace Components

/-- Goes to a schema of the components and from there along properties. -/
def walk (c : Components) (name : String) (fields : List String) : PropertyWalk :=
  match c.schemas.get? name with
  | some t => t.walk fields
  | none => .missing

/-- The text of a reference to a schema of the components, or along properties from there. -/
def pointer (name : String) (fields : List String) : String :=
  "#/components/schemas/" ++ name ++ String.join (fields.map ("/properties/" ++ ·))

end Components

/-- The segments that lead along properties. -/
def Resolver.steps (fields : List String) : List (List Char) :=
  fields.flatMap fun field => ["properties".toList, field.toList]

/-- What a resolver finds where the walk ends. Behind a reference this is a part of what the
reference is written as, if anything. -/
def PropertyWalk.tree? : PropertyWalk → Option Json
  | found t => some t.encode
  | missing => none
  | stopped r rest => Resolver.walk? r.encode (Resolver.steps rest)

/-! ## The walk through the tree -/

namespace Resolver

/-- What a resolver makes of what it finds. -/
def conclude (target : String) : Option Json → Except ServiceError Schema
  | none => .error (.unresolvedReference target none)
  | some j =>
    if isPresent j then
      (Schema.decode j).mapError fun e => .unresolvedReference target (some e)
    else .error (.unresolvedReference target none)

/-- A walk goes through the child that its first segment names. -/
theorem walk?_cons (j : Json) (segment : List Char) (path : List (List Char)) :
    walk? j (segment :: path) = (child? j segment).bind (fun child => walk? child path) := rfl

/-- The child of an object is the value of a key. -/
theorem child?_toList (ms : Members) (k : String) :
    child? (.obj ms) k.toList = OrderedMap.get? ms k := by
  rw [child?, String.ofList_toList]

/-- A text has something below another one iff it begins with it. -/
theorem below?_eq_some {root cs rest : List Char} :
    below? root cs = some rest ↔ cs = root ++ rest := by
  induction root generalizing cs with
  | nil => exact ⟨fun h => Option.some.inj h, fun h => congrArg some h⟩
  | cons r root ih =>
    cases cs with
    | nil => simp [below?]
    | cons c cs =>
      rw [below?, List.cons_append, List.cons.injEq]
      by_cases h : r = c
      · simp [h, ih]
      · simp [h, Ne.symm h]

/-- A text is not below a root iff it does not begin with it. -/
theorem below?_eq_none {root cs : List Char} : below? root cs = none ↔ ¬root <+: cs := by
  rw [Option.eq_none_iff_forall_ne_some]
  simp only [ne_eq, below?_eq_some, List.IsPrefix]
  exact ⟨fun h ⟨rest, hrest⟩ => h rest hrest.symm, fun h rest hrest => h ⟨rest, hrest.symm⟩⟩

section
variable {components : Json} {r : Reference}

/-- A reference that does not begin like one into the components cannot be resolved. -/
theorem ofTree_of_outside (h : ¬root <+: r.target.toList) :
    ofTree components r = .error (.unsupportedReference r.target) := by
  rw [ofTree, below?_eq_none.2 h]

/-- Any other reference leads along its segments. -/
theorem ofTree_of_below {path : List Char} (h : r.target.toList = root ++ path) :
    ofTree components r = conclude r.target (walk? components (Text.segments path)) := by
  simp only [ofTree, below?_eq_some.2 h]
  cases walk? components (Text.segments path) with
  | none => rfl
  | some j =>
    cases hd : Schema.decode j <;> simp [conclude, Except.mapError, hd]

/-- A schema that is read back is found as what it is. -/
theorem conclude_inline {target : String} {s : Schema} (h : s.Stable) :
    conclude target (some (SchemaOrRef.inline s).encode) = .ok s := by
  have hread : Schema.decode s.encode = .ok s := Schema.readsBack h
  have hpresent : isPresent s.encode = true := by
    rw [Schema.encode_eq]
    rfl
  rw [SchemaOrRef.encode, conclude, if_pos hpresent, hread]
  rfl

/-- Only the target of a reference counts. -/
theorem ofTree_congr {r' : Reference} (h : r.target = r'.target) :
    ofTree components r = ofTree components r' := by
  rw [ofTree, ofTree, h]

end

end Resolver

namespace SchemaOrRef

variable {t : SchemaOrRef} {s : Schema} {fields : List String}

/-- Under the key of the properties a schema has its properties. -/
theorem get?_properties (h : s.Stable) : OrderedMap.get? s.members "properties"
    = s.properties.map (Encode.map SchemaOrRef.encode) := by
  simp [Schema.members, h.keywords.get?_eq_none (k := "properties") (by decide)]

/-- A property of a schema that is written in normal form and read back is such a schema. -/
theorem stable_of_property {field : String} (hn : (SchemaOrRef.inline s).encode.Normal)
    (h : s.Stable) (ht : OrderedMap.get? (s.properties.getD []) field = some t) :
    t.encode.Normal ∧ t.Stable := by
  cases hps : s.properties with
  | none => simp [hps] at ht
  | some ps =>
    rw [hps, Option.getD_some] at ht
    have hat : (SchemaOrRef.inline s).encode.at? ["properties", field] = some t.encode := by
      rw [SchemaOrRef.encode, Schema.encode_eq, Json.at?_cons, Json.member?_obj,
        get?_properties h, hps]
      simp [ht]
    have hnormal := hn.of_at? hat
    exact ⟨hnormal, stable _ hnormal t ((h.properties ps hps).2 _ (OrderedMap.mem_of_get? ht))⟩

/-- The segments of one step lead to a property and on from there. -/
theorem walk?_steps_cons (h : s.Stable) (field : String) (fields : List String) :
    Resolver.walk? (SchemaOrRef.inline s).encode (Resolver.steps (field :: fields))
      = (OrderedMap.get? (s.properties.getD []) field).bind
          fun t => Resolver.walk? t.encode (Resolver.steps fields) := by
  rw [Resolver.steps, List.flatMap_cons, List.cons_append, List.cons_append, List.nil_append,
    Resolver.walk?_cons, SchemaOrRef.encode, Schema.encode_eq, Resolver.child?_toList,
    get?_properties h]
  cases s.properties with
  | none => rfl
  | some ps =>
    rw [Option.map_some, Option.bind_some, Resolver.walk?_cons, Encode.map,
      Resolver.child?_toList, OrderedMap.get?_mapValues, Option.bind_map]
    rfl

/-- **Both walks agree** from a schema that is written in normal form and read back, and what they
find is read back. -/
theorem walk?_encode (hn : t.encode.Normal) (h : t.Stable) :
    Resolver.walk? t.encode (Resolver.steps fields) = (t.walk fields).tree? ∧
      ∀ t', t.walk fields = .found t' → t'.Stable := by
  induction fields generalizing t with
  | nil =>
    have hwalk : t.walk [] = .found t := by cases t <;> rfl
    rw [hwalk]
    refine ⟨rfl, fun t' ht' => ?_⟩
    cases ht'
    exact h
  | cons field fields ih =>
    cases t with
    | reference r => exact ⟨rfl, fun t' ht' => by cases ht'⟩
    | boolean b => exact ⟨rfl, fun t' ht' => by cases ht'⟩
    | inline s =>
      rw [walk?_steps_cons h.1, walk]
      cases ht : OrderedMap.get? (s.properties.getD []) field with
      | none => exact ⟨rfl, fun t' ht' => by cases ht'⟩
      | some t =>
        obtain ⟨hn, h⟩ := stable_of_property hn h.1 ht
        exact ih hn h

end SchemaOrRef

/-! ## References into the components -/

namespace Components

variable {c : Components} {r : Reference} {name : String} {fields : List String}

/-- The segments of a reference along properties are the section, the component and the steps. -/
theorem toList_pointer (name : String) (fields : List String) : (pointer name fields).toList
    = Resolver.root ++ ("schemas".toList
        ++ (name.toList :: Resolver.steps fields).flatMap ('/' :: ·)) := by
  have hbegin : "#/components/schemas/".toList = Resolver.root ++ ("schemas".toList ++ ['/']) := by
    decide
  have hsteps : (String.join (fields.map ("/properties/" ++ ·))).toList
      = (Resolver.steps fields).flatMap ('/' :: ·) := by
    rw [String.toList_join, Resolver.steps, List.flatMap_map, List.flatMap_assoc]
    refine List.flatMap_congr fun field _ => ?_
    simp
  calc (pointer name fields).toList
      = "#/components/schemas/".toList ++ name.toList
          ++ (String.join (fields.map ("/properties/" ++ ·))).toList := by
        change ("#/components/schemas/" ++ name ++ String.join _).toList = _
        rw [String.toList_append, String.toList_append]
    _ = Resolver.root ++ ("schemas".toList ++ ['/']) ++ name.toList
          ++ (Resolver.steps fields).flatMap ('/' :: ·) :=
        congrArg₂ (· ++ name.toList ++ ·) hbegin hsteps
    _ = Resolver.root ++ ("schemas".toList
          ++ (name.toList :: Resolver.steps fields).flatMap ('/' :: ·)) := by
        simp only [List.flatMap_cons, List.append_assoc, List.cons_append, List.nil_append]

/-- The segments of a pointer are the section, the name and the fields, if none of these has a
slash. -/
theorem segments_pointer (hslash : ∀ s ∈ name :: fields, '/' ∉ s.toList) :
    Text.segments ("schemas".toList ++ (name.toList :: Resolver.steps fields).flatMap ('/' :: ·))
      = "schemas".toList :: name.toList :: Resolver.steps fields := by
  obtain ⟨hname, hfields⟩ := List.forall_mem_cons.1 hslash
  refine Text.segments_append_flatMap (by decide) (List.forall_mem_cons.2 ⟨hname, fun s hs => ?_⟩)
  obtain ⟨field, hfield, hs⟩ := List.mem_flatMap.1 hs
  rcases List.mem_pair.1 hs with rfl | rfl
  · decide
  · exact hfields field hfield

/-- A schema of components that are written in normal form and read back is such a schema. -/
theorem stable_of_get? {t : SchemaOrRef} (hn : c.encode.Normal) (h : c.Stable)
    (ht : c.schemas.get? name = some t) : t.encode.Normal ∧ t.Stable := by
  have hne : c.schemas ≠ [] := by
    rintro hnil
    simp [hnil] at ht
  have hat : c.encode.at? ["schemas", name] = some t.encode := by
    simp [encode, hne, ht]
  have hnormal := hn.of_at? hat
  exact ⟨hnormal, SchemaOrRef.stable _ hnormal t (h.schemas.2 _ (OrderedMap.mem_of_get? ht))⟩

/-- The segments of a component lead to it and on from there. -/
theorem walk?_schemas_cons (h : c.Stable) (name : String) (path : List (List Char)) :
    Resolver.walk? c.encode ("schemas".toList :: name.toList :: path)
      = (c.schemas.get? name).bind fun t => Resolver.walk? t.encode path := by
  have hothers : OrderedMap.get? c.others "schemas" = none := h.others.get?_eq_none (by decide)
  rw [Resolver.walk?_cons, encode, Resolver.child?_toList]
  simp only [OrderedMap.get?_append, get?_sectionMember, hothers]
  by_cases hne : c.schemas = []
  · simp [hne]
  · simp only [hne, ne_eq, not_false_eq_true, and_self, if_true, Option.some_or, Option.bind_some]
    rw [Resolver.walk?_cons, Encode.map, Resolver.child?_toList, OrderedMap.get?_mapValues,
      Option.bind_map]
    rfl

/-- Both walks agree from the components, and what they find is read back. -/
theorem walk?_encode (hn : c.encode.Normal) (h : c.Stable) :
    Resolver.walk? c.encode ("schemas".toList :: name.toList :: Resolver.steps fields)
        = (c.walk name fields).tree? ∧
      ∀ t, c.walk name fields = .found t → t.Stable := by
  rw [walk?_schemas_cons h, walk]
  cases ht : c.schemas.get? name with
  | none => exact ⟨rfl, fun t ht => by cases ht⟩
  | some t =>
    obtain ⟨hn, ht⟩ := stable_of_get? hn h ht
    exact SchemaOrRef.walk?_encode hn ht

/-- The resolver finds what the walk through the model finds. -/
theorem resolve_eq_conclude (hn : c.encode.Normal) (h : c.Stable)
    (hslash : ∀ s ∈ name :: fields, '/' ∉ s.toList) (htarget : r.target = pointer name fields) :
    Resolver.ofComponents c r = Resolver.conclude r.target (c.walk name fields).tree? := by
  have hbelow := htarget ▸ toList_pointer name fields
  rw [Resolver.ofComponents, show c.encode.normalize = c.encode from hn,
    Resolver.ofTree_of_below hbelow, segments_pointer hslash, (walk?_encode hn h).1]

end Components

/-- What is read from a tree in normal form has components that are written in normal form and read
back. -/
theorem RpcDocument.stable_components {v : Json} {d : RpcDocument} (hn : v.Normal)
    (hd : RpcDocument.decode v = .ok d) : d.components.encode.Normal ∧ d.components.Stable :=
  ⟨(RpcDocument.tidy v d hd).components, (RpcDocument.stable v hn d hd).components⟩

/-- **The resolver agrees with the model.** A reference that names a component and then properties,
one within the other, resolves to the schema that a walk through the components finds there. It is
not resolved if the walk finds nothing, and neither to a boolean schema: `true` is found but is no
schema to take apart, `false` counts as absent. A reference that is found is not followed but is
itself read as a schema. References that do not begin like those into the components are not
supported, and only the target of a reference counts. -/
theorem resolve_pointer (v : Json) (d : RpcDocument) (hkeys : v.KeysDistinct)
    (hfinite : v.NumbersFinite) (hd : RpcDocument.decode v = .ok d) :
    let resolve := Resolver.ofComponents d.components
    (∀ name fields, (∀ s ∈ name :: fields, '/' ∉ s.toList) →
      ∀ r : Reference, r.target = Components.pointer name fields →
        (∀ s, d.components.walk name fields = .found (.inline s) → resolve r = .ok s) ∧
        (d.components.walk name fields = .found (.boolean true) →
          ∃ cause, resolve r = .error (.unresolvedReference r.target (some cause))) ∧
        (d.components.walk name fields = .found (.boolean false) ∨
            d.components.walk name fields = .missing →
          resolve r = .error (.unresolvedReference r.target none)) ∧
        ∀ r', d.components.walk name fields = .found (.reference r') →
          resolve r = (Schema.decode r'.encode).mapError
            fun e => .unresolvedReference r.target (some e)) ∧
    (∀ r : Reference, ¬"#/components/".toList <+: r.target.toList →
      resolve r = .error (.unsupportedReference r.target)) ∧
    ∀ r r' : Reference, r.target = r'.target → resolve r = resolve r' := by
  intro resolve
  obtain ⟨hn, h⟩ := RpcDocument.stable_components (Json.normal_of_keysDistinct hkeys hfinite) hd
  refine ⟨fun name fields hslash r htarget => ?_, fun r hr => Resolver.ofTree_of_outside hr,
    fun r r' => Resolver.ofTree_congr⟩
  have hresolve : resolve r = Resolver.conclude r.target (d.components.walk name fields).tree? :=
    Components.resolve_eq_conclude hn h hslash htarget
  rw [hresolve]
  refine ⟨fun s hwalk => ?_, fun hwalk => ?_, ?_, fun r' hwalk => ?_⟩
  · have hs := (Components.walk?_encode hn h).2 _ hwalk
    rw [hwalk]
    exact Resolver.conclude_inline hs.1
  · rw [hwalk]
    exact ⟨_, rfl⟩
  · rintro (hwalk | hwalk) <;> rw [hwalk] <;> rfl
  · rw [hwalk]
    rfl

/-- A service with a schema whose properties are a schema with further keywords, both boolean
schemas, and a reference with a sibling. -/
def nestingService : Json :=
  .obj
    [("yarpc", .str "1.0.0"), ("info", .obj [("title", .str "Nesting"), ("version", .str "1")]),
      ("components", .obj [("schemas", .obj [("Pet", .obj
        [("properties", .obj
          [("name", .obj [("minLength", .num (.int 1)), ("type", .str "string")]),
            ("extra", .bool true), ("tail", .bool false),
            ("owner", .obj
              [("type", .str "object"), ("$ref", .str "#/components/schemas/Owner")])]),
          ("type", .str "object")])])])]

/-- Each property of the pet is resolved as what it is, and its owner is not looked up. -/
theorem resolve_nestingService : ∃ d, RpcDocument.decode nestingService = .ok d ∧
    let resolve (target : String) := Resolver.ofComponents d.components { target }
    resolve "#/components/schemas/Pet/properties/name"
      = .ok { type := some (.single "string"), keywords := [("minLength", .num (.int 1))] } ∧
    (∃ cause, resolve "#/components/schemas/Pet/properties/extra"
      = .error (.unresolvedReference "#/components/schemas/Pet/properties/extra" (some cause))) ∧
    resolve "#/components/schemas/Pet/properties/tail"
      = .error (.unresolvedReference "#/components/schemas/Pet/properties/tail" none) ∧
    resolve "#/components/schemas/Pet/properties/tail/properties/name" = .error
      (.unresolvedReference "#/components/schemas/Pet/properties/tail/properties/name" none) ∧
    resolve "#/components/schemas/Pet/properties/owner"
      = .ok { type := some (.single "object")
              keywords := [("$ref", .str "#/components/schemas/Owner")] } ∧
    resolve "other.json#/Pet" = .error (.unsupportedReference "other.json#/Pet") := by
  refine ⟨_, rfl, ?_⟩
  obtain ⟨hpointer, hunsupported, -⟩ := resolve_pointer nestingService _
    (by simp [nestingService, Json.KeysDistinct, Json.MembersKeysDistinct])
    (by simp [nestingService, Json.NumbersFinite, Json.MembersNumbersFinite]) rfl
  refine ⟨?_, ?_, ?_, ?_, ?_, hunsupported _ (by decide)⟩
  · exact (hpointer "Pet" ["name"] (by decide) _ (by decide)).1 _ rfl
  · exact (hpointer "Pet" ["extra"] (by decide) _ (by decide)).2.1 rfl
  · exact (hpointer "Pet" ["tail"] (by decide) _ (by decide)).2.2.1 (.inl rfl)
  · exact (hpointer "Pet" ["tail", "name"] (by decide) _ (by decide)).2.2.1 (.inr rfl)
  · exact (hpointer "Pet" ["owner"] (by decide) _ (by decide)).2.2.2 _ rfl

end RpcOpenApi
