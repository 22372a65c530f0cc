import RpcOpenApi.Proofs.Lookup

/-!
# The grammar of schemas

What stands in the place of a schema is read by trying: first a reference, then a boolean schema,
then a schema, and so on for the properties of a schema. The grammar tells without trying which
trees denote which schemas (`Json.Denotes`). Its three rules exclude each other, since a schema is
an object that is not spelled as a reference. A tree without repeated keys is read as what it
denotes, and every tree that denotes nothing is refused in the same words, however deep the reason
for it stands (`SchemaOrRef.decode_iff_denotes`).
-/

namespace RpcOpenApi

/-! ## Members that may be left out -/

namespace Members

variable {α : Type} {ms : Members} {name : String}

/-- What a member that may be left out or be `null` tells: nothing, or what its value stands for. -/
def Tells (ms : Members) (name : String) (StandsFor : Json → α → Prop) : Option α → Prop
  | none => OrderedMap.get? ms name = none ∨ OrderedMap.get? ms name = some .null
  | some a => ∃ j, OrderedMap.get? ms name = some j ∧ StandsFor j a

/-- A member that may be left out or be `null` is of a kind otherwise. -/
def MayBe (ms : Members) (name : String) (Kind : Json → Prop) : Prop :=
  ∀ j, OrderedMap.get? ms name = some j → j = .null ∨ Kind j

variable {decode : Json → Except DecodeError α} {StandsFor : Json → α → Prop} {Kind : Json → Prop}

/-- A field that may be left out is read as what its member tells. -/
theorem optional_iff_tells (hd : OrderedMap.Distinct ms) (hnull : ∀ a, ¬StandsFor .null a)
    (h : ∀ j, OrderedMap.get? ms name = some j → j ≠ .null →
      ∀ a, decode j = .ok a ↔ StandsFor j a) {o : Option α} :
    ms.optional name decode = .ok o ↔ ms.Tells name StandsFor o := by
  rw [optional_eq_ok, values_of_distinct hd]
  cases hj : OrderedMap.get? ms name with
  | none => cases o <;> simp [Tells, hj]
  | some j =>
    by_cases hne : j = .null
    · subst hne
      cases o <;> simp [Tells, hj, Decode.optional, hnull]
    · cases o with
      | none => simp [Tells, hj, hne, Decode.optional_of_ne_null hne, Decode.bind_eq_ok]
      | some a => simp [Tells, hj, Decode.optional_eq_ok_some, hne, h j hj hne a]

/-- A member tells something iff it is left out, is `null`, or stands for something. -/
theorem exists_tells_iff :
    (∃ o, ms.Tells name StandsFor o) ↔ ms.MayBe name (fun j => ∃ a, StandsFor j a) := by
  constructor
  · rintro ⟨o, ho⟩ j hj
    cases o with
    | none =>
      rcases ho with hnone | hnull
      · cases hnone.symm.trans hj
      · exact .inl (Option.some.inj (hj.symm.trans hnull))
    | some a =>
      obtain ⟨j', hj', ha⟩ := ho
      obtain rfl : j' = j := Option.some.inj (hj'.symm.trans hj)
      exact .inr ⟨a, ha⟩
  · intro h
    cases hj : OrderedMap.get? ms name with
    | none => exact ⟨none, .inl hj⟩
    | some j =>
      rcases h j hj with rfl | ⟨a, ha⟩
      · exact ⟨none, .inr hj⟩
      · exact ⟨some a, j, hj, ha⟩

/-- A field that may be left out is read iff its member is of the kind that is read. -/
theorem exists_optional_iff_mayBe (hd : OrderedMap.Distinct ms)
    (hnull : ∀ a, decode .null ≠ .ok a)
    (h : ∀ j, OrderedMap.get? ms name = some j → ((∃ a, decode j = .ok a) ↔ Kind j)) :
    (∃ o, ms.optional name decode = .ok o) ↔ ms.MayBe name Kind := by
  have htells (o : Option α) :
      ms.optional name decode = .ok o ↔ ms.Tells name (fun j a => decode j = .ok a) o :=
    optional_iff_tells hd hnull fun _ _ _ _ => Iff.rfl
  simp only [htells, exists_tells_iff]
  exact forall₂_congr fun j hj => or_congr_right (h j hj)

/-- What a member tells has a property iff what it stands for has. -/
theorem tells_and_iff {Having : Json → α → Prop} {o : Option α} :
    ms.Tells name (fun j a => StandsFor j a ∧ Having j a) o ↔
      ms.Tells name StandsFor o ∧
        ∀ j a, OrderedMap.get? ms name = some j → o = some a → Having j a := by
  cases o with
  | none => simp [Tells]
  | some a =>
    constructor
    · rintro ⟨j, hj, ha, hhaving⟩
      refine ⟨⟨j, hj, ha⟩, fun j' a' hj' ha' => ?_⟩
      obtain rfl : j = j' := Option.some.inj (hj.symm.trans hj')
      cases ha'
      exact hhaving
    · rintro ⟨⟨j, hj, ha⟩, hhaving⟩
      exact ⟨j, hj, ha, hhaving j a hj rfl⟩

end Members

/-! ## The rules -/

namespace Json

/-- The tree is a text. -/
def IsText (j : Json) : Prop := ∃ s, j = .str s

/-- The tree is an array of texts. -/
def IsTexts (j : Json) : Prop := ∃ names : List String, j = .arr (names.map .str)

end Json

/-- The members spell a reference. -/
structure Reference.SpelledBy (ms : Members) (r : Reference) : Prop where
  target : OrderedMap.get? ms "$ref" = some (.str r.target)
  summary : ms.Tells "summary" (fun j s => j = .str s) r.summary
  description : ms.Tells "description" (fun j s => j = .str s) r.description
  siblings : r.siblings = ms.others ["$ref", "summary", "description"]

/-- The tree spells a type: a name, or an array of names. -/
inductive SchemaType.SpelledBy : Json → SchemaType → Prop
  | single (name : String) : SpelledBy (.str name) (.single name)
  | union (names : List String) : SpelledBy (.arr (names.map .str)) (.union names)

/-- The members spell a schema, as far as what stands under the names of the properties plays no
part. -/
structure Schema.SpelledBy (ms : Members) (s : Schema) : Prop where
  type : ms.Tells "type" SchemaType.SpelledBy s.type
  properties : ms.Tells "properties"
    (fun j ps => ∃ trees, j = .obj trees ∧ OrderedMap.keys ps = OrderedMap.keys trees) s.properties
  required : ms.Tells "required" (fun j names => j = .arr (names.map .str)) s.required
  keywords : s.keywords = ms.others ["type", "properties", "required"]

/-- **The grammar of schemas.** The tree denotes a reference, a boolean schema or a schema. -/
inductive Json.Denotes : Json → SchemaOrRef → Prop
  | reference {ms : Members} {r : Reference} (h : r.SpelledBy ms) :
      Denotes (.obj ms) (.reference r)
  | boolean (b : Bool) : Denotes (.bool b) (.boolean b)
  | inline {ms : Members} {s : Schema} (hother : ∀ r : Reference, ¬r.SpelledBy ms)
      (h : s.SpelledBy ms)
      (hproperties : ∀ trees ps, OrderedMap.get? ms "properties" = some (.obj trees) →
        s.properties = some ps → ∀ name j x, OrderedMap.get? trees name = some j →
          OrderedMap.get? ps name = some x → Denotes j x) :
      Denotes (.obj ms) (.inline s)

/-- The members are of the kinds that those of a reference are of. -/
structure Members.ReferenceKinds (ms : Members) : Prop where
  target : ∃ t, OrderedMap.get? ms "$ref" = some (.str t)
  summary : ms.MayBe "summary" Json.IsText
  description : ms.MayBe "description" Json.IsText

/-- The members are of the kinds that those of a schema are of. -/
structure Members.SchemaKinds (ms : Members) : Prop where
  type : ms.MayBe "type" (fun j => j.IsText ∨ j.IsTexts)
  properties : ms.MayBe "properties"
    (fun j => ∃ trees, j = .obj trees ∧ ∀ tree ∈ trees, ∃ x, tree.2.Denotes x)
  required : ms.MayBe "required" Json.IsTexts

/-- A type is read from what spells it. -/
theorem SchemaType.decode_iff_spelledBy {j : Json} {t : SchemaType} :
    decode j = .ok t ↔ SpelledBy j t := by
  rw [decode_eq_ok]
  constructor
  · rintro (⟨name, rfl, rfl⟩ | ⟨names, hnames, rfl⟩)
    · exact .single name
    · obtain rfl := Decode.texts_eq_ok.1 hnames
      exact .union names
  · intro h
    cases h with
    | single name => exact .inl ⟨name, rfl, rfl⟩
    | union names => exact .inr ⟨names, Decode.texts_eq_ok.2 rfl, rfl⟩

/-- Some type is spelled by a text or an array of texts. -/
theorem SchemaType.exists_spelledBy_iff {j : Json} :
    (∃ t, SpelledBy j t) ↔ j.IsText ∨ j.IsTexts := by
  constructor
  · rintro ⟨t, h⟩
    cases h with
    | single name => exact .inl ⟨name, rfl⟩
    | union names => exact .inr ⟨names, rfl⟩
  · rintro (⟨name, rfl⟩ | ⟨names, rfl⟩)
    · exact ⟨_, .single name⟩
    · exact ⟨_, .union names⟩

/-! ## References -/

namespace Reference

variable {ms : Members} {r : Reference}

/-- A reference is read from the members that spell it. -/
theorem read_iff_spelledBy (hn : Json.Normal (.obj ms)) : read ms = .ok r ↔ r.SpelledBy ms := by
  obtain ⟨hd, -⟩ := Json.normal_obj_iff.1 hn
  have htext {name : String} {o : Option String} :
      ms.optional name Decode.text = .ok o ↔ ms.Tells name (fun j s => j = .str s) o :=
    Members.optional_iff_tells hd (fun _ h => by cases h) fun j _ _ s => Decode.text_eq_ok
  have htarget : ms.required "$ref" Decode.text = .ok r.target
      ↔ OrderedMap.get? ms "$ref" = some (.str r.target) := by
    simp [Members.required_iff_get? hd, Decode.text_eq_ok]
  rw [read_eq_ok, htarget, htext, htext, Members.extensions_iff_of_normal hn]
  constructor
  · rintro ⟨htarget, hsummary, hdescription, hsiblings⟩
    exact ⟨htarget, hsummary, hdescription, hsiblings⟩
  · intro h
    exact ⟨h.target, h.summary, h.description, h.siblings⟩

/-- Some reference is spelled iff the members are of its kinds. -/
theorem exists_spelledBy_iff : (∃ r : Reference, r.SpelledBy ms) ↔ ms.ReferenceKinds := by
  constructor
  · rintro ⟨r, h⟩
    exact ⟨⟨_, h.target⟩, Members.exists_tells_iff.1 ⟨_, h.summary⟩,
      Members.exists_tells_iff.1 ⟨_, h.description⟩⟩
  · rintro ⟨⟨t, ht⟩, hsummary, hdescription⟩
    obtain ⟨summary, hsummary⟩ := Members.exists_tells_iff.2 hsummary
    obtain ⟨description, hdescription⟩ := Members.exists_tells_iff.2 hdescription
    exact ⟨⟨t, summary, description, _⟩, ht, hsummary, hdescription, rfl⟩

end Reference

/-! ## Schemas -/

/-- Every property that is read is read from a tree as the schema that the tree denotes. -/
def Members.PropertiesAgree (ms : Members) : Prop :=
  ∀ trees, OrderedMap.get? ms "properties" = some (.obj trees) →
    ∀ tree ∈ trees, ∀ x, SchemaOrRef.decode tree.2 = .ok x ↔ tree.2.Denotes x

namespace Schema

variable {ms : Members} {s : Schema}

/-- Properties are read from an object with their names, whose values denote them. -/
theorem optional_properties_iff_tells (hn : Json.Normal (.obj ms)) (hagree : ms.PropertiesAgree)
    {o : Option (OrderedMap String SchemaOrRef)} :
    ms.optional "properties" (Decode.map SchemaOrRef.decode) = .ok o
      ↔ ms.Tells "properties" (fun j ps =>
          (∃ trees, j = .obj trees ∧ OrderedMap.keys ps = OrderedMap.keys trees) ∧
          ∀ trees, j = .obj trees → ∀ name j x, OrderedMap.get? trees name = some j →
            OrderedMap.get? ps name = some x → j.Denotes x) o := by
  obtain ⟨hd, hv⟩ := Json.normal_obj_iff.1 hn
  refine Members.optional_iff_tells hd (fun _ h => ?_) fun j hj _ ps => ?_
  · obtain ⟨⟨_, h, -⟩, -⟩ := h
    cases h
  · cases j with
    | obj trees =>
      obtain ⟨hdistinct, -⟩ := Json.normal_obj_iff.1 (hv _ (OrderedMap.mem_of_get? hj))
      have hread {name : String} {j : Json} {x : SchemaOrRef}
          (h : OrderedMap.get? trees name = some j) :
          SchemaOrRef.decode j = .ok x ↔ j.Denotes x :=
        hagree trees hj _ (OrderedMap.mem_of_get? h) x
      simp only [Decode.map_iff_get? hdistinct, Json.obj.injEq, exists_eq_left', forall_eq']
      exact and_congr_right fun _ => forall₃_congr fun name j x =>
        forall_congr' fun h => by rw [hread h]
    | null | bool | num | str | arr => simp [Decode.map]

/-- A schema is read from the members that spell it, if its properties are. -/
theorem read_iff_spelledBy (hn : Json.Normal (.obj ms)) (hagree : ms.PropertiesAgree) :
    read ms = .ok s ↔ s.SpelledBy ms ∧
      ∀ trees ps, OrderedMap.get? ms "properties" = some (.obj trees) → s.properties = some ps →
        ∀ name j x, OrderedMap.get? trees name = some j → OrderedMap.get? ps name = some x →
          j.Denotes x := by
  obtain ⟨hd, -⟩ := Json.normal_obj_iff.1 hn
  have htype : ms.optional "type" SchemaType.decode = .ok s.type
      ↔ ms.Tells "type" SchemaType.SpelledBy s.type :=
    Members.optional_iff_tells hd (fun _ h => by cases h) fun _ _ _ _ =>
      SchemaType.decode_iff_spelledBy
  have hrequired : ms.optional "required" (Decode.list Decode.text) = .ok s.required
      ↔ ms.Tells "required" (fun j names => j = .arr (names.map .str)) s.required :=
    Members.optional_iff_tells hd (fun _ h => by cases h) fun _ _ _ _ => Decode.texts_eq_ok
  rw [read_eq_ok, htype, optional_properties_iff_tells hn hagree, Members.tells_and_iff, hrequired,
    Members.extensions_iff_of_normal hn]
  constructor
  · rintro ⟨htype, ⟨hproperties, hdenotes⟩, hrequired, hkeywords⟩
    exact ⟨⟨htype, hproperties, hrequired, hkeywords⟩,
      fun trees ps htrees hps => hdenotes _ ps htrees hps trees rfl⟩
  · rintro ⟨⟨htype, hproperties, hrequired, hkeywords⟩, hdenotes⟩
    refine ⟨htype, ⟨hproperties, fun j ps hj hps trees htrees => ?_⟩, hrequired, hkeywords⟩
    exact hdenotes trees ps (htrees ▸ hj) hps

end Schema

namespace SchemaOrRef

variable {v : Json} {ms : Members}

/-- An object is read as what it denotes if its properties are. -/
theorem decode_obj_iff_denotes {x : SchemaOrRef} (hn : Json.Normal (.obj ms))
    (hagree : ms.PropertiesAgree) :
    decode (.obj ms) = .ok x ↔ (Json.obj ms).Denotes x := by
  constructor
  · intro h
    cases x with
    | reference r =>
      exact .reference ((Reference.read_iff_spelledBy hn).1 (decode_eq_reference.1 h))
    | boolean b =>
      rcases decode_eq_ok h with ⟨_, h, -⟩ | ⟨_, -, ⟨_, -, h⟩ | ⟨-, _, -, h⟩⟩ <;> cases h
    | inline s =>
      obtain ⟨hother, hread⟩ := decode_eq_inline.1 h
      obtain ⟨hspelled, hdenotes⟩ := (Schema.read_iff_spelledBy hn hagree).1 hread
      exact .inline (fun r hr => hother r ((Reference.read_iff_spelledBy hn).2 hr)) hspelled
        hdenotes
  · intro h
    cases h with
    | reference h => exact decode_eq_reference.2 ((Reference.read_iff_spelledBy hn).2 h)
    | inline hother h hdenotes =>
      exact decode_eq_inline.2 ⟨fun r hr => hother r ((Reference.read_iff_spelledBy hn).1 hr),
        (Schema.read_iff_spelledBy hn hagree).2 ⟨h, hdenotes⟩⟩

/-- A tree in normal form is read as what it denotes. -/
theorem decode_iff_denotes_of_normal (hn : v.Normal) (x : SchemaOrRef) :
    decode v = .ok x ↔ v.Denotes x := by
  -- The properties are values of the value of a member, so two levels are carried along.
  suffices h : (∀ x, decode v = .ok x ↔ v.Denotes x) ∧
      ∀ trees, v = .obj trees → ∀ tree ∈ trees, ∀ x, decode tree.2 = .ok x ↔ tree.2.Denotes x from
    h.1 x
  clear x
  induction v using Json.induction with
  | null | num | str | arr =>
    refine ⟨fun x => ⟨fun h => ?_, fun h => ?_⟩, fun _ h => ?_⟩ <;> cases h
  | bool b =>
    refine ⟨fun x => ⟨fun h => ?_, fun h => ?_⟩, fun _ h => ?_⟩
    · cases h
      exact .boolean b
    · cases h
      rfl
    · cases h
  | obj ms ih =>
    have hvalues := (Json.normal_obj_iff.1 hn).2
    refine ⟨fun x => decode_obj_iff_denotes hn fun trees htrees => ?_, fun trees h tree htree => ?_⟩
    · have hmem := OrderedMap.mem_of_get? htrees
      exact (ih _ hmem (hvalues _ hmem)).2 trees rfl
    · cases h
      exact (ih tree htree (hvalues tree htree)).1

end SchemaOrRef

/-! ## What can be read -/

/-- Some reference is read from an object iff its members are of the kinds of a reference. -/
theorem Reference.exists_read_iff {ms : Members} (hn : Json.Normal (.obj ms)) :
    (∃ r, read ms = .ok r) ↔ ms.ReferenceKinds := by
  simp only [read_iff_spelledBy hn, exists_spelledBy_iff]

/-- Some map of schemas is read from a tree in normal form iff the values of an object denote
something. -/
theorem Schema.exists_map_iff {j : Json} (hn : j.Normal) :
    (∃ ps, Decode.map SchemaOrRef.decode j = .ok ps) ↔
      ∃ trees, j = .obj trees ∧ ∀ tree ∈ trees, ∃ x, tree.2.Denotes x := by
  cases j with
  | obj trees =>
    have hvalues := (Json.normal_obj_iff.1 hn).2
    have hmap : (∃ ps, Decode.map SchemaOrRef.decode (.obj trees) = .ok ps)
        ↔ ∃ es, Decode.members SchemaOrRef.decode trees = .ok es := by
      simp [Decode.map_eq_ok]
    rw [hmap, Decode.exists_members_eq_ok]
    simp only [Json.obj.injEq, exists_eq_left']
    exact forall₂_congr fun tree htree => exists_congr
      (SchemaOrRef.decode_iff_denotes_of_normal (hvalues tree htree))
  | null | bool | num | str | arr => simp [Decode.map]

/-- Some schema is read from an object iff its members are of the kinds of a schema. -/
theorem Schema.exists_read_iff {ms : Members} (hn : Json.Normal (.obj ms)) :
    (∃ s, read ms = .ok s) ↔ ms.SchemaKinds := by
  obtain ⟨hd, hv⟩ := Json.normal_obj_iff.1 hn
  have htype : (∃ t, ms.optional "type" SchemaType.decode = .ok t)
      ↔ ms.MayBe "type" (fun j => j.IsText ∨ j.IsTexts) :=
    Members.exists_optional_iff_mayBe hd (fun _ h => by cases h) fun j _ => by
      simp only [SchemaType.decode_iff_spelledBy, SchemaType.exists_spelledBy_iff]
  have hproperties : (∃ ps, ms.optional "properties" (Decode.map SchemaOrRef.decode) = .ok ps)
      ↔ ms.MayBe "properties"
        (fun j => ∃ trees, j = .obj trees ∧ ∀ tree ∈ trees, ∃ x, tree.2.Denotes x) :=
    Members.exists_optional_iff_mayBe hd (fun _ h => by cases h) fun j hj =>
      exists_map_iff (hv _ (OrderedMap.mem_of_get? hj))
  have hrequired : (∃ r, ms.optional "required" (Decode.list Decode.text) = .ok r)
      ↔ ms.MayBe "required" Json.IsTexts :=
    Members.exists_optional_iff_mayBe hd (fun _ h => by cases h) fun j _ => by
      simp only [Decode.texts_eq_ok, Json.IsTexts]
  constructor
  · rintro ⟨s, h⟩
    obtain ⟨ht, hp, hr, -⟩ := read_eq_ok.1 h
    exact ⟨htype.1 ⟨_, ht⟩, hproperties.1 ⟨_, hp⟩, hrequired.1 ⟨_, hr⟩⟩
  · rintro ⟨ht, hp, hr⟩
    obtain ⟨type, ht⟩ := htype.2 ht
    obtain ⟨properties, hp⟩ := hproperties.2 hp
    obtain ⟨required, hr⟩ := hrequired.2 hr
    exact ⟨⟨type, properties, required, _⟩, read_eq_ok.2 ⟨ht, hp, hr, rfl⟩⟩

/-- **Reading a schema accepts exactly its grammar.** A JSON value without repeated keys is read as
what it denotes; that its numbers are finite sets it apart from a tree that is read from YAML. So it
is read as a reference iff it is an object with the members of one, as a boolean schema iff it is a
boolean, and as a schema iff it is any other object with the members of one, of whose properties
each denotes something. Every value that denotes nothing is refused in the same words. -/
theorem SchemaOrRef.decode_iff_denotes (v : Json) (hkeys : v.KeysDistinct)
    (hfinite : v.NumbersFinite) :
    (∀ x, decode v = .ok x ↔ v.Denotes x) ∧
    ((∃ r, decode v = .ok (.reference r)) ↔ ∃ ms : Members, v = .obj ms ∧ ms.ReferenceKinds) ∧
    (∀ b, decode v = .ok (.boolean b) ↔ v = .bool b) ∧
    ((∃ s, decode v = .ok (.inline s)) ↔
      ∃ ms : Members, v = .obj ms ∧ ¬ms.ReferenceKinds ∧ ms.SchemaKinds) ∧
    (decode v = .error (.noAlternative "SchemaOrRef") ↔ ¬∃ x, v.Denotes x) ∧
    ∀ e, decode v = .error e →
      e.message = "data did not match any variant of untagged enum SchemaOrRef" := by
  have hn : v.Normal := Json.normal_of_keysDistinct hkeys hfinite
  have hdenotes := decode_iff_denotes_of_normal hn
  refine ⟨hdenotes, ?_, fun b => ?_, ?_, ?_, fun e he => ?_⟩
  · cases v with
    | obj ms => simp [decode_eq_reference, Reference.exists_read_iff hn]
    | null | bool | num | str | arr => simp [decode]
  · rw [hdenotes]
    constructor
    · intro h
      cases h
      rfl
    · rintro rfl
      exact .boolean b
  · cases v with
    | obj ms =>
      simp [decode_eq_inline, ← Reference.exists_read_iff hn, ← Schema.exists_read_iff hn]
    | null | bool | num | str | arr => simp [decode]
  · simp only [← hdenotes]
    cases hv : decode v with
    | ok x => simp
    | error e => simp [decode_eq_error hv]
  · rw [decode_eq_error he]
    rfl

/-- A schema with a `$ref` that is no text, with a property that is a reference beside other members
of a schema, and with one that is a schema because its description is no text. -/
def mixedSchema : Json :=
  .obj
    [("$ref", .num (.int 1)), ("required", .null), ("type", .arr [.str "object", .str "null"]),
      ("properties", .obj
        [("id", .obj [("type", .str "string"), ("$ref", .str "#/components/schemas/Id"),
            ("summary", .null), ("maxLength", .num (.int 8))]),
          ("any", .bool true),
          ("odd", .obj [("$ref", .str "#/components/schemas/Odd"),
            ("description", .num (.int 2))])])]

/-- A schema with a property that is a reference, and with one that has a property whose type is no
text. -/
def faultySchema : Json :=
  .obj
    [("properties", .obj
      [("id", .obj [("$ref", .str "#/components/schemas/Id")]),
        ("outer", .obj [("properties", .obj [("inner", .obj [("type", .num (.int 1))])])])])]

/-- The mixed schema denotes what it is read as, and the faulty one denotes nothing. -/
theorem SchemaOrRef.decode_mixedSchema :
    mixedSchema.Denotes (.inline
      { type := some (.union ["object", "null"])
        properties := some
          [("id", .reference
            { target := "#/components/schemas/Id"
              siblings := [("type", .str "string"), ("maxLength", .num (.int 8))] }),
            ("any", .boolean true),
            ("odd", .inline { keywords := [("$ref", .str "#/components/schemas/Odd"),
              ("description", .num (.int 2))] })]
        keywords := [("$ref", .num (.int 1))] }) ∧
    ¬∃ x, faultySchema.Denotes x := by
  have hmixed := decode_iff_denotes mixedSchema
    (by simp [mixedSchema, Json.KeysDistinct, Json.MembersKeysDistinct, Json.ItemsKeysDistinct])
    (by simp [mixedSchema, Json.NumbersFinite, Json.MembersNumbersFinite, Json.ItemsNumbersFinite])
  have hfaulty := decode_iff_denotes faultySchema
    (by simp [faultySchema, Json.KeysDistinct, Json.MembersKeysDistinct])
    (by simp [faultySchema, Json.NumbersFinite, Json.MembersNumbersFinite])
  obtain ⟨hdenotes, -⟩ := hmixed
  obtain ⟨-, -, -, -, hrefused, -⟩ := hfaulty
  exact ⟨(hdenotes _).1 rfl, hrefused.1 rfl⟩

end RpcOpenApi
