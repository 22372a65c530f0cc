import RpcOpenApi.Proofs.Codec.Lossless
import RpcOpenApi.Proofs.Codec.Order

/-!
# The parts of a document do not depend on the order of members

The reader of every type of the document model respects that what is read is written as alike trees,
or a relation that says this of the parts that the compiler takes apart (`Schema.Alike`,
`PathItem.Alike`). A schema is read from the members of a schema, so for schemas this is an
induction over the tree (`SchemaOrRef.respects`). Whether an object is a reference does not depend
on the order of its members either (`Reference.refers_iff`).
-/

namespace RpcOpenApi

open Relator

/-! ## References -/

namespace Reference

/-- The targets are the same, and the references are written as alike trees. -/
structure Alike (r r' : Reference) : Prop where
  target : r.target = r'.target
  written : WrittenAlike encode r r'

/-- References from alike trees have the same target and texts, and alike siblings. -/
theorem respects (v : Json) : Respects decode Alike v := by
  have h : Respects decode (fun r r' => r.target = r'.target ∧ WrittenSame encode r r') v := by
    refine respects_record (fun ms => (((Follows.map ?_
      (.required fun e _ => respects_text e.2)).seq
      (.optional_eq respects_text)).seq (.optional_eq respects_text)).seq .extensions) v
    rintro t _ rfl s _ rfl d _ rfl e e' he
    exact ⟨rfl, _, _, rfl, rfl, (Members.Same.refl _).append he⟩
  have hwritten := (h.imp fun _ _ h => h.2).written tidy
  exact (h.and hwritten).imp fun _ _ h => ⟨h.1.1, h.2⟩

/-- A tree is a reference iff a tree that is alike to it is one. -/
theorem refers_iff {v v' : Json} (h : v.Alike v') : Refers v ↔ Refers v' :=
  Respects.isOk_iff respects h

end Reference

namespace RefOr

variable {α : Type} {inner : Json → Except DecodeError α} {encode : α → Json} {v : Json}

/-- A tree that is a reference is read as one. -/
theorem decode_reference {r : Reference} (h : Reference.decode v = .ok r) :
    RefOr.decode inner v = .ok (.reference r) := by
  rw [RefOr.decode, h]

/-- A tree that is none is read as an inline definition. -/
theorem decode_inline {a : α} (hv : ¬Reference.Refers v) (h : inner v = .ok a) :
    RefOr.decode inner v = .ok (.inline a) := by
  rw [RefOr.decode]
  cases hr : Reference.decode v with
  | ok r => exact (hv ⟨r, hr⟩).elim
  | error e => simp only [h]

/-- Definitions or references from alike trees are written alike if definitions are. -/
theorem respects (h : ∀ v, Respects inner (WrittenAlike encode) v) (v : Json) :
    Respects (RefOr.decode inner) (WrittenAlike (RefOr.encode encode)) v := by
  intro v' hv x hx
  rcases decode_eq_ok hx with ⟨r, hr, rfl⟩ | ⟨hrefers, a, ha, rfl⟩
  · obtain ⟨r', hr', halike⟩ := Reference.respects v v' hv r hr
    exact ⟨_, decode_reference hr', halike.written⟩
  · obtain ⟨a', ha', halike⟩ := h v v' hv a ha
    exact ⟨_, decode_inline (mt (Reference.refers_iff hv).2 hrefers) ha', halike⟩

end RefOr

/-! ## Schemas -/

/-- Types of schemas are read without regard to order. -/
theorem SchemaType.respects (v : Json) : Respects decode Eq v := by
  intro v' hv t ht
  obtain ⟨_, rfl, rfl⟩ | ⟨names, hnames, rfl⟩ := decode_eq_ok.1 ht
  · cases hv.eq_of_str
    exact ⟨_, ht, rfl⟩
  · obtain ⟨_, hnames', rfl⟩ := respects_texts _ _ hv names hnames
    exact ⟨_, decode_eq_ok.2 (.inr ⟨_, hnames', rfl⟩), rfl⟩

namespace Schema

/-- The schemas have the same type and the same required properties, their properties are written as
alike trees, and so are the schemas. -/
structure Alike (s s' : Schema) : Prop where
  type : s.type = s'.type
  properties : Option.Rel (OrderedMap.Alike (WrittenAlike SchemaOrRef.encode)) s.properties
    s'.properties
  required : s.required = s'.required
  written : WrittenAlike encode s s'

/-- Of alike schemas both are schemas of objects or none is. -/
theorem Alike.isObject_eq {s s' : Schema} (h : s.Alike s') : s.isObject = s'.isObject := by
  rw [isObject, isObject, h.type]

/-- Alike schemas require the same properties. -/
theorem Alike.isRequired_eq {s s' : Schema} (h : s.Alike s') : s.isRequired = s'.isRequired := by
  funext name
  rw [isRequired, isRequired, h.required]

/-- A schema is read from the members of alike objects as alike schemas, if its properties are read
as related maps. -/
theorem follows_of_maps {ms : Members} (hmaps : ∀ e ∈ ms, Respects (Decode.map SchemaOrRef.decode)
    (OrderedMap.Alike (WrittenAlike SchemaOrRef.encode)) e.2) : Follows read Alike ms := by
  intro ms' hms s hs
  obtain ⟨ht, hp, hr, hk⟩ := read_eq_ok.1 hs
  obtain ⟨type, ht', htype⟩ := Follows.optional_eq SchemaType.respects ms' hms _ ht
  obtain ⟨properties, hp', hproperties⟩ := Follows.optional hmaps ms' hms _ hp
  obtain ⟨required, hr', hrequired⟩ := Follows.optional_eq respects_texts ms' hms _ hr
  obtain ⟨keywords, hk', hkeywords⟩ := Follows.extensions ms' hms _ hk
  have hs' : read ms' = .ok ⟨type, properties, required, keywords⟩ :=
    read_eq_ok.2 ⟨ht', hp', hr', hk'⟩
  refine ⟨_, hs', htype, hproperties, hrequired, ?_⟩
  have hn := tidy _ _ (decode_obj.2 hs)
  have hn' := tidy _ _ (decode_obj.2 hs')
  refine ⟨hn, hn', ?_⟩
  simp only [encode_eq] at hn' ⊢
  refine Json.similar_obj ?_ (Json.normal_obj_iff.1 hn').1
  rw [members, members, htype, hrequired]
  refine (((Members.Same.refl _).append (Members.same_optional ?_)).append (.refl _)).append
    hkeywords
  exact OptionRel.imp hproperties fun _ _ => written_map

end Schema

namespace SchemaOrRef

/-- Both are references with the same target, the same boolean schema, or schemas that are alike. -/
inductive Alike : SchemaOrRef → SchemaOrRef → Prop
  | reference {r r' : Reference} (h : r.Alike r') : Alike (.reference r) (.reference r')
  | boolean (b : Bool) : Alike (.boolean b) (.boolean b)
  | inline {s s' : Schema} (h : s.Alike s') : Alike (.inline s) (.inline s')

/-- Alike schemas and references are written alike. -/
theorem Alike.written {x x' : SchemaOrRef} (h : x.Alike x') : WrittenAlike encode x x' := by
  cases h with
  | reference h => exact h.written
  | boolean b => exact .refl rfl
  | inline h => exact h.written

variable {v : Json}

/-- A schema does not depend on the order of members if the maps of schemas among its members do
not. -/
theorem respects_of_maps (hmaps : ∀ ms, v = .obj ms → ∀ e ∈ ms,
    Respects (Decode.map SchemaOrRef.decode) (OrderedMap.Alike (WrittenAlike encode)) e.2) :
    Respects decode Alike v := by
  intro v' hv x hx
  obtain ⟨b, rfl, rfl⟩ | ⟨ms, rfl, ⟨r, hr, rfl⟩ | ⟨hrefers, s, hs, rfl⟩⟩ := decode_eq_ok hx
  · cases hv.eq_of_bool
    exact ⟨_, rfl, .boolean b⟩
  · obtain ⟨ms', rfl⟩ := hv.exists_obj
    obtain ⟨r', hr', halike⟩ := Reference.respects _ _ hv r (Reference.decode_obj.2 hr)
    refine ⟨.reference r', ?_, .reference halike⟩
    rw [decode, Reference.decode_obj.1 hr']
  · obtain ⟨ms', rfl⟩ := hv.exists_obj
    obtain ⟨s', hs', halike⟩ := Schema.follows_of_maps (hmaps ms rfl) ms' hv s hs
    refine ⟨.inline s', ?_, .inline halike⟩
    have hrefers' := mt (Reference.refers_iff hv).2 hrefers
    rw [decode]
    cases hr : Reference.read ms' with
    | ok r => exact (hrefers' ⟨r, Reference.decode_obj.2 hr⟩).elim
    | problem p =>
      have hassemble : Schema.assemble ms' (Schema.propertyEntries 0 ms') = .ok s' := hs'
      simp only [hassemble]

/-- Schemas and references from alike trees are alike. -/
theorem respects (v : Json) : Respects decode Alike v := by
  -- The properties of a schema are a part of the tree, the schemas in it are parts of this part.
  suffices h : Respects decode Alike v ∧
      Respects (Decode.map decode) (OrderedMap.Alike (WrittenAlike encode)) v from h.1
  induction v using Json.induction with
  | null | num | str | arr => exact ⟨fun _ _ _ h => (nomatch h), fun _ _ _ h => (nomatch h)⟩
  | bool b => exact ⟨respects_of_maps fun _ h => (nomatch h), fun _ _ _ h => (nomatch h)⟩
  | obj ms ih =>
    refine ⟨respects_of_maps fun ms' hms e he => ?_, respects_map_of fun ms' hms e he => ?_⟩
    · cases hms
      exact (ih e he).2
    · cases hms
      exact (ih e he).1.imp fun _ _ => Alike.written

/-- Schemas and references from alike trees are written alike. -/
theorem respects_written (v : Json) : Respects decode (WrittenAlike encode) v :=
  (respects v).imp fun _ _ => Alike.written

end SchemaOrRef

/-- Schemas from alike trees are alike. -/
theorem Schema.respects (v : Json) : Respects decode Alike v :=
  respects_record (fun _ => follows_of_maps fun e _ =>
    respects_map SchemaOrRef.respects_written e.2) v

/-! ## The parts of an operation -/

namespace MediaType

/-- Media types from members in any order have the same members. -/
theorem follows (ms : Members) :
    Follows read (fun m m' => Members.Same m.members m'.members) ms := by
  refine (((((Follows.map ?_ (.optional fun e _ => SchemaOrRef.respects_written e.2)).seq
    (.optional fun e _ => respects_free e.2)).seq (.optional fun e _ => respects_freeMap e.2)).seq
    (.optional fun e _ => respects_freeMap e.2))).seq .extensions
  intro s s' hs e e' he es es' hes en en' hen ext ext' hext
  exact ((((Members.same_optional hs).append (Members.same_optional he)).append
    (Members.same_optional hes)).append (Members.same_optional hen)).append hext

/-- Media types from alike trees are written alike. -/
theorem respects (v : Json) : Respects decode (WrittenAlike encode) v :=
  ((respects_record follows v).imp fun _ _ h => ⟨_, _, rfl, rfl, h⟩).written tidy

/-- Content by media type from alike trees is written alike. -/
theorem respects_content (v : Json) :
    Respects (Decode.map decode) (WrittenAlike (Encode.map encode)) v :=
  respects_written_map respects v

end MediaType

/-- Parameters from alike trees are written alike. -/
theorem Parameter.respects (v : Json) : Respects decode (WrittenAlike encode) v := by
  refine Respects.written (respects_record (fun ms => ((((((((((((((Follows.map ?_
    (.required fun e _ => respects_text e.2)).seq (.required fun e _ => respects_variant _ e.2)).seq
    (.optional_eq respects_text)).seq (.optional_eq respects_boolean)).seq
    (.optional_eq respects_boolean)).seq (.optional_eq respects_boolean)).seq
    (.optional_eq respects_text)).seq (.optional_eq respects_boolean)).seq
    (.optional_eq respects_boolean)).seq
    (.optional fun e _ => SchemaOrRef.respects_written e.2)).seq
    (.optional fun e _ => respects_free e.2)).seq (.optional fun e _ => respects_freeMap e.2)).seq
    (.optional fun e _ => MediaType.respects_content e.2)).seq .extensions)) v) tidy
  rintro n _ rfl l _ rfl d _ rfl r _ rfl dep _ rfl a _ rfl st _ rfl ex _ rfl ar _ rfl s s' hs
    e e' he es es' hes c c' hc ext ext' hext
  exact ⟨_, _, rfl, rfl, (((((Members.Same.refl _).append (Members.same_optional hs)).append
    (Members.same_optional he)).append (Members.same_optional hes)).append
    (Members.same_optional hc)).append hext⟩

/-- Request bodies from alike trees are written alike. -/
theorem RequestBody.respects (v : Json) : Respects decode (WrittenAlike encode) v := by
  refine Respects.written (respects_record (fun ms => ((((Follows.map ?_
    (.optional_eq respects_text)).seq (.required fun e _ => MediaType.respects_content e.2)).seq
    (.optional_eq respects_boolean)).seq .extensions)) v) tidy
  rintro d _ rfl c c' hc r _ rfl ext ext' hext
  exact ⟨_, _, rfl, rfl, ((Members.Same.refl _).append
    ((Members.same_member hc.similar).append (.refl _))).append hext⟩

/-- Responses from alike trees are written alike. -/
theorem Response.respects (v : Json) : Respects decode (WrittenAlike encode) v := by
  refine Respects.written (respects_record (fun ms => (((((Follows.map ?_
    (.required fun e _ => respects_text e.2)).seq (.optional fun e _ => respects_freeMap e.2)).seq
    (.optional fun e _ => MediaType.respects_content e.2)).seq
    (.optional fun e _ => respects_freeMap e.2)).seq .extensions)) v) tidy
  rintro d _ rfl h h' hh c c' hc l l' hl ext ext' hext
  exact ⟨_, _, rfl, rfl, ((((Members.Same.refl [_]).append (Members.same_optional hh)).append
    (Members.same_optional hc)).append (Members.same_optional hl)).append hext⟩

namespace Responses

/-- Responses from alike trees have the same codes, and those of each code are written alike. -/
theorem respects (v : Json) :
    Respects decode (OrderedMap.Alike (WrittenAlike (RefOr.encode Response.encode))) v := by
  intro v' hv rs hrs
  obtain ⟨ms, rfl, es, hes, rfl⟩ := decode_eq_ok.1 hrs
  obtain ⟨ms', rfl⟩ := hv.exists_obj
  obtain ⟨es', hes', halike⟩ := Decode.exists_of_members_of_alike
    (fun e _ => RefOr.respects Response.respects e.2) hv hes
  have hcodes := halike.mapKeys StatusCode.mk_injective
  refine ⟨_, decode_eq_ok.2 ⟨ms', rfl, es', hes', rfl⟩, ?_⟩
  rwa [hcodes.distinct.ofPairs_eq, hcodes.distinct'.ofPairs_eq]

/-- Responses with the same codes are written alike if those of each code are. -/
theorem written_of_alike {rs rs' : Responses}
    (h : OrderedMap.Alike (WrittenAlike (RefOr.encode Response.encode)) rs rs') :
    WrittenAlike encode rs rs' :=
  alike_entries (fun _ _ => congrArg StatusCode.mk) h

end Responses

namespace Server

variable {surplus : Nat → DecodeError}

/-- What is read from a value that may be missing is also read from one that is alike. -/
theorem exists_mapM_of_alike {α : Type} {decode : Json → Except DecodeError α} {R : α → α → Prop}
    (h : ∀ v, Respects decode R v) {j j' : Option Json} (hj : Option.Rel Json.Alike j j')
    {o : Option α} (ho : j.mapM decode = .ok o) :
    ∃ o', j'.mapM decode = .ok o' ∧ Option.Rel R o o' := by
  cases hj with
  | none =>
    cases ho
    exact ⟨none, rfl, .none⟩
  | some halike =>
    obtain ⟨a, ha, ho⟩ := Decode.bind_eq_ok.1 ho
    cases ho
    obtain ⟨a', ha', hR⟩ := h _ _ halike a ha
    exact ⟨some a', Decode.bind_eq_ok.2 ⟨a', ha', rfl⟩, .some hR⟩

/-- Servers from members in any order are written as the same object. -/
theorem follows (ms : Members) : Follows read (WrittenSame encode) ms := by
  refine ((Follows.map ?_ (.required fun e _ => respects_text e.2)).seq
    (.optional_eq respects_text)).seq (.optional fun e _ => respects_freeMap e.2)
  rintro u _ rfl d _ rfl b b' hb
  exact ⟨_, _, rfl, rfl, (Members.Same.refl _).append (Members.same_optional hb)⟩

/-- A server that is given as an array of its fields is also read from an array of alike ones. -/
theorem exists_ofItems_of_alike {js js' : List Json} {s : Server}
    (hjs : List.Forall₂ Json.Alike js js') (hs : ofItems surplus js = .ok s) :
    ∃ s', ofItems surplus js' = .ok s' ∧ WrittenSame encode s s' := by
  cases hjs with
  | nil => cases hs
  | @cons u u' rest rest' hu hrest =>
    obtain ⟨url, hurl, hs⟩ := Decode.bind_eq_ok.1 hs
    obtain ⟨description, hdescription, hs⟩ := Decode.bind_eq_ok.1 hs
    obtain ⟨bindings, hbindings, hs⟩ := Decode.bind_eq_ok.1 hs
    have hfields : Option.Rel Json.Alike rest.head? rest'.head? ∧
        Option.Rel Json.Alike rest.tail.head? rest'.tail.head? := by
      cases hrest with
      | nil => exact ⟨.none, .none⟩
      | cons hd hrest =>
        cases hrest with
        | nil => exact ⟨.some hd, .none⟩
        | cons hb _ => exact ⟨.some hd, .some hb⟩
    obtain ⟨_, hurl', rfl⟩ := respects_text u u' hu url hurl
    obtain ⟨description', hdescription', hd⟩ := exists_mapM_of_alike
      (fun v => respects_optional (respects_text v)) hfields.1 hdescription
    obtain ⟨bindings', hbindings', hb⟩ := exists_mapM_of_alike
      (fun v => respects_optional (respects_freeMap v)) hfields.2 hbindings
    have hjoin : description.join = description'.join := OptionRel.eq (OptionRel.join hd)
    rw [hrest.length_eq] at hs
    split at hs
    next => cases hs
    next hlength =>
      cases hs
      refine ⟨⟨url, description'.join, bindings'.join⟩, Decode.bind_eq_ok.2 ⟨url, hurl',
        Decode.bind_eq_ok.2 ⟨description', hdescription',
          Decode.bind_eq_ok.2 ⟨bindings', hbindings', if_neg hlength⟩⟩⟩, _, _, rfl, rfl, ?_⟩
      rw [hjoin]
      exact (Members.Same.refl _).append (Members.same_optional (OptionRel.join hb))

/-- Servers from alike trees are written alike, also where they are arrays of their fields. -/
theorem respects (v : Json) : Respects (decode surplus) (WrittenAlike encode) v := by
  refine Respects.written (fun v' hv s hs => ?_) tidy
  cases v with
  | obj ms =>
    obtain ⟨ms', rfl⟩ := hv.exists_obj
    obtain ⟨s', hs', hsame⟩ := follows ms ms' hv s (Reading.toExcept_eq_ok.1 hs)
    exact ⟨s', Reading.toExcept_eq_ok.2 hs', hsame⟩
  | arr js =>
    obtain ⟨js', rfl, hjs⟩ := hv.exists_arr
    exact exists_ofItems_of_alike hjs hs
  | null | bool | num | str => cases hs

end Server

namespace OperationExtras

/-- The fields that are carried along are written as the same members, whatever their order was. -/
theorem follows {server : Json → Except DecodeError Server}
    (h : ∀ v, Respects server (WrittenAlike Server.encode) v) (ms : Members) :
    Follows (read server) (fun e e' => Members.Same e.members e'.members) ms := by
  refine ((((((((Follows.map ?_ (.optional_eq respects_text)).seq
    (.optional_eq respects_texts)).seq (.optional fun e _ => respects_free e.2)).seq
    (.optional_eq respects_boolean)).seq (.optional fun e _ => respects_written_list
      (respects_written_map (respects_written_list respects_written_text)) e.2)).seq
    (.optional fun e _ => respects_written_list h e.2)).seq
    (.optional fun e _ => respects_freeMap e.2))).seq .extensions
  rintro s _ rfl t _ rfl d d' hd dep _ rfl sec sec' hsec ss ss' hss c c' hc ext ext' hext
  exact ((((((Members.Same.refl _).append (Members.same_optional hd)).append (.refl _)).append
    (Members.same_optional hsec)).append (Members.same_optional hss)).append
    (Members.same_optional hc)).append hext

end OperationExtras

/-- Lists of parameters from alike trees are written alike. -/
theorem Parameters.respects (v : Json) : Respects decode (WrittenAlike encode) v :=
  respects_written_list (RefOr.respects Parameter.respects) v

/-- Operations from alike trees are written alike. -/
theorem Operation.respects (v : Json) : Respects decode (WrittenAlike encode) v := by
  refine Respects.written (respects_record (fun ms => ((((((Follows.map ?_
    (.optional_eq respects_text)).seq (.optional_eq respects_text)).seq
    (.optional fun e _ => Parameters.respects e.2)).seq
    (.optional fun e _ => RefOr.respects RequestBody.respects e.2)).seq
    (.defaulted (fun e _ => Responses.respects e.2) .nil)).seq
    (.flattened (OperationExtras.follows Server.respects _)))) v) fun v o ho => (tidy v o ho).normal
  rintro i _ rfl d _ rfl ps ps' hps b b' hb rs rs' hrs e e' he
  exact ⟨_, _, rfl, rfl, (((Members.Same.refl _).append (Members.same_optional hps)).append
    (Members.same_optional hb)).append
    ((Members.same_member (Responses.written_of_alike hrs).similar).append he)⟩

/-! ## Path items -/

namespace PathItem

/-- The members that the fields are written as. -/
def fieldMembers (p : PathItem) : Members :=
  Encode.optional "summary" .str p.summary
    ++ Encode.optional "description" .str p.description
    ++ Encode.optional "parameters" Parameters.encode p.parameters
    ++ Encode.optional "servers" (Encode.list Server.encode) p.servers

/-- What is common to the operations is written as alike trees, and the operations of each method
are. -/
structure Alike (p p' : PathItem) : Prop where
  fields : WrittenAlike encode { p with operations := [] } { p' with operations := [] }
  operations : OrderedMap.Alike (WrittenAlike Operation.encode) p.operations p'.operations

/-- The fields of two paths are written alike if they are the same up to order. -/
theorem alike_fields {p p' : PathItem} (h : p.Tidy) (h' : p'.Tidy)
    (hsame : Members.Same p.fieldMembers p'.fieldMembers) :
    WrittenAlike encode { p with operations := [] } { p' with operations := [] } := by
  have hnormal (q : PathItem) (hq : q.Tidy) :
      Json.Normal (encode { q with operations := [] }) :=
    Tidy.normal ⟨hq.parameters, hq.servers, .nil⟩
  exact ⟨hnormal p h, hnormal p' h',
    Json.similar_obj (hsame.append (.refl [])) (Json.normal_obj_iff.1 (hnormal p' h')).1⟩

/-- Operations are read iff every key is the name of a method and every value is an operation. -/
theorem exists_readEntries_eq_ok {ms : Members} : (∃ es, readEntries ms = .ok es) ↔
    ∀ e ∈ ms, (∃ m, Decode.variantNamed HttpMethod.variants e.1 = .ok m) ∧
      ∃ o, Operation.decode e.2 = .ok o := by
  induction ms with
  | nil => simp [readEntries]
  | cons e ms ih =>
    obtain ⟨k, j⟩ := e
    rw [List.forall_mem_cons, ← ih]
    constructor
    · rintro ⟨es, hes⟩
      obtain ⟨m, hm, hes⟩ := Decode.bind_eq_ok.1 hes
      obtain ⟨o, ho, hes⟩ := Decode.bind_eq_ok.1 hes
      obtain ⟨rest, hrest, -⟩ := Decode.bind_eq_ok.1 hes
      exact ⟨⟨⟨m, hm⟩, o, ho⟩, rest, hrest⟩
    · rintro ⟨⟨⟨m, hm⟩, o, ho⟩, rest, hrest⟩
      exact ⟨(m, o) :: rest, Decode.bind_eq_ok.2 ⟨m, hm, Decode.bind_eq_ok.2 ⟨o, ho,
        Decode.bind_eq_ok.2 ⟨rest, hrest, rfl⟩⟩⟩⟩

/-- The operation of a method is read from the value under its name. -/
theorem get?_of_readEntries {ms : Members} {es : List (HttpMethod × Operation)}
    (h : readEntries ms = .ok es) (m : HttpMethod) :
    (OrderedMap.get? es m).map Except.ok = (OrderedMap.get? ms m.text).map Operation.decode := by
  induction ms generalizing es with
  | nil =>
    cases h
    rfl
  | cons e ms ih =>
    obtain ⟨k, j⟩ := e
    obtain ⟨m', hm', h⟩ := Decode.bind_eq_ok.1 h
    obtain ⟨o, ho, h⟩ := Decode.bind_eq_ok.1 h
    obtain ⟨rest, hrest, h⟩ := Decode.bind_eq_ok.1 h
    cases h
    obtain rfl := text_of_variantNamed hm'
    rw [OrderedMap.get?_cons, OrderedMap.get?_cons]
    by_cases hm : m' = m
    · rw [if_pos hm, if_pos (congrArg _ hm), Option.map_some, Option.map_some, ho]
    · rw [if_neg hm, if_neg (mt text_injective hm), ih hrest]

/-- The operations of a path from members in any order have the same methods and are written
alike. -/
theorem follows_readOperations (ms : Members) :
    Follows readOperations (OrderedMap.Alike (WrittenAlike Operation.encode)) ms := by
  intro ms' hms os hos
  obtain ⟨es, hes, rfl⟩ := readOperations_eq_ok.1 hos
  have hread : ∀ e ∈ ms', (∃ m, Decode.variantNamed HttpMethod.variants e.1 = .ok m) ∧
      ∃ o, Operation.decode e.2 = .ok o := fun e' he' => by
    obtain ⟨j, hj, halike⟩ := hms.symm.members.exists_get? (hms.symm.distinct.get?_of_mem he')
    obtain ⟨hm, o, ho⟩ := exists_readEntries_eq_ok.1 ⟨es, hes⟩ _ (OrderedMap.mem_of_get? hj)
    obtain ⟨o', ho', -⟩ := Operation.respects j _ halike.symm o ho
    exact ⟨hm, o', ho'⟩
  obtain ⟨es', hes'⟩ := exists_readEntries_eq_ok.2 hread
  have hd := distinct_of_readEntries hms.distinct hes
  have hd' := distinct_of_readEntries hms.symm.distinct hes'
  refine ⟨_, readOperations_eq_ok.2 ⟨es', hes', rfl⟩, ?_⟩
  rw [hd.ofPairs_eq, hd'.ofPairs_eq]
  exact ⟨hd, hd', fun m => optionRel_of_respects (fun v _ => Operation.respects v)
    (hms.members.get? m.text) (get?_of_readEntries hes m) (get?_of_readEntries hes' m)⟩

/-- Paths from alike trees are alike. -/
theorem respects (v : Json) : Respects decode Alike v := by
  have h : Respects decode (fun p p' =>
      Members.Same (fieldMembers p) (fieldMembers p') ∧
        OrderedMap.Alike (WrittenAlike Operation.encode) p.operations p'.operations) v := by
    refine respects_record (fun ms => (((((Follows.map ?_ (.optional_eq respects_text)).seq
      (.optional_eq respects_text)).seq (.optional fun e _ => Parameters.respects e.2)).seq
      (.optional fun e _ => respects_written_list Server.respects e.2)).seq
      (.flattened (follows_readOperations _)))) v
    rintro s _ rfl d _ rfl ps ps' hps ss ss' hss os os' hos
    exact ⟨((Members.Same.refl _).append (Members.same_optional hps)).append
      (Members.same_optional hss), hos⟩
  intro v' hv p hp
  obtain ⟨p', hp', hsame, hos⟩ := h v' hv p hp
  exact ⟨p', hp', alike_fields (tidy v p hp) (tidy v' p' hp') hsame, hos⟩

end PathItem

/-- All paths from alike trees are alike. -/
theorem Paths.respects (v : Json) : Respects decode (OrderedMap.Alike PathItem.Alike) v :=
  respects_map PathItem.respects v

/-! ## Documents -/

/-- The general information from alike trees is written alike. -/
theorem Info.respects (v : Json) : Respects decode (WrittenAlike encode) v := by
  refine Respects.written (respects_record (fun ms => ((((((((Follows.map ?_
    (.required fun e _ => respects_text e.2)).seq (.required fun e _ => respects_text e.2)).seq
    (.optional_eq respects_text)).seq (.optional_eq respects_text)).seq
    (.optional_eq respects_text)).seq (.optional fun e _ => respects_free e.2)).seq
    (.optional fun e _ => respects_free e.2)).seq .extensions)) v) tidy
  rintro t _ rfl ver _ rfl s _ rfl d _ rfl tos _ rfl c c' hc l l' hl ext ext' hext
  exact ⟨_, _, rfl, rfl, (((Members.Same.refl _).append (Members.same_optional hc)).append
    (Members.same_optional hl)).append hext⟩

/-- Components from alike trees are written alike. -/
theorem Components.respects (v : Json) : Respects decode (WrittenAlike encode) v := by
  refine Respects.written (respects_record (fun ms => (((((Follows.map ?_
    (.defaulted (fun e _ => respects_map SchemaOrRef.respects_written e.2) .nil)).seq
    (.defaulted (fun e _ => respects_map (RefOr.respects Response.respects) e.2) .nil)).seq
    (.defaulted (fun e _ => respects_map (RefOr.respects Parameter.respects) e.2) .nil)).seq
    (.defaulted (fun e _ => respects_map (RefOr.respects RequestBody.respects) e.2) .nil)).seq
    .extensions)) v) tidy
  intro s s' hs r r' hr p p' hp b b' hb o o' ho
  exact ⟨_, _, rfl, rfl, ((((Members.same_section hs).append (Members.same_section hr)).append
    (Members.same_section hp)).append (Members.same_section hb)).append ho⟩

end RpcOpenApi
