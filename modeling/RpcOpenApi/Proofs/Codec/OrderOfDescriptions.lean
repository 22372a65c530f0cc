import RpcOpenApi.Proofs.Codec.OrderOfParts

/-!
# Descriptions do not depend on the order of members

What is read from alike trees as a description of a service is alike (`RpcDocument.Alike`): the same
is said of the fields that the compiler looks into, such as the path of an operation and the place
of a field of its input, and what it carries along is written as alike trees. Declared operations
are alike id by id, so the order in which they are declared is left open.
-/

namespace RpcOpenApi

open Relator

/-- Locations of fields are read without regard to order. -/
theorem InputLocation.respects (v : Json) : Respects decode Eq v := respects_variant _ v

/-- Methods are read without regard to order. -/
theorem HttpMethod.respects (v : Json) : Respects decode Eq v := respects_variant _ v

/-! ## Definitions of operations -/

namespace ParameterOverride

/-- The attributes are the same, and everything else is written as alike trees. -/
structure Alike (o o' : ParameterOverride) : Prop where
  location : o.location = o'.location
  description : o.description = o'.description
  required : o.required = o'.required
  deprecated : o.deprecated = o'.deprecated
  allowEmptyValue : o.allowEmptyValue = o'.allowEmptyValue
  style : o.style = o'.style
  explode : o.explode = o'.explode
  allowReserved : o.allowReserved = o'.allowReserved
  example? : Option.Rel (WrittenAlike id) o.example? o'.example?
  examples : Option.Rel (WrittenAlike Encode.free) o.examples o'.examples
  content : Option.Rel (WrittenAlike (Encode.map MediaType.encode)) o.content o'.content
  extensions : Members.Same o.extensions o'.extensions

/-- Overrides from alike trees are alike. -/
theorem respects (v : Json) : Respects decode Alike v := by
  refine respects_record (fun ms => (((((((((((Follows.map ?_
    (.optional_eq InputLocation.respects)).seq (.optional_eq respects_text)).seq
    (.optional_eq respects_boolean)).seq (.optional_eq respects_boolean)).seq
    (.optional_eq respects_boolean)).seq (.optional_eq respects_text)).seq
    (.optional_eq respects_boolean)).seq (.optional_eq respects_boolean)).seq
    (.optional fun e _ => respects_free e.2)).seq (.optional fun e _ => respects_freeMap e.2)).seq
    (.optional fun e _ => MediaType.respects_content e.2)).seq .extensions) v
  rintro l _ rfl d _ rfl r _ rfl dep _ rfl a _ rfl st _ rfl ex _ rfl ar _ rfl e e' he es es' hes
    c c' hc ext ext' hext
  exact ⟨rfl, rfl, rfl, rfl, rfl, rfl, rfl, rfl, he, hes, hc, hext⟩

end ParameterOverride

namespace InputDef

/-- The schemas are alike, and so is what is said about each field. -/
structure Alike (i i' : InputDef) : Prop where
  schema : i.schema.Alike i'.schema
  parameters : OrderedMap.Alike ParameterOverride.Alike i.parameters i'.parameters

/-- Overrides of all fields from alike trees are alike. -/
theorem respects_overrides (v : Json) :
    Respects decodeOverrides (OrderedMap.Alike ParameterOverride.Alike) v :=
  respects_map ParameterOverride.respects v

/-- Inputs from members in any order are alike. -/
theorem follows (ms : Members) : Follows read Alike ms := by
  refine (Follows.map ?_ (.required fun e _ => SchemaOrRef.respects e.2)).seq
    (.defaulted (fun e _ => respects_overrides e.2) .nil)
  exact fun _ _ hs _ _ hps => ⟨hs, hps⟩

/-- Inputs from alike trees are alike, also where they are arrays of their fields. -/
theorem respects (v : Json) : Respects decode Alike v := by
  intro v' hv i hi
  cases v with
  | obj ms =>
    obtain ⟨ms', rfl⟩ := hv.exists_obj
    obtain ⟨i', hi', halike⟩ := follows ms ms' hv i (Reading.toExcept_eq_ok.1 hi)
    exact ⟨i', Reading.toExcept_eq_ok.2 hi', halike⟩
  | arr js =>
    obtain ⟨schema, rfl, hs, hp⟩ | ⟨schema, parameters, rfl, hs, hp⟩ := ofItems_ok hi
    · obtain ⟨schema', rfl, hschema⟩ := hv.exists_arr_singleton
      obtain ⟨s', hs', halike⟩ := SchemaOrRef.respects _ _ hschema _ hs
      exact ⟨{ schema := s' }, Decode.bind_eq_ok.2 ⟨s', hs', rfl⟩, halike, hp.symm ▸ .nil⟩
    · obtain ⟨schema', parameters', rfl, hschema, hparameters⟩ := hv.exists_arr_pair
      obtain ⟨s', hs', halike⟩ := SchemaOrRef.respects _ _ hschema _ hs
      obtain ⟨ps', hps', hrel⟩ := respects_overrides _ _ hparameters _ hp
      exact ⟨⟨s', ps'⟩, Decode.bind_eq_ok.2 ⟨s', hs', Decode.bind_eq_ok.2 ⟨ps', hps', rfl⟩⟩,
        halike, hrel⟩
  | null | bool | num | str => cases hi

end InputDef

namespace OutputDef

/-- The descriptions and the codes are the same, and the content is written as alike trees. -/
structure Alike (o o' : OutputDef) : Prop where
  description : o.description = o'.description
  statusCode : o.statusCode = o'.statusCode
  media : WrittenAlike MediaType.encode o.media o'.media

/-- Outputs from alike trees are alike. -/
theorem respects (v : Json) : Respects decode Alike v := by
  have h : Respects decode (fun o o' => (o.description = o'.description ∧
      o.statusCode = o'.statusCode) ∧ Members.Same o.media.members o'.media.members) v := by
    refine respects_record (fun ms => ((Follows.map ?_ (.optional_eq respects_text)).seq
      (.optional_eq respects_word16)).seq (.flattened (MediaType.follows _))) v
    rintro d _ rfl c _ rfl m m' hm
    exact ⟨⟨rfl, rfl⟩, hm⟩
  intro v' hv o ho
  obtain ⟨o', ho', ⟨hd, hc⟩, hm⟩ := h v' hv o ho
  have hn' := tidy v' o' ho'
  exact ⟨o', ho', hd, hc, tidy v o ho, hn', Json.similar_obj hm (Json.normal_obj_iff.1 hn').1⟩

end OutputDef

namespace OperationDef

/-- The descriptions, methods and paths are the same, inputs, outputs and errors are alike, and what
is carried along is written as the same members up to order. -/
structure Alike (d d' : OperationDef) : Prop where
  description : d.description = d'.description
  method : d.method = d'.method
  path : d.path = d'.path
  input : Option.Rel InputDef.Alike d.input d'.input
  output : Option.Rel OutputDef.Alike d.output d'.output
  errors : Option.Rel (OrderedMap.Alike (WrittenAlike (RefOr.encode Response.encode))) d.errors
    d'.errors
  extras : Members.Same d.extras.members d'.extras.members

/-- Definitions of operations from alike trees are alike. -/
theorem respects (v : Json) : Respects decode Alike v := by
  refine respects_record (fun ms => ((((((Follows.map ?_ (.optional_eq respects_text)).seq
    (.optional_eq HttpMethod.respects)).seq (.optional_eq respects_text)).seq
    (.optional fun e _ => InputDef.respects e.2)).seq
    (.optional fun e _ => OutputDef.respects e.2)).seq
    (.optional fun e _ => Responses.respects e.2)).seq
    (.flattened (OperationExtras.follows Server.respects _))) v
  rintro t _ rfl m _ rfl p _ rfl i i' hi o o' ho rs rs' hrs e e' he
  exact ⟨rfl, rfl, rfl, hi, ho, hrs, he⟩

end OperationDef

/-! ## Descriptions -/

namespace RpcOperations

/-- The queries and the mutations are alike id by id. -/
structure Alike (o o' : RpcOperations) : Prop where
  queries : OrderedMap.Alike OperationDef.Alike o.queries o'.queries
  mutations : OrderedMap.Alike OperationDef.Alike o.mutations o'.mutations

/-- The operations of a kind from alike trees are alike. -/
theorem respects_set (v : Json) : Respects decodeSet (OrderedMap.Alike OperationDef.Alike) v :=
  respects_map OperationDef.respects v

/-- All operations from members in any order are alike. -/
theorem follows (ms : Members) : Follows read Alike ms := by
  refine (Follows.map ?_ (.defaulted (fun e _ => respects_set e.2) .nil)).seq
    (.defaulted (fun e _ => respects_set e.2) .nil)
  exact fun _ _ hqs _ _ hms => ⟨hqs, hms⟩

/-- All operations from alike trees are alike, also where they are arrays of both kinds. -/
theorem respects (v : Json) : Respects decode Alike v := by
  intro v' hv o ho
  cases v with
  | obj ms =>
    obtain ⟨ms', rfl⟩ := hv.exists_obj
    obtain ⟨o', ho', halike⟩ := follows ms ms' hv o (Reading.toExcept_eq_ok.1 ho)
    exact ⟨o', Reading.toExcept_eq_ok.2 ho', halike⟩
  | arr js =>
    obtain ⟨rfl, hq, hm⟩ | ⟨queries, rfl, hq, hm⟩ | ⟨queries, mutations, rfl, hq, hm⟩ :=
      ofItems_ok ho
    · obtain ⟨js', rfl, hjs⟩ := hv.exists_arr
      obtain rfl := List.forall₂_nil_left_iff.1 hjs
      exact ⟨{}, rfl, hq.symm ▸ .nil, hm.symm ▸ .nil⟩
    · obtain ⟨queries', rfl, hqueries⟩ := hv.exists_arr_singleton
      obtain ⟨qs', hqs', halike⟩ := respects_set _ _ hqueries _ hq
      exact ⟨{ queries := qs' }, Decode.bind_eq_ok.2 ⟨qs', hqs', rfl⟩, halike, hm.symm ▸ .nil⟩
    · obtain ⟨queries', mutations', rfl, hqueries, hmutations⟩ := hv.exists_arr_pair
      obtain ⟨qs', hqs', halike⟩ := respects_set _ _ hqueries _ hq
      obtain ⟨mus', hmus', hrel⟩ := respects_set _ _ hmutations _ hm
      exact ⟨⟨qs', mus'⟩, Decode.bind_eq_ok.2 ⟨qs', hqs', Decode.bind_eq_ok.2 ⟨mus', hmus', rfl⟩⟩,
        halike, hrel⟩
  | null | bool | num | str => cases ho

end RpcOperations

namespace RpcDocument

/-- The versions are written as alike trees, and so is what is only carried along; the paths are
alike path by path, and the declared operations id by id. -/
structure Alike (d d' : RpcDocument) : Prop where
  yarpc : Option.Rel (WrittenAlike id) d.yarpc d'.yarpc
  info : WrittenAlike Info.encode d.info d'.info
  components : WrittenAlike Components.encode d.components d'.components
  operations : d.operations.Alike d'.operations
  paths : Option.Rel (OrderedMap.Alike PathItem.Alike) d.paths d'.paths
  extra : Members.Same d.extra d'.extra

/-- **What is read as a description does not depend on the order of members.** -/
theorem respects (v : Json) : Respects decode Alike v := by
  refine respects_record (fun ms => (((((Follows.map ?_
    (.aliased (fun e _ => respects_optional (respects_free e.2)) .none)).seq
    (.required fun e _ => Info.respects e.2)).seq
    (.defaulted (fun e _ => Components.respects e.2) (.refl (v := Components.encode {}) rfl))).seq
    (.defaulted (fun e _ => RpcOperations.respects e.2) ⟨.nil, .nil⟩)).seq
    (.optional fun e _ => Paths.respects e.2)).seq .extensions) v
  intro y y' hy i i' hi c c' hc o o' ho ps ps' hps ext ext' hext
  exact ⟨hy, hi, hc, ho, hps, hext⟩

end RpcDocument

end RpcOpenApi
