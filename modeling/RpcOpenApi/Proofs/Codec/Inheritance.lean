import RpcOpenApi.Proofs.Codec.Bounds

/-!
# Documents and their parts inherit the bounds of what was read

Each type of the document model is within bounds iff its fields and its other members are
(`within_members`, `within_encode`), and its reader hands the bounds of a tree on to these. The
main results are those for whole documents (`OpenApiDocument.inherits`, `RpcDocument.inherits`).
-/

namespace RpcOpenApi

open Json (MembersWithin)

section
variable {b : Bounds} {n : Depth} {ms : Members}

/-! ## The parts of an operation -/

namespace MediaType

/-- The members of a media type are within the bounds iff its schema, its examples, its encoding and
its extensions are. -/
theorem within_members {m : MediaType} : MembersWithin b n m.members ↔
    (∀ s ∈ m.schema, s.encode.Within b n) ∧ (∀ j ∈ m.example?, j.Within b n) ∧
    (∀ es ∈ m.examples, (Encode.free es).Within b n) ∧
    (∀ es ∈ m.encoding, (Encode.free es).Within b n) ∧ MembersWithin b n m.extensions := by
  simp [members]

/-- A media type is written within the bounds if it is read from members within them. -/
theorem within_of_read {m : MediaType} (hms : MembersWithin b n ms) (h : read ms = .ok m) :
    MembersWithin b n m.members := by
  obtain ⟨hs, he, hes, hen, hext⟩ := read_eq_ok.1 h
  exact within_members.2 ⟨Members.within_optional hms SchemaOrRef.inherits hs,
    Members.within_optional hms inherits_free he, Members.within_optional hms inherits_freeMap hes,
    Members.within_optional hms inherits_freeMap hen, Members.within_extensions hms hext⟩

/-- Media types inherit the bounds. -/
theorem inherits : Inherits decode encode b n :=
  inherits_record fun _ _ hn hms h => Json.within_obj.2 ⟨hn, within_of_read hms h⟩

/-- A media type with nothing but a schema is within the bounds if the schema is. -/
theorem within_ofSchema {s : SchemaOrRef} :
    MembersWithin b n (ofSchema s).members ↔ s.encode.Within b n := by
  simp [within_members, ofSchema]

end MediaType

/-- Content by media type inherits the bounds. -/
theorem inherits_content :
    Inherits (Decode.map MediaType.decode) (Encode.map MediaType.encode) b n :=
  inherits_map (fun _ => rfl) MediaType.inherits

namespace Parameter

/-- A parameter is within the bounds iff its schema, its examples, its content and its extensions
are; its other fields are texts and booleans. -/
theorem within_encode {p : Parameter} : p.encode.Within b n ↔ n.Allows 1 ∧
    (∀ s ∈ p.schema, s.encode.Within b n.inside) ∧ (∀ j ∈ p.example?, j.Within b n.inside) ∧
    (∀ es ∈ p.examples, (Encode.free es).Within b n.inside) ∧
    (∀ c ∈ p.content, (Encode.map MediaType.encode c).Within b n.inside) ∧
    MembersWithin b n.inside p.extensions := by
  simp [encode, ParameterLocation.encode]

/-- Parameters inherit the bounds. -/
theorem inherits : Inherits decode encode b n := by
  refine inherits_record fun ms p hn hms h => ?_
  obtain ⟨-, -, -, -, -, -, -, -, -, hs, he, hes, hc, hext⟩ := read_eq_ok.1 h
  exact within_encode.2 ⟨hn, Members.within_optional hms SchemaOrRef.inherits hs,
    Members.within_optional hms inherits_free he, Members.within_optional hms inherits_freeMap hes,
    Members.within_optional hms inherits_content hc, Members.within_extensions hms hext⟩

end Parameter

/-- A list of parameters, some of them references, inherits the bounds. -/
theorem Parameters.inherits : Inherits decode encode b n :=
  inherits_list (RefOr.inherits Parameter.inherits)

namespace RequestBody

/-- A request body is within the bounds iff its content and its extensions are. -/
theorem within_encode {r : RequestBody} : r.encode.Within b n ↔ n.Allows 1 ∧
    (Encode.map MediaType.encode r.content).Within b n.inside ∧
    MembersWithin b n.inside r.extensions := by
  simp [encode]

/-- Request bodies inherit the bounds. -/
theorem inherits : Inherits decode encode b n := by
  refine inherits_record fun ms r hn hms h => ?_
  obtain ⟨-, hc, -, hext⟩ := read_eq_ok.1 h
  exact within_encode.2 ⟨hn, Members.within_required hms inherits_content hc,
    Members.within_extensions hms hext⟩

end RequestBody

namespace Response

/-- A response is within the bounds iff its headers, its content, its links and its extensions
are. -/
theorem within_encode {r : Response} : r.encode.Within b n ↔ n.Allows 1 ∧
    (∀ hs ∈ r.headers, (Encode.free hs).Within b n.inside) ∧
    (∀ c ∈ r.content, (Encode.map MediaType.encode c).Within b n.inside) ∧
    (∀ ls ∈ r.links, (Encode.free ls).Within b n.inside) ∧
    MembersWithin b n.inside r.extensions := by
  simp [encode]

/-- Responses inherit the bounds. -/
theorem inherits : Inherits decode encode b n := by
  refine inherits_record fun ms r hn hms h => ?_
  obtain ⟨-, hh, hc, hl, hext⟩ := read_eq_ok.1 h
  exact within_encode.2 ⟨hn, Members.within_optional hms inherits_freeMap hh,
    Members.within_optional hms inherits_content hc,
    Members.within_optional hms inherits_freeMap hl, Members.within_extensions hms hext⟩

end Response

namespace Responses

/-- The responses of an operation are within the bounds iff each of them is. -/
theorem within_encode {rs : Responses} : rs.encode.Within b n ↔
    n.Allows 1 ∧ ∀ e ∈ rs, (e.2.encode Response.encode).Within b n.inside := by
  rw [encode, Json.within_obj]
  exact and_congr_right' (within_entries_iff _ (RefOr.text?_encode fun _ => rfl))

/-- The responses of an operation inherit the bounds, code by code. -/
theorem inherits : Inherits decode encode b n := by
  intro v hv rs hrs
  obtain ⟨ms, rfl, -⟩ := decode_eq_ok.1 hrs
  obtain ⟨hn, hms⟩ := Json.within_obj.1 hv
  have hvalues : MapOf (fun r => (r.encode Response.encode).Within b n.inside) rs := by
    refine yields (fun ms' heq m hm => ?_) rs hrs
    cases heq
    exact RefOr.inherits Response.inherits m.2 (hms.value hm)
  exact within_encode.2 ⟨hn, hvalues.values⟩

end Responses

namespace Server

/-- A server is within the bounds iff its variables are. -/
theorem within_encode {s : Server} : s.encode.Within b n ↔
    n.Allows 1 ∧ ∀ bs ∈ s.bindings, (Encode.free bs).Within b n.inside := by
  simp [encode]

/-- Servers inherit the bounds, whether they are read from an object or from an array. -/
theorem inherits {surplus : Nat → DecodeError} : Inherits (decode surplus) encode b n := by
  intro v hv s hs
  have hbindings := yields (fun j hj => inherits_freeMap j (hv.part hj)) s hs
  cases v with
  | obj ms => exact within_encode.2 ⟨(Json.within_obj.1 hv).1, hbindings⟩
  | arr js => exact within_encode.2 ⟨(Json.within_arr.1 hv).1, hbindings⟩
  | null | bool | num | str => cases hs

end Server

/-! ## Operations and paths -/

namespace OperationExtras

/-- The fields that are carried along are within the bounds iff those are that may hold numbers or
references. -/
theorem within_members {e : OperationExtras} : MembersWithin b n e.members ↔
    (∀ l ∈ e.tags, (Encode.list .str l).Within b n) ∧ (∀ j ∈ e.externalDocs, j.Within b n) ∧
    (∀ rs ∈ e.security, (Encode.list (Encode.map (Encode.list .str)) rs).Within b n) ∧
    (∀ ss ∈ e.servers, (Encode.list Server.encode ss).Within b n) ∧
    (∀ cs ∈ e.callbacks, (Encode.free cs).Within b n) ∧ MembersWithin b n e.extensions := by
  simp [members]

/-- They are written within the bounds if they are read from members within them. -/
theorem within_of_read {surplus : Nat → DecodeError} {e : OperationExtras}
    (hms : MembersWithin b n ms) (h : read (Server.decode surplus) ms = .ok e) :
    MembersWithin b n e.members := by
  obtain ⟨-, htags, hdocs, -, hsecurity, hservers, hcallbacks, hext⟩ := read_eq_ok.1 h
  exact within_members.2 ⟨Members.within_optional hms inherits_texts htags,
    Members.within_optional hms inherits_free hdocs,
    Members.within_optional hms (inherits_list (inherits_map (fun _ => rfl) inherits_texts))
      hsecurity,
    Members.within_optional hms (inherits_list Server.inherits) hservers,
    Members.within_optional hms inherits_freeMap hcallbacks, Members.within_extensions hms hext⟩

end OperationExtras

namespace Operation

/-- An operation is within the bounds iff its parameters, its body, its responses and the fields
that are carried along are. -/
theorem within_encode {o : Operation} : o.encode.Within b n ↔ n.Allows 1 ∧
    (∀ ps ∈ o.parameters, (Parameters.encode ps).Within b n.inside) ∧
    (∀ r ∈ o.requestBody, (r.encode RequestBody.encode).Within b n.inside) ∧
    o.responses.encode.Within b n.inside ∧ MembersWithin b n.inside o.extras.members := by
  simp [encode]

/-- The responses of an operation are always written, inside of the operation. -/
theorem inherits (hn : n.Allows 2) : Inherits decode encode b n := by
  refine inherits_record fun ms o h1 hms h => ?_
  obtain ⟨-, -, hparameters, hbody, hresponses, hextras⟩ := read_eq_ok.1 h
  have hempty : (Responses.encode []).Within b n.inside :=
    Responses.within_encode.2 ⟨hn.inside, nofun⟩
  exact within_encode.2 ⟨h1, Members.within_optional hms Parameters.inherits hparameters,
    Members.within_optional hms (RefOr.inherits RequestBody.inherits) hbody,
    Members.within_defaulted hms Responses.inherits hempty hresponses,
    OperationExtras.within_of_read (hms.others _) hextras⟩

end Operation

namespace PathItem

/-- A path is within the bounds iff its parameters, its servers and its operations are. -/
theorem within_encode {p : PathItem} : p.encode.Within b n ↔ n.Allows 1 ∧
    (∀ ps ∈ p.parameters, (Parameters.encode ps).Within b n.inside) ∧
    (∀ ss ∈ p.servers, (Encode.list Server.encode ss).Within b n.inside) ∧
    ∀ e ∈ p.operations, e.2.encode.Within b n.inside := by
  have hoperations : MembersWithin b n.inside (encodeOperations p.operations)
      ↔ ∀ e ∈ p.operations, e.2.encode.Within b n.inside :=
    within_entries_iff _ fun _ => rfl
  simp [encode, hoperations]

/-- Paths inherit the bounds if there is room for the responses that an operation is written
with. -/
theorem inherits (hn : n.Allows 3) : Inherits decode encode b n := by
  refine inherits_record fun ms p h1 hms h => ?_
  obtain ⟨-, -, hparameters, hservers, hoperations⟩ := read_eq_ok.1 h
  have hvalues : MapOf (fun o => (Operation.encode o).Within b n.inside) p.operations :=
    yields_operations
      (fun m hm => Operation.inherits hn.inside m.2 ((hms.others fieldNames).value hm)) hoperations
  exact within_encode.2 ⟨h1, Members.within_optional hms Parameters.inherits hparameters,
    Members.within_optional hms (inherits_list Server.inherits) hservers, hvalues.values⟩

end PathItem

/-- All paths are within the bounds iff each of them is. -/
theorem Paths.within_encode {ps : Paths} :
    ps.encode.Within b n ↔ n.Allows 1 ∧ ∀ e ∈ ps, e.2.encode.Within b n.inside :=
  within_map_iff fun _ => rfl

/-- All paths inherit the bounds, with room for one more container. -/
theorem Paths.inherits (hn : n.Allows 4) : Inherits decode encode b n :=
  inherits_map (fun _ => rfl)
    (PathItem.inherits (hn.inside))

/-! ## Documents -/

namespace Info

/-- The general information is within the bounds iff its contact, its license and its extensions
are. -/
theorem within_encode {i : Info} : i.encode.Within b n ↔ n.Allows 1 ∧
    (∀ j ∈ i.contact, j.Within b n.inside) ∧ (∀ j ∈ i.license, j.Within b n.inside) ∧
    MembersWithin b n.inside i.extensions := by
  simp [encode]

/-- The general information inherits the bounds. -/
theorem inherits : Inherits decode encode b n := by
  refine inherits_record fun ms i hn hms h => ?_
  obtain ⟨-, -, -, -, -, hcontact, hlicense, hext⟩ := read_eq_ok.1 h
  exact within_encode.2 ⟨hn, Members.within_optional hms inherits_free hcontact,
    Members.within_optional hms inherits_free hlicense, Members.within_extensions hms hext⟩

end Info

namespace Components

/-- A section of the components that is read is written within the bounds. -/
theorem within_section_of_read {α : Type} {decode : Json → Except DecodeError α}
    {encode : α → Json} {name : String} {m : OrderedMap String α} (hname : name ≠ "$ref")
    (hms : MembersWithin b n ms) (htext : ∀ a, (encode a).text? = none)
    (hi : Inherits decode encode b n.inside)
    (h : ms.defaulted name (Decode.map decode) [] = .ok m) :
    MembersWithin b n (sectionMember name encode m) := by
  rcases Members.defaulted_eq_ok.1 h with ⟨-, rfl⟩ | hread
  · exact Json.membersWithin_nil
  · exact within_section hname
      (Members.within_required hms (inherits_map htext hi) (Members.required_eq_ok.2 hread))

/-- The components inherit the bounds, section by section. -/
theorem inherits : Inherits decode encode b n := by
  refine inherits_record fun ms c hn hms h => ?_
  obtain ⟨hschemas, hresponses, hparameters, hbodies, hothers⟩ := read_eq_ok.1 h
  simp only [encode, Json.within_obj, Json.membersWithin_append, and_assoc]
  exact ⟨hn,
    within_section_of_read (by decide) hms SchemaOrRef.text?_encode SchemaOrRef.inherits hschemas,
    within_section_of_read (by decide) hms (RefOr.text?_encode fun _ => rfl)
      (RefOr.inherits Response.inherits) hresponses,
    within_section_of_read (by decide) hms (RefOr.text?_encode fun _ => rfl)
      (RefOr.inherits Parameter.inherits) hparameters,
    within_section_of_read (by decide) hms (RefOr.text?_encode fun _ => rfl)
      (RefOr.inherits RequestBody.inherits) hbodies,
    Members.within_extensions hms hothers⟩

/-- The components that nothing is said about are written as an empty object. -/
theorem within_empty (hn : n.Allows 1) : (encode {}).Within b n := Json.within_obj.2 ⟨hn, trivial⟩

end Components

namespace OpenApiDocument

/-- A document is within the bounds iff each of its parts is. -/
theorem within_encode {d : OpenApiDocument} : d.encode.Within b n ↔ n.Allows 1 ∧
    d.info.encode.Within b n.inside ∧ (Paths.encode d.paths).Within b n.inside ∧
    d.components.encode.Within b n.inside ∧ MembersWithin b n.inside d.extra := by
  simp [encode]

/-- **A document is written within the bounds of the tree from which it is read.** -/
theorem inherits (hn : n.Allows 5) : Inherits decode encode b n := by
  refine inherits_record fun ms d h1 hms h => ?_
  obtain ⟨-, hinfo, hpaths, hcomponents, hextra⟩ := read_eq_ok.1 h
  have hn4 : n.inside.Allows 4 := hn.inside
  have hn1 : n.inside.Allows 1 := hn4.mono (by decide)
  have hempty : (Paths.encode []).Within b n.inside := Json.within_obj.2 ⟨hn1, trivial⟩
  exact within_encode.2 ⟨h1, Members.within_required hms Info.inherits hinfo,
    Members.within_defaulted hms (Paths.inherits hn4) hempty hpaths,
    Members.within_defaulted hms Components.inherits (Components.within_empty hn1) hcomponents,
    Members.within_extensions hms hextra⟩

end OpenApiDocument

/-! ## Definitions of operations -/

namespace ParameterOverride

/-- An override is within the bounds iff its examples, its content and its extensions are. -/
theorem within_encode {o : ParameterOverride} : o.encode.Within b n ↔ n.Allows 1 ∧
    (∀ j ∈ o.example?, j.Within b n.inside) ∧
    (∀ es ∈ o.examples, (Encode.free es).Within b n.inside) ∧
    (∀ c ∈ o.content, (Encode.map MediaType.encode c).Within b n.inside) ∧
    MembersWithin b n.inside o.extensions := by
  simp [encode, InputLocation.encode]

/-- Overrides inherit the bounds. -/
theorem inherits : Inherits decode encode b n := by
  refine inherits_record fun ms o hn hms h => ?_
  obtain ⟨-, -, -, -, -, -, -, -, he, hes, hc, hext⟩ := read_eq_ok.1 h
  exact within_encode.2 ⟨hn, Members.within_optional hms inherits_free he,
    Members.within_optional hms inherits_freeMap hes,
    Members.within_optional hms inherits_content hc, Members.within_extensions hms hext⟩

end ParameterOverride

namespace InputDef

/-- What is said about the fields is written within the bounds, each of them by itself. -/
theorem within_encode {i : InputDef} : i.encode.Within b n ↔ n.Allows 1 ∧
    i.schema.encode.Within b n.inside ∧
    (i.parameters ≠ [] → (Encode.map ParameterOverride.encode i.parameters).Within b n.inside) := by
  cases h : i.parameters <;> simp [encode, h]

/-- All overrides are within the bounds iff each of them is. -/
theorem within_overrides {os : Overrides} : (Encode.map ParameterOverride.encode os).Within b n
    ↔ n.Allows 1 ∧ ∀ e ∈ os, e.2.encode.Within b n.inside :=
  within_map_iff fun _ => rfl

/-- All overrides of an input inherit the bounds. -/
theorem inherits_overrides :
    Inherits decodeOverrides (Encode.map ParameterOverride.encode) b n :=
  inherits_map (fun _ => rfl) ParameterOverride.inherits

/-- Inputs inherit the bounds, whether they are read from an object or from an array. -/
theorem inherits : Inherits decode encode b n := by
  intro v hv i hi
  obtain ⟨hschema, hparameters⟩ := yields (fun j hj => SchemaOrRef.inherits j (hv.part hj))
    (Q := fun os => os ≠ [] → (Encode.map ParameterOverride.encode os).Within b n.inside)
    (fun j hj os hread _ => inherits_overrides j (hv.part hj) os hread) (fun hne => (hne rfl).elim)
    i hi
  cases v with
  | obj ms => exact within_encode.2 ⟨(Json.within_obj.1 hv).1, hschema, hparameters⟩
  | arr js => exact within_encode.2 ⟨(Json.within_arr.1 hv).1, hschema, hparameters⟩
  | null | bool | num | str => cases hi

end InputDef

namespace OutputDef

/-- An output is within the bounds iff its code is an allowed number and its media type is within
them. -/
theorem within_encode {o : OutputDef} : o.encode.Within b n ↔ n.Allows 1 ∧
    (∀ c ∈ o.statusCode, b.number (.int (c : Nat))) ∧ MembersWithin b n.inside o.media.members := by
  simp [encode, Json.ofInt]

/-- Outputs inherit the bounds. -/
theorem inherits : Inherits decode encode b n := by
  refine inherits_record fun ms o hn hms h => ?_
  obtain ⟨-, hcode, hmedia⟩ := read_eq_ok.1 h
  exact within_encode.2 ⟨hn, Members.within_optional hms inherits_word16 hcode,
    MediaType.within_of_read (hms.others _) hmedia⟩

end OutputDef

namespace OperationDef

/-- The definition of an operation is within the bounds iff its input, its output, its errors and
the fields that are carried along are. -/
theorem within_encode {d : OperationDef} : d.encode.Within b n ↔ n.Allows 1 ∧
    (∀ i ∈ d.input, i.encode.Within b n.inside) ∧ (∀ o ∈ d.output, o.encode.Within b n.inside) ∧
    (∀ rs ∈ d.errors, rs.encode.Within b n.inside) ∧ MembersWithin b n.inside d.extras.members := by
  simp [encode, HttpMethod.encode]

/-- Definitions of operations inherit the bounds. -/
theorem inherits : Inherits decode encode b n := by
  refine inherits_record fun ms d hn hms h => ?_
  obtain ⟨-, -, -, hinput, houtput, herrors, hextras⟩ := read_eq_ok.1 h
  exact within_encode.2 ⟨hn, Members.within_optional hms InputDef.inherits hinput,
    Members.within_optional hms OutputDef.inherits houtput,
    Members.within_optional hms Responses.inherits herrors,
    OperationExtras.within_of_read (hms.others _) hextras⟩

end OperationDef

/-! ## Descriptions -/

namespace RpcOperations

/-- The operations of a kind are within the bounds iff each of their definitions is. -/
theorem within_set {set : OrderedMap String OperationDef} :
    (Encode.map OperationDef.encode set).Within b n
      ↔ n.Allows 1 ∧ ∀ e ∈ set, e.2.encode.Within b n.inside :=
  within_map_iff fun _ => rfl

/-- All operations are within the bounds iff those of both kinds are. -/
theorem within_encode {o : RpcOperations} : o.encode.Within b n ↔ n.Allows 1 ∧
    (Encode.map OperationDef.encode o.queries).Within b n.inside ∧
    (Encode.map OperationDef.encode o.mutations).Within b n.inside := by
  simp only [encode, Json.within_obj, Json.membersWithin_cons, ne_eq, String.reduceEq,
    not_false_eq_true, Json.memberWithin_of_ne, Json.membersWithin_nil, and_true]

/-- The operations of a kind inherit the bounds. -/
theorem inherits_set : Inherits decodeSet (Encode.map OperationDef.encode) b n :=
  inherits_map (fun _ => rfl) OperationDef.inherits

/-- The two sets of operations are always written, inside of the operations. -/
theorem inherits (hn : n.Allows 2) : Inherits decode encode b n := by
  have hempty : (Encode.map OperationDef.encode []).Within b n.inside :=
    within_set.2 ⟨hn.inside, List.forall_mem_nil _⟩
  intro v hv o ho
  obtain ⟨hqueries, hmutations⟩ :=
    yields (fun j hj => inherits_set j (hv.part hj)) hempty o ho
  have h1 : n.Allows 1 := hn.mono (by decide)
  exact within_encode.2 ⟨h1, hqueries, hmutations⟩

end RpcOperations

namespace RpcDocument

/-- A description is within the bounds iff each of its parts is. -/
theorem within_encode {d : RpcDocument} : d.encode.Within b n ↔ n.Allows 1 ∧
    (∀ j ∈ d.yarpc, j.Within b n.inside) ∧ d.info.encode.Within b n.inside ∧
    d.components.encode.Within b n.inside ∧ d.operations.encode.Within b n.inside ∧
    (∀ ps ∈ d.paths, (Paths.encode ps).Within b n.inside) ∧ MembersWithin b n.inside d.extra := by
  simp [encode]

/-- **A description is written within the bounds of the tree from which it is read.** -/
theorem inherits (hn : n.Allows 5) : Inherits decode encode b n := by
  refine inherits_record fun ms d h1 hms h => ?_
  obtain ⟨hyarpc, hinfo, hcomponents, hoperations, hpaths, hextra⟩ := read_eq_ok.1 h
  have hn4 : n.inside.Allows 4 := hn.inside
  have hn2 : n.inside.Allows 2 := hn4.mono (by decide)
  have hn1 : n.inside.Allows 1 := hn4.mono (by decide)
  have hempty : (RpcOperations.encode {}).Within b n.inside := by
    have hset : (Encode.map OperationDef.encode []).Within b (n.inside.inside) :=
      RpcOperations.within_set.2 ⟨hn2.inside, List.forall_mem_nil _⟩
    exact RpcOperations.within_encode.2 ⟨hn1, hset, hset⟩
  exact within_encode.2 ⟨h1,
    Members.yields_aliased (fun e he _ => inherits_free e.2 (hms.value he)) hyarpc,
    Members.within_required hms Info.inherits hinfo,
    Members.within_defaulted hms Components.inherits (Components.within_empty hn1) hcomponents,
    Members.within_defaulted hms (RpcOperations.inherits hn2) hempty hoperations,
    Members.within_optional hms (Paths.inherits hn4) hpaths,
    Members.within_extensions hms hextra⟩

end RpcDocument

end

end RpcOpenApi
