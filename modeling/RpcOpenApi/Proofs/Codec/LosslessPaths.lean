import RpcOpenApi.Proofs.Codec.Lossless
import RpcOpenApi.Proofs.Codec.Service

/-!
# Writing paths that were read

Without `null` values (`Json.NoNulls`) every part of a tree is explicit, so what is read from it is
written as the tree again, with two exceptions. The responses of an operation are always written, so
they have to be there (`Operation.Written`). And of a server only the declared fields are kept
(`Server.kept`), so that an operation and a path are written as the tree without the other members
of their servers (`Operation.kept`, `PathItem.keptAt`). This is the tree itself if the servers have
none (`Operation.kept_of_plain`).
-/

namespace RpcOpenApi

namespace Json

mutual

/-- No object of the tree has a member that is `null`. -/
def NoNulls : Json → Prop
  | .arr items => ItemsNoNulls items
  | .obj members => MembersNoNulls members
  | _ => True

/-- No object within the items of an array has a member that is `null`. -/
def ItemsNoNulls : List Json → Prop
  | [] => True
  | j :: js => NoNulls j ∧ ItemsNoNulls js

/-- No member is `null`, nor is one within their values. -/
def MembersNoNulls : List (String × Json) → Prop
  | [] => True
  | (_, j) :: ms => (j ≠ .null ∧ NoNulls j) ∧ MembersNoNulls ms

end

/-- An array has no nulls in it iff none of its items has. -/
theorem noNulls_arr_iff {js : List Json} : NoNulls (.arr js) ↔ ∀ j ∈ js, NoNulls j := by
  rw [NoNulls]
  induction js with
  | nil => simp [ItemsNoNulls]
  | cons j js ih => rw [ItemsNoNulls, ih, List.forall_mem_cons]

/-- An object has no nulls in it iff no member is one and none of their values has any. -/
theorem noNulls_obj_iff {ms : List (String × Json)} :
    NoNulls (.obj ms) ↔ ∀ m ∈ ms, m.2 ≠ .null ∧ NoNulls m.2 := by
  rw [NoNulls]
  induction ms with
  | nil => simp [MembersNoNulls]
  | cons m ms ih => rw [MembersNoNulls, ih, List.forall_mem_cons]

namespace NoNulls

variable {v j : Json} {k : String}

/-- The values of a key are no nulls and have none in them. -/
theorem of_mem_valuesOf (h : v.NoNulls) (hj : j ∈ v.valuesOf k) : j ≠ .null ∧ j.NoNulls := by
  cases v with
  | obj ms =>
    obtain ⟨m, hm, rfl⟩ := Members.exists_of_mem_values hj
    exact noNulls_obj_iff.1 h m hm
  | null | bool | num | str | arr => cases hj

/-- The parts of a tree without nulls have none in them. -/
theorem part (h : v.NoNulls) (hj : j ∈ v.parts) : j.NoNulls := by
  cases v with
  | arr js => exact noNulls_arr_iff.1 h j hj
  | obj ms =>
    obtain ⟨m, hm, rfl⟩ := List.mem_map.1 hj
    exact (noNulls_obj_iff.1 h m hm).2
  | null | bool | num | str => cases hj

/-- The value that is found under a key is no null and has none in it. -/
theorem of_member? (h : v.NoNulls) (hj : v.member? k = some j) : j ≠ .null ∧ j.NoNulls := by
  cases v with
  | obj ms => exact noNulls_obj_iff.1 h _ (OrderedMap.mem_of_get? hj)
  | null | bool | num | str | arr => cases hj

/-- What is found along some keys has no nulls in it. -/
theorem of_at? {path : List String} (h : v.NoNulls) (hj : v.at? path = some j) : j.NoNulls :=
  of_walk (fun _ _ _ h hj => h.part (mem_parts_of_member? hj)) h hj

/-- Without nulls no field is written as one. -/
theorem nonNull (h : v.NoNulls) (names : List String) : v.NonNull names :=
  fun _ _ hnull => (h.of_mem_valuesOf hnull).1 rfl

/-- What holds of every tree without nulls holds of the values of an object without them. -/
theorem values {P : Json → Prop} (h : v.NoNulls) (hP : ∀ j, j ≠ .null → j.NoNulls → P j) :
    v.Values P := by
  rintro ms rfl m hm
  obtain ⟨hnull, hno⟩ := noNulls_obj_iff.1 h m hm
  exact hP _ hnull hno

/-- The other members have no `null` if all of them have none. -/
theorem others {ms : Members} (h : NoNulls (.obj ms)) (names : List String) :
    NoNulls (.obj (ms.others names)) :=
  noNulls_obj_iff.2 fun m hm => noNulls_obj_iff.1 h m (List.mem_of_mem_filter hm)

end NoNulls

end Json

/-! ## Trees without nulls are explicit -/

/-- Without nulls a tree is explicit where a reference may stand, if it is as a definition. -/
theorem RefOr.explicit_of_noNulls {E : Json → Prop} {v : Json} (h : v.NoNulls)
    (hE : v.NoNulls → E v) : Explicit E v :=
  ⟨fun _ => h.nonNull _, fun _ => hE h⟩

/-- Without nulls a tree is explicit as a schema. -/
theorem SchemaOrRef.explicit_of_noNulls {v : Json} (h : v.NoNulls) : Explicit v := by
  -- The schemas among the properties are parts of parts of the tree.
  suffices hv : (v.NoNulls → Explicit v) ∧ (v.NoNulls → v.Values Explicit) from hv.1 h
  clear h
  induction v using Json.induction with
  | null | bool | num | str | arr => exact ⟨fun _ => .atom nofun, fun _ _ h => (nomatch h)⟩
  | obj ms ih =>
    refine ⟨fun h => ?_, fun h => ?_⟩
    · by_cases href : Reference.Refers (.obj ms)
      · exact .reference href (h.nonNull _)
      · refine .inline href (h.nonNull _) fun j hj ps hps p hp => ?_
        obtain ⟨m, hm, rfl⟩ := Members.exists_of_mem_values hj
        exact (ih m hm).2 (Json.noNulls_obj_iff.1 h m hm).2 ps hps p hp
    · rintro ms' hms m hm
      cases hms
      exact (ih m hm).1 (Json.noNulls_obj_iff.1 h m hm).2

namespace MediaType

/-- Without nulls a tree is explicit as a media type. -/
theorem explicit_of_noNulls {v : Json} (h : v.NoNulls) : Explicit v where
  fields := h.nonNull _
  schema _ hj := SchemaOrRef.explicit_of_noNulls (h.of_mem_valuesOf hj).2

/-- Without nulls a tree is explicit as content by media type. -/
theorem content_explicit_of_noNulls {v : Json} (h : v.NoNulls) : v.Values Explicit :=
  h.values fun _ _ => explicit_of_noNulls

end MediaType

/-- Without nulls a tree is explicit as a parameter. -/
theorem Parameter.explicit_of_noNulls {v : Json} (h : v.NoNulls) : Explicit v where
  fields := h.nonNull _
  location _ hj := (h.of_mem_valuesOf hj).2.values fun _ hnull _ => hnull
  schema _ hj := SchemaOrRef.explicit_of_noNulls (h.of_mem_valuesOf hj).2
  content _ hj := MediaType.content_explicit_of_noNulls (h.of_mem_valuesOf hj).2

/-- Without nulls a tree is explicit as a request body. -/
theorem RequestBody.explicit_of_noNulls {v : Json} (h : v.NoNulls) : Explicit v where
  fields := h.nonNull _
  content _ hj := MediaType.content_explicit_of_noNulls (h.of_mem_valuesOf hj).2

/-- Without nulls a tree is explicit as a response. -/
theorem Response.explicit_of_noNulls {v : Json} (h : v.NoNulls) : Explicit v where
  fields := h.nonNull _
  content _ hj := MediaType.content_explicit_of_noNulls (h.of_mem_valuesOf hj).2

/-! ## Parts of operations -/

/-- A list of parameters is written as the array it was read from, if this has no nulls in it. -/
theorem Parameters.lossless {v : Json} (h : v.NoNulls) : Lossless decode encode v := by
  refine lossless_list fun js hv j hj => ?_
  subst hv
  exact RefOr.lossless (RefOr.explicit_of_noNulls (Json.noNulls_arr_iff.1 h j hj)
    Parameter.explicit_of_noNulls) Parameter.lossless

/-- A request body or a reference to one is written as the tree it was read from, if this has no
nulls in it. -/
theorem RequestBody.lossless_refOr {v : Json} (h : v.NoNulls) :
    Lossless (RefOr.decode decode) (RefOr.encode encode) v :=
  RefOr.lossless (RefOr.explicit_of_noNulls h explicit_of_noNulls) lossless

namespace Responses

/-- The responses of an operation are written as the object they were read from, if this has no
nulls in it. -/
theorem lossless {v : Json} (h : v.NoNulls) : Lossless decode encode v := by
  intro hn rs hrs
  obtain ⟨ms, rfl, es, hes, rfl⟩ := decode_eq_ok.1 hrs
  obtain ⟨hd, hv⟩ := Json.normal_obj_iff.1 hn
  have hdistinct : OrderedMap.Distinct (es.map (fun e => (StatusCode.mk e.1, e.2))) :=
    (Decode.distinct_of_members hd hes).mapKeys (f := id) StatusCode.mk_injective
  rw [hdistinct.ofPairs_eq, encode, List.map_map]
  refine Json.similar_obj (.of_eq ?_) hd
  exact Decode.orderedMembers_eq hes fun m hm => RefOr.lossless (RefOr.explicit_of_noNulls
    (Json.noNulls_obj_iff.1 h m hm).2 Response.explicit_of_noNulls) Response.lossless (hv m hm)

end Responses

/-! ## What is kept of servers -/

namespace Members

section
variable {names : List String} {name k : String} {ms : Members} {f : String → Json → Json}

/-- The members with their values changed, each in the way of its key. -/
def change (f : String → Json → Json) (ms : Members) : Members := ms.map (fun m => (m.1, f m.1 m.2))

/-- Changed members have the keys that they had. -/
theorem keys_change : OrderedMap.keys (change f ms) = OrderedMap.keys ms := by
  rw [change, OrderedMap.keys_map]
  rfl

/-- Changed members repeat a key iff they did before. -/
theorem distinct_change : OrderedMap.Distinct (change f ms) ↔ OrderedMap.Distinct ms := by
  rw [OrderedMap.Distinct, keys_change]
  rfl

/-- Under a key of changed members stands the changed value. -/
theorem get?_change :
    OrderedMap.get? (change f ms) k = (OrderedMap.get? ms k).map (f k) := by
  induction ms with
  | nil => rfl
  | cons m ms ih =>
    show OrderedMap.get? ((m.1, f m.1 m.2) :: change f ms) k = _
    rw [OrderedMap.get?_cons, OrderedMap.get?_cons, ih]
    by_cases hk : m.1 = k <;> simp [hk]

/-- The values under a name are changed in the way of that name. -/
theorem values_change : values [name] (change f ms) = (values [name] ms).map (f name) := by
  induction ms with
  | nil => rfl
  | cons m ms ih =>
    show values [name] ((m.1, f m.1 m.2) :: change f ms) = _
    rw [values_cons, values_cons, ih]
    by_cases hname : m.1 = name <;> simp [hname]

/-- The members with other names are changed as before. -/
theorem others_change : others names (change f ms) = change f (others names ms) := by
  rw [others, change, List.filter_map]
  rfl

/-- Members none of which is changed stay the same. -/
theorem change_eq_self (h : ∀ m ∈ ms, f m.1 m.2 = m.2) :
    change f ms = ms := by
  rw [change, List.map_congr_left fun m hm => congrArg (Prod.mk m.1) (h m hm)]
  exact List.map_id ms

end

end Members

namespace Server

/-- The servers are written as objects. -/
def Objects (v : Json) : Prop := ∀ js, v = .arr js → ∀ j ∈ js, ∃ ms, j = .obj ms

/-- The tree of a server with nothing but the declared fields. -/
def kept : Json → Json
  | .obj ms => .obj (ms.filter (fun m => m.1 ∈ fieldNames))
  | v => v

/-- The value of a key with nothing but the declared fields of each server, if this is the key of
the servers. -/
def keptAt : String → Json → Json
  | "servers", .arr js => .arr (js.map kept)
  | _, v => v

/-- The servers have no members but the declared fields. -/
def Plain (v : Json) : Prop :=
  ∀ js, v = .arr js → ∀ ms, .obj ms ∈ js → ∀ m ∈ ms, m.1 ∈ fieldNames

/-- Nothing is lost of servers without members of their own. -/
theorem keptAt_of_plain {k : String} {v : Json} (h : k = "servers" → Plain v) : keptAt k v = v := by
  unfold keptAt
  split
  · next js =>
    have hitems : ∀ j ∈ js, kept j = j := by
      intro j hj
      cases j with
      | obj ms =>
        exact congrArg Json.obj (List.filter_eq_self.2 fun m hm =>
          decide_eq_true (h rfl js rfl ms hj m hm))
      | null | bool | num | str | arr => rfl
    rw [List.map_congr_left hitems, List.map_id']
  · rfl

/-- Only under the key of the servers anything is lost. -/
theorem keptAt_of_ne {k : String} (h : k ≠ "servers") (v : Json) : keptAt k v = v :=
  keptAt_of_plain fun hk => (h hk).elim

variable {surplus : Nat → DecodeError}

/-- A server is written as the declared fields that it is read from. -/
theorem similar_kept {ms : Members} (h : Json.NoNulls (.obj ms)) :
    Ensures (decode surplus) (fun s => s.encode.Similar (kept (.obj ms))) (.obj ms) := by
  intro hn s hs
  obtain ⟨hu, hd, hb⟩ := read_eq_ok.1 (Reading.toExcept_eq_ok.1 hs)
  have hf := h.nonNull fieldNames
  have hcarried : Members.Carried fieldNames ms (("url", .str s.url)
      :: Encode.optional "description" .str s.description
      ++ Encode.optional "variables" Encode.free s.bindings) :=
    ((Members.carried_required hn (fun j _ => lossless_text j) hu).cons
      (Members.carried_optional hn (hf _ (by decide)) (fun j _ => lossless_text j) hd)).append
      (Members.carried_optional hn (hf _ (by decide)) (fun j _ => lossless_freeMap j) hb)
  have hkept : Members.Carried fieldNames (ms.filter (fun m => m.1 ∈ fieldNames)) _ :=
    hcarried.congr fun name hname => Members.values_filter (p := fun k => k ∈ fieldNames)
      fun k hk => decide_eq_true (List.mem_singleton.1 hk ▸ hname)
  have hothers : Members.others fieldNames (ms.filter (fun m => m.1 ∈ fieldNames)) = [] :=
    List.filter_eq_nil_iff.2 fun m hm => by simpa using List.of_mem_filter hm
  exact Json.similar_obj (hkept.same_of_others (by decide) hothers)
    (Json.normal_obj_iff.1 (hn.filter _)).1

/-- Servers are written as the declared fields that they are read from. -/
theorem similar_keptAt {v : Json} (hobjects : Objects v) (h : v.NoNulls) :
    Ensures (Decode.list (decode surplus))
      (fun ss => (Encode.list encode ss).Similar (keptAt "servers" v)) v := by
  intro hn ss hss
  obtain ⟨js, rfl, hss⟩ := Decode.list_eq_ok.1 hss
  refine Json.similar_arr (Decode.map_ordered_items hss fun j hj => ?_)
  obtain ⟨ms, rfl⟩ := hobjects js rfl j hj
  exact similar_kept (Json.noNulls_arr_iff.1 h _ hj) (Json.normal_arr_iff.1 hn _ hj)

/-- The servers among members are written as the declared fields that they are read from. -/
theorem carried_servers {ms : Members} {o : Option (List Server)} (hn : Json.Normal (.obj ms))
    (hobjects : ∀ j ∈ Members.values ["servers"] ms, Objects j) (h : Json.NoNulls (.obj ms))
    (ho : ms.optional "servers" (Decode.list (decode surplus)) = .ok o) :
    Members.Carried ["servers"] (ms.change keptAt)
      (Encode.optional "servers" (Encode.list encode) o) :=
  Members.carried_optional_of hn (Members.values_change)
    (h.nonNull ["servers"] _ (List.mem_singleton_self _))
    (fun j hj => similar_keptAt (hobjects j hj) (h.of_mem_valuesOf hj).2) ho

/-- What stands under other keys is kept. -/
theorem carried_change {names : List String} {ms fs : Members} (h : Members.Carried names ms fs)
    (hnames : "servers" ∉ names) : Members.Carried names (ms.change keptAt) fs :=
  h.congr fun name hname => by
    have hne : name ≠ "servers" := fun he => hnames (he ▸ hname)
    rw [Members.values_change, List.map_congr_left fun j _ => keptAt_of_ne hne j, List.map_id']

end Server

namespace OperationExtras

/-- What is carried along is written as the members that it is read from. -/
theorem same_of_read {surplus : Nat → DecodeError} {ms : Members} {e : OperationExtras}
    (hn : Json.Normal (.obj ms)) (hobjects : ∀ j ∈ Members.values ["servers"] ms, Server.Objects j)
    (h : Json.NoNulls (.obj ms)) (hread : read (Server.decode surplus) ms = .ok e) :
    e.members.Same (ms.change Server.keptAt) := by
  obtain ⟨hs, ht, hdocs, hd, hsec, hservers, hc, hext⟩ := read_eq_ok.1 hread
  have hf := h.nonNull fieldNames
  have hsecurity (j : Json) : Lossless (Decode.list (Decode.map (Decode.list Decode.text)))
      (Encode.list (Encode.map (Encode.list .str))) j :=
    lossless_list fun _ _ _ _ => lossless_map fun _ _ m _ => lossless_texts m.2
  have hbefore : Members.Carried ["summary", "tags", "externalDocs", "deprecated", "security"] ms
      (Encode.optional "summary" .str e.summary
        ++ Encode.optional "tags" (Encode.list .str) e.tags
        ++ Encode.optional "externalDocs" id e.externalDocs
        ++ Encode.optional "deprecated" .bool e.deprecated
        ++ Encode.optional "security" (Encode.list (Encode.map (Encode.list .str))) e.security) :=
    ((((Members.carried_optional hn (hf _ (by decide)) (fun j _ => lossless_text j) hs).append
      (Members.carried_optional hn (hf _ (by decide)) (fun j _ => lossless_texts j) ht)).append
      (Members.carried_optional hn (hf _ (by decide)) (fun j _ => lossless_free j) hdocs)).append
      (Members.carried_optional hn (hf _ (by decide)) (fun j _ => lossless_boolean j) hd)).append
      (Members.carried_optional hn (hf _ (by decide)) (fun j _ => hsecurity j) hsec)
  have hafter : Members.Carried ["callbacks"] ms
      (Encode.optional "callbacks" Encode.free e.callbacks) :=
    Members.carried_optional hn (hf _ (by decide)) (fun j _ => lossless_freeMap j) hc
  have hcarried : Members.Carried fieldNames (ms.change Server.keptAt) _ :=
    ((Server.carried_change hbefore (by decide)).append
      (Server.carried_servers hn hobjects h hservers)).append
      (Server.carried_change hafter (by decide))
  refine hcarried.same (by decide) ?_
  rw [Members.extensions_of_normal hn hext, Members.others_change,
    Members.change_eq_self fun m hm => Server.keptAt_of_ne ?_ m.2]
  · exact .refl _
  · intro hkey
    exact Members.notMem_of_mem_others hm (hkey ▸ by decide)

end OperationExtras

/-! ## Operations and paths -/

namespace Operation

/-- The operation writes its responses, and its servers are objects. -/
structure Written (v : Json) : Prop where
  responses : v.valuesOf "responses" ≠ []
  servers : ∀ j ∈ v.valuesOf "servers", Server.Objects j

/-- The tree of an operation with nothing but the declared fields of its servers. -/
def kept : Json → Json
  | .obj ms => .obj (Members.change Server.keptAt ms)
  | v => v

/-- Nothing is lost of an operation whose servers have no members but the declared fields. -/
theorem kept_of_plain {v : Json} (h : ∀ j ∈ v.valuesOf "servers", Server.Plain j) : kept v = v := by
  cases v with
  | obj ms =>
    refine congrArg Json.obj (Members.change_eq_self fun m hm => ?_)
    refine Server.keptAt_of_plain fun hk => ?_
    exact h _ (List.mem_map_of_mem (List.mem_filter.2 ⟨hm, by simp [hk]⟩))
  | null | bool | num | str | arr => rfl

/-- An operation is written as what is kept of the tree that it is read from. -/
theorem similar_kept {v : Json} (hw : Written v) (h : v.NoNulls) :
    Ensures decode (fun o => o.encode.Similar (kept v)) v := by
  refine ensures_record_of fun ms o hv hn hread => ?_
  subst hv
  obtain ⟨hid, hd, hp, hb, hr, hextras⟩ := read_eq_ok.1 hread
  have hf := h.nonNull fieldNames
  have hpart (name : String) : ∀ j ∈ Members.values [name] ms, j.NoNulls :=
    fun j hj => (h.of_mem_valuesOf hj).2
  have hcarried : Members.Carried fieldNames ms
      (Encode.optional "operationId" .str o.operationId
        ++ Encode.optional "description" .str o.description
        ++ Encode.optional "parameters" Parameters.encode o.parameters
        ++ Encode.optional "requestBody" (RefOr.encode RequestBody.encode) o.requestBody
        ++ [("responses", Responses.encode o.responses)]) :=
    ((((Members.carried_optional hn (hf _ (by decide)) (fun j _ => lossless_text j) hid).append
      (Members.carried_optional hn (hf _ (by decide)) (fun j _ => lossless_text j) hd)).append
      (Members.carried_optional hn (hf _ (by decide))
        (fun j hj => Parameters.lossless (hpart _ j hj)) hp)).append
      (Members.carried_optional hn (hf _ (by decide))
        (fun j hj => RequestBody.lossless_refOr (hpart _ j hj)) hb)).append
      (Members.carried_defaulted hn hw.responses
        (fun j hj => Responses.lossless (hpart _ j hj)) hr)
  have hservers : ∀ j ∈ Members.values ["servers"] (Members.others fieldNames ms),
      Server.Objects j := by
    rw [Members.values_others (by decide)]
    exact hw.servers
  have hrest : o.extras.members.Same
      (Members.others fieldNames (Members.change Server.keptAt ms)) :=
    Members.others_change ▸ OperationExtras.same_of_read (hn.others _) hservers (h.others _) hextras
  rw [encode, List.append_cons]
  exact Json.similar_obj ((Server.carried_change hcarried (by decide)).same (by decide) hrest)
    (Members.distinct_change.2 (Json.normal_obj_iff.1 hn).1)

end Operation

namespace PathItem

/-- The servers of the path are objects, and its operations are written with their responses. -/
structure Written (v : Json) : Prop where
  servers : ∀ j ∈ v.valuesOf "servers", Server.Objects j
  operations : ∀ m : HttpMethod, ∀ j ∈ v.valuesOf m.text, Operation.Written j

/-- The value of a key of a path with nothing but the declared fields of the servers in it. -/
def keptAt (k : String) (v : Json) : Json :=
  if k ∈ fieldNames then Server.keptAt k v else Operation.kept v

/-- Operations are written as what is kept of the members that they are read from if each of them
is. -/
theorem orderedMembers_readEntries {ms : Members} {es : List (HttpMethod × Operation)}
    (h : readEntries ms = .ok es)
    (hl : ∀ m ∈ ms, ∀ method : HttpMethod, m.1 = method.text → ∀ o, Operation.decode m.2 = .ok o →
      o.encode.Similar (keptAt m.1 m.2)) :
    Json.orderedMembers (encodeOperations es) = Json.orderedMembers (ms.change keptAt) := by
  induction ms generalizing es with
  | nil =>
    cases h
    rfl
  | cons m ms ih =>
    obtain ⟨k, j⟩ := m
    obtain ⟨method, hmethod, h⟩ := Decode.bind_eq_ok.1 h
    obtain ⟨o, ho, h⟩ := Decode.bind_eq_ok.1 h
    obtain ⟨es', hes, h⟩ := Decode.bind_eq_ok.1 h
    cases h
    obtain ⟨hj, hms⟩ := List.forall_mem_cons.1 hl
    obtain rfl := text_of_variantNamed hmethod
    have hsimilar : o.encode.ordered = (keptAt method.text j).ordered := hj method rfl o ho
    show (method.text, o.encode.ordered) :: Json.orderedMembers (encodeOperations es') = _
    rw [ih hes hms, hsimilar]
    rfl

/-- Operations by method are written as what is kept of the members that they are read from. -/
theorem same_of_readOperations {ms : Members} {os : Operations} (hd : OrderedMap.Distinct ms)
    (h : readOperations ms = .ok os)
    (hl : ∀ m ∈ ms, ∀ method : HttpMethod, m.1 = method.text → ∀ o, Operation.decode m.2 = .ok o →
      o.encode.Similar (keptAt m.1 m.2)) :
    (encodeOperations os).Same (ms.change keptAt) := by
  obtain ⟨es, hes, rfl⟩ := readOperations_eq_ok.1 h
  rw [(distinct_of_readEntries hd hes).ofPairs_eq]
  exact .of_eq (orderedMembers_readEntries hes hl)

/-- A path is written as what is kept of the members that it is read from. -/
theorem similar_of_read {ms : Members} {p : PathItem} (hw : Written (.obj ms))
    (h : Json.NoNulls (.obj ms)) (hn : Json.Normal (.obj ms)) (hread : read ms = .ok p) :
    p.encode.Similar (.obj (ms.change keptAt)) := by
  obtain ⟨hs, hd, hp, hservers, hoperations⟩ := read_eq_ok.1 hread
  have hf := h.nonNull fieldNames
  have hbefore : Members.Carried ["summary", "description", "parameters"] ms
      (Encode.optional "summary" .str p.summary
        ++ Encode.optional "description" .str p.description
        ++ Encode.optional "parameters" Parameters.encode p.parameters) :=
    ((Members.carried_optional hn (hf _ (by decide)) (fun j _ => lossless_text j) hs).append
      (Members.carried_optional hn (hf _ (by decide)) (fun j _ => lossless_text j) hd)).append
      (Members.carried_optional hn (hf _ (by decide))
        (fun j hj => Parameters.lossless (h.of_mem_valuesOf hj).2) hp)
  have hserverFields : Members.Carried fieldNames (ms.change Server.keptAt) _ :=
    (Server.carried_change hbefore (by decide)).append
      (Server.carried_servers hn hw.servers h hservers)
  have hcarried : Members.Carried fieldNames (ms.change keptAt) _ :=
    hserverFields.congr fun name hname => by
      rw [Members.values_change, Members.values_change]
      exact List.map_congr_left fun j _ => if_pos hname
  have hoperation : ∀ m ∈ ms.others fieldNames, ∀ method : HttpMethod, m.1 = method.text →
      ∀ o, Operation.decode m.2 = .ok o → o.encode.Similar (keptAt m.1 m.2) := by
    intro m hm method hmethod o ho
    have hmem : m.2 ∈ Members.values [method.text] ms :=
      List.mem_map_of_mem (List.mem_filter.2 ⟨List.mem_of_mem_filter hm, by simp [hmethod]⟩)
    rw [keptAt, if_neg (Members.notMem_of_mem_others hm)]
    exact Operation.similar_kept (hw.operations method m.2 hmem)
      (h.of_mem_valuesOf hmem).2 (Members.normal_of_mem_values hn hmem) o ho
  have hrest := same_of_readOperations (Json.normal_obj_iff.1 (hn.others _)).1 hoperations
    hoperation
  rw [← Members.others_change] at hrest
  exact Json.similar_obj (hcarried.same (by decide) hrest)
    (Members.distinct_change.2 (Json.normal_obj_iff.1 hn).1)

end PathItem

end RpcOpenApi
