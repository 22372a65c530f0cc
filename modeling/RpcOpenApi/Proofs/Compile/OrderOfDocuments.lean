import RpcOpenApi.Proofs.Compile.Failure
import RpcOpenApi.Proofs.Compile.OrderOfOperations

/-!
# Documents do not depend on the order of members

`rearranged_compile`: two trees that differ in nothing but the order of members are both read as
descriptions or both not, both descriptions are compiled or both not, and if no place is declared
twice, the results differ in nothing but the order of members and two kinds of lists
(`RpcDocument.OpenAt`). Where a place is declared twice, the last declaration wins, so there the
order of the declared operations matters.

The declared operations of alike descriptions are alike up to their order
(`RpcOperations.Alike.exists_perm_declared`), so at every place either both have one, with alike
definitions, or none of them has (`RpcOperations.Alike.rel_getLast?`). From there the paths are
compared one by one, and each of them method by method.
-/

namespace RpcOpenApi

/-! ## Declared operations -/

namespace Declaration

/-- The kinds and the ids are the same, and the definitions are alike. -/
structure Alike (e e' : Declaration) : Prop where
  kind : e.1 = e'.1
  id : e.2.1 = e'.2.1
  definition : e.2.2.Alike e'.2.2

variable {e e' : Declaration}

/-- Alike declarations have the same path. -/
theorem Alike.path_eq (h : e.Alike e') : e.path = e'.path := by
  rw [path, path, OperationDef.effectivePath, OperationDef.effectivePath, h.definition.path, h.kind,
    h.id]

/-- Alike declarations have the same method. -/
theorem Alike.method_eq (h : e.Alike e') : e.method = e'.method := by
  rw [method, method, OperationDef.effectiveMethod, OperationDef.effectiveMethod,
    h.definition.method, h.kind]

/-- Alike declarations have the same place. -/
theorem Alike.place_eq (h : e.Alike e') : e.place = e'.place := by
  rw [place, place, h.path_eq, h.method_eq]

end Declaration

namespace RpcOperations

variable {o o' : RpcOperations}

/-- The declared operations of the one, in another order, are alike to those of the other one by
one. -/
theorem Alike.exists_perm_declared (h : o.Alike o') :
    ∃ es, o.declared.Perm es ∧ List.Forall₂ Declaration.Alike es o'.declared := by
  have hkind (kind : OperationKind) {m m' : OrderedMap String OperationDef}
      (hm : List.Forall₂ (fun e e' => e.1 = e'.1 ∧ OperationDef.Alike e.2 e'.2) m m') :
      List.Forall₂ Declaration.Alike (m.map fun e => (kind, e.1, e.2))
        (m'.map fun e => (kind, e.1, e.2)) := by
    rw [List.forall₂_map_left_iff, List.forall₂_map_right_iff]
    exact hm.imp fun _ _ he => ⟨rfl, he.1, he.2⟩
  obtain ⟨queries, hqueries, hq⟩ := h.queries.exists_perm
  obtain ⟨mutations, hmutations, hm⟩ := h.mutations.exists_perm
  exact ⟨_, (hqueries.map _).append (hmutations.map _),
    List.rel_append (hkind .query hq) (hkind .mutation hm)⟩

/-- Of every declared operation of the one there is an alike one among those of the other. -/
theorem Alike.exists_mem_declared (h : o.Alike o') {e' : Declaration} (he' : e' ∈ o'.declared) :
    ∃ e ∈ o.declared, Declaration.Alike e e' := by
  obtain ⟨es, hperm, hrel⟩ := h.exists_perm_declared
  obtain ⟨n, hn⟩ := List.getElem?_of_mem he'
  obtain ⟨e, he, halike⟩ := exists_getElem?_of_forall₂ hrel.flip hn
  exact ⟨e, hperm.mem_iff.2 (List.mem_of_getElem? he), halike⟩

/-- The declared operations have the same paths up to their order. -/
theorem Alike.paths_perm (h : o.Alike o') :
    (o.declared.map Declaration.path).Perm (o'.declared.map Declaration.path) := by
  obtain ⟨es, hperm, hrel⟩ := h.exists_perm_declared
  refine (hperm.map _).trans (.of_eq ?_)
  rw [← List.forall₂_eq_eq_eq, List.forall₂_map_left_iff, List.forall₂_map_right_iff]
  exact hrel.imp fun _ _ => Declaration.Alike.path_eq

/-- If no place is declared twice, at most one operation is declared for a place. -/
theorem eq_nil_of_filter_place {x : String × HttpMethod}
    (hnodup : (o.declared.map Declaration.place).Nodup) {e : Declaration} {es : List Declaration}
    (h : o.declared.filter (fun e => Declaration.place e = x) = e :: es) : es = [] := by
  cases es with
  | nil => rfl
  | cons e₂ es =>
    have hsub : ((e :: e₂ :: es).map Declaration.place).Nodup :=
      h ▸ (List.filter_sublist.map _).nodup hnodup
    have hplace (e' : Declaration) (he' : e' ∈ e :: e₂ :: es) : Declaration.place e' = x := by
      rw [← h, List.mem_filter] at he'
      exact of_decide_eq_true he'.2
    have heq : Declaration.place e = Declaration.place e₂ :=
      (hplace e (.head _)).trans (hplace e₂ (.tail _ (.head _))).symm
    rw [List.map_cons, List.map_cons, heq] at hsub
    exact ((List.nodup_cons.1 hsub).1 (.head _)).elim

/-- The operations that are declared for a place are alike up to their order. -/
theorem Alike.exists_perm_filter_place (h : o.Alike o') (x : String × HttpMethod) :
    ∃ es, (o.declared.filter fun e => Declaration.place e = x).Perm es ∧
      List.Forall₂ Declaration.Alike es (o'.declared.filter fun e => Declaration.place e = x) := by
  obtain ⟨es, hperm, hrel⟩ := h.exists_perm_declared
  refine ⟨_, hperm.filter _, List.rel_filter (fun e e' he => ?_) hrel⟩
  show decide (Declaration.place e = x) = true ↔ decide (Declaration.place e' = x) = true
  rw [he.place_eq]

/-- If no place is declared twice, alike operations are declared for a place, or none. -/
theorem Alike.rel_getLast? (h : o.Alike o') (hnodup : (o.declared.map Declaration.place).Nodup)
    (x : String × HttpMethod) :
    Option.Rel (fun e e' => (e ∈ o.declared ∧ Declaration.place e = x) ∧ e' ∈ o'.declared ∧
        Declaration.Alike e e')
      (o.declared.filter fun e => Declaration.place e = x).getLast?
      (o'.declared.filter fun e => Declaration.place e = x).getLast? := by
  obtain ⟨es, hperm, hrel⟩ := h.exists_perm_filter_place x
  cases hdeclared : o.declared.filter fun e => Declaration.place e = x with
  | nil =>
    rw [hdeclared] at hperm
    obtain rfl := List.nil_perm.1 hperm
    rw [List.forall₂_nil_left_iff.1 hrel]
    exact .none
  | cons e rest =>
    obtain rfl := eq_nil_of_filter_place hnodup hdeclared
    rw [hdeclared] at hperm
    obtain rfl := List.singleton_perm.1 hperm
    obtain ⟨e', es', halike, hnil, hdeclared'⟩ := List.forall₂_cons_left_iff.1 hrel
    obtain rfl := List.forall₂_nil_left_iff.1 hnil
    have he := List.mem_filter.1 (hdeclared ▸ List.mem_singleton_self e)
    have he' := List.mem_filter.1 (hdeclared' ▸ List.mem_singleton_self e')
    rw [hdeclared']
    exact .some ⟨⟨he.1, of_decide_eq_true he.2⟩, he'.1, halike⟩

end RpcOperations

/-! ## When a run succeeds -/

/-- Alike trees are the same text, or none of them is a text. -/
theorem Json.Alike.text?_eq {j j' : Json} (h : j.Alike j') : j.text? = j'.text? := by
  obtain rfl | ⟨js, js', rfl, rfl⟩ | ⟨ms, ms', rfl, rfl⟩ := h.eq_or_containers <;> rfl

namespace RpcDocument

/-- The lists of a result whose order depends on the order of the members of a description: the
parameters of the declared operations, and the required properties of the bodies that are built. -/
inductive OpenAt (d : RpcDocument) : Places
  | parameters {e : Declaration} (he : e ∈ d.operations.declared) :
      OpenAt d ["paths", Declaration.path e, (Declaration.method e).text, "parameters"]
  | required {e : Declaration} (he : e ∈ d.operations.declared) (h : e.2.2.BuildsBody e.1) :
      OpenAt d ["paths", Declaration.path e, (Declaration.method e).text, "requestBody", "content",
        "application/json", "schema", "required"]

variable {d d' : RpcDocument}

/-- Alike descriptions have the same version. -/
theorem Alike.version_eq (h : d.Alike d') : d.version = d'.version := by
  rw [version, version]
  have hyarpc := h.yarpc
  generalize d.yarpc = o at hyarpc
  generalize d'.yarpc = o' at hyarpc
  cases hyarpc with
  | none => rfl
  | some hy => exact Json.Alike.text?_eq hy

/-- What is compiled from the one of two declared operations that are alike. -/
theorem Alike.exists_compiled (h : d.Alike d') (ht : d.Tidy) (ht' : d'.Tidy) {e e' : Declaration}
    (he : e ∈ d.operations.declared) (he' : e' ∈ d'.operations.declared) (halike : e.Alike e')
    {o : Operation} (ho : (compileOperation (Resolver.ofComponents d.components) e.1 e.2.1
      e.2.2).result = .ok o) :
    ∃ o', (compileOperation (Resolver.ofComponents d'.components) e'.1 e'.2.1 e'.2.2).result
        = .ok o' ∧
      Json.Rearranged (((Places.below d.OpenAt "paths").below e.path).below e.method.text)
        o.encode o'.encode := by
  have hcomponents := Resolver.alike_ofComponents h.components
  obtain ⟨o', ho', hrearranged⟩ := exists_compileOperation hcomponents halike.definition
    (ht.operations e he) (ht'.operations e' he') (Resolver.tidy_ofComponents _)
    (Resolver.tidy_ofComponents _) ho
  rw [halike.kind, halike.id] at ho'
  exact ⟨o', ho', hrearranged _ (.parameters he) (.required he)⟩

/-- If a description is compiled, so is every alike one. -/
theorem Alike.exists_compile (h : d.Alike d') (ht : d.Tidy) (ht' : d'.Tidy)
    (hd : ∃ out, (compile d).result = .ok out) : ∃ out, (compile d').result = .ok out := by
  obtain ⟨hv, hall⟩ := exists_compileResolving_eq_ok.1 hd
  refine exists_compileResolving_eq_ok.2 ⟨h.version_eq ▸ hv, fun e' he' => ?_⟩
  obtain ⟨e, he, halike⟩ := h.operations.exists_mem_declared he'
  obtain ⟨o, ho⟩ := hall e he
  obtain ⟨o', ho', -⟩ := h.exists_compiled ht ht' he he' halike ho
  exact ⟨o', ho'⟩

end RpcDocument

/-! ## Paths -/

namespace Paths

variable {ps ps' : Paths}

/-- Alike paths have alike items, or none, at every path. -/
theorem alike_getD (h : OrderedMap.Alike PathItem.Alike ps ps') (p : String) :
    ((ps.get? p).getD {}).Alike ((ps'.get? p).getD {}) :=
  OptionRel.getD (h.get? p) ⟨.refl rfl, .nil⟩

/-- The fields of a path of alike paths are written alike. -/
theorem written_fieldsAt (h : OrderedMap.Alike PathItem.Alike ps ps') (p : String) :
    WrittenAlike PathItem.encode (ps.fieldsAt p) (ps'.fieldsAt p) := (alike_getD h p).fields

/-- At each place of alike paths the operations are written alike. -/
theorem rel_operation? (h : OrderedMap.Alike PathItem.Alike ps ps') (p : String) (m : HttpMethod) :
    Option.Rel (WrittenAlike Operation.encode) (ps.operation? p m) (ps'.operation? p m) := by
  rw [operation?, operation?, ← operations_getD, ← operations_getD]
  exact (alike_getD h p).operations.get? m

end Paths

namespace PathItem

variable {places : Places}

/-- Path items are rearranged if what is common to the operations is written as alike trees, and
the operations of each method are rearranged. -/
theorem rearranged {item item' : PathItem} (hfields : WrittenAlike encode item.fields item'.fields)
    (hoperations : ∀ m : HttpMethod, Option.Rel (fun o o' : Operation =>
      Json.Rearranged (places.below m.text) o.encode o'.encode) (item.operations.get? m)
      (item'.operations.get? m))
    (hn : item.encode.Normal) (hn' : item'.encode.Normal) :
    Json.Rearranged places item.encode item'.encode := by
  have hsame : Members.Same (item.fieldMembers ++ []) (item'.fieldMembers ++ []) := hfields.same
  rw [List.append_nil, List.append_nil] at hsame
  have hd : OrderedMap.Distinct (item.fieldMembers ++ encodeOperations item.operations) :=
    (Json.normal_obj_iff.1 hn).1
  have hd' : OrderedMap.Distinct (item'.fieldMembers ++ encodeOperations item'.operations) :=
    (Json.normal_obj_iff.1 hn').1
  have hdfields : OrderedMap.Distinct item'.fieldMembers :=
    ((List.sublist_append_left _ _).map _).nodup hd'
  exact ((Members.Rearranged.of_same hsame hdfields).append
    (.map (fun _ _ => text_injective) hoperations)).obj hd hd'

end PathItem

/-- A path of a result is written by hand or declared. -/
theorem mem_keys_compileResolving {resolver : Resolver} {d : RpcDocument} {out : OpenApiDocument}
    (h : (compileResolving resolver d).result = .ok out) (p : String) :
    p ∈ out.paths.keys ↔
      p ∈ (d.paths.getD []).keys ∨ p ∈ d.operations.declared.map Declaration.path := by
  obtain ⟨-, -, hout, -⟩ := compileWith_ok h
  rw [hout, Paths.keys_mergeAll, List.mem_append, List.mem_eraseDups, List.mem_filter,
    keys_derivedPaths, List.mem_eraseDups, decide_eq_true_eq]
  tauto

/-! ## Documents -/

namespace RpcDocument

variable {d d' : RpcDocument} {out out' : OpenApiDocument}

/-- The hand-written paths of alike descriptions are alike. -/
theorem Alike.paths_getD (h : d.Alike d') :
    OrderedMap.Alike PathItem.Alike (d.paths.getD []) (d'.paths.getD []) :=
  OptionRel.getD h.paths .nil

/-- The results have the same paths. -/
theorem Alike.mem_keys_iff (h : d.Alike d') (hout : (compile d).result = .ok out)
    (hout' : (compile d').result = .ok out') (p : String) :
    p ∈ out.paths.keys ↔ p ∈ out'.paths.keys := by
  rw [mem_keys_compileResolving hout, mem_keys_compileResolving hout', h.paths_getD.mem_keys_iff]
  exact or_congr_right h.operations.paths_perm.mem_iff

/-- At every place of the results there is no operation, or the operations are rearranged. -/
theorem Alike.rel_operation? (h : d.Alike d') (ht : d.Tidy) (ht' : d'.Tidy)
    (hnodup : (d.operations.declared.map Declaration.place).Nodup)
    (hout : (compile d).result = .ok out) (hout' : (compile d').result = .ok out') (p : String)
    (m : HttpMethod) : Option.Rel (fun o o' : Operation => Json.Rearranged
        (((Places.below d.OpenAt "paths").below p).below m.text) o.encode o'.encode)
      (out.paths.operation? p m) (out'.paths.operation? p m) := by
  rw [operation?_compileResolving hout, operation?_compileResolving hout']
  refine OptionRel.or (OptionRel.map (h.operations.rel_getLast? hnodup (p, m)) fun e e' he => ?_)
    (OptionRel.imp (Paths.rel_operation? h.paths_getD p m) fun _ _ ho => .similar ho.similar)
  obtain ⟨⟨hmem, hplace⟩, hmem', halike⟩ := he
  cases hplace
  obtain ⟨o', ho', hrearranged⟩ := h.exists_compiled ht ht' hmem hmem' halike
    (compileOperation_of_mem_declared hout hmem)
  rw [Declaration.compiled_eq ho']
  exact hrearranged

/-- The paths of the results differ in nothing but the order of members, and of the lists whose
order is left open. -/
theorem Alike.rearranged_paths (h : d.Alike d') (ht : d.Tidy) (ht' : d'.Tidy)
    (hnodup : (d.operations.declared.map Declaration.place).Nodup)
    (hout : (compile d).result = .ok out) (hout' : (compile d').result = .ok out') :
    Json.Rearranged (Places.below d.OpenAt "paths") (Paths.encode out.paths)
      (Paths.encode out'.paths) := by
  have hn := normal_compileResolving ht (Resolver.tidy_ofComponents _) hout
  have hn' := normal_compileResolving ht' (Resolver.tidy_ofComponents _) hout'
  have hdistinct (out : OpenApiDocument) (hn : out.encode.Normal) :
      OrderedMap.Distinct (out.paths.map fun e => (e.1, e.2.encode)) :=
    (Json.normal_obj_iff.1 (hn.of_member? (k := "paths") (by rfl))).1
  refine Members.Rearranged.obj (.map Function.injective_id fun p => ?_) (hdistinct out hn)
    (hdistinct out' hn')
  cases hitem : out.paths.get? p with
  | none =>
    have hp := mt (h.mem_keys_iff hout hout' p).2 (OrderedMap.get?_eq_none_iff.1 hitem)
    rw [OrderedMap.get?_eq_none_iff.2 hp]
    exact .none
  | some item =>
    have hp := (h.mem_keys_iff hout hout' p).1 (OrderedMap.isSome_get?_iff.1 (hitem ▸ rfl))
    obtain ⟨item', hitem'⟩ := Option.isSome_iff_exists.1 (OrderedMap.isSome_get?_iff.2 hp)
    rw [hitem']
    have hfields := Paths.written_fieldsAt h.paths_getD p
    rw [← fieldsAt_compileResolving hout, ← fieldsAt_compileResolving hout',
      Paths.fieldsAt_of_get? hitem, Paths.fieldsAt_of_get? hitem'] at hfields
    refine .some (PathItem.rearranged hfields (fun m => ?_) ?_ ?_)
    · have hoperation := h.rel_operation? ht ht' hnodup hout hout' p m
      rw [Paths.operation?, Paths.operation?, Paths.operationsAt, Paths.operationsAt, hitem,
        hitem'] at hoperation
      exact hoperation
    · exact hn.of_at? (by rw [out.at?_path p [], hitem]; rfl)
    · exact hn'.of_at? (by rw [out'.at?_path p [], hitem']; rfl)

/-- What alike descriptions are compiled to differs in nothing but the order of members, and of the
lists whose order is left open. -/
theorem Alike.rearranged (h : d.Alike d') (ht : d.Tidy) (ht' : d'.Tidy)
    (hnodup : (d.operations.declared.map Declaration.place).Nodup)
    (hout : (compile d).result = .ok out) (hout' : (compile d').result = .ok out') :
    Json.Rearranged d.OpenAt out.encode out'.encode := by
  have hn := normal_compileResolving ht (Resolver.tidy_ofComponents _) hout
  have hn' := normal_compileResolving ht' (Resolver.tidy_ofComponents _) hout'
  have hpaths := h.rearranged_paths ht ht' hnodup hout hout'
  obtain ⟨-, -, rfl, -⟩ := compileWith_ok hout
  obtain ⟨-, -, rfl, -⟩ := compileWith_ok hout'
  have hextra : Members.Same (d.extra.erase openapiKey) (d'.extra.erase openapiKey) :=
    h.extra.filter fun k => !decide (k = openapiKey)
  obtain ⟨hd, -⟩ := Json.normal_obj_iff.1 hn
  obtain ⟨hd', -⟩ := Json.normal_obj_iff.1 hn'
  have hdextra : OrderedMap.Distinct (d'.extra.erase openapiKey) :=
    ((List.drop_sublist 4 _).map _).nodup hd'
  exact (((((Members.Rearranged.refl [_]).append (.member (.similar h.info.similar))).append
    (.member hpaths)).append (.member (.similar h.components.similar))).append
    (.of_same hextra hdextra)).obj hd hd'

end RpcDocument

/-- **The order of members does not change what a description means.** Of two trees without repeated
keys that differ in nothing but the order of members, one is read as a description iff the other one
is, and what is read from the one is compiled iff what is read from the other one is. If no place is
declared twice, what they are compiled to differs in nothing but the order of members, of the
parameters of the declared operations, and of the required properties of the bodies that are
built. -/
theorem rearranged_compile {v v' : Json} (hkeys : v.KeysDistinct) (hkeys' : v'.KeysDistinct)
    (hnumbers : v.NumbersFinite) (hnumbers' : v'.NumbersFinite) (hsimilar : v.Similar v') :
    ((∃ d, RpcDocument.decode v = .ok d) ↔ ∃ d', RpcDocument.decode v' = .ok d') ∧
    ∀ d d', RpcDocument.decode v = .ok d → RpcDocument.decode v' = .ok d' →
      ((∃ out, (compile d).result = .ok out) ↔ ∃ out', (compile d').result = .ok out') ∧
      ∀ out out', (compile d).result = .ok out → (compile d').result = .ok out' →
        (d.operations.declared.map Declaration.place).Nodup →
        Json.Rearranged d.OpenAt out.encode out'.encode := by
  have hv : v.Alike v' := ⟨Json.normal_of_keysDistinct hkeys hnumbers,
    Json.normal_of_keysDistinct hkeys' hnumbers', hsimilar⟩
  refine ⟨Respects.isOk_iff RpcDocument.respects hv, fun d d' hd hd' => ?_⟩
  have ht := RpcDocument.tidy v d hd
  have ht' := RpcDocument.tidy v' d' hd'
  obtain ⟨_, hd₁, halike⟩ := RpcDocument.respects v v' hv d hd
  cases hd₁.symm.trans hd'
  obtain ⟨_, hd₂, halike'⟩ := RpcDocument.respects v' v hv.symm d' hd'
  cases hd₂.symm.trans hd
  exact ⟨⟨halike.exists_compile ht ht', halike'.exists_compile ht' ht⟩,
    fun out out' hout hout' hnodup => halike.rearranged ht ht' hnodup hout hout'⟩

/-- A query whose input is placed in the query, and a mutation with a body that is built, with the
members of all objects in some order. -/
def shelfService (order : Members → Members) : Json :=
  let object (ms : Members) : Json := .obj (order ms)
  let box : Json := object
    [("type", .str "object"),
      ("properties", object
        [("id", object [("type", .str "string")]), ("name", object [("type", .str "string")]),
          ("size", object [("type", .str "integer")])]),
      ("required", .arr [.str "name", .str "size"])]
  object
    [("yarpc", .str "1.0.0"), ("info", object [("title", .str "Shelf"), ("version", .str "1")]),
      ("operations", object
        [("queries", object [("find", object [("input", object [("schema", box)])])]),
          ("mutations", object [("store", object [("input", object
            [("schema", box), ("parameters", object [("id", object [("in", .str "path")])])])])])])]

/-- The shelf service is compiled to the same result with the members of all objects reversed, up to
the order of members, of parameters and of required properties; and the required properties of the
body that is built are reversed, too. -/
theorem rearranged_shelfService : ∃ d d' out out',
    RpcDocument.decode (shelfService id) = .ok d ∧
      RpcDocument.decode (shelfService List.reverse) = .ok d' ∧
      (compile d).result = .ok out ∧ (compile d').result = .ok out' ∧
      Json.Rearranged d.OpenAt out.encode out'.encode ∧
      (let place := ["paths", "/mutations/store", "post", "requestBody", "content",
        "application/json", "schema", "required"]
      out.encode.at? place = some (.arr [.str "name", .str "size"]) ∧
        out'.encode.at? place = some (.arr [.str "size", .str "name"])) := by
  have hdistinct (order : Members → Members) (h : order = id ∨ order = List.reverse) :
      (shelfService order).KeysDistinct ∧ (shelfService order).NumbersFinite := by
    rcases h with rfl | rfl <;>
      simp [shelfService, Json.KeysDistinct, Json.ItemsKeysDistinct, Json.MembersKeysDistinct,
        Json.NumbersFinite, Json.ItemsNumbersFinite, Json.MembersNumbersFinite]
  obtain ⟨hkeys, hnumbers⟩ := hdistinct id (.inl rfl)
  obtain ⟨hkeys', hnumbers'⟩ := hdistinct List.reverse (.inr rfl)
  have hsimilar : (shelfService id).Similar (shelfService List.reverse) := by rfl
  obtain ⟨-, hruns⟩ := rearranged_compile hkeys hkeys' hnumbers hnumbers' hsimilar
  obtain ⟨-, hrearranged⟩ := hruns _ _ rfl rfl
  exact ⟨_, _, _, _, rfl, rfl, rfl, rfl, hrearranged _ _ rfl rfl (by decide), rfl, rfl⟩

end RpcOpenApi
