import RpcOpenApi.Proofs.Codec.LosslessPaths
import RpcOpenApi.Proofs.Compile.Placement
import RpcOpenApi.Rpc.Builder

/-!
# What is carried along

Much of a description is none of the compiler's business, and stands in the document up to the order
of members: the components (`components_compileResolving`), and of the rest
(`carried_compileResolving`) the paths that are written by hand, with the operations at the places
that nothing is declared for, and the members of a definition that the compiler does not look into.

A part is followed from its tree to what is read from it, through the compilation, and from what is
written to the tree of the document: the first and the last step are those of the codec
(`Components.lossless`, `PathItem.similar_of_read`, `OperationExtras.same_of_read`), the one between
them is `exists_get?_compileResolving` for a path and `OperationDef.member?_assemble` for a
definition. Of a server only the declared fields come through: the extension of one is lost
(`not_similar_regionalService`).
-/

namespace RpcOpenApi

/-! ## Components -/

/-- **The components are carried along.** Whatever a description is compiled with, the result has
its components up to the order of members, if these are explicit: no field in them is written as
`null`, and none of the sections that are looked into is empty. Without components the result has
empty ones. -/
theorem components_compileResolving (resolver : Resolver) {v : Json} {d : RpcDocument}
    {out : OpenApiDocument} (hkeys : v.KeysDistinct) (hnumbers : v.NumbersFinite)
    (hd : RpcDocument.decode v = .ok d) (h : (compileResolving resolver d).result = .ok out) :
    (∀ c, v.at? ["components"] = some c → Components.Explicit c →
      ∃ c', out.encode.at? ["components"] = some c' ∧ c'.Similar c) ∧
    (v.at? ["components"] = none → out.encode.at? ["components"] = some (.obj [])) := by
  have hn := Json.normal_of_keysDistinct hkeys hnumbers
  obtain ⟨ms, rfl, hread⟩ := Decode.record_eq_ok.1 hd
  obtain ⟨-, -, hcomponents, -⟩ := RpcDocument.read_eq_ok.1 hread
  have hout : out.encode.at? ["components"] = some d.components.encode := by
    obtain ⟨-, -, rfl, -⟩ := compileWith_ok h
    simp [OpenApiDocument.encode]
  have hdistinct := (Json.normal_obj_iff.1 hn).1
  refine ⟨fun c hc he => ?_, fun hc => ?_⟩
  · rw [Json.at?_singleton] at hc
    have hdecode := Members.defaulted_of_get? hdistinct hcomponents hc
    exact ⟨_, hout, Components.lossless he (hn.of_member? hc) _ hdecode⟩
  · rw [Json.at?_singleton] at hc
    rw [hout, Members.defaulted_of_get?_none hdistinct hcomponents hc]
    rfl

/-- A service whose components have a schema with a reference beside another keyword, a keyword
without a value, and a section that is not looked into; no schema writes its type first. -/
def definingService : Json :=
  .obj
    [("yarpc", .str "1.0.0"), ("info", .obj [("title", .str "Defining"), ("version", .str "1")]),
      ("components", .obj
        [("securitySchemes", .obj [("key", .null)]),
          ("schemas", .obj [("Item", .obj
            [("default", .null),
              ("properties", .obj [("id", .obj
                [("maxLength", .str "9"), ("$ref", .str "#/components/schemas/Id")])]),
              ("type", .str "object")])])])]

/-- The components of the defining service are carried along. -/
theorem components_definingService : ∃ d out c, RpcDocument.decode definingService = .ok d ∧
    (compileResolving (Resolver.ofTable []) d).result = .ok out ∧
      definingService.at? ["components"] = some c ∧
      ∃ c', out.encode.at? ["components"] = some c' ∧ c'.Similar c := by
  refine ⟨_, _, _, rfl, rfl, rfl,
    (components_compileResolving (Resolver.ofTable []) (v := definingService) ?_ ?_ rfl rfl).1
      _ rfl ?_⟩
  · simp [definingService, Json.KeysDistinct, Json.MembersKeysDistinct]
  · simp [definingService, Json.NumbersFinite, Json.MembersNumbersFinite]
  · have hid : SchemaOrRef.Explicit (.obj
        [("maxLength", .str "9"), ("$ref", .str "#/components/schemas/Id")]) :=
      .reference ⟨_, rfl⟩ (by simp [Json.NonNull, Json.valuesOf, Reference.fieldNames])
    have hitem : SchemaOrRef.Explicit (.obj [("default", .null), ("properties", .obj [("id", .obj
        [("maxLength", .str "9"), ("$ref", .str "#/components/schemas/Id")])]),
          ("type", .str "object")]) := by
      refine .inline (Reference.not_refers_of_values rfl)
        (by simp [Json.NonNull, Json.valuesOf, Schema.fieldNames]) ?_
      simpa [Json.valuesOf] using hid
    constructor <;> simp [Json.valuesOf]
    exact ⟨by simp, by simpa [Json.Values] using hitem⟩

/-! ## Hand-written paths -/

namespace PathItem

/-- Paths with the same fields, and with the same operation under a method of the name if there is
one, have the same value of a key. -/
theorem member?_encode_congr {item item' : PathItem} {k : String}
    (hfields : item.fields = item'.fields)
    (hoperation : ∀ m : HttpMethod, m.text = k →
      item.operations.get? m = item'.operations.get? m) :
    item.encode.member? k = item'.encode.member? k := by
  have hoperations : OrderedMap.get? (encodeOperations item.operations) k
      = OrderedMap.get? (encodeOperations item'.operations) k := by
    by_cases hk : ∃ m : HttpMethod, m.text = k
    · obtain ⟨m, rfl⟩ := hk
      rw [get?_encodeOperations, get?_encodeOperations, hoperation m rfl]
    · have hnone (os : Operations) : OrderedMap.get? (encodeOperations os) k = none := by
        rw [OrderedMap.get?_eq_none_iff, keys_encodeOperations]
        exact fun hmem => hk ((List.mem_map.1 hmem).imp fun _ => And.right)
      rw [hnone, hnone]
  injection hfields with hsummary hdescription hparameters hservers
  simp only [encode, Json.member?_obj, OrderedMap.get?_append, hoperations, hsummary,
    hdescription, hparameters, hservers]

end PathItem

section
variable {resolver : Resolver} {v : Json} {d : RpcDocument} {out : OpenApiDocument}

/-- A path that is written by hand is read from its tree. -/
theorem RpcDocument.exists_path (hn : v.Normal) (hnulls : v.NoNulls) (hd : decode v = .ok d)
    {p : String} {j : Json} (h : v.at? ["paths", p] = some j) :
    ∃ item, (d.paths.getD []).get? p = some item ∧ PathItem.decode j = .ok item := by
  obtain ⟨ms, rfl, hread⟩ := Decode.record_eq_ok.1 hd
  obtain ⟨-, -, -, -, hpaths, -⟩ := read_eq_ok.1 hread
  rw [Json.at?_cons] at h
  obtain ⟨ps, hps, h⟩ := Option.bind_eq_some_iff.1 h
  rw [Json.at?_singleton] at h
  obtain ⟨written, hwritten, hdecode⟩ := Members.optional_of_get? (Json.normal_obj_iff.1 hn).1
    hpaths hps (hnulls.of_member? hps).1
  rw [hwritten]
  exact Decode.exists_get?_of_map (hn.of_member? hps) hdecode h

/-- A path that is written by hand stands in the result with its fields, and with its operations
under the methods that no operation is declared for. -/
theorem exists_get?_compileResolving (h : (compileResolving resolver d).result = .ok out)
    {p : String} {item : PathItem} (hitem : (d.paths.getD []).get? p = some item) :
    ∃ item', out.paths.get? p = some item' ∧ item'.fields = item.fields ∧
      ∀ m, (∀ e ∈ d.operations.declared, Declaration.place e ≠ (p, m)) →
        item'.operations.get? m = item.operations.get? m := by
  have hmem : p ∈ out.paths.keys := by
    obtain ⟨-, -, hout, -⟩ := compileWith_ok h
    rw [hout, Paths.keys_mergeAll]
    exact List.mem_append_left _ (OrderedMap.isSome_get?_iff.1 (hitem ▸ rfl))
  obtain ⟨item', hitem'⟩ := Option.isSome_iff_exists.1 (OrderedMap.isSome_get?_iff.2 hmem)
  refine ⟨item', hitem', ?_, fun m hm => ?_⟩
  · rw [← Paths.fieldsAt_of_get? hitem', ← Paths.fieldsAt_of_get? hitem,
      fieldsAt_compileResolving h]
  · have hoperation := operation?_compileResolving h p m
    have hnone : d.operations.declared.filter (fun e => Declaration.place e = (p, m)) = [] :=
      List.filter_eq_nil_iff.2 fun e he => by simpa using hm e he
    rw [hnone] at hoperation
    simpa [Paths.operation?, Paths.operationsAt, hitem, hitem'] using hoperation

/-- What is written by hand of a path is carried along. -/
theorem exists_at?_path (hn : v.Normal) (hnulls : v.NoNulls) (hd : RpcDocument.decode v = .ok d)
    (h : (compileResolving resolver d).result = .ok out) {p k : String} {item j : Json}
    (hitem : v.at? ["paths", p] = some item) (hwritten : PathItem.Written item)
    (hj : item.member? k = some j) (hfree : ∀ e ∈ d.operations.declared,
      Declaration.path e = p → (Declaration.method e).text ≠ k) :
    ∃ j', out.encode.at? ["paths", p, k] = some j' ∧ j'.Similar (PathItem.keptAt k j) := by
  obtain ⟨written, hget, hdecode⟩ := RpcDocument.exists_path hn hnulls hd hitem
  obtain ⟨ms, rfl, hread⟩ := Decode.record_eq_ok.1 hdecode
  obtain ⟨kept, hkept, hfields, hoperations⟩ := exists_get?_compileResolving h hget
  have hnormal := hn.of_at? hitem
  have hsimilar := PathItem.similar_of_read hwritten (hnulls.of_at? hitem) hnormal hread
  have hsame : kept.encode.member? k = written.encode.member? k :=
    PathItem.member?_encode_congr hfields fun m hm => hoperations m fun e he hplace =>
      hfree e he (congrArg Prod.fst hplace) (congrArg (fun x => x.2.text) hplace |>.trans hm)
  rw [OpenApiDocument.at?_path, hkept, Option.bind_some, Json.at?_singleton, hsame]
  refine hsimilar.exists_member? (Members.distinct_change.2 (Json.normal_obj_iff.1 hnormal).1) ?_
  rw [Json.member?_obj] at hj
  rw [Members.get?_change, hj, Option.map_some]

end

/-! ## Declared operations -/

namespace RpcOperations

/-- The tree of the operations of a kind, in the tree of all operations: the value of a key, or an
item. -/
def setTree? : OperationKind → Json → Option Json
  | .query, .obj ms => OrderedMap.get? ms "queries"
  | .mutation, .obj ms => OrderedMap.get? ms "mutations"
  | .query, .arr js => js[0]?
  | .mutation, .arr js => js[1]?
  | _, _ => none

variable {kind : OperationKind} {id : String} {os j : Json} {o : RpcOperations}

/-- The operations of a kind are given by a part of the tree. -/
theorem mem_parts_of_setTree? (hj : setTree? kind os = some j) : j ∈ os.parts := by
  cases os with
  | obj ms => cases kind <;> exact List.mem_map_of_mem (OrderedMap.mem_of_get? hj)
  | arr js => cases kind <;> exact List.mem_of_getElem? hj
  | null | bool | num | str => cases kind <;> cases hj

/-- The operations of a kind are read from their tree. -/
theorem decodeSet_setTree? (hn : os.Normal) (h : decode os = .ok o)
    (hj : setTree? kind os = some j) : decodeSet j = .ok (o.ofKind kind) := by
  cases os with
  | obj ms =>
    obtain ⟨hqueries, hmutations⟩ := read_eq_ok.1 (Reading.toExcept_eq_ok.1 h)
    have hd := (Json.normal_obj_iff.1 hn).1
    cases kind with
    | query => exact Members.defaulted_of_get? hd hqueries hj
    | mutation => exact Members.defaulted_of_get? hd hmutations hj
  | arr js =>
    obtain ⟨rfl, -⟩ | ⟨queries, rfl, hq, -⟩ | ⟨queries, mutations, rfl, hq, hm⟩ := ofItems_ok h
    · cases kind <;> cases hj
    · cases kind with
      | query =>
        cases hj
        exact hq
      | mutation => cases hj
    · cases kind with
      | query =>
        cases hj
        exact hq
      | mutation =>
        cases hj
        exact hm
  | null | bool | num | str => cases h

/-- The operations of a kind are declared. -/
theorem mem_declared {d : OperationDef} (h : (id, d) ∈ o.ofKind kind) :
    (kind, id, d) ∈ o.declared := by
  cases kind with
  | query => exact List.mem_append_left _ (List.mem_map.2 ⟨_, h, rfl⟩)
  | mutation => exact List.mem_append_right _ (List.mem_map.2 ⟨_, h, rfl⟩)

end RpcOperations

namespace RpcDocument

/-- The tree of the definition of an operation, in the tree of a description. -/
def definitionTree? (v : Json) (kind : OperationKind) (id : String) : Option Json :=
  ((v.member? "operations").bind (RpcOperations.setTree? kind)).bind (fun set => set.member? id)

variable {v j : Json} {d : RpcDocument} {kind : OperationKind} {id : String}

/-- What holds of every tree together with its parts holds of the definition if it holds of the
description. -/
theorem of_definitionTree? {P : Json → Prop} (hpart : ∀ v j : Json, P v → j ∈ v.parts → P j)
    (h : P v) (hj : definitionTree? v kind id = some j) : P j := by
  obtain ⟨set, hset, hj⟩ := Option.bind_eq_some_iff.1 hj
  obtain ⟨os, hos, hset⟩ := Option.bind_eq_some_iff.1 hset
  have hos : P os := hpart v os h (Json.mem_parts_of_member? hos)
  have hset : P set := hpart os set hos (RpcOperations.mem_parts_of_setTree? hset)
  exact hpart set j hset (Json.mem_parts_of_member? hj)

/-- The tree of a definition is in normal form if the tree of the description is. -/
theorem normal_of_definitionTree? (hn : v.Normal) (hj : definitionTree? v kind id = some j) :
    j.Normal :=
  of_definitionTree? (fun _ _ => Json.Normal.part) hn hj

/-- The tree of a definition has no nulls in it if the tree of the description has none. -/
theorem noNulls_of_definitionTree? (hn : v.NoNulls) (hj : definitionTree? v kind id = some j) :
    j.NoNulls :=
  of_definitionTree? (fun _ _ => Json.NoNulls.part) hn hj

/-- The definition of an operation is read from its tree. -/
theorem exists_definition (hn : v.Normal) (hd : decode v = .ok d)
    (hj : definitionTree? v kind id = some j) : ∃ definition,
      (kind, id, definition) ∈ d.operations.declared ∧ OperationDef.decode j = .ok definition := by
  obtain ⟨set, hsets, hid⟩ := Option.bind_eq_some_iff.1 hj
  obtain ⟨os, hos, hset⟩ := Option.bind_eq_some_iff.1 hsets
  have hnos := hn.of_member? hos
  obtain ⟨ms, rfl, hread⟩ := Decode.record_eq_ok.1 hd
  obtain ⟨-, -, -, hoperations, -⟩ := read_eq_ok.1 hread
  have hdecode := Members.defaulted_of_get? (Json.normal_obj_iff.1 hn).1 hoperations hos
  have hset' := RpcOperations.decodeSet_setTree? hnos hdecode hset
  have hnset : set.Normal := hnos.part (RpcOperations.mem_parts_of_setTree? hset)
  obtain ⟨definition, hget, hread⟩ := Decode.exists_get?_of_map hnset hset' hid
  exact ⟨definition, RpcOperations.mem_declared (OrderedMap.mem_of_get? hget), hread⟩

end RpcDocument

namespace OperationDef

variable {k : String}

/-- What is carried along of a definition is written as it was read. -/
theorem exists_get?_extras {j x : Json} {d : OperationDef} (hn : j.Normal) (hnulls : j.NoNulls)
    (hservers : ∀ ss ∈ j.valuesOf "servers", Server.Objects ss) (hd : decode j = .ok d)
    (hk : k ∉ fieldNames) (hx : j.member? k = some x) :
    ∃ x', OrderedMap.get? d.extras.members k = some x' ∧ x'.Similar (Server.keptAt k x) := by
  obtain ⟨ms, rfl, hread⟩ := Decode.record_eq_ok.1 hd
  obtain ⟨-, -, -, -, -, -, hextras⟩ := read_eq_ok.1 hread
  have hothers : ∀ ss ∈ Members.values ["servers"] (Members.others fieldNames ms),
      Server.Objects ss := by
    rw [Members.values_others (by decide)]
    exact hservers
  have hsame := OperationExtras.same_of_read (hn.others _) hothers (hnulls.others _) hextras
  refine hsame.exists_get?
    (Members.distinct_change.2 (Json.normal_obj_iff.1 (hn.others fieldNames)).1) ?_
  rw [Json.member?_obj] at hx
  rw [Members.get?_change, Members.get?_others hk, hx, Option.map_some]

/-- A generated operation has what is carried along of its definition. -/
theorem member?_assemble {id : String} {d : OperationDef} {split : SplitInput}
    {responses : Responses} (hk : k ∉ Operation.fieldNames)
    (hc : k ∉ OperationExtras.computedKeys) :
    (d.assemble id split responses).encode.member? k = OrderedMap.get? d.extras.members k := by
  have hextras : OrderedMap.get? d.extras.withoutComputed.members k
      = OrderedMap.get? d.extras.members k := by
    have hfilter : OrderedMap.get? (d.extras.extensions.filter
        (fun m => decide (m.1 ∉ OperationExtras.computedKeys))) k
          = OrderedMap.get? d.extras.extensions k := by
      rw [OrderedMap.get?_filter (fun k => decide (k ∉ OperationExtras.computedKeys)),
        if_pos (decide_eq_true hc)]
    simp only [OperationExtras.members, OperationExtras.withoutComputed, OrderedMap.get?_append,
      hfilter]
  simp only [Operation.fieldNames, List.mem_cons, List.not_mem_nil, or_false, not_or] at hk
  obtain ⟨h1, h2, h3, h4, h5⟩ := hk
  simp [Operation.encode, assemble, hextras, Ne.symm h1, Ne.symm h2, Ne.symm h3, Ne.symm h4,
    Ne.symm h5]

end OperationDef

/-- **What is written by hand and what a definition brings along is carried.** In a tree without
repeated keys and without `null` values, every member of a path that is written by hand, unless an
operation is declared for it, and every member of a definition that the compiler does not look into
itself stands in the result, up to the order of members and the members of servers that are no
declared fields. -/
theorem carried_compileResolving (resolver : Resolver) {v : Json} {d : RpcDocument}
    {out : OpenApiDocument} (hkeys : v.KeysDistinct) (hnumbers : v.NumbersFinite)
    (hnulls : v.NoNulls) (hd : RpcDocument.decode v = .ok d)
    (h : (compileResolving resolver d).result = .ok out) :
    let declared := d.operations.declared
    (∀ p item, v.at? ["paths", p] = some item → PathItem.Written item →
      ∀ k j, item.member? k = some j →
        (∀ e ∈ declared, Declaration.path e = p → (Declaration.method e).text ≠ k) →
        ∃ j', out.encode.at? ["paths", p, k] = some j' ∧ j'.Similar (PathItem.keptAt k j)) ∧
    ∀ kind id j, RpcDocument.definitionTree? v kind id = some j →
      ∃ definition, (kind, id, definition) ∈ declared ∧ OperationDef.decode j = .ok definition ∧
        ∀ p m, (declared.filter (fun e => Declaration.place e = (p, m))).getLast?
            = some (kind, id, definition) →
          (∀ ss ∈ j.valuesOf "servers", Server.Objects ss) → ∀ k x, j.member? k = some x →
            k ∉ ["description", "method", "path", "input", "output", "errors"] →
            k ∉ ["operationId", "parameters", "requestBody", "responses"] →
            ∃ x', out.encode.at? ["paths", p, m.text, k] = some x' ∧
              x'.Similar (Server.keptAt k x) := by
  have hn := Json.normal_of_keysDistinct hkeys hnumbers
  refine ⟨fun p item hitem hwritten k j hj hfree =>
    exists_at?_path hn hnulls hd h hitem hwritten hj hfree, fun kind id j hj => ?_⟩
  obtain ⟨definition, hmem, hdecode⟩ := RpcDocument.exists_definition hn hd hj
  refine ⟨definition, hmem, hdecode, fun p m hlast hservers k x hx hk hc => ?_⟩
  obtain ⟨x', hx', hsimilar⟩ := OperationDef.exists_get?_extras
    (RpcDocument.normal_of_definitionTree? hn hj) (RpcDocument.noNulls_of_definitionTree? hnulls hj)
    hservers hdecode hk hx
  obtain ⟨split, responses, -, -, hassemble⟩ :=
    compileOperation_ok (compileOperation_of_mem_declared h hmem)
  have hk' : k ∉ Operation.fieldNames := by
    intro hmem
    rcases List.mem_cons.1 hmem with rfl | hmem
    · exact hc (by decide)
    rcases List.mem_cons.1 hmem with rfl | hmem
    · exact hk (by decide)
    · exact hc (List.mem_cons_of_mem _ hmem)
  refine ⟨x', ?_, hsimilar⟩
  rw [OpenApiDocument.at?_operation, operation?_compileResolving h, hlast, Option.map_some,
    Option.some_or, Option.bind_some, Json.at?_singleton, hassemble,
    OperationDef.member?_assemble hk' hc, hx']

/-- An operation written by hand, with its responses before its tags. -/
def handwrittenOperation : Json :=
  .obj [("responses", .obj [("4XX", .obj [("description", .str "no")])]), ("tags", .arr [.str "a"])]

/-- A definition with an extension, and with a server that has one, too. -/
def extendedDefinition : Json :=
  .obj [("x-rank", .obj [("b", .str "2"), ("a", .str "1")]), ("path", .str "/items"),
    ("servers", .arr [.obj [("x-region", .str "near"), ("url", .str "https://near")]])]

/-- A service with a path that is written by hand and a query at the same path. -/
def sharingService : Json :=
  .obj
    [("yarpc", .str "1.0.0"), ("info", .obj [("title", .str "Sharing"), ("version", .str "1")]),
      ("operations", .obj [("queries", .obj [("find", extendedDefinition)])]),
      ("paths", .obj [("/items", .obj
        [("post", handwrittenOperation), ("summary", .str "Items")])])]

/-- In what the sharing service is compiled to stand the operation that is written by hand, and the
extension and the server of the definition, this one without its own extension. -/
theorem carried_sharingService : ∃ d out, RpcDocument.decode sharingService = .ok d ∧
    (compileResolving (Resolver.ofTable []) d).result = .ok out ∧
      (∃ j, out.encode.at? ["paths", "/items", "post"] = some j ∧
        j.Similar handwrittenOperation) ∧
      (∃ x, out.encode.at? ["paths", "/items", "get", "x-rank"] = some x ∧
        x.Similar (.obj [("b", .str "2"), ("a", .str "1")])) ∧
      ∃ ss, out.encode.at? ["paths", "/items", "get", "servers"] = some ss ∧
        ss.Similar (.arr [.obj [("url", .str "https://near")]]) := by
  have hoperation : Operation.Written handwrittenOperation :=
    ⟨by simp [handwrittenOperation, Json.valuesOf],
      by simp [handwrittenOperation, Json.valuesOf]⟩
  have hpath : PathItem.Written
      (.obj [("post", handwrittenOperation), ("summary", .str "Items")]) := by
    refine ⟨by simp [Json.valuesOf], fun m j hj => ?_⟩
    cases m <;> simp [Json.valuesOf, HttpMethod.text] at hj
    exact hj ▸ hoperation
  have hservers : ∀ ss ∈ extendedDefinition.valuesOf "servers", Server.Objects ss := by
    intro ss hss js hjs j hj
    cases List.mem_singleton.1 hss
    cases hjs
    exact ⟨_, List.mem_singleton.1 hj⟩
  refine ⟨_, _, rfl, rfl, ?_⟩
  obtain ⟨hpaths, hdefinitions⟩ := carried_compileResolving (Resolver.ofTable [])
    (v := sharingService) (by
      simp [sharingService, handwrittenOperation, extendedDefinition, Json.KeysDistinct,
        Json.ItemsKeysDistinct, Json.MembersKeysDistinct]) (by
      simp [sharingService, handwrittenOperation, extendedDefinition, Json.NumbersFinite,
        Json.ItemsNumbersFinite, Json.MembersNumbersFinite]) (by
      simp [sharingService, handwrittenOperation, extendedDefinition, Json.NoNulls,
        Json.ItemsNoNulls, Json.MembersNoNulls]) rfl rfl
  refine ⟨hpaths "/items" _ rfl hpath "post" _ rfl (by decide), ?_⟩
  obtain ⟨definition, hmem, -, hmembers⟩ := hdefinitions .query "find" _ rfl
  cases List.mem_singleton.1 hmem
  have hcarried := hmembers "/items" .get rfl hservers
  exact ⟨hcarried "x-rank" _ rfl (by decide) (by decide),
    hcarried "servers" _ rfl (by decide) (by decide)⟩

/-- A service with a path that is written by hand and has a server with an extension. -/
def regionalService : Json :=
  .obj
    [("yarpc", .str "1.0.0"), ("info", .obj [("title", .str "Regional"), ("version", .str "1")]),
      ("paths", .obj [("/items", .obj
        [("servers", .arr [.obj [("url", .str "https://near"), ("x-region", .str "near")]]),
          ("get", .obj [("responses", .obj [])])])])]

/-- The extension of the server is lost, although the tree of the regional service repeats no key
and has no `null`, its server is an object, its operation has responses and no operation is
declared. -/
theorem not_similar_regionalService : regionalService.KeysDistinct ∧
    regionalService.NumbersFinite ∧ regionalService.NoNulls ∧ ∃ d out servers servers',
      RpcDocument.decode regionalService = .ok d ∧ d.operations.declared = [] ∧
        (compile d).result = .ok out ∧
        regionalService.at? ["paths", "/items", "servers"] = some servers ∧
        out.encode.at? ["paths", "/items", "servers"] = some servers' ∧
        ¬servers'.Similar servers := by
  refine ⟨?_, ?_, ?_, _, _, _, _, rfl, rfl, rfl, rfl, rfl, fun h => ?_⟩
  · simp [regionalService, Json.KeysDistinct, Json.ItemsKeysDistinct, Json.MembersKeysDistinct]
  · simp [regionalService, Json.NumbersFinite, Json.ItemsNumbersFinite, Json.MembersNumbersFinite]
  · simp [regionalService, Json.NoNulls, Json.ItemsNoNulls, Json.MembersNoNulls]
  · cases h

end RpcOpenApi
