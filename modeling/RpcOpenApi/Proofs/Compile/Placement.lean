import RpcOpenApi.Proofs.Compile.Run

/-!
# Where operations end up

The paths of a compiled description, looked at one place at a time. Of the operations that are put
at one place the last one stays, and of a derived and a hand-written one the derived one
(`operationsAt_putAll`, `operationsAt_mergeAll`); what is common to the operations of a path comes
from the hand-written path alone (`fieldsAt_mergeAll`). Putting and merging add paths and methods
only at the end. `paths_compileResolving` is the sum of it: which operation, which fields and which
order the result of a run has, told from the description without the two passes.
-/

namespace RpcOpenApi

namespace PathItem

/-- What is common to the operations of a path. -/
def fields (item : PathItem) : PathItem := { item with operations := [] }

end PathItem

namespace Paths

section
variable {ps base derived : Paths} {p q : String} {m : HttpMethod} {o : Operation}

/-- What is common to the operations of a path; nothing if there is no such path. -/
def fieldsAt (ps : Paths) (p : String) : PathItem := ((ps.get? p).getD {}).fields

/-- The paths are a map, and so are the operations of each path. -/
structure WellKeyed (ps : Paths) : Prop where
  paths : OrderedMap.Distinct ps
  operations : ∀ e ∈ ps, OrderedMap.Distinct e.2.operations

@[simp] theorem operationsAt_nil (p : String) : operationsAt [] p = [] := rfl

/-- The operations of a path are those of its first entry. -/
theorem operationsAt_cons (e : String × PathItem) (ps : Paths) (p : String) :
    operationsAt (e :: ps) p = if e.1 = p then e.2.operations else operationsAt ps p := by
  by_cases h : e.1 = p <;> simp [operationsAt, OrderedMap.get?, h]

/-- Setting a path sets its operations, and no others. -/
theorem operationsAt_insert (ps : Paths) (p q : String) (item : PathItem) :
    operationsAt (ps.insert p item) q = if p = q then item.operations else operationsAt ps q := by
  by_cases h : p = q <;> simp [operationsAt, h]

/-- Setting a path sets its fields, and no others. -/
theorem fieldsAt_insert (ps : Paths) (p q : String) (item : PathItem) :
    fieldsAt (ps.insert p item) q = if p = q then item.fields else fieldsAt ps q := by
  by_cases h : p = q <;> simp [fieldsAt, h]

/-- A path that is none of the paths has no operations. -/
theorem operationsAt_of_notMem (h : p ∉ ps.keys) : operationsAt ps p = [] := by
  rw [operationsAt, OrderedMap.get?_eq_none_iff.2 h]

/-- A path that is found has the fields at its name. -/
theorem fieldsAt_of_get? {item : PathItem} (h : ps.get? p = some item) :
    fieldsAt ps p = item.fields := by
  rw [fieldsAt, h]
  rfl

/-- Without the first path, well-keyed paths are well-keyed. -/
theorem WellKeyed.tail {e : String × PathItem} (h : WellKeyed (e :: ps)) : WellKeyed ps :=
  ⟨(List.nodup_cons.1 h.paths).2, fun e he => h.operations e (.tail _ he)⟩

/-- The operations of a path of a well-keyed map are a map. -/
theorem WellKeyed.operationsAt (h : WellKeyed ps) (p : String) :
    OrderedMap.Distinct (ps.operationsAt p) := by
  rw [Paths.operationsAt]
  split
  · next item hitem => exact h.operations _ (OrderedMap.mem_of_get? hitem)
  · exact List.nodup_nil

/-! ## Putting operations -/

/-- The operations at a path are those of the item found, or none. -/
theorem operations_getD (ps : Paths) (p : String) :
    ((ps.get? p).getD {}).operations = operationsAt ps p := by
  rw [operationsAt]
  cases ps.get? p <;> rfl

/-- Putting an operation changes the operations of its path only. -/
theorem operationsAt_put (ps : Paths) (p : String) (m : HttpMethod) (o : Operation) (q : String) :
    operationsAt (ps.put p m o) q
      = if p = q then (operationsAt ps q).insert m o else operationsAt ps q := by
  rw [put, operationsAt_insert, operations_getD]
  split
  · next h => rw [h]
  · rfl

/-- Putting an operation keeps what is common to the operations of each path. -/
theorem fieldsAt_put (ps : Paths) (p : String) (m : HttpMethod) (o : Operation) (q : String) :
    fieldsAt (ps.put p m o) q = fieldsAt ps q := by
  rw [put, fieldsAt_insert]
  split
  · next h => rw [← h]; rfl
  · rfl

/-- After operations have been put, the operations of a path are the old ones and then those put at
the path. -/
theorem operationsAt_putAll (ps : Paths) (es : List (String × HttpMethod × Operation))
    (p : String) :
    operationsAt (ps.putAll es) p
      = (operationsAt ps p).insertAll ((es.filter (fun e => e.1 = p)).map Prod.snd) := by
  induction es generalizing ps with
  | nil => rfl
  | cons e es ih =>
    rw [putAll_cons, ih, operationsAt_put, List.filter_cons]
    by_cases h : e.1 = p
    · simp [h]
    · simp [h]

/-- Putting operations changes no field of a path. -/
theorem fieldsAt_putAll (ps : Paths) (es : List (String × HttpMethod × Operation)) (p : String) :
    fieldsAt (ps.putAll es) p = fieldsAt ps p := by
  induction es generalizing ps with
  | nil => rfl
  | cons e es ih => rw [putAll_cons, ih, fieldsAt_put]

/-- Paths are added at the end in the order in which operations are first put at them. -/
theorem keys_putAll (ps : Paths) (es : List (String × HttpMethod × Operation)) :
    OrderedMap.keys (ps.putAll es)
      = ps.keys ++ ((es.map Prod.fst).filter (fun p => p ∉ ps.keys)).eraseDups :=
  OrderedMap.keys_foldl (fun ps (e : String × HttpMethod × Operation) =>
    OrderedMap.keys_insert ps e.1 _) ps es

/-- No paths are well-keyed. -/
theorem WellKeyed.nil : WellKeyed [] := ⟨List.nodup_nil, fun _ h => nomatch h⟩

/-- Putting an operation keeps paths well-keyed. -/
theorem WellKeyed.put (h : WellKeyed ps) : WellKeyed (ps.put p m o) := by
  refine ⟨h.paths.insert, fun e he => ?_⟩
  rcases OrderedMap.mem_insert he with rfl | he
  · show OrderedMap.Distinct (((ps.get? p).getD {}).operations.insert m o)
    rw [operations_getD]
    exact (h.operationsAt p).insert
  · exact h.operations e he

/-- Putting operations one after the other keeps paths well-keyed. -/
theorem WellKeyed.putAll {es : List (String × HttpMethod × Operation)} (h : WellKeyed ps) :
    WellKeyed (ps.putAll es) := by
  induction es generalizing ps with
  | nil => exact h
  | cons e es ih => exact ih h.put

/-! ## Merging paths -/

/-- Adding a derived path sets this path to one whose operations are the base's and then the derived
ones. If nothing but operations is known of the derived path, what is common to them stays. -/
theorem mergePath_eq_insert (base : Paths) (p : String) {item : PathItem}
    (h : OrderedMap.Distinct item.operations) : ∃ merged,
      mergePath base p item = base.insert p merged ∧
      merged.operations = (operationsAt base p).insertAll item.operations ∧
      (item.fields = {} → merged.fields = fieldsAt base p) := by
  rw [mergePath, operationsAt, fieldsAt]
  cases base.get? p with
  | none => exact ⟨item, rfl, h.ofPairs_eq.symm, id⟩
  | some present => exact ⟨_, rfl, rfl, fun _ => rfl⟩

/-- A derived path is added at the end, unless it is there. -/
theorem keys_mergePath (base : Paths) (p : String) (item : PathItem) :
    OrderedMap.keys (mergePath base p item)
      = if p ∈ base.keys then base.keys else base.keys ++ [p] := by
  rw [mergePath]
  split <;> exact OrderedMap.keys_insert ..

/-- Adding a derived path changes the operations of this path only, and there the derived ones
win. -/
theorem operationsAt_mergePath (base : Paths) (p : String) {item : PathItem}
    (h : OrderedMap.Distinct item.operations) (q : String) :
    operationsAt (mergePath base p item) q
      = if p = q then (operationsAt base q).insertAll item.operations
        else operationsAt base q := by
  obtain ⟨merged, heq, hops, -⟩ := mergePath_eq_insert base p h
  rw [heq, operationsAt_insert, hops]
  split
  · next hq => rw [hq]
  · rfl

/-- Adding a derived path of which nothing but operations is known keeps what is common to the
operations of each path. -/
theorem fieldsAt_mergePath (base : Paths) (p : String) {item : PathItem}
    (h : OrderedMap.Distinct item.operations) (hitem : item.fields = {}) (q : String) :
    fieldsAt (mergePath base p item) q = fieldsAt base q := by
  obtain ⟨merged, heq, -, hfields⟩ := mergePath_eq_insert base p h
  rw [heq, fieldsAt_insert, hfields hitem]
  split
  · next hq => rw [hq]
  · rfl

/-- After merging, the operations of a path are the base's and then the derived ones. -/
theorem operationsAt_mergeAll (base : Paths) (h : WellKeyed derived) (p : String) :
    operationsAt (base.mergeAll derived) p
      = (operationsAt base p).insertAll (operationsAt derived p) := by
  induction derived generalizing base with
  | nil => rfl
  | cons e derived ih =>
    obtain ⟨hnew, -⟩ := List.nodup_cons.1 h.paths
    rw [mergeAll_cons, ih _ h.tail, operationsAt_mergePath _ _ (h.operations e (.head _)),
      operationsAt_cons]
    split
    · next hp =>
      -- the path occurs once, so the rest of the derived paths adds nothing to it
      have hnone : operationsAt derived p = [] := operationsAt_of_notMem (hp ▸ hnew)
      rw [hnone, OrderedMap.insertAll_nil]
    · rfl

/-- Merging paths of which nothing but operations is known keeps what is common to the operations of
each path. -/
theorem fieldsAt_mergeAll (base : Paths) (h : WellKeyed derived)
    (hfields : ∀ e ∈ derived, e.2.fields = {}) (p : String) :
    fieldsAt (base.mergeAll derived) p = fieldsAt base p := by
  induction derived generalizing base with
  | nil => rfl
  | cons e derived ih =>
    rw [mergeAll_cons, ih _ h.tail (fun e he => hfields e (.tail _ he)),
      fieldsAt_mergePath _ _ (h.operations e (.head _)) (hfields e (.head _))]

/-- After merging, a derived operation stands at its place, and elsewhere what was there. -/
theorem operation?_mergeAll (base : Paths) (h : WellKeyed derived) (p : String) (m : HttpMethod) :
    (base.mergeAll derived).operation? p m
      = (derived.operation? p m).or (base.operation? p m) := by
  rw [operation?, operationsAt_mergeAll base h, (h.operationsAt p).get?_insertAll]
  rfl

/-- Derived paths are added at the end, in their order. -/
theorem keys_mergeAll (base derived : Paths) :
    OrderedMap.keys (base.mergeAll derived)
      = base.keys ++ (derived.keys.filter (fun p => p ∉ base.keys)).eraseDups :=
  OrderedMap.keys_foldl (fun base (e : String × PathItem) => keys_mergePath base e.1 e.2) base
    derived

end

end Paths

/-! ## Properties that all paths have -/

/-- What is common to the operations of the path has a property, and each of them, under a method of
its own, has another one. -/
structure PathItem.Has (F : PathItem → Prop) (O : Operation → Prop) (item : PathItem) : Prop where
  fields : F item.fields
  operations : MapOf O item.operations

namespace Paths

/-- Every path has the properties. -/
abbrev Has (F : PathItem → Prop) (O : Operation → Prop) (ps : Paths) : Prop :=
  MapOf (PathItem.Has F O) ps

section
variable {F : PathItem → Prop} {O : Operation → Prop} {ps base derived : Paths} {p : String}
  {o : Operation}

/-- What all paths have, a path that is missing has as well, if a new one has it. -/
theorem has_getD (hF : F {}) (h : ps.Has F O) (p : String) :
    ((ps.get? p).getD {}).Has F O := by
  cases hp : ps.get? p with
  | none => exact ⟨hF, .nil⟩
  | some item => exact h.values _ (OrderedMap.mem_of_get? hp)

/-- Putting an operation that has the property keeps the properties of the paths. -/
theorem has_put (hF : F {}) (h : ps.Has F O) {method : HttpMethod} (ho : O o) :
    (ps.put p method o).Has F O := by
  have hitem := has_getD hF h p
  exact MapOf.insert h ⟨hitem.fields, hitem.operations.insert ho⟩

/-- Putting operations with a property keeps what all paths have. -/
theorem has_putAll (hF : F {}) (h : ps.Has F O) {es : List (String × HttpMethod × Operation)}
    (hes : ∀ e ∈ es, O e.2.2) : (ps.putAll es).Has F O := by
  induction es generalizing ps with
  | nil => exact h
  | cons e es ih =>
    obtain ⟨he, hes⟩ := List.forall_mem_cons.1 hes
    exact ih (has_put hF h he) hes

/-- Adding a derived path that has the properties keeps those of the paths. -/
theorem has_mergePath (h : base.Has F O) {item : PathItem} (hitem : item.Has F O) :
    (mergePath base p item).Has F O := by
  rw [mergePath]
  split
  · exact MapOf.insert h hitem
  · next present hp =>
    have hpresent := h.values _ (OrderedMap.mem_of_get? hp)
    exact MapOf.insert h ⟨hpresent.fields, hpresent.operations.insertAll hitem.operations⟩

/-- Merging paths keeps what all of them have. -/
theorem has_mergeAll (h : base.Has F O) (hderived : ∀ e ∈ derived, e.2.Has F O) :
    (base.mergeAll derived).Has F O := by
  induction derived generalizing base with
  | nil => exact h
  | cons e derived ih =>
    obtain ⟨he, hderived⟩ := List.forall_mem_cons.1 hderived
    exact ih (has_mergePath h he) hderived

end

end Paths

/-- The paths of a result have the properties if those written by hand do and every declared
operation is compiled to one with the property. -/
theorem has_paths_compileResolving {F : PathItem → Prop} {O : Operation → Prop}
    {resolver : Resolver} {d : RpcDocument} {out : OpenApiDocument} (hF : F {})
    (hwritten : ∀ ps ∈ d.paths, ps.Has F O)
    (hdeclared : ∀ e ∈ d.operations.declared, ∀ o,
      (compileOperation resolver e.1 e.2.1 e.2.2).result = .ok o → O o)
    (h : (compileResolving resolver d).result = .ok out) : out.paths.Has F O := by
  obtain ⟨-, hderive, rfl, -⟩ := compileWith_ok h
  obtain ⟨hall, -⟩ := deriveInto_ok hderive
  have hderived : (derivedPaths (compileOperation resolver) d.operations.declared).Has F O :=
    Paths.has_putAll hF .nil
      (List.forall_mem_map.2 fun e he => hdeclared e he _ (hall e he))
  refine Paths.has_mergeAll ?_ hderived.values
  cases hpaths : d.paths with
  | none => exact .nil
  | some ps => exact hwritten ps hpaths

/-! ## Derived paths -/

section
variable (compile : OperationCompiler)

/-- Derived paths are well-keyed. -/
theorem wellKeyed_derivedPaths (es : List Declaration) : (derivedPaths compile es).WellKeyed :=
  Paths.WellKeyed.nil.putAll

/-- The operations derived for a path are those declared for it, in order. -/
theorem operationsAt_derivedPaths (es : List Declaration) (p : String) :
    (derivedPaths compile es).operationsAt p
      = OrderedMap.ofPairs ((es.filter (fun e => Declaration.path e = p)).map
          (fun e => (Declaration.method e, Declaration.compiled compile e))) := by
  rw [derivedPaths, Paths.operationsAt_putAll, List.filter_map, List.map_map]
  rfl

/-- Paths are derived in the order in which they are first declared. -/
theorem keys_derivedPaths (es : List Declaration) :
    (derivedPaths compile es).keys = (es.map Declaration.path).eraseDups := by
  rw [derivedPaths, Paths.keys_putAll, List.map_map]
  simp
  rfl

/-- Nothing but operations is derived for a path. -/
theorem fields_of_mem_derivedPaths {es : List Declaration} :
    ∀ e ∈ derivedPaths compile es, e.2.fields = {} := by
  intro e he
  have hget := (wellKeyed_derivedPaths compile es).paths.get?_of_mem he
  rw [← Paths.fieldsAt_of_get? hget, derivedPaths, Paths.fieldsAt_putAll]
  rfl

/-- The operation derived for a place is that of the last declaration for it. -/
theorem operation?_derivedPaths (es : List Declaration) (p : String) (m : HttpMethod) :
    (derivedPaths compile es).operation? p m
      = (es.filter (fun e => Declaration.place e = (p, m))).getLast?.map
          (Declaration.compiled compile) := by
  rw [Paths.operation?, operationsAt_derivedPaths, OrderedMap.get?_ofPairs, List.filter_map,
    List.getLast?_map, List.filter_filter, Option.map_map]
  congr 3
  funext e
  simp [Declaration.place, and_comm]

end

/-! ## The paths of a result -/

section
variable {resolver : Resolver} {d : RpcDocument} {out : OpenApiDocument}

/-- In a successful run every declared operation is compiled. -/
theorem compileOperation_of_mem_declared (h : (compileResolving resolver d).result = .ok out)
    {e : Declaration} (he : e ∈ d.operations.declared) :
    (compileOperation resolver e.1 e.2.1 e.2.2).result
      = .ok (e.compiled (compileOperation resolver)) := by
  obtain ⟨-, hderived, -⟩ := compileWith_ok h
  exact (deriveInto_ok hderived).1 e he

/-- At a place stands the operation of the last declaration for it, else what is written there. -/
theorem operation?_compileResolving (h : (compileResolving resolver d).result = .ok out)
    (p : String) (m : HttpMethod) : out.paths.operation? p m
      = ((d.operations.declared.filter (fun e => Declaration.place e = (p, m))).getLast?.map
          (Declaration.compiled (compileOperation resolver))).or
        ((d.paths.getD []).operation? p m) := by
  obtain ⟨-, -, hout, -⟩ := compileWith_ok h
  rw [hout, Paths.operation?_mergeAll _ (wellKeyed_derivedPaths _ _), operation?_derivedPaths]

/-- What is common to the operations of a path is what is written of it. -/
theorem fieldsAt_compileResolving (h : (compileResolving resolver d).result = .ok out)
    (p : String) : out.paths.fieldsAt p = (d.paths.getD []).fieldsAt p := by
  obtain ⟨-, -, hout, -⟩ := compileWith_ok h
  rw [hout, Paths.fieldsAt_mergeAll _ (wellKeyed_derivedPaths _ _) (fields_of_mem_derivedPaths _)]

end

/-- **Which operation, which fields and which order the paths of a result have.** At a place stands
the operation of the last declaration for it, else the hand-written one, if any. A path is
hand-written or declared, and what is common to its operations is what is written by hand. First
come the hand-written paths, and within a path the hand-written methods, in their order; new ones
follow in the order in which they are first declared. -/
theorem paths_compileResolving (resolver : Resolver) (d : RpcDocument) (out : OpenApiDocument)
    (h : (compileResolving resolver d).result = .ok out) :
    let declared := d.operations.declared
    let written := d.paths.getD []
    (∀ p m, match (declared.filter (fun e => Declaration.place e = (p, m))).getLast? with
      | some (kind, id, definition) => ∃ o,
        (compileOperation resolver kind id definition).result = .ok o ∧
          out.paths.operation? p m = some o
      | none => out.paths.operation? p m = written.operation? p m) ∧
    (∀ p, p ∈ out.paths.keys ↔ p ∈ written.keys ∨ ∃ e ∈ declared, Declaration.path e = p) ∧
    (∀ p item, out.paths.get? p = some item →
      let common := (written.get? p).getD {}
      item.summary = common.summary ∧ item.description = common.description ∧
        item.parameters = common.parameters ∧ item.servers = common.servers) ∧
    out.paths.keys = written.keys
      ++ ((declared.map Declaration.path).filter (fun p => p ∉ written.keys)).eraseDups ∧
    ∀ p, (out.paths.operationsAt p).keys = (written.operationsAt p).keys
      ++ (((declared.filter (fun e => Declaration.path e = p)).map Declaration.method).filter
          (fun m => m ∉ (written.operationsAt p).keys)).eraseDups := by
  intro declared written
  obtain ⟨-, hderived, hout, -⟩ := compileWith_ok h
  obtain ⟨hall, -⟩ := deriveInto_ok hderived
  have hpaths : out.paths
      = written.mergeAll (derivedPaths (compileOperation resolver) declared) := by
    rw [hout]
  have hkeys : out.paths.keys = written.keys
      ++ ((declared.map Declaration.path).filter (fun p => p ∉ written.keys)).eraseDups := by
    rw [hpaths, Paths.keys_mergeAll, keys_derivedPaths, OrderedMap.eraseDups_filter_eraseDups]
  refine ⟨fun p m => ?_, fun p => ?_, fun p item hitem => ?_, hkeys, fun p => ?_⟩
  · rw [hpaths, Paths.operation?_mergeAll _ (wellKeyed_derivedPaths _ _), operation?_derivedPaths]
    split
    · next kind id definition hlast =>
      rw [hlast]
      exact ⟨_, hall _ (List.mem_of_mem_filter (List.mem_of_getLast? hlast)), rfl⟩
    · next hlast =>
      rw [hlast]
      rfl
  · rw [hkeys, List.mem_append, List.mem_eraseDups, List.mem_filter, List.mem_map,
      decide_eq_true_eq]
    tauto
  · -- merging keeps the fields of a hand-written item, and a derived one has none of its own
    have hfields : item.fields = written.fieldsAt p := by
      rw [← Paths.fieldsAt_of_get? hitem, hpaths,
        Paths.fieldsAt_mergeAll _ (wellKeyed_derivedPaths _ _) (fields_of_mem_derivedPaths _)]
    injection hfields with h1 h2 h3 h4
    exact ⟨h1, h2, h3, h4⟩
  · rw [hpaths, Paths.operationsAt_mergeAll _ (wellKeyed_derivedPaths _ _),
      OrderedMap.keys_insertAll, operationsAt_derivedPaths, OrderedMap.keys_ofPairs,
      OrderedMap.keys_map, OrderedMap.eraseDups_filter_eraseDups]

/-- Two queries for one place, a mutation for a hand-written one, and a mutation with a path of its
own. -/
def collidingService : RpcDocument where
  yarpc := some (.str "1.0.0")
  info := Info.titled "Colliding" "1"
  operations :=
    { queries := [("first", { path := some "/x" }), ("second", { path := some "/x" })]
      mutations := [("third", { path := some "/x" }), ("fourth", {})] }
  paths := some
    [("/h", PathItem.single .get { operationId := some "own" }),
      ("/x",
        { summary := some "X"
          operations := [(.post, { operationId := some "old" }), (.patch, {})] })]

/-- In the colliding service the second query and the third operation win, the hand-written `patch`
stays, and the new method and the new path come last. -/
theorem paths_collidingService : ∃ out,
    (compileResolving (Resolver.ofTable []) collidingService).result = .ok out ∧
      out.paths.keys = ["/h", "/x", "/mutations/fourth"] ∧
      (out.paths.operationsAt "/x").keys = [.post, .patch, .get] ∧
      (∃ o, (compileOperation (Resolver.ofTable []) .query "second"
        { path := some "/x" }).result = .ok o ∧ out.paths.operation? "/x" .get = some o) ∧
      out.paths.operation? "/x" .patch = some {} ∧
      ∀ item, out.paths.get? "/x" = some item → item.summary = some "X" := by
  refine ⟨_, rfl, ?_⟩
  obtain ⟨hop, -, hcommon, hkeys, hmethods⟩ :=
    paths_compileResolving (Resolver.ofTable []) collidingService _ rfl
  exact ⟨hkeys.trans (by decide), (hmethods "/x").trans (by decide), hop "/x" .get,
    hop "/x" .patch, fun item h => (hcommon _ _ h).1⟩

end RpcOpenApi
