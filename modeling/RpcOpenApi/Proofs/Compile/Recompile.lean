import RpcOpenApi.Proofs.Compile.Warnings

/-!
# Compiling again over generated paths

The paths of a result can be given back to the description as its hand-written ones. Compiling it
again then changes nothing (`compileResolving_again`): every derived operation finds its own earlier
result at its place, so putting it there leaves the paths as they are. In terms of maps, inserting
entries that a map has already gives the map itself (`OrderedMap.insertAll_eq_self`), and the paths
of a result have every derived operation (`Paths.mergeAll_mergeAll`). What the second run does
report is that each derived path replaces all methods that are derived for it.
-/

namespace RpcOpenApi

namespace OrderedMap

variable {κ ν : Type} [DecidableEq κ] {m : OrderedMap κ ν} {k : κ} {v : ν} {es : List (κ × ν)}

/-- Inserting the value that a key has already changes nothing. -/
theorem insert_eq_self (h : get? m k = some v) : insert m k v = m := by
  induction m with
  | nil => cases h
  | cons e m ih =>
    obtain ⟨k', v'⟩ := e
    rw [get?_cons] at h
    rw [insert]
    by_cases hk : k' = k
    · subst hk
      rw [if_pos rfl] at h
      cases h
      rw [if_pos rfl]
    · rw [if_neg hk] at h
      rw [if_neg hk, ih h]

/-- Inserting entries that a map has already changes nothing. -/
theorem insertAll_eq_self (h : ∀ e ∈ es, get? m e.1 = some e.2) : insertAll m es = m := by
  induction es with
  | nil => rfl
  | cons e es ih =>
    obtain ⟨he, hes⟩ := List.forall_mem_cons.1 h
    rw [insertAll_cons, insert_eq_self he, ih hes]

/-- Inserting the entries of a map a second time changes nothing. -/
theorem Distinct.insertAll_insertAll (h : Distinct es) (m : OrderedMap κ ν) :
    OrderedMap.insertAll (OrderedMap.insertAll m es) es = OrderedMap.insertAll m es := by
  refine insertAll_eq_self fun e he => ?_
  rw [h.get?_insertAll, h.get?_of_mem he]
  rfl

end OrderedMap

/-! ## Merging a second time -/

namespace Paths

variable {base derived : Paths}

/-- The operations of an entry of well-keyed paths are those at its path. -/
theorem WellKeyed.operationsAt_of_mem (h : WellKeyed derived) {e : String × PathItem}
    (he : e ∈ derived) : Paths.operationsAt derived e.1 = e.2.operations := by
  rw [Paths.operationsAt, h.paths.get?_of_mem he]

/-- Paths that have all operations of the derived ones are not changed by merging these. -/
theorem mergeAll_eq_self (h : ∀ e ∈ derived, ∃ present, base.get? e.1 = some present ∧
    present.operations.insertAll e.2.operations = present.operations) :
    base.mergeAll derived = base := by
  induction derived with
  | nil => rfl
  | cons e derived ih =>
    obtain ⟨he, hderived⟩ := List.forall_mem_cons.1 h
    obtain ⟨present, hget, hops⟩ := he
    have hstep : mergePath base e.1 e.2 = base := by
      rw [mergePath, hget]
      simp only [hops]
      exact OrderedMap.insert_eq_self hget
    rw [mergeAll_cons, hstep, ih hderived]

/-- Merged paths have every derived path, with all of its operations. -/
theorem exists_get?_mergeAll (base : Paths) (h : WellKeyed derived) {e : String × PathItem}
    (he : e ∈ derived) : ∃ present, (base.mergeAll derived).get? e.1 = some present ∧
      present.operations = (base.operationsAt e.1).insertAll e.2.operations := by
  have hkey : e.1 ∈ OrderedMap.keys (base.mergeAll derived) := by
    have hmem : e.1 ∈ derived.keys := List.mem_map_of_mem he
    rw [keys_mergeAll, List.mem_append, List.mem_eraseDups, List.mem_filter, decide_eq_true_eq]
    by_cases hbase : e.1 ∈ base.keys
    · exact .inl hbase
    · exact .inr ⟨hmem, hbase⟩
  obtain ⟨present, hget⟩ := Option.isSome_iff_exists.1 (OrderedMap.isSome_get?_iff.2 hkey)
  have hops : (base.mergeAll derived).operationsAt e.1 = present.operations := by
    rw [Paths.operationsAt, hget]
  refine ⟨present, hget, ?_⟩
  rw [← hops, operationsAt_mergeAll base h, h.operationsAt_of_mem he]

/-- Merging the same paths a second time changes nothing. -/
theorem mergeAll_mergeAll (base : Paths) (h : WellKeyed derived) :
    (base.mergeAll derived).mergeAll derived = base.mergeAll derived := by
  refine mergeAll_eq_self fun e he => ?_
  obtain ⟨present, hget, hops⟩ := exists_get?_mergeAll base h he
  refine ⟨present, hget, ?_⟩
  rw [hops, (h.operations e he).insertAll_insertAll]

/-- Merging a path that the paths have with all of its methods is due one notice, which names all of
them. -/
theorem mergeNotice_mergeAll (base : Paths) (h : WellKeyed derived) {e : String × PathItem}
    (he : e ∈ derived) (hne : e.2.operations ≠ []) :
    mergeNotice (base.mergeAll derived) e.1 e.2 = [.overwritten e.1 e.2.operations.keys] := by
  have hshared : sharedMethods ((base.mergeAll derived).operationsAt e.1) e.2.operations
      = e.2.operations.keys := by
    refine List.filter_eq_self.2 fun m hm => ?_
    rw [operationsAt_mergeAll base h, h.operationsAt_of_mem he, OrderedMap.contains,
      (h.operations e he).get?_insertAll, Option.isSome_or, OrderedMap.isSome_get?_iff.2 hm,
      Bool.true_or]
  have hkeys : e.2.operations.keys.isEmpty = false := by
    rwa [List.isEmpty_eq_false_iff, OrderedMap.keys, ne_eq, List.map_eq_nil_iff]
  rw [mergeNotice, hshared, hkeys]
  rfl

end Paths

/-! ## The second run -/

section
variable {compile : OperationCompiler}

/-- If the version is the supported one and the declared operations can be derived, the run
succeeds. -/
theorem compileWith_of_derivePaths {d : RpcDocument} {derived : Paths}
    (hv : checkVersion d.version = .ok ())
    (hd : (derivePaths compile d.operations).result = .ok derived) :
    (compileWith compile d).result = .ok
      { openapi := OpenApiDocument.generatedVersion
        info := d.info
        paths := (d.paths.getD []).mergeAll derived
        components := d.components
        extra := d.extra.erase openapiKey } := by
  rw [compileWith]
  exact Logged.result_bind_eq_ok.2 ⟨(), hv, Logged.result_bind_eq_ok.2 ⟨derived, hd,
    Logged.result_bind_eq_ok.2 ⟨_, (mergePaths_ok _ derived).1,
      Logged.result_bind_eq_ok.2 ⟨_, rfl, rfl⟩⟩⟩⟩

/-- Every derived path has an operation. -/
theorem operations_ne_nil_of_mem_derivedPaths {es : List Declaration} {e : String × PathItem}
    (he : e ∈ derivedPaths compile es) : e.2.operations ≠ [] := by
  have hkey : e.1 ∈ (derivedPaths compile es).keys := List.mem_map_of_mem he
  rw [keys_derivedPaths, List.mem_eraseDups, List.mem_map] at hkey
  obtain ⟨declared, hmem, hpath⟩ := hkey
  have hplace : (e.1, Declaration.method declared) ∈ es.map Declaration.place :=
    List.mem_map.2 ⟨declared, hmem, by rw [Declaration.place, hpath]⟩
  have hsome : ((derivedPaths compile es).operation? e.1 (Declaration.method declared)).isSome :=
    (isSome_operation?_derivedPaths es _ _).2 hplace
  rw [Paths.operation?, (wellKeyed_derivedPaths compile es).operationsAt_of_mem he] at hsome
  intro hnil
  rw [hnil] at hsome
  cases hsome

/-- The methods of a derived path are those that are declared for it. -/
theorem keys_operations_of_mem_derivedPaths {es : List Declaration} {e : String × PathItem}
    (he : e ∈ derivedPaths compile es) : e.2.operations.keys = declaredMethods es e.1 := by
  rw [← (wellKeyed_derivedPaths compile es).operationsAt_of_mem he, operationsAt_derivedPaths,
    OrderedMap.keys_ofPairs, OrderedMap.keys_map]
  rfl

/-- Merging derived paths into paths that have them all warns of each of them once, and names all
methods that are declared for it. -/
theorem warnings_mergePaths_mergeAll (written : Paths) (es : List Declaration) :
    (mergePaths (written.mergeAll (derivedPaths compile es)) (derivedPaths compile es)).warnings
      = ((es.map Declaration.path).eraseDups.map
          (fun p => (⟨p, declaredMethods es p⟩ : Replacement))).map Replacement.notice := by
  have hwell := wellKeyed_derivedPaths compile es
  rw [(mergePaths_ok _ _).2, warnings_mergeInto _ hwell, ← keys_derivedPaths compile,
    OrderedMap.keys, List.map_map, List.map_map, List.map_eq_flatMap]
  refine List.flatMap_congr fun e he => ?_
  rw [Paths.mergeNotice_mergeAll written hwell he (operations_ne_nil_of_mem_derivedPaths he),
    keys_operations_of_mem_derivedPaths he]
  rfl

end

/-- **Compiling over generated paths changes nothing.** If the paths of a result are given to the
description as its hand-written ones, the same result is compiled from it. In this second run
merging warns of each derived path once, in the order in which they are derived, and logs it with
all methods that are derived for it; the other warnings are those of deriving the paths, as in the
first run. -/
theorem compileResolving_again (resolver : Resolver) (d : RpcDocument) (out : OpenApiDocument)
    (h : (compileResolving resolver d).result = .ok out) :
    let declared := d.operations.declared
    let derivation := derivePaths (compileOperation resolver) d.operations
    let again := { d with paths := some out.paths }
    let replaced : List Replacement :=
      (declared.map Declaration.path).eraseDups.map (fun p => ⟨p, declaredMethods declared p⟩)
    (compileResolving resolver again).result = .ok out ∧
    ∃ derived, derivation.result = .ok derived ∧
      (mergePaths out.paths derived).log.filter Notice.isWarning
        = replaced.map Replacement.notice ∧
      ((mergePaths out.paths derived).log.filter Notice.isWarning).map
          (fun n => (n.message, n.context)) = replaced.map Replacement.logged ∧
      (compileResolving resolver again).log.filter Notice.isWarning
        = derivation.log.filter Notice.isWarning
          ++ (mergePaths out.paths derived).log.filter Notice.isWarning := by
  intro declared derivation again replaced
  obtain ⟨hv, hderive, rfl, -⟩ := compileWith_ok h
  let written := d.paths.getD []
  let derived := derivedPaths (compileOperation resolver) declared
  have hpaths : (again.paths.getD []).mergeAll derived = written.mergeAll derived :=
    Paths.mergeAll_mergeAll written (wellKeyed_derivedPaths _ declared)
  have hsecond := compileWith_of_derivePaths (d := again) hv hderive
  rw [hpaths] at hsecond
  obtain ⟨-, -, -, hwarn⟩ := compileWith_ok hsecond
  rw [← (mergePaths_ok _ _).2] at hwarn
  have hmerge : (mergePaths (written.mergeAll derived) derived).warnings
      = replaced.map Replacement.notice := warnings_mergePaths_mergeAll written declared
  refine ⟨hsecond, derived, hderive, hmerge, ?_, hwarn⟩
  rw [← Replacement.map_notice, ← hmerge]
  rfl

/-- The colliding service is compiled to the same result over its generated paths. Of the warnings
of the second run the first is due to the two queries for one place, as before; the others say that
both derived paths replace all of their methods. -/
theorem collidingService_again : ∃ out,
    (compileResolving (Resolver.ofTable []) collidingService).result = .ok out ∧
      (compileResolving (Resolver.ofTable [])
          { collidingService with paths := some out.paths }).result = .ok out ∧
      (compileResolving (Resolver.ofTable [])
          { collidingService with paths := some out.paths }).log.filter Notice.isWarning
        = [.overwritten "/x" [.get], .overwritten "/x" [.get, .post],
            .overwritten "/mutations/fourth" [.post]] ∧
      ((mergePaths out.paths (derivedPaths (compileOperation (Resolver.ofTable []))
          collidingService.operations.declared)).log.filter Notice.isWarning).map
            (fun n => (n.message, n.context))
        = [("Duplicate operation(s) will be overwritten",
              .obj [("path", .str "/x"), ("duplicate", .arr [.str "get", .str "post"])]),
            ("Duplicate operation(s) will be overwritten",
              .obj [("path", .str "/mutations/fourth"), ("duplicate", .arr [.str "post"])])] := by
  refine ⟨_, rfl, ?_⟩
  obtain ⟨hresult, derived, hderived, hmerge, hlogged, hwarn⟩ :=
    compileResolving_again (Resolver.ofTable []) collidingService _ rfl
  refine ⟨hresult, ?_, ?_⟩
  · rw [hwarn, hmerge]
    rfl
  · cases hderived
    exact hlogged

end RpcOpenApi
