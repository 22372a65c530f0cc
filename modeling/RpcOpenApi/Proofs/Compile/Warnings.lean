import RpcOpenApi.Proofs.Compile.Placement

/-!
# Which operations are reported as replaced

A run warns at two places: when a declared operation is put where an earlier one was put
(`repeats`), and when a derived path replaces hand-written methods (`overlaps`). Both lists are told
from the description alone, and so is what is logged of them (`Replacement.logged`). Every replaced
operation is in exactly one of the warnings: what is put and what was there are together the
operations that remain and the methods that warnings name (`operationCount_deriveInto`,
`operationCount_mergeInto`). So no operation disappears without a warning
(`warnings_compileResolving`).
-/

namespace RpcOpenApi

/-! ## The warnings, told from the description -/

/-- Operations of a path that are replaced, by their methods. -/
structure Replacement where
  path : String
  methods : List HttpMethod

namespace Replacement

/-- The notice that is due when operations are replaced. -/
def notice (r : Replacement) : Notice := .overwritten r.path r.methods

/-- What is logged when operations are replaced: a wording, and an object that names them. -/
def logged (r : Replacement) : String × Json :=
  ("Duplicate operation(s) will be overwritten",
    .obj [("path", .str r.path), ("duplicate", .arr (r.methods.map (fun m => .str m.text)))])

/-- The notices of some replacements are logged with one wording, each with its own object. -/
theorem map_notice (rs : List Replacement) :
    (rs.map notice).map (fun n => (n.message, n.context)) = rs.map logged := by
  rw [List.map_map]
  rfl

end Replacement

/-- What a declared operation replaces that comes after others: the one that has its place. -/
def repeat? (before : List Declaration) (e : Declaration) : Option Replacement :=
  if Declaration.place e ∈ before.map Declaration.place then
    some ⟨Declaration.path e, [Declaration.method e]⟩
  else none

/-- One replacement for each declared operation whose place is that of an earlier one. -/
def repeats (declared : List Declaration) : List Replacement :=
  declared.zipIdx.filterMap (fun (e, i) => repeat? (declared.take i) e)

/-- The same for operations that are declared after some others. -/
def repeatsAfter (seen declared : List Declaration) : List Replacement :=
  declared.zipIdx.filterMap (fun (e, i) => repeat? (seen ++ declared.take i) e)

/-- The methods that are declared for a path, in the order in which they are first declared. -/
def declaredMethods (declared : List Declaration) (p : String) : List HttpMethod :=
  ((declared.filter (fun e => Declaration.path e = p)).map Declaration.method).eraseDups

/-- The methods that are declared for a path and written by hand as well. -/
def overlap (written : Paths) (declared : List Declaration) (p : String) : List HttpMethod :=
  (declaredMethods declared p).filter (fun m => (written.operation? p m).isSome)

/-- One replacement for each declared path that shares methods with a hand-written one. -/
def overlaps (written : Paths) (declared : List Declaration) : List Replacement :=
  (declared.map Declaration.path).eraseDups.filterMap (fun p =>
    if overlap written declared p = [] then none
    else some ⟨p, overlap written declared p⟩)

/-- The number of methods that a notice names. -/
def Notice.methodCount : Notice → Nat
  | .overwritten _ methods => methods.length
  | _ => 0

/-- The number of methods that some notices name. -/
def namedMethods (ns : List Notice) : Nat := (ns.map Notice.methodCount).sum

/-- The number of operations of some paths. -/
def Paths.operationCount (ps : Paths) : Nat := (ps.map (fun e => e.2.operations.length)).sum

/-! ## Warnings of the first stage -/

/-- The first operation is judged by those before it, the others after it as well. -/
theorem repeatsAfter_cons (seen : List Declaration) (e : Declaration)
    (es : List Declaration) :
    repeatsAfter seen (e :: es)
      = (repeat? seen e).toList ++ repeatsAfter (seen ++ [e]) es := by
  rw [repeatsAfter, List.zipIdx_cons', List.filterMap_cons, List.filterMap_map]
  simp only [repeatsAfter, List.take_zero, List.append_nil, Function.comp_def, Prod.map,
    List.take_succ_cons, List.append_assoc, List.singleton_append, id]
  cases repeat? seen e <;> rfl

/-- Operations replace nothing after others iff their places are distinct and none of them is that
of an earlier operation. -/
theorem repeatsAfter_eq_nil_iff (seen es : List Declaration) :
    repeatsAfter seen es = [] ↔ (es.map Declaration.place).Nodup ∧
      ∀ e ∈ es, Declaration.place e ∉ seen.map Declaration.place := by
  induction es generalizing seen with
  | nil => exact ⟨fun _ => ⟨List.nodup_nil, fun _ h => nomatch h⟩, fun _ => rfl⟩
  | cons e es ih =>
    have hone : (repeat? seen e).toList = []
        ↔ Declaration.place e ∉ seen.map Declaration.place := by
      rw [repeat?]
      split
      · next h => exact ⟨fun hnil => (nomatch hnil), fun hn => absurd h hn⟩
      · next h => exact ⟨fun _ => h, fun _ => rfl⟩
    rw [repeatsAfter_cons, List.append_eq_nil_iff, hone, ih, List.map_cons,
      List.nodup_cons, List.forall_mem_cons]
    simp only [List.map_append, List.mem_append, not_or, List.map_cons, List.map_nil,
      List.mem_singleton]
    constructor
    · rintro ⟨h, hnd, hes⟩
      refine ⟨⟨fun hmem => ?_, hnd⟩, h, fun e' he' => (hes e' he').1⟩
      obtain ⟨e', he', heq⟩ := List.mem_map.1 hmem
      exact (hes e' he').2 heq
    · rintro ⟨⟨hmem, hnd⟩, h, hes⟩
      exact ⟨h, hnd, fun e' he' => ⟨hes e' he', fun heq => hmem (heq ▸ List.mem_map_of_mem he')⟩⟩

section
variable {compile : OperationCompiler}

/-- An operation was put at a place iff one is declared for it. -/
theorem isSome_operation?_derivedPaths (es : List Declaration) (p : String) (m : HttpMethod) :
    ((derivedPaths compile es).operation? p m).isSome ↔ (p, m) ∈ es.map Declaration.place := by
  rw [operation?_derivedPaths, Option.isSome_map, List.getLast?_isSome, ne_eq,
    List.filter_eq_nil_iff]
  simp

/-- Deriving one more operation puts it at its place. -/
theorem derivedPaths_append (es : List Declaration) (e : Declaration) :
    derivedPaths compile (es ++ [e]) = (derivedPaths compile es).put (Declaration.path e)
      (Declaration.method e) (Declaration.compiled compile e) := by
  rw [derivedPaths, List.map_append, Paths.putAll, List.foldl_append]
  rfl

/-- The warning at one step of the first stage: the place of the operation is taken. -/
theorem collisionNotice_derivedPaths (es : List Declaration) (e : Declaration) :
    collisionNotice (derivedPaths compile es) (Declaration.path e) (Declaration.method e)
      = (repeat? es e).toList.map Replacement.notice := by
  rw [collisionNotice, repeat?]
  by_cases h : Declaration.place e ∈ es.map Declaration.place
  · rw [if_pos h, if_pos ((isSome_operation?_derivedPaths ..).2 h)]
    rfl
  · rw [if_neg h, if_neg (mt (isSome_operation?_derivedPaths ..).1 h)]
    rfl

/-- The first stage warns of each operation whose place an earlier one has, those before the run
included. -/
theorem warnings_deriveInto (hquiet : ∀ kind id d, (compile kind id d).warnings = [])
    (seen : List Declaration) {es : List Declaration} {ps : Paths}
    (h : (deriveInto compile (derivedPaths compile seen) es).result = .ok ps) :
    (deriveInto compile (derivedPaths compile seen) es).warnings
      = (repeatsAfter seen es).map Replacement.notice := by
  induction es generalizing seen with
  | nil => rfl
  | cons e es ih =>
    obtain ⟨-, hrest, hwarn⟩ := deriveInto_cons_ok h
    rw [← derivedPaths_append] at hrest hwarn
    rw [hwarn, hquiet, ih _ hrest, collisionNotice_derivedPaths, repeatsAfter_cons,
      List.nil_append, List.map_append]

/-! ## Warnings of the second stage -/

/-- Adding a derived path does not change what is due for the others. -/
theorem mergeNotice_mergePath {base : Paths} {p q : String} {item other : PathItem}
    (hitem : OrderedMap.Distinct item.operations) (h : p ≠ q) :
    mergeNotice (mergePath base p item) q other = mergeNotice base q other := by
  rw [mergeNotice, mergeNotice, Paths.operationsAt_mergePath _ _ hitem, if_neg h]

/-- Every notice of an overlap is a warning. -/
theorem filter_mergeNotice (base : Paths) (p : String) (item : PathItem) :
    (mergeNotice base p item).filter Notice.isWarning = mergeNotice base p item := by
  rw [mergeNotice]
  split <;> rfl

/-- What one step of the second stage warns of. -/
theorem warnings_mergeInto_cons (base derived : Paths) (e : String × PathItem) :
    (mergeInto base (e :: derived)).warnings
      = mergeNotice base e.1 e.2 ++ (mergeInto (mergePath base e.1 e.2) derived).warnings := by
  obtain ⟨p, item⟩ := e
  rw [mergeInto, Logged.warnings_bind rfl, Logged.warnings_note, filter_mergeNotice]

/-- The second stage warns of each derived path as if it were the only one. -/
theorem warnings_mergeInto (base : Paths) {derived : Paths} (h : derived.WellKeyed) :
    (mergeInto base derived).warnings
      = derived.flatMap (fun e => mergeNotice base e.1 e.2) := by
  induction derived generalizing base with
  | nil => rfl
  | cons e derived ih =>
    obtain ⟨hnew, -⟩ := List.nodup_cons.1 h.paths
    rw [warnings_mergeInto_cons, ih _ h.tail, List.flatMap_cons]
    congr 1
    refine List.flatMap_congr (fun e' he' => ?_)
    refine mergeNotice_mergePath (h.operations e (.head _)) (fun hp => hnew ?_)
    rw [hp]
    exact List.mem_map_of_mem he'

/-- The second stage warns of the methods that a declared path shares with a hand-written one. -/
theorem warnings_mergeInto_derivedPaths (compile : OperationCompiler) (written : Paths)
    (declared : List Declaration) :
    (mergeInto written (derivedPaths compile declared)).warnings
      = (overlaps written declared).map Replacement.notice := by
  have hwell := wellKeyed_derivedPaths compile declared
  have hitem : ∀ e ∈ derivedPaths compile declared,
      sharedMethods (written.operationsAt e.1) e.2.operations
        = overlap written declared e.1 := fun e he => by
    have hops : e.2.operations = (derivedPaths compile declared).operationsAt e.1 := by
      rw [Paths.operationsAt, hwell.paths.get?_of_mem he]
    rw [hops, operationsAt_derivedPaths, sharedMethods, OrderedMap.keys_ofPairs,
      OrderedMap.keys_map]
    rfl
  rw [warnings_mergeInto _ hwell, overlaps, ← keys_derivedPaths compile, List.map_filterMap,
    OrderedMap.keys, List.filterMap_map, List.filterMap_eq_flatMap_toList]
  refine List.flatMap_congr (fun e he => ?_)
  rw [mergeNotice, hitem e he]
  simp only [List.isEmpty_iff, Function.comp_apply]
  split <;> rfl

/-! ## Counting operations and warnings -/

/-- Setting a path trades its old operations for the new ones. -/
theorem operationCount_insert (ps : Paths) (p : String) (item : PathItem) :
    Paths.operationCount (ps.insert p item) + (ps.operationsAt p).length
      = ps.operationCount + item.operations.length := by
  induction ps with
  | nil => simp [Paths.operationCount, OrderedMap.insert]
  | cons e ps ih =>
    rw [OrderedMap.insert, Paths.operationsAt_cons]
    by_cases h : e.1 = p
    · simp only [h, ↓reduceIte, Paths.operationCount, List.map_cons, List.sum_cons]
      omega
    · simp only [h, ↓reduceIte, Paths.operationCount, List.map_cons, List.sum_cons] at ih ⊢
      omega

/-- Inserting counts one more unless the key is there. -/
theorem length_insert (os : Operations) (m : HttpMethod) (o : Operation) :
    (OrderedMap.insert os m o).length
      = if (os.get? m).isSome then os.length else os.length + 1 := by
  rw [← OrderedMap.length_keys, OrderedMap.keys_insert, ← OrderedMap.length_keys os]
  by_cases h : m ∈ OrderedMap.keys os
  · rw [if_pos h, if_pos (OrderedMap.isSome_get?_iff.2 h)]
  · rw [if_neg h, if_neg (mt OrderedMap.isSome_get?_iff.1 h), List.length_append]
    rfl

/-- Of the operations that are added to others, those that replace one do not count. -/
theorem length_insertAll (base : Operations) {derived : Operations}
    (h : OrderedMap.Distinct derived) :
    (OrderedMap.insertAll base derived).length + (sharedMethods base derived).length
      = base.length + derived.length := by
  have hnew : (derived.keys.filter (fun m => m ∉ base.keys)).length
      = (derived.keys.filter (fun m => !base.contains m)).length := by
    congr 2
    funext m
    rw [Bool.eq_iff_iff]
    simp [← OrderedMap.contains_iff]
  rw [← OrderedMap.length_keys, OrderedMap.keys_insertAll,
    OrderedMap.eraseDups_of_nodup (h.filter _), List.length_append, hnew, sharedMethods,
    ← OrderedMap.length_keys base, ← OrderedMap.length_keys derived,
    List.length_eq_length_filter_add base.contains (l := derived.keys)]
  omega

@[simp] theorem namedMethods_nil : namedMethods [] = 0 := rfl
@[simp] theorem namedMethods_append (ns ns' : List Notice) :
    namedMethods (ns ++ ns') = namedMethods ns + namedMethods ns' := by
  simp [namedMethods]

/-- The notices of some replacements name the methods that are replaced. -/
theorem namedMethods_notice (rs : List Replacement) :
    namedMethods (rs.map Replacement.notice) = (rs.map (fun r => r.methods.length)).sum := by
  rw [namedMethods, List.map_map]
  rfl

/-- Putting an operation adds one to the count, unless its place is taken. Then a warning names one
method. -/
theorem operationCount_put (ps : Paths) (p : String) (m : HttpMethod) (o : Operation) :
    (ps.put p m o).operationCount + namedMethods (collisionNotice ps p m)
      = ps.operationCount + 1 := by
  have hcount := operationCount_insert ps p
    { (ps.get? p).getD {} with operations := ((ps.get? p).getD {}).operations.insert m o }
  simp only [Paths.operations_getD, length_insert] at hcount
  rw [Paths.put, collisionNotice, Paths.operation?]
  simp only [Paths.operations_getD]
  split
  · next h =>
    rw [if_pos h] at hcount
    show _ + 1 = _
    omega
  · next h =>
    rw [if_neg h] at hcount
    show _ + 0 = _
    omega

/-- Adding a derived path adds its operations to the count, except for those that the warning
names. -/
theorem operationCount_mergePath (base : Paths) (p : String) {item : PathItem}
    (h : OrderedMap.Distinct item.operations) :
    (mergePath base p item).operationCount + namedMethods (mergeNotice base p item)
      = base.operationCount + item.operations.length := by
  obtain ⟨merged, heq, hops, -⟩ := Paths.mergePath_eq_insert base p h
  have hcount := operationCount_insert base p merged
  have hlen := length_insertAll (base.operationsAt p) h
  have hnamed : namedMethods (mergeNotice base p item)
      = (sharedMethods (base.operationsAt p) item.operations).length := by
    rw [mergeNotice]
    split
    · next hs => rw [List.isEmpty_iff.1 hs]; rfl
    · rfl
  rw [hops] at hcount
  rw [heq, hnamed]
  omega

/-- Of the operations of the first stage, as many are missing in its paths as its warnings name
methods. -/
theorem operationCount_deriveInto (hquiet : ∀ kind id d, (compile kind id d).warnings = [])
    {ps ps' : Paths} {es : List Declaration} (h : (deriveInto compile ps es).result = .ok ps') :
    ps'.operationCount + namedMethods (deriveInto compile ps es).warnings
      = ps.operationCount + es.length := by
  induction es generalizing ps with
  | nil => cases h; rfl
  | cons e es ih =>
    obtain ⟨-, hrest, hwarn⟩ := deriveInto_cons_ok h
    have hstep := operationCount_put ps (Declaration.path e) (Declaration.method e)
      (Declaration.compiled compile e)
    have hih := ih hrest
    rw [hwarn, hquiet, List.nil_append, namedMethods_append, List.length_cons]
    omega

/-- Of the operations of the second stage, as many are missing in its paths as its warnings name
methods. -/
theorem operationCount_mergeInto (base : Paths) {derived : Paths} (h : derived.WellKeyed) :
    (base.mergeAll derived).operationCount + namedMethods (mergeInto base derived).warnings
      = base.operationCount + derived.operationCount := by
  induction derived generalizing base with
  | nil => rfl
  | cons e derived ih =>
    have hstep := operationCount_mergePath base e.1 (h.operations e (.head _))
    have hih := ih (mergePath base e.1 e.2) h.tail
    have hsum : Paths.operationCount (e :: derived)
        = e.2.operations.length + Paths.operationCount derived := rfl
    rw [warnings_mergeInto_cons, namedMethods_append, Paths.mergeAll_cons]
    omega

end

/-! ## No operation disappears without a warning -/

/-- No declared path is due a warning iff no declared place is that of a hand-written operation. -/
theorem overlaps_eq_nil_iff (written : Paths) (declared : List Declaration) :
    overlaps written declared = [] ↔
      ∀ e ∈ declared, written.operation? (Declaration.path e) (Declaration.method e) = none := by
  rw [overlaps, List.filterMap_eq_nil_iff]
  constructor
  · intro h e he
    have hpath := h (Declaration.path e)
      (List.mem_eraseDups.2 (List.mem_map_of_mem he))
    have hnil : overlap written declared (Declaration.path e) = [] := by
      by_contra hne
      rw [if_neg hne] at hpath
      cases hpath
    have hmethod : Declaration.method e ∈ declaredMethods declared (Declaration.path e) :=
      List.mem_eraseDups.2 (List.mem_map_of_mem (List.mem_filter.2 ⟨he, by simp⟩))
    simpa using List.filter_eq_nil_iff.1 hnil _ hmethod
  · intro h p _
    refine if_pos (List.filter_eq_nil_iff.2 (fun m hm => ?_))
    obtain ⟨e, he, rfl⟩ := List.mem_map.1 (List.mem_eraseDups.1 hm)
    obtain ⟨he, hp⟩ := List.mem_filter.1 he
    rw [← of_decide_eq_true hp, h e he]
    simp

/-- **Which warnings a run gives, and that they account for every operation.** First comes one for
each declared operation whose place an earlier one has, then one for each declared path that is
written by hand with some of the same methods. Each is logged with the path and exactly the methods
that are replaced. The declared and the hand-written operations are together those of the result and
the methods that warnings name. There is no warning iff the declared places are distinct and none of
them is that of a hand-written operation. -/
theorem warnings_compileResolving (resolver : Resolver) (d : RpcDocument) (out : OpenApiDocument)
    (h : (compileResolving resolver d).result = .ok out) :
    let declared := d.operations.declared
    let written := d.paths.getD []
    let replaced := repeats declared ++ overlaps written declared
    let warnings := (compileResolving resolver d).log.filter Notice.isWarning
    warnings = replaced.map Replacement.notice ∧
    warnings.map (fun n => (n.message, n.context)) = replaced.map Replacement.logged ∧
    declared.length + written.operationCount
      = out.paths.operationCount + (replaced.map (fun r => r.methods.length)).sum ∧
    (warnings = [] ↔ (declared.map Declaration.place).Nodup ∧
      ∀ e ∈ declared,
        written.operation? (Declaration.path e) (Declaration.method e) = none) := by
  intro declared written replaced warnings
  let derived := derivedPaths (compileOperation resolver) declared
  have hquiet := warnings_compileOperation resolver
  obtain ⟨-, hderived, hout, hwarn⟩ := compileWith_ok h
  have hfirst : (deriveInto (compileOperation resolver) [] declared).warnings
      = (repeats declared).map Replacement.notice := warnings_deriveInto hquiet [] hderived
  have hsecond : (mergeInto written derived).warnings
      = (overlaps written declared).map Replacement.notice :=
    warnings_mergeInto_derivedPaths (compileOperation resolver) written declared
  have heq : warnings = replaced.map Replacement.notice := by
    rw [List.map_append, ← hfirst, ← hsecond]
    exact hwarn
  refine ⟨heq, ?_, ?_, ?_⟩
  · rw [heq, Replacement.map_notice]
  · -- each phase gains an operation for each one it is given, except for those that it warns of
    have hderive : derived.operationCount
        + namedMethods (deriveInto (compileOperation resolver) [] declared).warnings
        = Paths.operationCount [] + declared.length := operationCount_deriveInto hquiet hderived
    have hmerge : (written.mergeAll derived).operationCount
        + namedMethods (mergeInto written derived).warnings
        = written.operationCount + derived.operationCount :=
      operationCount_mergeInto written (wellKeyed_derivedPaths _ declared)
    have hnone : Paths.operationCount [] = 0 := rfl
    have hpaths : out.paths = written.mergeAll derived := by rw [hout]
    rw [hfirst] at hderive
    rw [hsecond] at hmerge
    rw [← namedMethods_notice, List.map_append, namedMethods_append, hpaths]
    omega
  · have hrepeats : repeats declared = [] ↔ _ := repeatsAfter_eq_nil_iff [] declared
    rw [heq, List.map_eq_nil_iff, List.append_eq_nil_iff, hrepeats, overlaps_eq_nil_iff]
    simp

/-- Compiling the colliding service warns of the second query and of the third operation, and of
nothing else; of its four declared and three hand-written operations, these two are replaced. -/
theorem warnings_collidingService : ∃ out,
    (compileResolving (Resolver.ofTable []) collidingService).result = .ok out ∧
      ((compileResolving (Resolver.ofTable []) collidingService).log.filter Notice.isWarning).map
          (fun n => (n.message, n.context))
        = [("Duplicate operation(s) will be overwritten",
              .obj [("path", .str "/x"), ("duplicate", .arr [.str "get"])]),
            ("Duplicate operation(s) will be overwritten",
              .obj [("path", .str "/x"), ("duplicate", .arr [.str "post"])])] ∧
      4 + 3 = out.paths.operationCount + 2 := by
  refine ⟨_, rfl, ?_⟩
  obtain ⟨-, hlogged, hcount, -⟩ :=
    warnings_compileResolving (Resolver.ofTable []) collidingService _ rfl
  exact ⟨hlogged, hcount⟩

end RpcOpenApi
