import RpcOpenApi.Proofs.OrderedMap
import RpcOpenApi.Rpc.Builder

/-!
# Descriptions that are built in steps

A description may be put together by any list of steps (`ServiceBuilder.run`), of which some are
refused and change nothing. What it holds then is told by the steps alone (`ServiceBuilder.Holds`):
of the operations of a kind with one id it has the first, and of the schemas, the responses or the
paths with one name the last, in both cases at the place of the first. A step looks at one part of
the description only (`BuildStep.part`), so steps for different parts may change places.
-/

namespace RpcOpenApi

/-! ## What steps add -/

/-- The parts of a description that steps add to. -/
inductive BuildPart where
  | schemas
  | responses
  | paths
  | operations (kind : OperationKind)
  deriving DecidableEq

namespace BuildStep

/-- The part that a step adds to. -/
def part : BuildStep → BuildPart
  | schema .. => .schemas
  | response .. => .responses
  | path .. => .paths
  | operation kind .. => .operations kind

/-- What a step adds to the schemas. -/
def schema? : BuildStep → Option (String × SchemaOrRef)
  | schema name s => some (name, s)
  | _ => none

/-- What a step adds to the responses. -/
def response? : BuildStep → Option (String × RefOr Response)
  | response name r => some (name, .inline r)
  | _ => none

/-- What a step adds to the paths. -/
def path? : BuildStep → Option (String × PathItem)
  | path p item => some (p, item)
  | _ => none

/-- What a step adds to the operations of a kind. -/
def operation? (kind : OperationKind) : BuildStep → Option (String × OperationDef)
  | operation kind' id d => if kind' = kind then some (id, d) else none
  | _ => none

end BuildStep

/-! ## Maps that keep the first value of a key -/

namespace OrderedMap

section
variable {κ ν : Type} [DecidableEq κ] {m : OrderedMap κ ν} {k : κ}

/-- Adds an entry at the end, unless its key is there. -/
def insertNew (m : OrderedMap κ ν) (e : κ × ν) : OrderedMap κ ν :=
  if contains m e.1 then m else insert m e.1 e.2

/-- A new key stands at the end, and one that is there stays where it is. -/
theorem keys_insertNew (m : OrderedMap κ ν) (e : κ × ν) :
    keys (insertNew m e) = if e.1 ∈ keys m then keys m else keys m ++ [e.1] := by
  rw [insertNew]
  by_cases h : e.1 ∈ keys m
  · rw [if_pos (contains_iff.2 h), if_pos h]
  · rw [if_neg (contains_iff.not.2 h), keys_insert, if_neg h]

/-- A key that is there keeps its value. -/
theorem get?_insertNew (m : OrderedMap κ ν) (e : κ × ν) (k : κ) :
    get? (insertNew m e) k = (get? m k).or (get? [e] k) := by
  rw [insertNew]
  by_cases hk : e.1 = k
  · subst hk
    by_cases h : e.1 ∈ keys m
    · obtain ⟨v, hv⟩ := Option.isSome_iff_exists.1 (isSome_get?_iff.2 h)
      rw [if_pos (contains_iff.2 h), hv, Option.some_or]
    · rw [if_neg (contains_iff.not.2 h), get?_insert, get?_eq_none_iff.2 h]
      simp
  · split <;> simp [hk]

/-- Among entries that are added one after the other, a key has its first value. -/
theorem get?_foldl_insertNew (es : List (κ × ν)) :
    get? (es.foldl insertNew m) k = (get? m k).or (get? es k) := by
  induction es generalizing m with
  | nil => simp
  | cons e es ih =>
    rw [List.foldl_cons, ih, get?_insertNew, Option.or_assoc, ← get?_append, List.singleton_append]

/-- Among entries that are inserted one after the other, a key has its last value. -/
theorem get?_insertAll_reverse (es : List (κ × ν)) :
    get? (insertAll m es) k = (get? es.reverse k).or (get? m k) := by
  induction es generalizing m with
  | nil => rfl
  | cons e es ih =>
    rw [insertAll_cons, ih, List.reverse_cons, get?_append, Option.or_assoc, get?_insert]
    by_cases hk : e.1 = k <;> simp [hk]

end

end OrderedMap

/-! ## What one step does, and what a run does -/

namespace ServiceBuilder

/-- The paths with some more. Without any there is no map of paths. -/
def addPaths (ps : Option Paths) : List (String × PathItem) → Option Paths
  | [] => ps
  | e :: es => some (OrderedMap.insertAll (ps.getD []) (e :: es))

@[simp] theorem addPaths_nil (ps : Option Paths) : addPaths ps [] = ps := rfl

/-- The description with what some steps add to each of its parts. -/
def extended (b : ServiceBuilder) (steps : List BuildStep) : ServiceBuilder :=
  { b with
    components.schemas := b.components.schemas.insertAll (steps.filterMap BuildStep.schema?)
    components.responses := b.components.responses.insertAll (steps.filterMap BuildStep.response?)
    paths := addPaths b.paths (steps.filterMap BuildStep.path?)
    operations :=
      { queries := (steps.filterMap (BuildStep.operation? .query)).foldl OrderedMap.insertNew
          b.operations.queries
        mutations := (steps.filterMap (BuildStep.operation? .mutation)).foldl OrderedMap.insertNew
          b.operations.mutations } }

section
variable {b : ServiceBuilder} {s t : BuildStep}

/-- An operation of either kind is added in the same way. -/
theorem attempt_operation (b : ServiceBuilder) (kind : OperationKind) (id : String)
    (d : OperationDef) : b.attempt (.operation kind id d) = b.add kind id d := by
  cases kind <;> rfl

/-- An operation is refused iff its kind has the id already. -/
theorem refusal?_operation (b : ServiceBuilder) (kind : OperationKind) (id : String)
    (d : OperationDef) : b.refusal? (.operation kind id d)
      = if id ∈ OrderedMap.keys (b.operations.ofKind kind) then some (.duplicateOperation kind id)
        else none := by
  simp only [refusal?, attempt_operation, add, ← OrderedMap.contains_iff]
  cases OrderedMap.contains (b.operations.ofKind kind) id <;> rfl

/-- A refused step changes nothing. -/
theorem after_of_refused {e : ServiceError} (h : b.refusal? s = some e) : b.after s = b := by
  cases s with
  | schema | response | path => cases h
  | operation kind id d =>
    rw [refusal?_operation] at h
    rw [after, attempt_operation, add]
    split at h
    · next htaken => rw [if_pos (OrderedMap.contains_iff.2 htaken)]
    · cases h

/-- The operations of a kind in an extended description. -/
theorem ofKind_extended (b : ServiceBuilder) (kind : OperationKind) (steps : List BuildStep) :
    (b.extended steps).operations.ofKind kind
      = (steps.filterMap (BuildStep.operation? kind)).foldl OrderedMap.insertNew
          (b.operations.ofKind kind) := by
  cases kind <;> rfl

/-- **A step adds to its part**, unless it is an operation whose kind has the id. -/
theorem after_eq_extended (b : ServiceBuilder) (s : BuildStep) : b.after s = b.extended [s] := by
  cases s with
  | schema | response | path => rfl
  | operation kind id d =>
    rw [after, attempt_operation, add]
    cases h : OrderedMap.contains (b.operations.ofKind kind) id with
    | true =>
      cases kind <;> rw [RpcOperations.ofKind] at h <;>
        simp [extended, List.filterMap, BuildStep.schema?, BuildStep.response?, BuildStep.path?,
          BuildStep.operation?, OrderedMap.insertNew, h]
    | false =>
      cases kind <;> rw [RpcOperations.ofKind] at h <;>
        simp [extended, List.filterMap, BuildStep.schema?, BuildStep.response?, BuildStep.path?,
          BuildStep.operation?, OrderedMap.insertNew, RpcOperations.insert, h]

/-- Adding paths in two goes is adding all of them. -/
theorem addPaths_append (ps : Option Paths) (es es' : List (String × PathItem)) :
    addPaths ps (es ++ es') = addPaths (addPaths ps es) es' := by
  cases es <;> cases es' <;> simp [addPaths, OrderedMap.insertAll]

/-- Adding in two goes is adding everything. -/
theorem extended_append (b : ServiceBuilder) (steps steps' : List BuildStep) :
    b.extended (steps ++ steps') = (b.extended steps).extended steps' := by
  simp only [extended, List.filterMap_append, List.foldl_append, OrderedMap.insertAll,
    addPaths_append]

/-- **What a run adds to each part of a description.** -/
theorem run_eq_extended (b : ServiceBuilder) (steps : List BuildStep) :
    b.run steps = b.extended steps := by
  induction steps generalizing b with
  | nil => rfl
  | cons s steps ih =>
    rw [run_cons, ih, after_eq_extended, ← extended_append, List.singleton_append]

/-! ## Steps for different parts -/

/-- What two steps add to a part does not depend on their order if one of them is for another
part. -/
theorem filterMap_swap {α : Type} {f : BuildStep → Option α} (p : BuildPart)
    (hf : ∀ s, s.part ≠ p → f s = none) (h : s.part ≠ t.part) :
    [s, t].filterMap f = [t, s].filterMap f := by
  by_cases hs : s.part = p
  · have ht := hf t (fun ht => h (hs.trans ht.symm))
    simp [List.filterMap, ht]
  · simp [List.filterMap, hf s hs]

/-- A step for another part adds no operation of the kind. -/
theorem operation?_of_part_ne {kind : OperationKind} (h : s.part ≠ .operations kind) :
    s.operation? kind = none := by
  cases s with
  | operation => exact if_neg fun hk => h (congrArg BuildPart.operations hk)
  | schema | response | path => rfl

/-- Steps for different parts may change places. -/
theorem after_after (b : ServiceBuilder) (h : s.part ≠ t.part) :
    (b.after s).after t = (b.after t).after s := by
  rw [after_eq_extended, after_eq_extended, after_eq_extended, after_eq_extended,
    ← extended_append, ← extended_append, List.singleton_append, List.singleton_append, extended,
    extended, filterMap_swap .schemas (f := BuildStep.schema?) _ h,
    filterMap_swap .responses (f := BuildStep.response?) _ h,
    filterMap_swap .paths (f := BuildStep.path?) _ h,
    filterMap_swap (.operations .query) (fun _ => operation?_of_part_ne) h,
    filterMap_swap (.operations .mutation) (fun _ => operation?_of_part_ne) h]
  all_goals
    intro s hs
    cases s <;> first | rfl | exact absurd rfl hs

/-- Whether a step is refused does not depend on a step for another part. -/
theorem refusal?_after (b : ServiceBuilder) (h : s.part ≠ t.part) :
    (b.after t).refusal? s = b.refusal? s := by
  cases s with
  | schema | response | path => rfl
  | operation kind id d =>
    have hkind : (b.after t).operations.ofKind kind = b.operations.ofKind kind := by
      rw [after_eq_extended, ofKind_extended, List.filterMap_cons_none
        (operation?_of_part_ne (Ne.symm h))]
      rfl
    rw [refusal?_operation, refusal?_operation, hkind]

end

/-! ## From the beginning -/

/-- What a description holds after some steps: of several things with one name the first operation
of a kind, but the last schema, response or path, where the first one stood. -/
structure Holds (b : ServiceBuilder) (steps : List BuildStep) : Prop where
  ids : ∀ kind, OrderedMap.keys (b.operations.ofKind kind)
    = (OrderedMap.keys (steps.filterMap (BuildStep.operation? kind))).eraseDups
  definition : ∀ kind id, OrderedMap.get? (b.operations.ofKind kind) id
    = OrderedMap.get? (steps.filterMap (BuildStep.operation? kind)) id
  schemaNames : OrderedMap.keys b.components.schemas
    = (OrderedMap.keys (steps.filterMap BuildStep.schema?)).eraseDups
  schema : ∀ name, OrderedMap.get? b.components.schemas name
    = OrderedMap.get? (steps.filterMap BuildStep.schema?).reverse name
  responseNames : OrderedMap.keys b.components.responses
    = (OrderedMap.keys (steps.filterMap BuildStep.response?)).eraseDups
  response : ∀ name, OrderedMap.get? b.components.responses name
    = OrderedMap.get? (steps.filterMap BuildStep.response?).reverse name
  noPaths : b.paths = none ↔ ∀ p item, .path p item ∉ steps
  pathNames : OrderedMap.keys (b.paths.getD [])
    = (OrderedMap.keys (steps.filterMap BuildStep.path?)).eraseDups
  path : ∀ p, OrderedMap.get? (b.paths.getD []) p
    = OrderedMap.get? (steps.filterMap BuildStep.path?).reverse p

/-- The paths are those that have been added. -/
theorem getD_addPaths (es : List (String × PathItem)) :
    (addPaths none es).getD [] = OrderedMap.ofPairs es := by
  cases es <;> rfl

/-- There are no paths iff none has been added. -/
theorem addPaths_none_eq_none {steps : List BuildStep} :
    addPaths none (steps.filterMap BuildStep.path?) = none ↔ ∀ p item, .path p item ∉ steps := by
  have hnil : ∀ es, addPaths none es = none ↔ es = [] := fun es => by cases es <;> simp [addPaths]
  rw [hnil, List.filterMap_eq_nil_iff]
  constructor
  · intro h p item hmem
    cases h _ hmem
  · intro h s hs
    cases s with
    | path p item => exact absurd hs (h p item)
    | schema | response | operation => rfl

/-- After a run from the beginning, a description holds what the steps say. -/
theorem holds_run (info : Info) (steps : List BuildStep) : ((new info).run steps).Holds steps := by
  have hoperations (kind : OperationKind) : ((new info).run steps).operations.ofKind kind
      = (steps.filterMap (BuildStep.operation? kind)).foldl OrderedMap.insertNew [] := by
    rw [run_eq_extended, ofKind_extended]
    cases kind <;> rfl
  have hpaths : ((new info).run steps).paths = addPaths none (steps.filterMap BuildStep.path?) := by
    rw [run_eq_extended]
    rfl
  have hlast {α : Type} (es : List (String × α)) (name : String) :
      OrderedMap.get? (OrderedMap.ofPairs es) name = OrderedMap.get? es.reverse name := by
    rw [OrderedMap.ofPairs, OrderedMap.get?_insertAll_reverse, OrderedMap.get?_nil, Option.or_none]
  have hschemas : ((new info).run steps).components.schemas
      = OrderedMap.ofPairs (steps.filterMap BuildStep.schema?) := by
    rw [run_eq_extended]
    rfl
  have hresponses : ((new info).run steps).components.responses
      = OrderedMap.ofPairs (steps.filterMap BuildStep.response?) := by
    rw [run_eq_extended]
    rfl
  constructor
  case ids =>
    intro kind
    rw [hoperations, OrderedMap.keys_foldl OrderedMap.keys_insertNew]
    simp [OrderedMap.keys]
  case definition =>
    intro kind id
    rw [hoperations, OrderedMap.get?_foldl_insertNew, OrderedMap.get?_nil, Option.none_or]
  case schemaNames => rw [hschemas, OrderedMap.keys_ofPairs]
  case schema => exact fun name => hschemas ▸ hlast _ name
  case responseNames => rw [hresponses, OrderedMap.keys_ofPairs]
  case response => exact fun name => hresponses ▸ hlast _ name
  case noPaths => rw [hpaths, addPaths_none_eq_none]
  case pathNames => rw [hpaths, getD_addPaths, OrderedMap.keys_ofPairs]
  case path => exact fun p => by rw [hpaths, getD_addPaths, hlast]

/-- An id is taken iff an operation of the kind has been added with it. -/
theorem mem_keys_operation? {kind : OperationKind} {id : String} {steps : List BuildStep} :
    id ∈ OrderedMap.keys (steps.filterMap (BuildStep.operation? kind)) ↔
      ∃ d, .operation kind id d ∈ steps := by
  simp only [OrderedMap.keys, List.mem_map, List.mem_filterMap]
  constructor
  · rintro ⟨e, ⟨s, hs, he⟩, rfl⟩
    cases s with
    | operation kind' id' d =>
      rw [BuildStep.operation?] at he
      split at he
      · next hk =>
        subst hk
        cases he
        exact ⟨d, hs⟩
      · cases he
    | schema | response | path => cases he
  · rintro ⟨d, hd⟩
    exact ⟨(id, d), ⟨_, hd, if_pos rfl⟩, rfl⟩

/-- **A description that is built in steps.** After any steps from the beginning, an operation is
refused iff its kind has been given its id before, and then nothing changes; no other step is
refused. The description holds of several operations of a kind with one id the first, and of
several schemas, responses or paths with one name the last, where the first one stood; nothing else
is in it but the version. Two steps for different parts may change places: the same ones are
refused, and the description is the same. -/
theorem build_run (info : Info) (steps : List BuildStep) :
    let b := (new info).run steps
    (∀ s e, b.refusal? s = some e ↔ ∃ kind id d, s = .operation kind id d ∧
      e = .duplicateOperation kind id ∧ ∃ d', .operation kind id d' ∈ steps) ∧
    (∀ s, (b.refusal? s).isSome → b.run [s] = b) ∧
    b.Holds steps ∧
    b.build =
      { yarpc := some (.str "1.0.0")
        info
        components := { schemas := b.components.schemas, responses := b.components.responses }
        operations := b.operations
        paths := b.paths } ∧
    ∀ s t rest, s.part ≠ t.part →
      (∃ x y zs, b.refusals (s :: t :: rest) = x :: y :: zs ∧
        b.refusals (t :: s :: rest) = y :: x :: zs) ∧
      (b.run (s :: t :: rest)).build = (b.run (t :: s :: rest)).build := by
  intro b
  have hholds : b.Holds steps := holds_run info steps
  refine ⟨fun s e => ?_, fun s hs => ?_, hholds, ?_, fun s t rest h => ⟨?_, ?_⟩⟩
  · -- only an operation is ever refused, and the operations held are those asked for so far
    cases s with
    | operation kind id d =>
      have htaken : id ∈ OrderedMap.keys (b.operations.ofKind kind) ↔
          ∃ d', .operation kind id d' ∈ steps := by
        rw [hholds.ids, List.mem_eraseDups, mem_keys_operation?]
      simp [refusal?_operation, htaken, eq_comm, and_comm]
    | schema | response | path => simp [refusal?, attempt]
  · obtain ⟨e, he⟩ := Option.isSome_iff_exists.1 hs
    exact after_of_refused he
  · have hb : b = (new info).extended steps := run_eq_extended ..
    rw [hb]
    rfl
  · refine ⟨b.refusal? s, b.refusal? t, ((b.after s).after t).refusals rest, ?_, ?_⟩
    · rw [refusals, refusals, refusal?_after b h.symm]
    · rw [refusals, refusals, refusal?_after b h, after_after b h]
  · rw [run_cons, run_cons, run_cons, run_cons, after_after b h]

/-- Steps that use the id `find` for both kinds, twice for one of them, and the name `Item`
twice. -/
def repeatingSteps : List BuildStep :=
  [.operation .query "find" { path := some "/items" }, .schema "Item" (.boolean true),
    .operation .mutation "find" {}, .operation .query "find" {}, .operation .query "list" {},
    .schema "Other" (.boolean true), .schema "Item" (.boolean false)]

/-- After the repeating steps the id is refused for both kinds, the first query and the last schema
are there, and there are no paths. A path and one more schema may be added in either order. -/
theorem build_run_repeatingSteps :
    let b := (new (.titled "Items" "1")).run repeatingSteps
    b.refusal? (.operation .mutation "find" {}) = some (.duplicateOperation .mutation "find") ∧
    b.run [.operation .mutation "find" {}] = b ∧
    OrderedMap.keys b.operations.queries = ["find", "list"] ∧
    ((OrderedMap.get? b.operations.queries "find").bind (·.path)) = some "/items" ∧
    OrderedMap.keys b.components.schemas = ["Item", "Other"] ∧
    OrderedMap.get? b.components.schemas "Item" = some (.boolean false) ∧
    b.paths = none ∧
    (b.run [.path "/items" {}, .schema "Third" (.boolean true)]).build
      = (b.run [.schema "Third" (.boolean true), .path "/items" {}]).build := by
  intro b
  obtain ⟨hrefusal, hsame, hholds, -, hswap⟩ := build_run (.titled "Items" "1") repeatingSteps
  have hrefused : b.refusal? (.operation .mutation "find" {})
      = some (.duplicateOperation .mutation "find") :=
    (hrefusal ..).2 ⟨.mutation, "find", {}, rfl, rfl, {}, by simp [repeatingSteps]⟩
  refine ⟨hrefused, hsame _ (Option.isSome_of_eq_some hrefused), ?_, ?_, ?_, hholds.schema "Item",
    hholds.noPaths.2 (by simp [repeatingSteps]), (hswap _ _ [] (by decide)).2⟩
  · exact (hholds.ids .query).trans (by decide)
  · rw [show b.operations.queries = b.operations.ofKind .query from rfl, hholds.definition]
    rfl
  · exact hholds.schemaNames.trans (by decide)

end ServiceBuilder

end RpcOpenApi
