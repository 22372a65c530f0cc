import RpcOpenApi.Proofs.Codec.Operation
import RpcOpenApi.Compile.Document

/-!
# Looking into trees

A part of a tree is named by the keys on the way to it (`Json.at?`). A key may be repeated, and then
`Json.valuesOf` has all of its values; in a tree in normal form there is at most one, the one that
is found (`Json.Normal.valuesOf_eq`). What a record is written as is looked into through its fields:
the value of a field is the written one, if there is one (`Encode.get?_optional`), and the other
members have none of the fields (`Outside.get?_eq_none`). For a document this leads from its tree to
the operation at a path and a method (`OpenApiDocument.at?_operation`).
-/

namespace RpcOpenApi

namespace Json

/-- The value of a key of an object. -/
def member? : Json → String → Option Json
  | .obj ms, k => OrderedMap.get? ms k
  | _, _ => none

/-- The value at the end of a walk along the keys of objects. -/
def at? (j : Json) (path : List String) : Option Json := path.foldlM member? j

/-- The values of all members of an object with a key. -/
def valuesOf : Json → String → List Json
  | .obj ms, k => Members.values [k] ms
  | _, _ => []

/-- The value of a key in an object is that of its members. -/
@[simp] theorem member?_obj (ms : Members) (k : String) :
    member? (.obj ms) k = OrderedMap.get? ms k := rfl

@[simp] theorem at?_nil (j : Json) : j.at? [] = some j := rfl

/-- A tree is looked into key by key. -/
@[simp] theorem at?_cons (j : Json) (k : String) (path : List String) :
    j.at? (k :: path) = (j.member? k).bind (fun child => child.at? path) := rfl

/-- Looking for one key is looking for a member. -/
@[simp] theorem at?_singleton (j : Json) (k : String) : j.at? [k] = j.member? k := by
  cases h : j.member? k <;> simp [h]

/-- A value that is found is a part of the tree. -/
theorem mem_parts_of_member? {j j' : Json} {k : String} (hj : j.member? k = some j') :
    j' ∈ j.parts := by
  cases j with
  | obj ms => exact List.mem_map_of_mem (OrderedMap.mem_of_get? hj)
  | null | bool | num | str | arr => cases hj

/-- The value of a key is in normal form if the tree is. -/
theorem Normal.of_member? {j j' : Json} {k : String} (h : j.Normal) (hj : j.member? k = some j') :
    j'.Normal :=
  h.part (mem_parts_of_member? hj)

/-- What is found along some keys is in normal form if the tree is. -/
theorem Normal.of_at? {j j' : Json} {path : List String} (h : j.Normal)
    (hj : j.at? path = some j') : j'.Normal :=
  of_walk (fun _ _ _ h hj => h.of_member? hj) h hj

end Json

/-- Where no key is repeated, a key has at most the value that is found. -/
theorem Members.values_of_distinct {ms : Members} (h : OrderedMap.Distinct ms) (k : String) :
    values [k] ms = (OrderedMap.get? ms k).toList := by
  induction ms with
  | nil => rfl
  | cons m ms ih =>
    obtain ⟨hnew, h⟩ := List.nodup_cons.1 h
    rw [values_cons, OrderedMap.get?_cons, ih h]
    by_cases hk : m.1 = k
    · have hnone : OrderedMap.get? ms k = none := OrderedMap.get?_eq_none_iff.2 (hk ▸ hnew)
      simp [hk, hnone]
    · simp [hk]

/-- In a tree in normal form a key has at most the value that is found. -/
theorem Json.Normal.valuesOf_eq {j : Json} (h : j.Normal) (k : String) :
    j.valuesOf k = (j.member? k).toList := by
  cases j with
  | obj ms => exact Members.values_of_distinct (Json.normal_obj_iff.1 h).1 k
  | null | bool | num | str | arr => rfl

/-! ## Fields of a record without repeated keys -/

namespace Members

variable {α : Type} {decode : Json → Except DecodeError α} {ms : Members} {name : String} {j : Json}

/-- A field that has to be written is read iff the value that is found fits. -/
theorem required_iff_get? (hd : OrderedMap.Distinct ms) {a : α} :
    ms.required name decode = .ok a ↔ ∃ j, OrderedMap.get? ms name = some j ∧ decode j = .ok a := by
  rw [required_eq_ok, values_of_distinct hd]
  cases OrderedMap.get? ms name <;> simp

/-- A field with a default is read from the value that is found. -/
theorem defaulted_of_get? {a default : α} (hd : OrderedMap.Distinct ms)
    (h : ms.defaulted name decode default = .ok a) (hj : OrderedMap.get? ms name = some j) :
    decode j = .ok a := by
  have hvalues := values_of_distinct hd name
  rw [hj] at hvalues
  rcases defaulted_eq_ok.1 h with ⟨hnil, -⟩ | ⟨j', hj', hread⟩
  · cases hnil.symm.trans hvalues
  · cases hj'.symm.trans hvalues
    exact hread

/-- Without a value that is found the default is read. -/
theorem defaulted_of_get?_none {a default : α} (hd : OrderedMap.Distinct ms)
    (h : ms.defaulted name decode default = .ok a) (hj : OrderedMap.get? ms name = none) :
    a = default := by
  have hvalues := values_of_distinct hd name
  rw [hj] at hvalues
  rcases defaulted_eq_ok.1 h with ⟨-, ha⟩ | ⟨j', hj', -⟩
  · exact ha
  · cases hj'.symm.trans hvalues

/-- A field that may be left out is read from the value that is found, unless this is `null`. -/
theorem optional_of_get? {o : Option α} (hd : OrderedMap.Distinct ms)
    (h : ms.optional name decode = .ok o) (hj : OrderedMap.get? ms name = some j)
    (hne : j ≠ .null) : ∃ a, o = some a ∧ decode j = .ok a := by
  have hread := defaulted_of_get? hd h hj
  rw [Decode.optional_of_ne_null hne] at hread
  obtain ⟨a, ha, hread⟩ := Decode.bind_eq_ok.1 hread
  exact ⟨a, (Except.ok.inj hread).symm, ha⟩

/-- Members with none of some names have the same values under other names. -/
theorem get?_others {names : List String} {k : String} (h : k ∉ names) :
    OrderedMap.get? (ms.others names) k = OrderedMap.get? ms k := by
  rw [others, OrderedMap.get?_filter (fun k => decide (k ∉ names))]
  simp [h]

end Members

/-- What a map that is read has under a key is read from the value of the key. -/
theorem Decode.exists_get?_of_map {α : Type} {decode : Json → Except DecodeError α} {v j : Json}
    {m : OrderedMap String α} {k : String} (hn : v.Normal) (h : map decode v = .ok m)
    (hj : v.member? k = some j) : ∃ a, OrderedMap.get? m k = some a ∧ decode j = .ok a := by
  obtain ⟨ms, rfl, es, hes, rfl⟩ := map_eq_ok.1 h
  rw [(distinct_of_members (Json.normal_obj_iff.1 hn).1 hes).ofPairs_eq]
  have hget := get?_of_members hes k
  rw [Json.member?_obj] at hj
  rw [hj, Option.map_some] at hget
  obtain ⟨a, ha, heq⟩ := Option.map_eq_some_iff.1 hget
  exact ⟨a, ha, heq.symm⟩

/-- A map is read from an object without repeated keys iff it has the keys of the object, and the
value of each of them is read from the value that is found. -/
theorem Decode.map_iff_get? {α : Type} {decode : Json → Except DecodeError α} {trees : Members}
    (hd : OrderedMap.Distinct trees) {m : OrderedMap String α} :
    map decode (.obj trees) = .ok m ↔ OrderedMap.keys m = OrderedMap.keys trees ∧
      ∀ name j a, OrderedMap.get? trees name = some j → OrderedMap.get? m name = some a →
        decode j = .ok a := by
  rw [map_eq_ok_of_distinct hd]
  constructor
  · intro h
    refine ⟨keys_of_members h, fun name j a hj ha => ?_⟩
    have hget := get?_of_members h name
    rw [hj, ha] at hget
    exact (Option.some.inj hget).symm
  · rintro ⟨hkeys, h⟩
    have hdistinct : OrderedMap.Distinct (trees.map fun tree => (tree.1, decode tree.2)) := by
      rwa [OrderedMap.Distinct, OrderedMap.keys_mapValues]
    refine members_eq_ok.2 (hdistinct.eq_of_get? ?_ fun name => ?_)
    · rw [OrderedMap.keys_mapValues, OrderedMap.keys_mapValues, hkeys]
    rw [OrderedMap.get?_mapValues, OrderedMap.get?_mapValues]
    have hsome : (OrderedMap.get? m name).isSome ↔ (OrderedMap.get? trees name).isSome := by
      rw [OrderedMap.isSome_get?_iff, OrderedMap.isSome_get?_iff, hkeys]
    cases hj : OrderedMap.get? trees name with
    | none => simpa [hj] using hsome
    | some j =>
      obtain ⟨a, ha⟩ := Option.isSome_iff_exists.1 (hsome.2 (by rw [hj]; rfl))
      rw [ha, Option.map_some, Option.map_some, h name j a hj ha]

/-! ## Written records -/

section
variable {α : Type} {encode : α → Json}

/-- A field that may be left out is found under its name, if it is there. -/
@[simp] theorem Encode.get?_optional (name : String) (o : Option α) (k : String) :
    OrderedMap.get? (Encode.optional name encode o) k
      = if name = k then o.map encode else none := by
  cases o <;> simp [Encode.optional]

/-- A section is found under its name, unless it is empty. -/
@[simp] theorem Components.get?_sectionMember (name : String) (m : OrderedMap String α)
    (k : String) : OrderedMap.get? (sectionMember name encode m) k
      = if name = k ∧ m ≠ [] then some (Encode.map encode m) else none := by
  rw [sectionMember]
  cases m <;> simp

/-- The value of a key of a map is the value of the key, as it is written. -/
@[simp] theorem Encode.member?_map (m : OrderedMap String α) (k : String) :
    (Encode.map encode m).member? k = (OrderedMap.get? m k).map encode :=
  OrderedMap.get?_mapValues encode m k

/-- A field is not found among members that stand outside of it. -/
theorem Outside.get?_eq_none {names : List String} {m : OrderedMap String Json} {k : String}
    (h : Outside names m) (hk : k ∈ names) : OrderedMap.get? m k = none :=
  OrderedMap.get?_eq_none_iff.2 fun hmem => h.notMem k hmem hk

end

/-! ## Operations of a document -/

namespace PathItem

/-- The operation with a method is found under the text of the method. -/
theorem get?_encodeOperations (os : Operations) (m : HttpMethod) :
    OrderedMap.get? (encodeOperations os) m.text = (os.get? m).map Operation.encode :=
  OrderedMap.get?_mapKeys (fun _ _ => text_injective) Operation.encode os m

/-- Under the name of a method stands its operation. -/
theorem member?_encode_text (p : PathItem) (m : HttpMethod) :
    p.encode.member? m.text = (p.operations.get? m).map Operation.encode := by
  have hfields : ∀ name ∈ fieldNames, name ≠ m.text := by cases m <;> decide
  simp only [fieldNames, List.forall_mem_cons, List.not_mem_nil, false_implies, implies_true,
    and_true] at hfields
  obtain ⟨h1, h2, h3, h4⟩ := hfields
  simp [encode, get?_encodeOperations, h1, h2, h3, h4]

end PathItem

namespace OpenApiDocument

/-- At a path of a document stands what is known of the path. -/
theorem at?_path (d : OpenApiDocument) (p : String) (rest : List String) :
    d.encode.at? ("paths" :: p :: rest)
      = (d.paths.get? p).bind (fun item => item.encode.at? rest) := by
  have hpaths : d.encode.member? "paths" = some (Paths.encode d.paths) := by simp [encode]
  rw [Json.at?_cons, hpaths, Option.bind_some, Json.at?_cons, Paths.encode, Encode.member?_map,
    Option.bind_map]
  rfl

/-- At a path and a method of a document stands its operation there. -/
theorem at?_operation (d : OpenApiDocument) (p : String) (m : HttpMethod) (rest : List String) :
    d.encode.at? ("paths" :: p :: m.text :: rest)
      = (d.paths.operation? p m).bind (fun o => o.encode.at? rest) := by
  rw [at?_path, Paths.operation?, Paths.operationsAt]
  cases d.paths.get? p with
  | none => rfl
  | some item =>
    rw [Option.bind_some, Json.at?_cons, PathItem.member?_encode_text, Option.bind_map]
    rfl

end OpenApiDocument

end RpcOpenApi
