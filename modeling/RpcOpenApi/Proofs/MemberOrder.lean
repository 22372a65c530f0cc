import RpcOpenApi.Proofs.Lookup

/-!
# Trees up to the order of members

Two trees are similar if they differ in nothing but the order in which the members of objects stand
(`Json.Similar`). This is so if they become the same tree when the members of every object are
sorted by their keys (`Json.ordered`). Members are the same up to order if they are a permutation of
each other once their values have been sorted (`Members.Same`); this relation is what composes, and
where no key is repeated it says that the objects are similar (`Json.similar_obj`,
`Json.Similar.same`). Similar objects have similar values of their keys
(`Json.Similar.exists_member?`).
-/

namespace RpcOpenApi

namespace Json

/-- A member comes before another one, by their keys. -/
def KeyLe (m m' : String × Json) : Prop := m.1 ≤ m'.1

/-- Which of two keys comes first can be decided. -/
instance : DecidableRel KeyLe := fun m m' => inferInstanceAs (Decidable (m.1 ≤ m'.1))

mutual

/-- The tree with the members of every object sorted by their keys. -/
def ordered : Json → Json
  | .null => .null
  | .bool b => .bool b
  | .num n => .num n
  | .str s => .str s
  | .arr items => .arr (orderedItems items)
  | .obj members => .obj ((orderedMembers members).insertionSort KeyLe)

/-- The items of an array with sorted members. -/
def orderedItems : List Json → List Json
  | [] => []
  | j :: js => ordered j :: orderedItems js

/-- The members of an object with sorted members in their values. -/
def orderedMembers : List (String × Json) → List (String × Json)
  | [] => []
  | (k, j) :: ms => (k, ordered j) :: orderedMembers ms

end

/-- The trees differ in nothing but the order of members. -/
def Similar (j j' : Json) : Prop := j.ordered = j'.ordered

/-- A tree is similar to itself. -/
theorem Similar.refl (j : Json) : j.Similar j := rfl

/-- The items of an array are ordered one by one. -/
theorem orderedItems_eq_map : ∀ js : List Json, orderedItems js = js.map ordered
  | [] => rfl
  | j :: js => by rw [orderedItems, orderedItems_eq_map js, List.map_cons]

/-- The values of members are ordered one by one. -/
theorem orderedMembers_eq_map :
    ∀ ms : List (String × Json), orderedMembers ms = ms.map (fun m => (m.1, m.2.ordered))
  | [] => rfl
  | (k, j) :: ms => by rw [orderedMembers, orderedMembers_eq_map ms, List.map_cons]

/-- Arrays are similar if their items are, one by one. -/
theorem similar_arr {js js' : List Json} (h : js.map ordered = js'.map ordered) :
    Similar (.arr js) (.arr js') := by
  rw [Similar, ordered, ordered, orderedItems_eq_map, orderedItems_eq_map, h]

end Json

namespace OrderedMap

/-- Permuted maps with distinct keys have the same values. -/
theorem get?_eq_of_perm {κ ν : Type} [DecidableEq κ] {m m' : OrderedMap κ ν} (hd : Distinct m)
    (h : m.Perm m') (k : κ) : get? m k = get? m' k := by
  have hd' : Distinct m' := (h.map Prod.fst).nodup_iff.1 hd
  cases hk : get? m k with
  | some v => exact (hd'.get?_of_mem (h.mem_iff.1 (mem_of_get? hk))).symm
  | none =>
    have hmem : k ∉ keys m' := fun hk' => get?_eq_none_iff.1 hk ((h.map Prod.fst).mem_iff.2 hk')
    exact (get?_eq_none_iff.2 hmem).symm

end OrderedMap

/-! ## Members -/

namespace Members

/-- The members are the same up to their order and that of members within their values. -/
def Same (ms ms' : Members) : Prop :=
  (Json.orderedMembers ms).Perm (Json.orderedMembers ms')

section
variable {ms ms' ms'' ns ns' : Members} {k : String} {j j' : Json}

/-- Members are the same as themselves. -/
theorem Same.refl (ms : Members) : ms.Same ms := List.Perm.refl _

/-- That members are the same may be turned round. -/
theorem Same.symm (h : ms.Same ms') : ms'.Same ms := List.Perm.symm h

/-- Members that are the same as others are the same as what these are. -/
theorem Same.trans (h : ms.Same ms') (h' : ms'.Same ms'') : ms.Same ms'' := List.Perm.trans h h'

/-- Members in another order are the same. -/
theorem same_of_perm (h : ms.Perm ms') : ms.Same ms' := by
  rw [Same, Json.orderedMembers_eq_map, Json.orderedMembers_eq_map]
  exact h.map _

/-- One member is the same as another one with the same key and a similar value. -/
theorem same_member (h : j.Similar j') : Members.Same [(k, j)] [(k, j')] := by
  have heq : Json.orderedMembers [(k, j)] = Json.orderedMembers [(k, j')] := by
    simp only [Json.orderedMembers, show j.ordered = j'.ordered from h]
  exact .of_eq heq

/-- Members stay the same when the same ones are added. -/
theorem Same.append (h : ms.Same ms') (h' : ns.Same ns') : (ms ++ ns).Same (ms' ++ ns') := by
  rw [Same, Json.orderedMembers_eq_map] at *
  simp only [Json.orderedMembers_eq_map, List.map_append] at *
  exact List.Perm.append h h'

/-- Members that are selected by their keys are the same up to order if all are. -/
theorem Same.filter (h : ms.Same ms') (p : String → Bool) :
    Members.Same (ms.filter (fun m => p m.1)) (ms'.filter (fun m => p m.1)) := by
  have hfilter (ms : Members) : Json.orderedMembers (ms.filter (fun m => p m.1))
      = (Json.orderedMembers ms).filter (fun m => p m.1) := by
    rw [Json.orderedMembers_eq_map, Json.orderedMembers_eq_map, List.filter_map]
    rfl
  rw [Same, hfilter, hfilter]
  exact List.Perm.filter _ h

/-- The keys of members, whose values may have been sorted. -/
theorem keys_orderedMembers (ms : Members) :
    OrderedMap.keys (Json.orderedMembers ms) = OrderedMap.keys ms := by
  rw [Json.orderedMembers_eq_map, OrderedMap.keys_mapValues]

/-- Ordering the members within the values changes no key. -/
theorem distinct_orderedMembers :
    OrderedMap.Distinct (Json.orderedMembers ms) ↔ OrderedMap.Distinct ms := by
  rw [OrderedMap.Distinct, keys_orderedMembers]
  rfl

/-- The same members repeat a key iff these do. -/
theorem Same.distinct (h : ms.Same ms') (hd : OrderedMap.Distinct ms') : OrderedMap.Distinct ms :=
  distinct_orderedMembers.1 ((h.map Prod.fst).nodup_iff.2 (distinct_orderedMembers.2 hd))

/-- A key of the one members has a similar value among the others. -/
theorem Same.exists_get? (h : ms.Same ms') (hd : OrderedMap.Distinct ms')
    (hj : OrderedMap.get? ms' k = some j) :
    ∃ j', OrderedMap.get? ms k = some j' ∧ j'.Similar j := by
  have hget := OrderedMap.get?_eq_of_perm (distinct_orderedMembers.2 (h.distinct hd)) h k
  simp only [Json.orderedMembers_eq_map, OrderedMap.get?_mapValues, hj, Option.map_some] at hget
  exact Option.map_eq_some_iff.1 hget

end

end Members

namespace Json

/-- Sorting members with distinct keys gives the same for each of their permutations. -/
theorem insertionSort_eq_of_perm {ms ms' : Members} (hd : OrderedMap.Distinct ms)
    (h : ms.Perm ms') : ms.insertionSort KeyLe = ms'.insertionSort KeyLe := by
  have : Std.Total KeyLe := ⟨fun m m' => le_total m.1 m'.1⟩
  have : IsTrans (String × Json) KeyLe := ⟨fun _ _ _ => le_trans⟩
  refine List.Perm.eq_of_pairwise (fun m m' hm hm' hle hge => ?_)
    (List.pairwise_insertionSort KeyLe ms) (List.pairwise_insertionSort KeyLe ms')
    ((List.perm_insertionSort _ _).trans (h.trans (List.perm_insertionSort _ _).symm))
  -- members with the same key are the same one, because no key is repeated
  rw [List.mem_insertionSort] at hm hm'
  have hm' := h.mem_iff.2 hm'
  have hkey : m.1 = m'.1 := le_antisymm hle hge
  have hvalue := (hd.get?_of_mem hm).symm.trans (hkey ▸ hd.get?_of_mem hm')
  exact Prod.ext hkey (Option.some.inj hvalue)

/-- Objects are similar if their members are the same up to order and no key is repeated. -/
theorem similar_obj {ms ms' : Members} (h : ms.Same ms') (hd : OrderedMap.Distinct ms') :
    Similar (.obj ms) (.obj ms') := by
  have hd := Members.distinct_orderedMembers.2 (h.distinct hd)
  rw [Similar, ordered, ordered, insertionSort_eq_of_perm hd h]

/-- The members of similar objects are the same up to order. -/
theorem Similar.same {ms ms' : Members} (h : Similar (.obj ms) (.obj ms')) : ms.Same ms' := by
  rw [Similar, ordered, ordered, obj.injEq] at h
  exact (List.perm_insertionSort KeyLe _).symm.trans
    ((List.Perm.of_eq h).trans (List.perm_insertionSort KeyLe _))

/-- A value that is found among members with distinct keys has a similar one in every tree that is
similar to the object of the members. -/
theorem Similar.exists_member? {ms' : Members} {j x : Json} {k : String}
    (h : Similar j (.obj ms')) (hd : OrderedMap.Distinct ms')
    (hx : OrderedMap.get? ms' k = some x) :
    ∃ x', j.member? k = some x' ∧ x'.Similar x := by
  cases j with
  | obj ms => exact h.same.exists_get? hd hx
  | null | bool | num | str | arr => cases h

end Json

/-- The order of members does not matter at any level. -/
example : Json.Similar
    (.obj [("b", .arr [.obj [("y", .null), ("x", .bool true)]]), ("a", .str "1")])
    (.obj [("a", .str "1"), ("b", .arr [.obj [("x", .bool true), ("y", .null)]])]) := by
  rfl

end RpcOpenApi
