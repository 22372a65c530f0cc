import RpcOpenApi.Proofs.OrderedMap
import RpcOpenApi.Json.Basic

/-!
# Trees in normal form

A tree is in normal form if normalizing changes nothing in it (`Json.Normal`). Such trees are what
free-form values are kept as: a normal form is one (`normal_normalize`), and so is every tree that
repeats no key and whose numbers have a JSON spelling (`normal_of_keysDistinct`). An array or object
is in normal form iff its parts are and no key is repeated (`normal_arr_iff`, `normal_obj_iff`).
-/

namespace RpcOpenApi

namespace Json

mutual

/-- Every number of the tree has a JSON spelling, as the numbers of a JSON text have. The others,
such as the one that YAML writes `.nan`, are no JSON values. -/
def NumbersFinite : Json → Prop
  | .num .nonFinite => False
  | .arr items => ItemsNumbersFinite items
  | .obj members => MembersNumbersFinite members
  | _ => True

/-- Every number within the items of an array has a JSON spelling. -/
def ItemsNumbersFinite : List Json → Prop
  | [] => True
  | j :: js => NumbersFinite j ∧ ItemsNumbersFinite js

/-- Every number within the values of some members has a JSON spelling. -/
def MembersNumbersFinite : List (String × Json) → Prop
  | [] => True
  | (_, j) :: ms => NumbersFinite j ∧ MembersNumbersFinite ms

end

/-- The tree is in normal form. -/
def Normal (j : Json) : Prop := j.normalize = j

/-! ## From lists to their elements -/

/-- Induction over a tree: an array or object has the property if its items or values have it. -/
theorem induction {P : Json → Prop} (null : P .null) (bool : ∀ b, P (.bool b))
    (num : ∀ n, P (.num n)) (str : ∀ s, P (.str s))
    (arr : ∀ js, (∀ j ∈ js, P j) → P (.arr js))
    (obj : ∀ ms : List (String × Json), (∀ m ∈ ms, P m.2) → P (.obj ms)) : ∀ j, P j
  | .null => null
  | .bool b => bool b
  | .num n => num n
  | .str s => str s
  | .arr js => arr js fun j _ => induction null bool num str arr obj j
  | .obj ms => obj ms fun m _ => induction null bool num str arr obj m.2
termination_by j => sizeOf j
decreasing_by
  · next h =>
    have := List.sizeOf_lt_of_mem h
    rw [Json.arr.sizeOf_spec]
    omega
  · next h =>
    have := List.sizeOf_lt_of_mem h
    have : sizeOf m.2 < sizeOf m := by rw [Prod.mk.sizeOf_spec]; omega
    rw [Json.obj.sizeOf_spec]
    omega

/-- The items of an array are normalized one by one. -/
theorem normalizeItems_eq_map : ∀ js : List Json, normalizeItems js = js.map normalize
  | [] => rfl
  | j :: js => by rw [normalizeItems, normalizeItems_eq_map js, List.map_cons]

/-- The values of members are normalized one by one, before repeated keys are dropped. -/
theorem normalizeMembers_eq_map :
    ∀ ms : List (String × Json), normalizeMembers ms = ms.map (fun m => (m.1, normalize m.2))
  | [] => rfl
  | (k, j) :: ms => by rw [normalizeMembers, normalizeMembers_eq_map ms, List.map_cons]

/-- No item repeats a key iff each of them repeats none. -/
theorem itemsKeysDistinct_iff : ∀ {js : List Json},
    ItemsKeysDistinct js ↔ ∀ j ∈ js, KeysDistinct j
  | [] => by simp [ItemsKeysDistinct]
  | j :: js => by rw [ItemsKeysDistinct, itemsKeysDistinct_iff, List.forall_mem_cons]

/-- No value of a member repeats a key iff each of them repeats none. -/
theorem membersKeysDistinct_iff : ∀ {ms : List (String × Json)},
    MembersKeysDistinct ms ↔ ∀ m ∈ ms, KeysDistinct m.2
  | [] => by simp [MembersKeysDistinct]
  | (k, j) :: ms => by
    rw [MembersKeysDistinct, membersKeysDistinct_iff, List.forall_mem_cons]

/-- The numbers of items are finite iff those of each item are. -/
theorem itemsNumbersFinite_iff : ∀ {js : List Json},
    ItemsNumbersFinite js ↔ ∀ j ∈ js, NumbersFinite j
  | [] => by simp [ItemsNumbersFinite]
  | j :: js => by rw [ItemsNumbersFinite, itemsNumbersFinite_iff, List.forall_mem_cons]

/-- The numbers of members are finite iff those of each value are. -/
theorem membersNumbersFinite_iff : ∀ {ms : List (String × Json)},
    MembersNumbersFinite ms ↔ ∀ m ∈ ms, NumbersFinite m.2
  | [] => by simp [MembersNumbersFinite]
  | (k, j) :: ms => by
    rw [MembersNumbersFinite, membersNumbersFinite_iff, List.forall_mem_cons]

/-! ## Parts of a normal tree -/

/-- An array is in normal form iff its items are. -/
theorem normal_arr_iff {js : List Json} : Normal (.arr js) ↔ ∀ j ∈ js, Normal j := by
  rw [Normal, normalize, normalizeItems_eq_map, arr.injEq]
  exact ⟨fun h j hj => List.map_inj_left.1 (h.trans js.map_id.symm) j hj,
    fun h => (List.map_congr_left h).trans js.map_id⟩

/-- Members whose values are in normal form are normalized already. -/
theorem normalizeMembers_eq_self {ms : List (String × Json)} (h : ∀ m ∈ ms, Normal m.2) :
    normalizeMembers ms = ms := by
  have hid : ∀ m ∈ ms, (m.1, normalize m.2) = id m := fun m hm => by rw [h m hm, id]
  rw [normalizeMembers_eq_map, List.map_congr_left hid, List.map_id]

/-- An object is in normal form iff no key is repeated and the values are in normal form. -/
theorem normal_obj_iff {ms : List (String × Json)} :
    Normal (.obj ms) ↔ OrderedMap.Distinct ms ∧ ∀ m ∈ ms, Normal m.2 := by
  rw [Normal, normalize, obj.injEq]
  constructor
  · intro h
    have hd : OrderedMap.Distinct ms := h ▸ OrderedMap.distinct_ofPairs _
    have hk : OrderedMap.Distinct (normalizeMembers ms) := by
      rwa [OrderedMap.Distinct, normalizeMembers_eq_map, OrderedMap.keys_mapValues]
    rw [hk.ofPairs_eq, normalizeMembers_eq_map] at h
    exact ⟨hd, fun m hm =>
      congrArg Prod.snd (List.map_inj_left.1 (h.trans ms.map_id.symm) m hm)⟩
  · rintro ⟨hd, hv⟩
    rw [normalizeMembers_eq_self hv, hd.ofPairs_eq]

/-- A tree in normal form repeats no key. -/
theorem Normal.keysDistinct {j : Json} (h : Normal j) : KeysDistinct j := by
  induction j using induction with
  | null | bool | num | str => exact trivial
  | arr js ih =>
    rw [KeysDistinct, itemsKeysDistinct_iff]
    exact fun j hj => ih j hj (normal_arr_iff.1 h j hj)
  | obj ms ih =>
    obtain ⟨hd, hv⟩ := normal_obj_iff.1 h
    rw [KeysDistinct, membersKeysDistinct_iff]
    exact ⟨hd, fun m hm => ih m hm (hv m hm)⟩

/-- Selected members of a normal object are a normal object. -/
theorem Normal.filter {ms : List (String × Json)} (h : Normal (.obj ms))
    (p : String × Json → Bool) : Normal (.obj (ms.filter p)) := by
  obtain ⟨hd, hv⟩ := normal_obj_iff.1 h
  exact normal_obj_iff.2
    ⟨(List.filter_sublist.map _).nodup hd, fun m hm => hv m (List.mem_of_mem_filter hm)⟩

/-- The items of an array, or the values of the members of an object. -/
def parts : Json → List Json
  | .arr js => js
  | .obj ms => ms.map Prod.snd
  | _ => []

/-- The parts of a tree in normal form are in normal form. -/
theorem Normal.part {j j' : Json} (h : j.Normal) (hj : j' ∈ j.parts) : j'.Normal := by
  cases j with
  | arr js => exact normal_arr_iff.1 h j' hj
  | obj ms => exact List.forall_mem_map.2 (normal_obj_iff.1 h).2 j' hj
  | null | bool | num | str => cases hj

/-- What each step of a walk into a tree keeps holds at the end of the walk. -/
theorem of_walk {κ : Type} {step : Json → κ → Option Json} {P : Json → Prop}
    (hstep : ∀ j k j', P j → step j k = some j' → P j') {path : List κ} {j j' : Json} (h : P j)
    (hj : path.foldlM step j = some j') : P j' := by
  induction path generalizing j with
  | nil =>
    cases hj
    exact h
  | cons k path ih =>
    obtain ⟨child, hchild, hj⟩ := Option.bind_eq_some_iff.1 hj
    exact ih (hstep j k child h hchild) hj

/-! ## Where normal trees come from -/

/-- A normal form is in normal form. -/
theorem normal_normalize (j : Json) : (normalize j).Normal := by
  induction j using induction with
  | null | bool | str => rfl
  | num n => cases n <;> rfl
  | arr js ih =>
    rw [normalize, normalizeItems_eq_map, normal_arr_iff]
    exact List.forall_mem_map.2 ih
  | obj ms ih =>
    rw [normalize, normal_obj_iff]
    refine ⟨OrderedMap.distinct_ofPairs _, fun m hm => ?_⟩
    have hm := OrderedMap.mem_ofPairs hm
    rw [normalizeMembers_eq_map, List.mem_map] at hm
    obtain ⟨m', hm', rfl⟩ := hm
    exact ih m' hm'

/-- A tree that repeats no key and whose numbers can be spelled is in normal form. -/
theorem normal_of_keysDistinct {j : Json} (hk : KeysDistinct j) (hf : NumbersFinite j) :
    Normal j := by
  induction j using induction with
  | null | bool | str => rfl
  | num n =>
    cases n with
    | nonFinite => exact hf.elim
    | int | float => rfl
  | arr js ih =>
    rw [KeysDistinct, itemsKeysDistinct_iff] at hk
    rw [NumbersFinite, itemsNumbersFinite_iff] at hf
    exact normal_arr_iff.2 fun j hj => ih j hj (hk j hj) (hf j hj)
  | obj ms ih =>
    rw [KeysDistinct, membersKeysDistinct_iff] at hk
    rw [NumbersFinite, membersNumbersFinite_iff] at hf
    exact normal_obj_iff.2 ⟨hk.1, fun m hm => ih m hm (hk.2 m hm) (hf m hm)⟩

end Json

end RpcOpenApi
