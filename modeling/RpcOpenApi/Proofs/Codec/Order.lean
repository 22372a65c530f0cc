import RpcOpenApi.Proofs.Codec.NormalForm
import RpcOpenApi.Proofs.Lookup
import RpcOpenApi.Proofs.MemberOrder

/-!
# Reading does not depend on the order of members

Trees in normal form are alike if they differ in nothing but the order of members (`Json.Alike`). A
reader respects a relation if it reads alike trees as related values, and reads one of them iff it
reads the other (`Respects`). For a part that the compiler only carries along the relation is that
the values are written as alike trees (`WrittenAlike`); for a part that it takes apart the relation
tells about its fields. A map is related to another one key by key (`OrderedMap.Alike`), so that the
order of its keys is left open.

A record is read field by field, so what its reader respects is put together from what the readers
of its fields respect (`Follows.map`, `Follows.seq`), and the last step is to show that the record
with related fields is related.
-/

namespace RpcOpenApi

open Relator

/-! ## Values that may be missing -/

namespace OptionRel

variable {α β : Type} {R S : α → β → Prop} {o : Option α} {o' : Option β}

/-- Related options are related in a weaker way. -/
theorem imp (h : Option.Rel R o o') (hRS : ∀ a b, R a b → S a b) : Option.Rel S o o' := by
  cases h with
  | some hab => exact .some (hRS _ _ hab)
  | none => exact .none

/-- The relation of options may be turned round. -/
theorem symm (h : Option.Rel R o o') : Option.Rel (flip R) o' o := by
  cases h with
  | some hab => exact .some hab
  | none => exact .none

/-- Of two related options both are there or none is. -/
theorem isSome_eq (h : Option.Rel R o o') : o.isSome = o'.isSome := by
  cases h <;> rfl

/-- If one of two related options is there, the other one has a related value. -/
theorem exists_of_eq_some {a : α} (h : Option.Rel R o o') (ha : o = some a) :
    ∃ b, o' = some b ∧ R a b := by
  cases h with
  | some hab =>
    cases ha
    exact ⟨_, rfl, hab⟩
  | none => cases ha

/-- Options with equal values are equal. -/
theorem eq {o o' : Option α} (h : Option.Rel Eq o o') : o = o' := by
  cases h with
  | some h => rw [h]
  | none => rfl

/-- Options within options stay related when they are flattened. -/
theorem join {o : Option (Option α)} {o' : Option (Option β)} (h : Option.Rel (Option.Rel R) o o') :
    Option.Rel R o.join o'.join := by
  cases h with
  | some h => exact h
  | none => exact .none

/-- Of related options with related alternatives, the first ones that are there are related. -/
theorem or {o₁ : Option α} {o₁' : Option β} (h : Option.Rel R o o') (h₁ : Option.Rel R o₁ o₁') :
    Option.Rel R (o.or o₁) (o'.or o₁') := by
  cases h with
  | some h => exact .some h
  | none => exact h₁

/-- Related options have related values, with related defaults. -/
theorem getD {a : α} {b : β} (h : Option.Rel R o o') (hab : R a b) : R (o.getD a) (o'.getD b) := by
  cases h with
  | some h => exact h
  | none => exact hab

/-- Related options stay related under functions that keep their values related. -/
theorem map {γ δ : Type} {T : γ → δ → Prop} {f : α → γ} {g : β → δ} (h : Option.Rel R o o')
    (hfg : ∀ a b, R a b → T (f a) (g b)) : Option.Rel T (o.map f) (o'.map g) := by
  cases h with
  | some h => exact .some (hfg _ _ h)
  | none => exact .none

end OptionRel

/-! ## Maps with related values -/

namespace OrderedMap

variable {κ α β : Type} [DecidableEq κ]

/-- Maps with distinct keys that have the same keys, with related values. -/
structure Alike (R : α → β → Prop) (m : OrderedMap κ α) (m' : OrderedMap κ β) : Prop where
  distinct : Distinct m
  distinct' : Distinct m'
  get? : ∀ k, Option.Rel R (m.get? k) (m'.get? k)

namespace Alike

variable {R : α → β → Prop} {m : OrderedMap κ α} {m' : OrderedMap κ β} {k : κ} {a : α} {b : β}

/-- Maps without entries are alike. -/
theorem nil : Alike R ([] : OrderedMap κ α) ([] : OrderedMap κ β) :=
  ⟨List.nodup_nil, List.nodup_nil, fun _ => .none⟩

/-- Alike maps are alike in a weaker way. -/
theorem imp {S : α → β → Prop} (h : Alike R m m') (hRS : ∀ a b, R a b → S a b) : Alike S m m' :=
  ⟨h.distinct, h.distinct', fun k => OptionRel.imp (h.get? k) hRS⟩

/-- That maps are alike may be turned round. -/
theorem symm (h : Alike R m m') : Alike (flip R) m' m :=
  ⟨h.distinct', h.distinct, fun k => OptionRel.symm (h.get? k)⟩

/-- A value of the one map has a related one in the other. -/
theorem exists_get? (h : Alike R m m') (ha : m.get? k = some a) :
    ∃ b, m'.get? k = some b ∧ R a b :=
  OptionRel.exists_of_eq_some (h.get? k) ha

/-- Maps of one entry are alike if the values are related. -/
theorem singleton (h : R a b) : Alike R [(k, a)] [(k, b)] := by
  refine ⟨List.nodup_singleton _, List.nodup_singleton _, fun k' => ?_⟩
  rw [get?_cons, get?_cons]
  split
  · exact .some h
  · exact .none

/-- Selecting keys keeps maps alike. -/
theorem filter (h : Alike R m m') (p : κ → Bool) :
    Alike R (m.filter (fun e => p e.1)) (m'.filter (fun e => p e.1)) := by
  refine ⟨(List.filter_sublist.map _).nodup h.distinct,
    (List.filter_sublist.map _).nodup h.distinct', fun k => ?_⟩
  rw [get?_filter, get?_filter]
  split
  · exact h.get? k
  · exact .none

/-- Inserting alike entries keeps maps alike. -/
theorem insertAll {n : OrderedMap κ α} {n' : OrderedMap κ β} (h : Alike R m m')
    (hn : Alike R n n') : Alike R (m.insertAll n) (m'.insertAll n') := by
  refine ⟨h.distinct.insertAll, h.distinct'.insertAll, fun k => ?_⟩
  rw [hn.distinct.get?_insertAll, hn.distinct'.get?_insertAll]
  exact OptionRel.or (hn.get? k) (h.get? k)

/-- Alike maps have the same keys. -/
theorem mem_keys_iff (h : Alike R m m') : k ∈ keys m ↔ k ∈ keys m' := by
  rw [← isSome_get?_iff, ← isSome_get?_iff, OptionRel.isSome_eq (h.get? k)]

/-- The keys are a permutation of each other. -/
theorem keys_perm (h : Alike R m m') : (keys m).Perm (keys m') :=
  (List.perm_ext_iff_of_nodup h.distinct h.distinct').2 fun _ => h.mem_keys_iff

/-- Of two alike maps both are empty or none is. -/
theorem isEmpty_eq (h : Alike R m m') : m.isEmpty = m'.isEmpty := by
  have hlength := h.keys_perm.length_eq
  rw [length_keys, length_keys] at hlength
  cases m <;> cases m' <;> simp_all

/-- The entries of the one map, in another order, are related to those of the other one by one. -/
theorem exists_perm (h : Alike R m m') :
    ∃ m₁, m.Perm m₁ ∧ List.Forall₂ (fun e e' => e.1 = e'.1 ∧ R e.2 e'.2) m₁ m' := by
  have hentry : ∀ e' ∈ m', ∃ e ∈ m, e.1 = e'.1 ∧ R e.2 e'.2 := fun e' he' => by
    obtain ⟨a, ha, hR⟩ := h.symm.exists_get? (h.distinct'.get?_of_mem he')
    exact ⟨(e'.1, a), mem_of_get? ha, rfl, hR⟩
  -- one entry of `m` for each entry of `m'`; as many keys, so these are all entries of `m`
  obtain ⟨m₁, hsub, hrel⟩ : ∃ m₁, (∀ e ∈ m₁, e ∈ m) ∧
      List.Forall₂ (fun e e' => e.1 = e'.1 ∧ R e.2 e'.2) m₁ m' := by
    clear h
    induction m' with
    | nil => exact ⟨[], List.forall_mem_nil _, .nil⟩
    | cons e' m' ih =>
      obtain ⟨he', hm'⟩ := List.forall_mem_cons.1 hentry
      obtain ⟨e, he, hR⟩ := he'
      obtain ⟨m₁, hsub, hrel⟩ := ih hm'
      exact ⟨e :: m₁, List.forall_mem_cons.2 ⟨he, hsub⟩, .cons hR hrel⟩
  have hkeys : keys m₁ = keys m' := by
    clear hsub h hentry
    induction hrel with
    | nil => rfl
    | cons hR _ ih => rw [keys_cons, keys_cons, hR.1, ih]
  have hd : m₁.Nodup := .of_map Prod.fst (by rw [← keys, hkeys]; exact h.distinct')
  refine ⟨m₁, ?_, hrel⟩
  have hlength : m.length ≤ m₁.length := by
    rw [← length_keys m, ← length_keys m₁, hkeys, h.keys_perm.length_eq]
  exact ((List.subperm_of_subset hd hsub).perm_of_length_le hlength).symm

end Alike

/-- The values under other keys, which keep distinct ones apart, are related if those of each key
are. -/
theorem rel_get?_mapKeys {κ' γ δ : Type} [DecidableEq κ'] {key : κ → κ'}
    (hkey : Function.Injective key) {f : α → γ} {g : β → δ} {T : κ' → γ → δ → Prop}
    {m : OrderedMap κ α} {m' : OrderedMap κ β}
    (h : ∀ k, Option.Rel (fun a b => T (key k) (f a) (g b)) (m.get? k) (m'.get? k)) (k' : κ') :
    Option.Rel (T k') (get? (m.map fun e => (key e.1, f e.2)) k')
      (get? (m'.map fun e => (key e.1, g e.2)) k') := by
  by_cases hk : ∃ k, key k = k'
  · obtain ⟨k, rfl⟩ := hk
    rw [get?_mapKeys hkey, get?_mapKeys hkey]
    exact OptionRel.map (h k) fun _ _ h => h
  · have hnone {α γ : Type} (f : α → γ) (m : OrderedMap κ α) :
        get? (m.map fun e => (key e.1, f e.2)) k' = none := by
      rw [get?_eq_none_iff, keys_map, List.mem_map]
      exact fun ⟨e, _, he⟩ => hk ⟨e.1, he⟩
    rw [hnone, hnone]
    exact .none

namespace Alike

variable {R : α → β → Prop} {m : OrderedMap κ α} {m' : OrderedMap κ β}

/-- Other keys that keep distinct ones apart keep maps alike. -/
theorem mapKeys {κ' : Type} [DecidableEq κ'] {key : κ → κ'} (h : Alike R m m')
    (hkey : Function.Injective key) :
    Alike R (m.map fun e => (key e.1, e.2)) (m'.map fun e => (key e.1, e.2)) :=
  ⟨h.distinct.mapKeys (f := id) hkey, h.distinct'.mapKeys (f := id) hkey,
    rel_get?_mapKeys (f := id) (g := id) hkey h.get?⟩

end Alike

end OrderedMap

/-- Members with the same keys and similar values are the same up to order. -/
theorem Members.same_of_alike {ms ms' : Members} (h : OrderedMap.Alike Json.Similar ms ms') :
    ms.Same ms' := by
  obtain ⟨m₁, hperm, hrel⟩ := h.exists_perm
  refine (same_of_perm hperm).trans (.of_eq ?_)
  clear hperm h
  induction hrel with
  | nil => rfl
  | cons he _ ih =>
    rw [Json.orderedMembers, Json.orderedMembers, ih, he.1,
      show Json.ordered _ = Json.ordered _ from he.2]

/-! ## Alike trees -/

namespace Json

/-- The trees are in normal form and differ in nothing but the order of members. -/
structure Alike (v v' : Json) : Prop where
  normal : v.Normal
  normal' : v'.Normal
  similar : v.Similar v'

namespace Alike

variable {v v' v'' : Json} {ms ms' : Members} {js : List Json}

/-- That trees are alike may be turned round. -/
theorem symm (h : v.Alike v') : v'.Alike v := ⟨h.normal', h.normal, h.similar.symm⟩

/-- A tree in normal form is alike to itself. -/
theorem refl (h : v.Normal) : v.Alike v := ⟨h, h, .refl v⟩

/-- The members of alike objects are the same up to order. -/
theorem same (h : Alike (.obj ms) (.obj ms')) : ms.Same ms' := h.similar.same

/-- The keys of an object that is alike to another one are distinct. -/
theorem distinct (h : Alike (.obj ms) (.obj ms')) : OrderedMap.Distinct ms :=
  (normal_obj_iff.1 h.normal).1

/-- An object is alike to objects only. -/
theorem exists_obj (h : Alike (.obj ms) v') : ∃ ms', v' = .obj ms' := by
  cases v' with
  | obj ms' => exact ⟨ms', rfl⟩
  | null | bool | num | str | arr => cases h.similar

/-- An array is alike to the arrays of alike items. -/
theorem exists_arr (h : Alike (.arr js) v') : ∃ js', v' = .arr js' ∧ List.Forall₂ Alike js js' := by
  cases v' with
  | arr js' =>
    refine ⟨js', rfl, ?_⟩
    have hsimilar := h.similar
    rw [Similar, ordered, ordered, arr.injEq, orderedItems_eq_map, orderedItems_eq_map] at hsimilar
    have hnormal := normal_arr_iff.1 h.normal
    have hnormal' := normal_arr_iff.1 h.normal'
    clear h
    induction js generalizing js' with
    | nil =>
      obtain rfl := List.map_eq_nil_iff.1 hsimilar.symm
      exact .nil
    | cons j js ih =>
      cases js' with
      | nil => cases hsimilar
      | cons j' js' =>
        obtain ⟨hj, hjs⟩ := List.forall_mem_cons.1 hnormal
        obtain ⟨hj', hjs'⟩ := List.forall_mem_cons.1 hnormal'
        obtain ⟨hhead, htail⟩ := List.cons.inj hsimilar
        exact .cons ⟨hj, hj', hhead⟩ (ih js' htail hjs hjs')
  | null | bool | num | str | obj => cases h.similar

/-- A value without parts is alike to itself only. -/
theorem eq_of_str {s : String} (h : Alike (.str s) v') : v' = .str s := by
  cases v' with
  | str s' =>
    cases h.similar
    rfl
  | null | bool | num | arr | obj => cases h.similar

/-- A boolean is alike to itself only. -/
theorem eq_of_bool {b : Bool} (h : Alike (.bool b) v') : v' = .bool b := by
  cases v' with
  | bool b' =>
    cases h.similar
    rfl
  | null | num | str | arr | obj => cases h.similar

/-- A number is alike to itself only. -/
theorem eq_of_num {x : Number} (h : Alike (.num x) v') : v' = .num x := by
  cases v' with
  | num x' =>
    cases h.similar
    rfl
  | null | bool | str | arr | obj => cases h.similar

/-- Only `null` is alike to `null`. -/
theorem eq_of_null (h : Alike .null v') : v' = .null := by
  cases v' with
  | null => rfl
  | bool | num | str | arr | obj => cases h.similar

/-- Alike trees are the same, or both are arrays, or both are objects. -/
theorem eq_or_containers (h : v.Alike v') :
    v = v' ∨ (∃ js js', v = .arr js ∧ v' = .arr js') ∨ ∃ ms ms', v = .obj ms ∧ v' = .obj ms' := by
  cases v with
  | null => exact .inl h.eq_of_null.symm
  | bool b => exact .inl h.eq_of_bool.symm
  | num x => exact .inl h.eq_of_num.symm
  | str s => exact .inl h.eq_of_str.symm
  | arr js =>
    obtain ⟨js', rfl, -⟩ := h.exists_arr
    exact .inr (.inl ⟨js, js', rfl, rfl⟩)
  | obj ms =>
    obtain ⟨ms', rfl⟩ := h.exists_obj
    exact .inr (.inr ⟨ms, ms', rfl, rfl⟩)

/-- An array of one item is alike to arrays of one item only. -/
theorem exists_arr_singleton {j : Json} (h : Alike (.arr [j]) v') :
    ∃ j', v' = .arr [j'] ∧ j.Alike j' := by
  obtain ⟨_, rfl, hjs⟩ := h.exists_arr
  obtain ⟨j', _, hj, hnil, rfl⟩ := List.forall₂_cons_left_iff.1 hjs
  obtain rfl := List.forall₂_nil_left_iff.1 hnil
  exact ⟨j', rfl, hj⟩

/-- An array of two items is alike to arrays of two items only. -/
theorem exists_arr_pair {j k : Json} (h : Alike (.arr [j, k]) v') :
    ∃ j' k', v' = .arr [j', k'] ∧ j.Alike j' ∧ k.Alike k' := by
  obtain ⟨_, rfl, hjs⟩ := h.exists_arr
  obtain ⟨j', _, hj, hks, rfl⟩ := List.forall₂_cons_left_iff.1 hjs
  obtain ⟨k', _, hk, hnil, rfl⟩ := List.forall₂_cons_left_iff.1 hks
  obtain rfl := List.forall₂_nil_left_iff.1 hnil
  exact ⟨j', k', rfl, hj, hk⟩

/-- Alike objects have the same keys, with alike values. -/
theorem members (h : Alike (.obj ms) (.obj ms')) : OrderedMap.Alike Alike ms ms' := by
  refine ⟨h.distinct, h.symm.distinct, fun k => ?_⟩
  cases hj : OrderedMap.get? ms k with
  | none =>
    cases hj' : OrderedMap.get? ms' k with
    | none => exact .none
    | some j' =>
      obtain ⟨j, hj₁, -⟩ := h.same.exists_get? h.symm.distinct hj'
      cases hj.symm.trans hj₁
  | some j =>
    obtain ⟨j', hj', hsimilar⟩ := h.symm.same.exists_get? h.distinct hj
    rw [hj']
    exact .some ⟨h.normal.of_member? hj, h.normal'.of_member? hj', hsimilar.symm⟩

/-- Alike objects are alike without the members under some names. -/
theorem others (h : Alike (.obj ms) (.obj ms')) (names : List String) :
    Alike (.obj (ms.others names)) (.obj (ms'.others names)) :=
  have hn' := h.normal'.others names
  ⟨h.normal.others names, hn',
    similar_obj (h.same.filter fun k => decide (k ∉ names)) (normal_obj_iff.1 hn').1⟩

/-- The values that alike objects have under some names are alike up to their order. -/
theorem exists_values (h : Alike (.obj ms) (.obj ms')) (names : List String) :
    ∃ js, (ms.values names).Perm js ∧ List.Forall₂ Alike js (ms'.values names) := by
  obtain ⟨m₁, hperm, hrel⟩ := h.members.exists_perm
  refine ⟨Members.values names m₁, (hperm.filter _).map _, ?_⟩
  refine List.rel_map (fun _ _ he => he.2) (List.rel_filter (fun e e' he => ?_) hrel)
  show decide (e.1 ∈ names) = true ↔ decide (e'.1 ∈ names) = true
  rw [he.1]

/-- Of alike objects both have values under some names or none has. -/
theorem values_eq_nil {names : List String} (h : Alike (.obj ms) (.obj ms'))
    (hnil : ms.values names = []) : ms'.values names = [] := by
  obtain ⟨js, hperm, hrel⟩ := h.exists_values names
  obtain rfl := List.nil_perm.1 (hnil ▸ hperm)
  exact List.forall₂_nil_left_iff.1 hrel

/-- If one of two alike objects has one value under some names, the other one has an alike value. -/
theorem exists_values_eq_singleton {names : List String} {j : Json}
    (h : Alike (.obj ms) (.obj ms')) (hj : ms.values names = [j]) :
    ∃ j', ms'.values names = [j'] ∧ j.Alike j' := by
  obtain ⟨js, hperm, hrel⟩ := h.exists_values names
  obtain rfl := List.singleton_perm.1 (hj ▸ hperm)
  obtain ⟨j', js', halike, hnil, heq⟩ := List.forall₂_cons_left_iff.1 hrel
  obtain rfl := List.forall₂_nil_left_iff.1 hnil
  exact ⟨j', heq, halike⟩

/-- An object with one member is alike to those with one member, of the same key and with an alike
value. -/
theorem exists_obj_singleton {k : String} {j : Json} (h : Alike (.obj [(k, j)]) v') :
    ∃ j', v' = .obj [(k, j')] ∧ j.Alike j' := by
  obtain ⟨ms', rfl⟩ := h.exists_obj
  obtain ⟨ms, hperm, hrel⟩ := h.members.exists_perm
  obtain rfl := List.singleton_perm.1 hperm
  obtain ⟨⟨_, j'⟩, ms', ⟨rfl, halike⟩, hnil, rfl⟩ := List.forall₂_cons_left_iff.1 hrel
  obtain rfl := List.forall₂_nil_left_iff.1 hnil
  exact ⟨j', rfl, halike⟩

end Alike

end Json

/-! ## Readers -/

section
variable {α β : Type} {decode : Json → Except DecodeError α} {encode : α → Json}
  {R S : α → α → Prop} {v v' : Json} {ms : Members}

/-- What is read from the tree is also read from every tree that is alike to it, up to a
relation. -/
def Respects (decode : Json → Except DecodeError α) (R : α → α → Prop) (v : Json) : Prop :=
  ∀ v', v.Alike v' → ∀ a, decode v = .ok a → ∃ a', decode v' = .ok a' ∧ R a a'

/-- The values are written as alike trees. -/
abbrev WrittenAlike (encode : α → Json) (a a' : α) : Prop := (encode a).Alike (encode a')

/-- The values are written as objects with the same members up to order. -/
def WrittenSame (encode : α → Json) (a a' : α) : Prop :=
  ∃ ms ms' : Members, encode a = .obj ms ∧ encode a' = .obj ms' ∧ ms.Same ms'

/-- Reading that respects a relation respects a weaker one. -/
theorem Respects.imp (h : Respects decode R v) (hRS : ∀ a a', R a a' → S a a') :
    Respects decode S v := by
  intro v' hv a ha
  obtain ⟨a', ha', hR⟩ := h v' hv a ha
  exact ⟨a', ha', hRS a a' hR⟩

/-- Reading that respects two relations respects both of them together. -/
theorem Respects.and (h : Respects decode R v) (h' : Respects decode S v) :
    Respects decode (fun a a' => R a a' ∧ S a a') v := by
  intro v' hv a ha
  obtain ⟨a', ha', hR⟩ := h v' hv a ha
  obtain ⟨a'', ha'', hS⟩ := h' v' hv a ha
  cases ha'.symm.trans ha''
  exact ⟨a', ha', hR, hS⟩

/-- Objects with the same members are alike if they are in normal form. -/
theorem Respects.written (h : Respects decode (WrittenSame encode) v) (ht : Tidy decode encode) :
    Respects decode (WrittenAlike encode) v := by
  intro v' hv a ha
  obtain ⟨a', ha', ms, ms', hms, hms', hsame⟩ := h v' hv a ha
  have hn : (encode a).Normal := ht v a ha
  have hn' : (encode a').Normal := ht v' a' ha'
  rw [hms] at hn
  rw [hms'] at hn'
  refine ⟨a', ha', ?_⟩
  rw [WrittenAlike, hms, hms']
  exact ⟨hn, hn', Json.similar_obj hsame (Json.normal_obj_iff.1 hn').1⟩

/-- A tree is read iff a tree that is alike to it is. -/
theorem Respects.isOk_iff (h : ∀ v, Respects decode R v) (hv : v.Alike v') :
    (∃ a, decode v = .ok a) ↔ ∃ a', decode v' = .ok a' := by
  constructor
  · rintro ⟨a, ha⟩
    obtain ⟨a', ha', -⟩ := h v v' hv a ha
    exact ⟨a', ha'⟩
  · rintro ⟨a', ha'⟩
    obtain ⟨a, ha, -⟩ := h v' v hv.symm a' ha'
    exact ⟨a, ha⟩

/-- What is read from alike values, which may be missing, is related. -/
theorem optionRel_of_respects {j j' : Option Json} {o o' : Option α}
    (h : ∀ v ∈ j, Respects decode R v) (hj : Option.Rel Json.Alike j j')
    (ho : o.map Except.ok = j.map decode) (ho' : o'.map Except.ok = j'.map decode) :
    Option.Rel R o o' := by
  cases hj with
  | none =>
    obtain rfl := Option.map_eq_none_iff.1 ho
    obtain rfl := Option.map_eq_none_iff.1 ho'
    exact .none
  | some halike =>
    obtain ⟨a, rfl, ha⟩ := Option.map_eq_some_iff.1 ho
    obtain ⟨a', rfl, ha'⟩ := Option.map_eq_some_iff.1 ho'
    obtain ⟨a'', ha'', hR⟩ := h _ rfl _ halike a ha.symm
    cases ha'.trans ha''
    exact .some hR

/-! ### Basic parts and lists -/

/-- Texts are read without regard to order. -/
theorem respects_text (v : Json) : Respects Decode.text Eq v := by
  intro v' hv s hs
  obtain rfl := Decode.text_eq_ok.1 hs
  cases hv.eq_of_str
  exact ⟨s, hs, rfl⟩

/-- The texts that are read are written alike. -/
theorem respects_written_text (v : Json) : Respects Decode.text (WrittenAlike .str) v :=
  (respects_text v).imp fun _ _ h => h ▸ .refl rfl

/-- Booleans are read without regard to order. -/
theorem respects_boolean (v : Json) : Respects Decode.boolean Eq v := by
  intro v' hv b hb
  cases v with
  | bool b' =>
    cases hv.eq_of_bool
    exact ⟨b, hb, rfl⟩
  | null | num | str | arr | obj => cases hb

/-- Numbers of sixteen bits are read without regard to order. -/
theorem respects_word16 (v : Json) : Respects Decode.word16 Eq v := by
  intro v' hv n hn
  obtain ⟨rfl, -⟩ := Decode.word16_eq_ok.1 hn
  cases hv.eq_of_num
  exact ⟨n, hn, rfl⟩

/-- Trees of any form are read as trees that are written alike. -/
theorem respects_free (v : Json) : Respects Decode.free (WrittenAlike id) v := by
  intro v' hv a ha
  obtain rfl : v = a := hv.normal.symm.trans (Except.ok.inj ha)
  exact ⟨v', congrArg Except.ok hv.normal', hv⟩

/-- A variant is read from trees that alike ones are equal to. -/
theorem respects_variant (variants : List (String × α)) (v : Json) :
    Respects (Decode.variant variants) Eq v := by
  intro v' hv a ha
  obtain ⟨name, -, rfl | rfl⟩ := Decode.variant_eq_ok ha
  · cases hv.eq_of_str
    exact ⟨a, ha, rfl⟩
  · obtain ⟨j, rfl, hj⟩ := hv.exists_obj_singleton
    cases hj.eq_of_null
    exact ⟨a, ha, rfl⟩

/-- Lists whose items are read with respect to a relation have related items. -/
theorem respects_list (h : ∀ v, Respects decode R v) (v : Json) :
    Respects (Decode.list decode) (List.Forall₂ R) v := by
  intro v' hv as hlist
  obtain ⟨js, rfl, has⟩ := Decode.list_eq_ok.1 hlist
  obtain ⟨js', rfl, hjs⟩ := hv.exists_arr
  clear hv hlist
  show ∃ as', Decode.items decode js' = .ok as' ∧ _
  induction hjs generalizing as with
  | nil =>
    cases has
    exact ⟨[], rfl, .nil⟩
  | cons hj _ ih =>
    obtain ⟨a, ha, has⟩ := Decode.bind_eq_ok.1 has
    obtain ⟨rest, hrest, has⟩ := Decode.bind_eq_ok.1 has
    cases has
    obtain ⟨a', ha', hR⟩ := h _ _ hj a ha
    obtain ⟨rest', hrest', hrel⟩ := ih rest hrest
    exact ⟨a' :: rest', Decode.bind_eq_ok.2 ⟨a', ha', Decode.bind_eq_ok.2 ⟨rest', hrest', rfl⟩⟩,
      .cons hR hrel⟩

/-- Lists are written alike if their items are. -/
theorem written_list {as as' : List α} (h : List.Forall₂ (WrittenAlike encode) as as') :
    WrittenAlike (Encode.list encode) as as' := by
  induction h with
  | nil => exact .refl rfl
  | cons ha _ ih =>
    have htail := ih.similar
    rw [Json.Similar, Encode.list, Encode.list, Json.ordered, Json.ordered, Json.arr.injEq,
      Json.orderedItems_eq_map, Json.orderedItems_eq_map] at htail
    refine ⟨Json.normal_arr_iff.2 (List.forall_mem_cons.2
        ⟨ha.normal, Json.normal_arr_iff.1 ih.normal⟩),
      Json.normal_arr_iff.2 (List.forall_mem_cons.2
        ⟨ha.normal', Json.normal_arr_iff.1 ih.normal'⟩), Json.similar_arr ?_⟩
    rw [List.map_cons, List.map_cons, List.map_cons, List.map_cons, htail,
      show (encode _).ordered = (encode _).ordered from ha.similar]

/-- Lists are read as lists that are written alike if their items are. -/
theorem respects_written_list (h : ∀ v, Respects decode (WrittenAlike encode) v) (v : Json) :
    Respects (Decode.list decode) (WrittenAlike (Encode.list encode)) v :=
  (respects_list h v).imp fun _ _ => written_list

/-- Lists of texts are read without regard to order. -/
theorem respects_texts (v : Json) : Respects (Decode.list Decode.text) Eq v :=
  (respects_list respects_text v).imp fun _ _ h => by rwa [List.forall₂_eq_eq_eq] at h

/-! ### Maps -/

/-- Members of alike objects are read as maps with related values. -/
theorem Decode.exists_of_members_of_alike (h : ∀ e ∈ ms, Respects decode R e.2) {ms' : Members}
    (hms : Json.Alike (.obj ms) (.obj ms')) {es : List (String × α)}
    (hes : members decode ms = .ok es) :
    ∃ es', members decode ms' = .ok es' ∧ OrderedMap.Alike R es es' := by
  have hvalues : ∀ m' ∈ ms', ∃ a, decode m'.2 = .ok a := fun m' hm' => by
    obtain ⟨j, hj, halike⟩ :=
      hms.symm.members.exists_get? (hms.symm.distinct.get?_of_mem hm')
    have hmem := OrderedMap.mem_of_get? hj
    obtain ⟨a, ha⟩ := exists_members_eq_ok.1 ⟨es, hes⟩ _ hmem
    obtain ⟨a', ha', -⟩ := h _ hmem _ halike.symm a ha
    exact ⟨a', ha'⟩
  obtain ⟨es', hes'⟩ := exists_members_eq_ok.2 hvalues
  exact ⟨es', hes', distinct_of_members hms.distinct hes,
    distinct_of_members hms.symm.distinct hes', fun k =>
      optionRel_of_respects (fun v hv => h _ (OrderedMap.mem_of_get? hv)) (hms.members.get? k)
        (get?_of_members hes k) (get?_of_members hes' k)⟩

/-- A map is read from alike objects as maps with related values. -/
theorem respects_map_of (h : ∀ ms, v = .obj ms → ∀ e ∈ ms, Respects decode R e.2) :
    Respects (Decode.map decode) (OrderedMap.Alike R) v := by
  intro v' hv m hm
  obtain ⟨ms, rfl, es, hes, rfl⟩ := Decode.map_eq_ok.1 hm
  obtain ⟨ms', rfl⟩ := hv.exists_obj
  obtain ⟨es', hes', halike⟩ := Decode.exists_of_members_of_alike (h ms rfl) hv hes
  refine ⟨_, Decode.map_eq_ok.2 ⟨ms', rfl, es', hes', rfl⟩, ?_⟩
  rwa [halike.distinct.ofPairs_eq, halike.distinct'.ofPairs_eq]

/-- Maps whose values are read with respect to a relation are alike. -/
theorem respects_map (h : ∀ v, Respects decode R v) (v : Json) :
    Respects (Decode.map decode) (OrderedMap.Alike R) v :=
  respects_map_of fun _ _ e _ => h e.2

/-- Values that are written as alike trees are written in normal form. -/
theorem mapOf_written {κ : Type} [DecidableEq κ] {m m' : OrderedMap κ α}
    (h : OrderedMap.Alike (WrittenAlike encode) m m') : MapOf (fun a => (encode a).Normal) m := by
  refine ⟨h.distinct, fun e he => ?_⟩
  obtain ⟨b, -, hb⟩ := h.exists_get? (h.distinct.get?_of_mem he)
  exact hb.normal

/-- Maps whose values are written as alike trees are written as alike objects, under any keys that
keep distinct ones apart. -/
theorem alike_entries {κ : Type} [DecidableEq κ] {m m' : OrderedMap κ α} {key : κ → String}
    (hkey : Function.Injective key) (h : OrderedMap.Alike (WrittenAlike encode) m m') :
    Json.Alike (.obj (m.map fun e => (key e.1, encode e.2)))
      (.obj (m'.map fun e => (key e.1, encode e.2))) := by
  have hd := h.distinct.mapKeys (f := encode) hkey
  have hd' := h.distinct'.mapKeys (f := encode) hkey
  have hsame : Members.Same (m.map fun e => (key e.1, encode e.2))
      (m'.map fun e => (key e.1, encode e.2)) :=
    Members.same_of_alike ⟨hd, hd', OrderedMap.rel_get?_mapKeys hkey fun k =>
      OptionRel.imp (h.get? k) fun _ _ halike => halike.similar⟩
  have hnormal := mapOf_written h
  have hnormal' := mapOf_written (h.symm.imp fun _ _ halike => Json.Alike.symm halike)
  exact ⟨Json.normal_obj_iff.2 ⟨hd, List.forall_mem_map.2 hnormal.values⟩,
    Json.normal_obj_iff.2 ⟨hd', List.forall_mem_map.2 hnormal'.values⟩, Json.similar_obj hsame hd'⟩

/-- Alike maps are written alike if their values are. -/
theorem written_map {m m' : OrderedMap String α} (h : OrderedMap.Alike (WrittenAlike encode) m m') :
    WrittenAlike (Encode.map encode) m m' :=
  alike_entries Function.injective_id h

/-- Maps are read as maps that are written alike if their values are. -/
theorem respects_written_map (h : ∀ v, Respects decode (WrittenAlike encode) v) (v : Json) :
    Respects (Decode.map decode) (WrittenAlike (Encode.map encode)) v :=
  (respects_map h v).imp fun _ _ => written_map

/-- Maps of trees are read as maps that are written alike. -/
theorem respects_freeMap (v : Json) :
    Respects (Decode.map Decode.free) (WrittenAlike Encode.free) v := by
  have h := respects_written_map respects_free v
  rwa [Encode.map_id] at h

/-! ### Records -/

/-- What is read from the members is also read from those of every object that is alike to theirs,
up to a relation. -/
def Follows (read : Members → Reading α) (R : α → α → Prop) (ms : Members) : Prop :=
  ∀ ms', Json.Alike (.obj ms) (.obj ms') → ∀ a, read ms = .ok a → ∃ a', read ms' = .ok a' ∧ R a a'

/-- Records respect what their members follow. -/
theorem respects_record {name : String} {read : Members → Reading α} (h : ∀ ms, Follows read R ms)
    (v : Json) : Respects (Decode.record name read) R v := by
  intro v' hv a ha
  obtain ⟨ms, rfl, hread⟩ := Decode.record_eq_ok.1 ha
  obtain ⟨ms', rfl⟩ := hv.exists_obj
  obtain ⟨a', ha', hR⟩ := h ms ms' hv a hread
  exact ⟨a', Decode.record_eq_ok.2 ⟨ms', rfl, ha'⟩, hR⟩

namespace Follows

variable {read : Members → Reading α} {name : String} {names : List String}

/-- A function takes related parts to related values. -/
theorem map {S : β → β → Prop} {f : α → β} (hf : (R ⇒ S) f f) (h : Follows read R ms) :
    Follows (fun ms => f <$> read ms) S ms := by
  intro ms' hms b hb
  obtain ⟨a, ha, hab⟩ := Reading.gives_map.1 (Reading.eq_ok_iff_gives.1 hb)
  obtain ⟨a', ha', hR⟩ := h ms' hms a ha
  exact ⟨f a', Reading.eq_ok_iff_gives.2 (Reading.gives_map.2 ⟨a', ha', rfl⟩), hab ▸ hf hR⟩

/-- Parts are read one by one. -/
theorem seq {S : β → β → Prop} {f : Members → Reading (α → β)} (hf : Follows f (R ⇒ S) ms)
    (h : Follows read R ms) : Follows (fun ms => f ms <*> read ms) S ms := by
  intro ms' hms b hb
  obtain ⟨g, hg, a, ha, hab⟩ := Reading.gives_seq.1 (Reading.eq_ok_iff_gives.1 hb)
  obtain ⟨g', hg', hgS⟩ := hf ms' hms g hg
  obtain ⟨a', ha', hR⟩ := h ms' hms a ha
  exact ⟨g' a', Reading.eq_ok_iff_gives.2 (Reading.gives_seq.2 ⟨g', hg', a', ha', rfl⟩),
    hab ▸ hgS hR⟩

/-- A field that has to be written. -/
theorem required (h : ∀ e ∈ ms, Respects decode R e.2) :
    Follows (fun ms => ms.required name decode) R ms := by
  intro ms' hms a ha
  obtain ⟨j, hj, hread⟩ := Members.required_eq_ok.1 ha
  obtain ⟨j', hj', halike⟩ := hms.exists_values_eq_singleton hj
  obtain ⟨e, he, rfl⟩ := Members.exists_of_mem_values (hj ▸ List.mem_singleton_self j)
  obtain ⟨a', ha', hR⟩ := h e he j' halike a hread
  exact ⟨a', Members.required_eq_ok.2 ⟨j', hj', ha'⟩, hR⟩

/-- A field with other names and a default. -/
theorem aliased {aliases : List String} {default : α} (h : ∀ e ∈ ms, Respects decode R e.2)
    (hdefault : R default default) :
    Follows (fun ms => (ms.field? name decode aliases).orElse default) R ms := by
  intro ms' hms a ha
  rcases Members.field?_orElse_eq_ok.1 ha with ⟨hnil, rfl⟩ | ⟨j, hj, hread⟩
  · exact ⟨a, Members.field?_orElse_eq_ok.2 (.inl ⟨hms.values_eq_nil hnil, rfl⟩), hdefault⟩
  · obtain ⟨j', hj', halike⟩ := hms.exists_values_eq_singleton hj
    obtain ⟨e, he, rfl⟩ := Members.exists_of_mem_values (hj ▸ List.mem_singleton_self j)
    obtain ⟨a', ha', hR⟩ := h e he j' halike a hread
    exact ⟨a', Members.field?_orElse_eq_ok.2 (.inr ⟨j', hj', ha'⟩), hR⟩

/-- A field with a default. -/
theorem defaulted {default : α} (h : ∀ e ∈ ms, Respects decode R e.2)
    (hdefault : R default default) : Follows (fun ms => ms.defaulted name decode default) R ms :=
  aliased h hdefault

end Follows

/-- A value that may be `null`. -/
theorem respects_optional (h : Respects decode R v) :
    Respects (Decode.optional decode) (Option.Rel R) v := by
  intro v' hv o ho
  by_cases hnull : v = .null
  · subst hnull
    cases ho
    exact ⟨none, by rw [hv.eq_of_null]; rfl, .none⟩
  · rw [Decode.optional_of_ne_null hnull] at ho
    obtain ⟨a, ha, ho⟩ := Decode.bind_eq_ok.1 ho
    cases ho
    obtain ⟨a', ha', hR⟩ := h v' hv a ha
    have hnull' : v' ≠ .null := by
      rintro rfl
      exact hnull hv.symm.eq_of_null
    exact ⟨some a', Decode.optional_eq_ok_some.2 ⟨hnull', ha'⟩, .some hR⟩

namespace Follows

variable {read : Members → Reading α} {name : String} {names : List String}

/-- A field that may be left out. -/
theorem optional (h : ∀ e ∈ ms, Respects decode R e.2) :
    Follows (fun ms => ms.optional name decode) (Option.Rel R) ms :=
  defaulted (fun e he => respects_optional (h e he)) .none

/-- A field that may be left out, whose value has no members to be ordered. -/
theorem optional_eq (h : ∀ v, Respects decode Eq v) :
    Follows (fun ms => ms.optional name decode) Eq ms := by
  intro ms' hms o ho
  obtain ⟨o', ho', hR⟩ := optional (fun e _ => h e.2) ms' hms o ho
  exact ⟨o', ho', OptionRel.eq hR⟩

/-- The free-form values of the other members. -/
theorem extensions : Follows (fun ms => ms.extensions names) Members.Same ms := by
  intro ms' hms m hm
  obtain rfl := Members.extensions_of_normal hms.normal hm
  refine ⟨Members.others names ms', ?_, hms.same.filter fun k => decide (k ∉ names)⟩
  obtain ⟨hd, hv⟩ := Json.normal_obj_iff.1 (hms.normal'.others names)
  rw [Members.extensions_eq_ok, Json.normalizeMembers_eq_self hv, hd.ofPairs_eq]

/-- A record that is read from the other members. -/
theorem flattened (h : Follows read R (ms.others names)) :
    Follows (fun ms => ms.flattened names read) R ms := by
  intro ms' hms a ha
  obtain ⟨a', ha', hR⟩ := h _ (hms.others names) a (Members.flattened_eq_ok.1 ha)
  exact ⟨a', Members.flattened_eq_ok.2 ha', hR⟩

end Follows

/-! ### WrittenAlike fields -/

/-- An optional field is written as the same member if its values are written as alike trees. -/
theorem Members.same_optional {name : String} {o o' : Option α}
    (h : Option.Rel (WrittenAlike encode) o o') :
    Members.Same (Encode.optional name encode o) (Encode.optional name encode o') := by
  cases h with
  | some halike => exact same_member halike.similar
  | none => exact .refl _

/-- A section of the components is written as the same member if the maps are written as alike
trees. -/
theorem Members.same_section {name : String} {m m' : OrderedMap String α}
    (h : OrderedMap.Alike (WrittenAlike encode) m m') :
    Members.Same (Components.sectionMember name encode m)
      (Components.sectionMember name encode m') := by
  rw [Components.sectionMember, Components.sectionMember, h.isEmpty_eq]
  split
  · exact .refl _
  · exact same_member (written_map h).similar

end

end RpcOpenApi
