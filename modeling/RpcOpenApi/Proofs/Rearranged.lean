import RpcOpenApi.Proofs.Codec.Order

/-!
# Trees whose items are rearranged at some places

Of two trees that mean the same, some arrays may have their items in another order. Such an array is
told by its place, the keys on the way to it, and everywhere else the trees differ in nothing but
the order of members (`Json.Rearranged`). For two objects it is enough to compare them key by key
(`Members.Rearranged`), so what is said of a written record is put together from its members
(`Members.Rearranged.append`).
-/

namespace RpcOpenApi

/-- Some places in a tree, each of them told by the keys on the way to it. -/
abbrev Places := List String → Prop

/-- The places that are below a key. -/
def Places.below (places : Places) (k : String) : Places := fun path => places (k :: path)

namespace Json

/-- The trees differ in nothing but the order of members, at any level, and the order of the items
of the arrays at some places. -/
inductive Rearranged : Places → Json → Json → Prop
  | similar {places : Places} {j j' : Json} (h : j.Similar j') : Rearranged places j j'
  | items {places : Places} {js js' : List Json} (hplace : places [])
      (h : (js.map ordered).Perm (js'.map ordered)) : Rearranged places (.arr js) (.arr js')
  | members {places : Places} {ms ms' : List (String × Json)} (hd : OrderedMap.Distinct ms)
      (hd' : OrderedMap.Distinct ms')
      (hkeys : ∀ k, k ∈ OrderedMap.keys ms ↔ k ∈ OrderedMap.keys ms')
      (h : ∀ k j j', OrderedMap.get? ms k = some j → OrderedMap.get? ms' k = some j' →
        Rearranged (places.below k) j j') : Rearranged places (.obj ms) (.obj ms')

/-- Trees that are rearranged at no place are similar. -/
theorem rearranged_nowhere_iff {j j' : Json} :
    Rearranged (fun _ => False) j j' ↔ j.Similar j' := by
  refine ⟨fun h => ?_, .similar⟩
  generalize hplaces : (fun _ => False : Places) = places at h
  induction h with
  | similar h => exact h
  | items hplace _ =>
    subst hplaces
    exact hplace.elim
  | @members _ ms ms' hd hd' hkeys _ ih =>
    subst hplaces
    refine similar_obj (Members.same_of_alike ⟨hd, hd', fun k => ?_⟩) hd'
    cases hj : OrderedMap.get? ms k with
    | none =>
      have hj' := mt (hkeys k).2 (OrderedMap.get?_eq_none_iff.1 hj)
      rw [OrderedMap.get?_eq_none_iff.2 hj']
      exact .none
    | some j =>
      have hk := (hkeys k).1 (OrderedMap.isSome_get?_iff.1 (hj ▸ rfl))
      obtain ⟨j', hj'⟩ := Option.isSome_iff_exists.1 (OrderedMap.isSome_get?_iff.2 hk)
      rw [hj']
      exact .some (ih k j j' hj hj' rfl)

end Json

namespace Members

/-- The members have the same keys, with values that are rearranged below them. -/
def Rearranged (places : Places) (ms ms' : Members) : Prop :=
  ∀ k, Option.Rel (Json.Rearranged (places.below k)) (OrderedMap.get? ms k)
    (OrderedMap.get? ms' k)

namespace Rearranged

section
variable {places : Places} {ms ms' ns ns' : Members} {k : String} {j j' : Json}

/-- Objects are rearranged if their members are and no key is repeated. -/
theorem obj (h : Members.Rearranged places ms ms') (hd : OrderedMap.Distinct ms)
    (hd' : OrderedMap.Distinct ms') : Json.Rearranged places (.obj ms) (.obj ms') := by
  refine .members hd hd' (fun k => ?_) fun k j j' hj hj' => ?_
  · rw [← OrderedMap.isSome_get?_iff, ← OrderedMap.isSome_get?_iff, OptionRel.isSome_eq (h k)]
  · have hrel := h k
    rw [hj, hj'] at hrel
    cases hrel with
    | some hrel => exact hrel

/-- Members and further ones are rearranged if each of them are. -/
theorem append (h : Members.Rearranged places ms ms') (h' : Members.Rearranged places ns ns') :
    Members.Rearranged places (ms ++ ns) (ms' ++ ns') := by
  intro k
  rw [OrderedMap.get?_append, OrderedMap.get?_append]
  exact OptionRel.or (h k) (h' k)

/-- Members that are the same up to order are rearranged at no place. -/
theorem of_same (h : ms.Same ms') (hd : OrderedMap.Distinct ms') :
    Members.Rearranged places ms ms' := by
  intro k
  cases hj' : OrderedMap.get? ms' k with
  | none =>
    cases hj : OrderedMap.get? ms k with
    | none => exact .none
    | some j =>
      obtain ⟨j₁, hj₁, -⟩ := h.symm.exists_get? (h.distinct hd) hj
      cases hj'.symm.trans hj₁
  | some j' =>
    obtain ⟨j, hj, hsimilar⟩ := h.exists_get? hd hj'
    rw [hj]
    exact .some (.similar hsimilar)

/-- Members are rearranged as themselves. -/
theorem refl (ms : Members) : Members.Rearranged places ms ms := by
  intro k
  cases OrderedMap.get? ms k with
  | none => exact .none
  | some j => exact .some (.similar (.refl j))

/-- A member is rearranged if its value is. -/
theorem member (h : Json.Rearranged (places.below k) j j') :
    Members.Rearranged places [(k, j)] [(k, j')] := by
  intro k'
  rw [OrderedMap.get?_cons, OrderedMap.get?_cons]
  split
  · next hk => exact .some (hk ▸ h)
  · exact .none

/-- A field that may be left out is rearranged if its value is. -/
theorem optional {α : Type} {encode : α → Json} {o o' : Option α}
    (h : Option.Rel (fun a a' => Json.Rearranged (places.below k) (encode a) (encode a')) o o') :
    Members.Rearranged places (Encode.optional k encode o) (Encode.optional k encode o') := by
  cases h with
  | none => exact refl []
  | some h => exact member h

/-- Maps are written as members that are rearranged if the values of each key are. -/
theorem map {κ α : Type} [DecidableEq κ] {key : κ → String} (hkey : Function.Injective key)
    {encode : α → Json} {m m' : OrderedMap κ α}
    (h : ∀ k, Option.Rel (fun a a' => Json.Rearranged (places.below (key k)) (encode a) (encode a'))
      (m.get? k) (m'.get? k)) :
    Members.Rearranged places (m.map fun e => (key e.1, encode e.2))
      (m'.map fun e => (key e.1, encode e.2)) :=
  OrderedMap.rel_get?_mapKeys (T := fun k => Json.Rearranged (places.below k)) hkey h

end

end Rearranged

end Members

end RpcOpenApi
