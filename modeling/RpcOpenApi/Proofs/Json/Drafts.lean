import RpcOpenApi.Proofs.Json.Tokens
import RpcOpenApi.Json.Reader

/-!
# The tree of a written text

The tokens of a tree are put together into what the tree writes (`Json.draft`), of which everything
is kept if the containers are not nested too deep. So the text of a tree with whole numbers is read
as that tree (`Json.read?_pretty`).

In the other direction, what is kept of a text that repeats no key and has only whole numbers
(`Json.Draft.Plain`) is such a tree again, and as deep as a text may be (`Draft.Plain.keep?`).
-/

namespace RpcOpenApi

namespace Json

mutual

/-- What a tree writes. -/
def draft : Json → Draft
  | .arr items => .arr (itemsDraft items)
  | .obj members => .obj (membersDraft members)
  | j => .leaf (some j)

/-- What the items of an array write. -/
def itemsDraft : List Json → List Draft
  | [] => []
  | j :: js => draft j :: itemsDraft js

/-- What the members of an object write. -/
def membersDraft : List (String × Json) → List (Option String × Draft)
  | [] => []
  | (k, j) :: ms => (some k, draft j) :: membersDraft ms

end

/-! ## From tokens to drafts -/

section
variable {j : Json} {js : List Json} {ms : List (String × Json)} {containers : List Open}
  {v : Draft}

/-- From a place for a value, the tokens of a tree are put together into what it writes. -/
def Assembles (j : Json) : Prop :=
  ∀ containers, (tokens j).foldlM Assembly.step ⟨containers, .value⟩
    = some ⟨containers, .afterValue (draft j)⟩

/-- The first item of an array is like any other value. -/
theorem foldlM_tokens_itemOrEnd (containers : List Open) (j : Json) :
    (tokens j).foldlM Assembly.step ⟨containers, .itemOrEnd⟩
      = (tokens j).foldlM Assembly.step ⟨containers, .value⟩ := by
  cases j with
  | null | bool | num | str => rfl
  | arr js => cases js <;> rfl
  | obj ms => cases ms <;> rfl

/-- The tokens of further items are put together into further items. -/
theorem foldlM_itemsTokens {items : List Draft} (h : ∀ j ∈ js, Assembles j) :
    (itemsTokens js).foldlM Assembly.step ⟨.arr items :: containers, .afterValue v⟩
      = some ⟨containers, .afterValue (.arr ((v :: items).reverse ++ itemsDraft js))⟩ := by
  induction js generalizing items v with
  | nil =>
    rw [itemsDraft, List.append_nil]
    rfl
  | cons j js ih =>
    obtain ⟨hj, hjs⟩ := List.forall_mem_cons.1 h
    have hcomma : Assembly.step ⟨.arr items :: containers, .afterValue v⟩ .comma
        = some ⟨.arr (v :: items) :: containers, .value⟩ := rfl
    rw [itemsTokens, List.cons_append, List.foldlM_cons, hcomma, Option.bind_eq_bind,
      Option.bind_some, List.foldlM_append, hj, Option.bind_eq_bind, Option.bind_some, ih hjs,
      itemsDraft]
    simp

/-- The tokens of further members are put together into further members. -/
theorem foldlM_membersTokens {members : List (Option String × Draft)} {key : Option String}
    (h : ∀ m ∈ ms, Assembles m.2) :
    (membersTokens ms).foldlM Assembly.step ⟨.obj members key :: containers, .afterValue v⟩
      = some ⟨containers, .afterValue
          (.obj (((key, v) :: members).reverse ++ membersDraft ms))⟩ := by
  induction ms generalizing members key v with
  | nil =>
    rw [membersDraft, List.append_nil]
    rfl
  | cons m ms ih =>
    obtain ⟨k, j⟩ := m
    obtain ⟨hj, hms⟩ := List.forall_mem_cons.1 h
    have hkey : [Token.comma, .text (some k), .colon].foldlM Assembly.step
        ⟨.obj members key :: containers, .afterValue v⟩
        = some ⟨.obj ((key, v) :: members) (some k) :: containers, .value⟩ := rfl
    have htokens : membersTokens ((k, j) :: ms)
        = [.comma, .text (some k), .colon] ++ (tokens j ++ membersTokens ms) := rfl
    rw [htokens, List.foldlM_append, hkey, Option.bind_eq_bind, Option.bind_some,
      List.foldlM_append, hj, Option.bind_eq_bind, Option.bind_some, ih hms, membersDraft]
    simp

/-- The tokens of every tree are put together into what it writes. -/
theorem assembles (j : Json) : Assembles j := by
  induction j using induction with
  | null | bool | num | str => exact fun _ => rfl
  | arr js ih =>
    intro containers
    cases js with
    | nil => rfl
    | cons j js =>
      obtain ⟨hj, hjs⟩ := List.forall_mem_cons.1 ih
      have hopen : Assembly.step ⟨containers, .value⟩ .openBracket
          = some ⟨.arr [] :: containers, .itemOrEnd⟩ := rfl
      rw [tokens, List.cons_append, List.foldlM_cons, hopen, Option.bind_eq_bind, Option.bind_some,
        List.foldlM_append, foldlM_tokens_itemOrEnd, hj, Option.bind_eq_bind, Option.bind_some,
        foldlM_itemsTokens hjs]
      rfl
  | obj ms ih =>
    intro containers
    cases ms with
    | nil => rfl
    | cons m ms =>
      obtain ⟨k, j⟩ := m
      obtain ⟨hj, hms⟩ := List.forall_mem_cons.1 ih
      have hkey : [Token.openBrace, .text (some k), .colon].foldlM Assembly.step
          ⟨containers, .value⟩ = some ⟨.obj [] (some k) :: containers, .value⟩ := rfl
      have htokens : tokens (.obj ((k, j) :: ms))
          = [.openBrace, .text (some k), .colon] ++ (tokens j ++ membersTokens ms) := rfl
      rw [htokens, List.foldlM_append, hkey, Option.bind_eq_bind, Option.bind_some,
        List.foldlM_append, hj, Option.bind_eq_bind, Option.bind_some, foldlM_membersTokens hms]
      rfl

/-- The draft of the tokens of a tree is what the tree writes. -/
theorem ofTokens?_tokens (j : Json) : Draft.ofTokens? j.tokens = some j.draft := by
  rw [Draft.ofTokens?, assembles j]
  rfl

end

/-! ## From drafts to trees -/

section
variable {b : Bounds} {depth : Nat} {j : Json} {js : List Json} {ms : List (String × Json)}

/-- All items are kept if each of them is. -/
theorem keepItems?_itemsDraft (position : Nat)
    (h : ∀ j ∈ js, (draft j).keep? depth .whole = some j) :
    Draft.keepItems? depth .whole position (itemsDraft js) = some js := by
  induction js generalizing position with
  | nil => rfl
  | cons j js ih =>
    obtain ⟨hj, hjs⟩ := List.forall_mem_cons.1 h
    have hshape : Shape.whole.item position = .whole := rfl
    rw [itemsDraft, Draft.keepItems?, hshape, hj, ih _ hjs]
    rfl

/-- All members are kept if the value of each of them is. -/
theorem keepMembers?_membersDraft (h : ∀ m ∈ ms, (draft m.2).keep? depth .whole = some m.2) :
    Draft.keepMembers? depth .whole (membersDraft ms) = some ms := by
  induction ms with
  | nil => rfl
  | cons m ms ih =>
    obtain ⟨k, j⟩ := m
    obtain ⟨hj, hms⟩ := List.forall_mem_cons.1 h
    have hshape : Shape.whole.member? k = some .whole := rfl
    rw [membersDraft, Draft.keepMembers?, hshape]
    simp only [hj, ih hms]
    rfl

/-- All of what a tree writes is kept if its containers are not nested too deep. -/
theorem keep?_draft (h : j.Within b (.atMost depth)) : (draft j).keep? depth .whole = some j := by
  induction j using induction generalizing depth with
  | null | bool | num | str => rfl
  | arr js ih =>
    obtain ⟨hroom, hjs⟩ := within_arr.1 h
    cases depth with
    | zero => cases hroom
    | succ depth =>
      have hkept : Draft.keepItems? depth .whole 0 (itemsDraft js) = some js :=
        keepItems?_itemsDraft 0 fun j hj => ih j hj (hjs j hj)
      rw [draft, Draft.keep?, hkept]
      rfl
  | obj ms ih =>
    obtain ⟨hroom, hms⟩ := within_obj.1 h
    cases depth with
    | zero => cases hroom
    | succ depth =>
      have hkept : Draft.keepMembers? depth .whole (membersDraft ms) = some ms :=
        keepMembers?_membersDraft fun m hm => ih m hm (hms.value hm)
      rw [draft, Draft.keep?, hkept]
      rfl

/-- **The text of a tree is read as the tree**, if its numbers are whole and its containers are
nested no deeper than in a text. -/
theorem read?_pretty (h : j.Within wholeNumbers (.atMost maxDepth)) :
    read? .whole j.pretty = some j := by
  have hdraft : Draft.ofText? j.pretty = some j.draft := by
    rw [Draft.ofText?, tokens?_pretty h, Option.bind_eq_bind, Option.bind_some, ofTokens?_tokens]
  rw [read?, hdraft, Option.bind_eq_bind, Option.bind_some, keep?_draft h]

end

/-! ## What is kept of a text -/

namespace Draft

mutual

/-- No object repeats a key, and every value that is not in a container is a text, a whole number,
`true`, `false` or `null`, or it has no value. -/
def Plain : Draft → Prop
  | .leaf value => ∀ j ∈ value, j.Within wholeNumbers (.atMost 0)
  | .arr items => ItemsPlain items
  | .obj members => (members.filterMap Prod.fst).Nodup ∧ MembersPlain members

/-- The items of an array are plain. -/
def ItemsPlain : List Draft → Prop
  | [] => True
  | d :: ds => Plain d ∧ ItemsPlain ds

/-- The values of the members of an object are plain. -/
def MembersPlain : List (Option String × Draft) → Prop
  | [] => True
  | (_, d) :: ds => Plain d ∧ MembersPlain ds

end

mutual

/-- Whether a draft is plain is decided by going through it. -/
def decidablePlain : (d : Draft) → Decidable d.Plain
  | .leaf value => inferInstanceAs (Decidable (∀ j ∈ value, j.Within wholeNumbers (.atMost 0)))
  | .arr items => decidableItemsPlain items
  | .obj members =>
    have := decidableMembersPlain members
    inferInstanceAs (Decidable ((members.filterMap Prod.fst).Nodup ∧ MembersPlain members))

/-- Whether the items of an array are plain is decided one after the other. -/
def decidableItemsPlain : (ds : List Draft) → Decidable (ItemsPlain ds)
  | [] => isTrue trivial
  | d :: ds =>
    have := decidablePlain d
    have := decidableItemsPlain ds
    inferInstanceAs (Decidable (Plain d ∧ ItemsPlain ds))

/-- Whether the members of an object are plain is decided one after the other. -/
def decidableMembersPlain : (ds : List (Option String × Draft)) → Decidable (MembersPlain ds)
  | [] => isTrue trivial
  | (_, d) :: ds =>
    have := decidablePlain d
    have := decidableMembersPlain ds
    inferInstanceAs (Decidable (Plain d ∧ MembersPlain ds))

end

/-- Whether a draft is plain is decided by going through it. -/
instance : DecidablePred Plain := decidablePlain

mutual

/-- What is kept of a plain draft repeats no key, has only whole numbers, and is nested no deeper
than is allowed. -/
theorem Plain.keep? : ∀ {d : Draft} {depth : Nat} {shape : Shape} {j : Json}, d.Plain →
    d.keep? depth shape = some j → j.KeysDistinct ∧ j.Within wholeNumbers (.atMost depth)
  | .leaf value, depth, _, j, h, hj => by
    rw [Draft.keep?] at hj
    have hw := h j hj
    cases j with
    | null | bool | num | str => exact ⟨trivial, hw⟩
    | arr | obj => cases hw.1
  | .arr items, 0, _, _, _, hj => nomatch hj
  | .arr items, depth + 1, shape, _, h, hj => by
    obtain ⟨js, hjs, hj⟩ := Option.bind_eq_some_iff.1 hj
    cases hj
    obtain ⟨hkeys, hw⟩ := ItemsPlain.keepItems? h hjs
    exact ⟨hkeys, Nat.succ_pos _, hw⟩
  | .obj members, 0, _, _, _, hj => nomatch hj
  | .obj members, depth + 1, shape, _, h, hj => by
    obtain ⟨ms, hms, hj⟩ := Option.bind_eq_some_iff.1 hj
    cases hj
    obtain ⟨hsub, hkeys, hw⟩ := MembersPlain.keepMembers? h.2 hms
    exact ⟨⟨hsub.nodup h.1, hkeys⟩, Nat.succ_pos _, hw⟩

/-- The items that are kept of plain ones repeat no key, and are within the bounds. -/
theorem ItemsPlain.keepItems? : ∀ {ds : List Draft} {depth position : Nat} {shape : Shape}
    {js : List Json}, ItemsPlain ds → Draft.keepItems? depth shape position ds = some js →
    ItemsKeysDistinct js ∧ ItemsWithin wholeNumbers (.atMost depth) js
  | [], _, _, _, js, _, hjs => by
    cases hjs
    exact ⟨trivial, trivial⟩
  | d :: ds, depth, position, shape, _, h, hjs => by
    obtain ⟨j, hj, hrest⟩ := Option.bind_eq_some_iff.1 hjs
    obtain ⟨rest, hds, hrest⟩ := Option.bind_eq_some_iff.1 hrest
    cases hrest
    obtain ⟨hkeys, hw⟩ := Plain.keep? h.1 hj
    obtain ⟨hkeys', hw'⟩ := ItemsPlain.keepItems? h.2 hds
    exact ⟨⟨hkeys, hkeys'⟩, hw, hw'⟩

/-- The members that are kept of plain ones have distinct keys, and are within the bounds. -/
theorem MembersPlain.keepMembers? : ∀ {ds : List (Option String × Draft)} {depth : Nat}
    {shape : Shape} {ms : List (String × Json)}, MembersPlain ds →
    Draft.keepMembers? depth shape ds = some ms →
    (ms.map Prod.fst).Sublist (ds.filterMap Prod.fst) ∧ MembersKeysDistinct ms ∧
      MembersWithin wholeNumbers (.atMost depth) ms
  | [], _, _, _, _, hms => by
    cases hms
    exact ⟨.slnil, trivial, trivial⟩
  | (none, _) :: _, _, _, _, _, hms => nomatch hms
  | (some key, d) :: ds, depth, shape, ms, h, hms => by
    rw [Draft.keepMembers?] at hms
    split at hms
    · obtain ⟨hsub, hrest⟩ := MembersPlain.keepMembers? h.2 hms
      exact ⟨hsub.cons key, hrest⟩
    · obtain ⟨j, hj, hrest⟩ := Option.bind_eq_some_iff.1 hms
      obtain ⟨rest, hds, hrest⟩ := Option.bind_eq_some_iff.1 hrest
      cases hrest
      obtain ⟨hkeys, hw⟩ := Plain.keep? h.1 hj
      obtain ⟨hsub, hkeys', hw'⟩ := MembersPlain.keepMembers? h.2 hds
      exact ⟨hsub.cons_cons key, ⟨hkeys, hkeys'⟩, ⟨fun _ _ _ => trivial, hw⟩, hw'⟩

end

end Draft

end Json

end RpcOpenApi
