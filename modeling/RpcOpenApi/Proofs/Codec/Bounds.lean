import RpcOpenApi.Proofs.Codec.NormalForm

/-!
# What is written lies within the bounds of what was read

Reading a part of a document and writing it again moves its members around, leaves some of them out
and sets some by default, but it invents nothing: the texts that stand under `$ref`, the numbers and
the depth of nesting are within every bound that the tree has which was read (`Inherits`). A bound
is a condition on each of these (`Bounds`, `Json.Within`), so one pass through the types of the
document model serves all of them; the depth may be unbounded.

A part that is always written, even if it was not read, needs room for itself: the responses of an
operation, the operations of a description, and so the paths, are the places where the depth may not
be too small.
-/

namespace RpcOpenApi

/-- How deep containers may be nested. -/
inductive Depth where
  | unlimited
  | atMost (n : Nat)

namespace Depth

/-- What is left of the depth inside of a container. -/
def inside : Depth → Depth
  | unlimited => unlimited
  | atMost n => atMost (n - 1)

/-- The depth has room for `k` containers, each inside of the one before. -/
def Allows : Depth → Nat → Prop
  | unlimited, _ => True
  | atMost n, k => k ≤ n

variable {d : Depth} {k l : Nat}

/-- Inside of a container there is room for one container less. -/
theorem Allows.inside (h : d.Allows (k + 1)) : d.inside.Allows k := by
  cases d with
  | unlimited => exact trivial
  | atMost n => exact Nat.le_sub_of_add_le h

/-- Where there is room for some containers, there is room for fewer. -/
theorem Allows.mono (hkl : k ≤ l) (h : d.Allows l) : d.Allows k := by
  cases d with
  | unlimited => exact trivial
  | atMost n => exact Nat.le_trans hkl h

/-- Whether there is room is decided by comparing numbers. -/
instance : Decidable (d.Allows k) :=
  match d with
  | unlimited => isTrue trivial
  | atMost n => inferInstanceAs (Decidable (k ≤ n))

@[simp] theorem inside_unlimited : unlimited.inside = unlimited := rfl
@[simp] theorem allows_unlimited : unlimited.Allows k := trivial

end Depth

/-- What is asked of the texts that stand under `$ref` and of the numbers of a tree. -/
structure Bounds where
  target : String → Prop
  number : Number → Prop

namespace Json

mutual

/-- The tree is within the bounds, and its containers are nested at most `n` deep. -/
def Within (b : Bounds) : Depth → Json → Prop
  | _, .num x => b.number x
  | n, .arr items => n.Allows 1 ∧ ItemsWithin b n.inside items
  | n, .obj members => n.Allows 1 ∧ MembersWithin b n.inside members
  | _, _ => True

/-- The items of an array are within the bounds. -/
def ItemsWithin (b : Bounds) : Depth → List Json → Prop
  | _, [] => True
  | n, j :: js => Within b n j ∧ ItemsWithin b n js

/-- The members of an object are within the bounds. -/
def MembersWithin (b : Bounds) : Depth → List (String × Json) → Prop
  | _, [] => True
  | n, (k, j) :: ms =>
    ((k = "$ref" → ∀ s ∈ j.text?, b.target s) ∧ Within b n j) ∧ MembersWithin b n ms

end

section
variable {b : Bounds} [DecidablePred b.target] [DecidablePred b.number]

mutual

/-- Whether a tree is within the bounds is decided by going through it. -/
def decidableWithin : (n : Depth) → (j : Json) → Decidable (Within b n j)
  | _, .null | _, .bool _ | _, .str _ => isTrue trivial
  | _, .num x => inferInstanceAs (Decidable (b.number x))
  | n, .arr items =>
    have := decidableItemsWithin n.inside items
    inferInstanceAs (Decidable (n.Allows 1 ∧ ItemsWithin b n.inside items))
  | n, .obj members =>
    have := decidableMembersWithin n.inside members
    inferInstanceAs (Decidable (n.Allows 1 ∧ MembersWithin b n.inside members))

/-- Whether the items of an array are within the bounds is decided one after the other. -/
def decidableItemsWithin : (n : Depth) → (js : List Json) → Decidable (ItemsWithin b n js)
  | _, [] => isTrue trivial
  | n, j :: js =>
    have := decidableWithin n j
    have := decidableItemsWithin n js
    inferInstanceAs (Decidable (Within b n j ∧ ItemsWithin b n js))

/-- Whether the members of an object are within the bounds is decided one after the other. -/
def decidableMembersWithin :
    (n : Depth) → (ms : List (String × Json)) → Decidable (MembersWithin b n ms)
  | _, [] => isTrue trivial
  | n, (k, j) :: ms =>
    have := decidableWithin n j
    have := decidableMembersWithin n ms
    inferInstanceAs (Decidable
      (((k = "$ref" → ∀ s ∈ j.text?, b.target s) ∧ Within b n j) ∧ MembersWithin b n ms))

end

/-- Being within the bounds can be decided for concrete trees. -/
instance {n : Depth} : DecidablePred (Within b n) := decidableWithin n

end

/-- A member is within the bounds. -/
def MemberWithin (b : Bounds) (n : Depth) (m : String × Json) : Prop :=
  (m.1 = "$ref" → ∀ s ∈ m.2.text?, b.target s) ∧ m.2.Within b n

section
variable {b : Bounds} {n : Depth} {j : Json} {js : List Json} {k : String} {m : String × Json}
  {ms ms' : Members}

@[simp] theorem within_null : Json.null.Within b n := trivial
@[simp] theorem within_bool (x : Bool) : (Json.bool x).Within b n := trivial
@[simp] theorem within_str (s : String) : (Json.str s).Within b n := trivial
@[simp] theorem within_num (x : Number) : (Json.num x).Within b n ↔ b.number x := .rfl

/-- Items are within the bounds iff each of them is. -/
theorem itemsWithin_iff : ItemsWithin b n js ↔ ∀ j ∈ js, j.Within b n := by
  induction js with
  | nil => simp [ItemsWithin]
  | cons j js ih => rw [ItemsWithin, ih, List.forall_mem_cons]

/-- Members are within the bounds iff each of them is. -/
theorem membersWithin_iff : MembersWithin b n ms ↔ ∀ m ∈ ms, MemberWithin b n m := by
  induction ms with
  | nil => simp [MembersWithin]
  | cons m ms ih =>
    obtain ⟨k, j⟩ := m
    rw [MembersWithin, ih, List.forall_mem_cons]
    rfl

/-- An array needs room for itself, and its items have the room inside of it. -/
@[simp] theorem within_arr :
    (Json.arr js).Within b n ↔ n.Allows 1 ∧ ∀ j ∈ js, j.Within b n.inside := by
  rw [Within, itemsWithin_iff]

/-- An object needs room for itself, and its members have the room inside of it. -/
@[simp] theorem within_obj :
    (Json.obj ms).Within b n ↔ n.Allows 1 ∧ MembersWithin b n.inside ms := .rfl

@[simp] theorem membersWithin_nil : MembersWithin b n [] := trivial

/-- Some members are within the bounds iff the first one is and the others are. -/
@[simp] theorem membersWithin_cons :
    MembersWithin b n (m :: ms) ↔ MemberWithin b n m ∧ MembersWithin b n ms := .rfl

/-- Two lists of members are within the bounds together iff each of them is. -/
@[simp] theorem membersWithin_append :
    MembersWithin b n (ms ++ ms') ↔ MembersWithin b n ms ∧ MembersWithin b n ms' := by
  simp only [membersWithin_iff, List.mem_append, or_imp, forall_and]

/-- A member that is not one under `$ref` is within the bounds if its value is. -/
@[simp] theorem memberWithin_of_ne (hk : k ≠ "$ref") :
    MemberWithin b n (k, j) ↔ j.Within b n :=
  ⟨And.right, fun h => ⟨fun he => (hk he).elim, h⟩⟩

/-- A member whose value is not a text is within the bounds if its value is. -/
theorem memberWithin_of_text?_eq_none (hj : j.text? = none) :
    MemberWithin b n (k, j) ↔ j.Within b n :=
  ⟨And.right, fun h => ⟨fun _ s hs => by simp [hj] at hs, h⟩⟩

/-- A field that is no reference is within the bounds iff its value is, if it has one. -/
@[simp] theorem membersWithin_optional {α : Type} {name : String} {encode : α → Json}
    {o : Option α} (hname : name ≠ "$ref") :
    MembersWithin b n (Encode.optional name encode o) ↔ ∀ a ∈ o, (encode a).Within b n := by
  cases o <;> simp [Encode.optional, hname]

/-- A part of some members that are within the bounds is within them. -/
theorem MembersWithin.filter (h : MembersWithin b n ms) (p : String × Json → Bool) :
    MembersWithin b n (ms.filter p) :=
  membersWithin_iff.2 fun m hm => membersWithin_iff.1 h m (List.mem_of_mem_filter hm)

/-- The members with other names are within the bounds if all members are. -/
theorem MembersWithin.others (h : MembersWithin b n ms) (names : List String) :
    MembersWithin b n (ms.others names) :=
  h.filter _

/-- The value of a member is within the bounds. -/
theorem MembersWithin.value (h : MembersWithin b n ms) (hm : m ∈ ms) : m.2.Within b n :=
  (membersWithin_iff.1 h m hm).2

/-- The parts of a tree within the bounds are within them. -/
theorem Within.part {j j' : Json} (h : j.Within b n) (hj : j' ∈ j.parts) :
    j'.Within b n.inside := by
  cases j with
  | arr js => exact (within_arr.1 h).2 j' hj
  | obj ms =>
    obtain ⟨m, hm, rfl⟩ := List.mem_map.1 hj
    exact (within_obj.1 h).2.value hm
  | null | bool | num | str => cases hj

/-- A text stays one, and nothing else becomes one. -/
theorem text?_normalize (j : Json) : j.normalize.text? = j.text? := by
  cases j with
  | num x => cases x <;> rfl
  | null | bool | str | arr | obj => rfl

/-- The normal form of a tree is within its bounds. -/
theorem Within.normalize (h : j.Within b n) : j.normalize.Within b n := by
  induction j using induction generalizing n with
  | null | bool | str => exact trivial
  | num x =>
    cases x with
    | nonFinite => exact trivial
    | int | float => exact h
  | arr js ih =>
    obtain ⟨hn, hjs⟩ := within_arr.1 h
    rw [Json.normalize, normalizeItems_eq_map]
    exact within_arr.2 ⟨hn, List.forall_mem_map.2 fun j hj => ih j hj (hjs j hj)⟩
  | obj ms ih =>
    obtain ⟨hn, hms⟩ := within_obj.1 h
    rw [Json.normalize, normalizeMembers_eq_map]
    refine within_obj.2 ⟨hn, membersWithin_iff.2 fun e he => ?_⟩
    obtain ⟨m, hm, rfl⟩ := List.mem_map.1 (OrderedMap.mem_ofPairs he)
    obtain ⟨htext, hvalue⟩ := membersWithin_iff.1 hms m hm
    exact ⟨fun hk s hs => htext hk s (text?_normalize m.2 ▸ hs), ih m hm hvalue⟩

end

end Json

/-! ## Readers -/

open Json (MembersWithin)

section
variable {α : Type} {decode : Json → Except DecodeError α} {encode : α → Json} {b : Bounds}
  {n : Depth} {ms : Members} {name : String} {names : List String}

/-- Whatever is read from a tree within the bounds is written within them. -/
def Inherits (decode : Json → Except DecodeError α) (encode : α → Json) (b : Bounds) (n : Depth) :
    Prop :=
  ∀ v : Json, v.Within b n → Yields decode (fun a => (encode a).Within b n) v

/-- A record inherits what its members hand on. -/
theorem inherits_record {record : String} {read : Members → Reading α}
    (h : ∀ ms a, n.Allows 1 → MembersWithin b n.inside ms → read ms = .ok a →
      (encode a).Within b n) :
    Inherits (Decode.record record read) encode b n := by
  intro v hv a ha
  obtain ⟨ms, rfl, hread⟩ := Decode.record_eq_ok.1 ha
  obtain ⟨hn, hms⟩ := Json.within_obj.1 hv
  exact h ms a hn hms hread

/-- A required field is written within the bounds if it is read from members within them. -/
theorem Members.within_required {a : α} (hms : MembersWithin b n ms)
    (hi : Inherits decode encode b n) (h : ms.required name decode = .ok a) :
    (encode a).Within b n :=
  yields_required (P := fun a => (encode a).Within b n) (fun e he => hi e.2 (hms.value he)) h

/-- So is a field with a default, if its default is written within them. -/
theorem Members.within_defaulted {a default : α} (hms : MembersWithin b n ms)
    (hi : Inherits decode encode b n) (hdefault : (encode default).Within b n)
    (h : ms.defaulted name decode default = .ok a) : (encode a).Within b n :=
  yields_defaulted (P := fun a => (encode a).Within b n) (fun e he => hi e.2 (hms.value he))
    hdefault h

/-- So is a field that may be left out. -/
theorem Members.within_optional {o : Option α} (hms : MembersWithin b n ms)
    (hi : Inherits decode encode b n) (h : ms.optional name decode = .ok o) :
    ∀ a ∈ o, (encode a).Within b n :=
  yields_optional (fun e he _ => hi e.2 (hms.value he)) h

/-- What is read as the other members is within the bounds. -/
theorem Members.within_extensions {m : OrderedMap String Json} (hms : MembersWithin b n ms)
    (h : ms.extensions names = .ok m) : MembersWithin b n m := by
  refine Json.membersWithin_iff.2 fun e he => ?_
  obtain ⟨e', he', rfl⟩ := exists_of_mem_extensions h he
  obtain ⟨htext, hvalue⟩ := Json.membersWithin_iff.1 (hms.others names) e' he'
  exact ⟨fun hk s hs => htext hk s (Json.text?_normalize e'.2 ▸ hs), hvalue.normalize⟩

/-! ## Basic parts, lists and maps -/

/-- A text has nothing that the bounds speak of. -/
theorem inherits_text : Inherits Decode.text .str b n := fun _ _ _ _ => trivial

/-- A tree of any form becomes normal, which keeps it within the bounds. -/
theorem inherits_free : Inherits Decode.free id b n := by
  intro v hv a ha
  cases ha
  exact hv.normalize

/-- A number of sixteen bits is written as the same number. -/
theorem inherits_word16 : Inherits Decode.word16 (fun k : Nat => Json.ofInt k) b n := by
  intro v hv k hk
  obtain ⟨rfl, -⟩ := Decode.word16_eq_ok.1 hk
  exact hv

/-- The items of a list inherit the bounds inside of it. -/
theorem inherits_list (h : Inherits decode encode b n.inside) :
    Inherits (Decode.list decode) (Encode.list encode) b n := by
  intro v hv as has
  obtain ⟨js, rfl, has⟩ := Decode.list_eq_ok.1 has
  obtain ⟨hn, hjs⟩ := Json.within_arr.1 hv
  refine Json.within_arr.2 ⟨hn, List.forall_mem_map.2 fun a ha => ?_⟩
  obtain ⟨j, hj, hread⟩ := Decode.exists_of_mem_items has ha
  exact h j (hjs j hj) a hread

/-- Written values that are no texts are within the bounds under any keys iff they are. -/
theorem within_entries_iff {κ : Type} {m : OrderedMap κ α} (key : κ → String)
    (htext : ∀ a, (encode a).text? = none) :
    MembersWithin b n (m.map (fun e => (key e.1, encode e.2)))
      ↔ ∀ e ∈ m, (encode e.2).Within b n := by
  rw [Json.membersWithin_iff, List.forall_mem_map]
  exact forall₂_congr fun e _ => Json.memberWithin_of_text?_eq_none (htext e.2)

/-- A map of values that are not written as texts is within the bounds iff its values are. -/
theorem within_map_iff {m : OrderedMap String α} (htext : ∀ a, (encode a).text? = none) :
    (Encode.map encode m).Within b n ↔ n.Allows 1 ∧ ∀ e ∈ m, (encode e.2).Within b n.inside := by
  rw [Encode.map, Json.within_obj]
  exact and_congr_right' (within_entries_iff id htext)

/-- A map of values that are not written as texts inherits what its values inherit. -/
theorem inherits_map (htext : ∀ a, (encode a).text? = none)
    (h : Inherits decode encode b n.inside) :
    Inherits (Decode.map decode) (Encode.map encode) b n := by
  intro v hv m hm
  obtain ⟨ms, rfl, es, hes, rfl⟩ := Decode.map_eq_ok.1 hm
  obtain ⟨hn, hms⟩ := Json.within_obj.1 hv
  refine (within_map_iff htext).2 ⟨hn, fun e he => ?_⟩
  obtain ⟨m, hm, -, hread⟩ := Decode.exists_of_mem_members hes (OrderedMap.mem_ofPairs he)
  exact h m.2 (hms.value hm) e.2 hread

/-- A list of texts needs room for one array, which it had before. -/
theorem inherits_texts : Inherits (Decode.list Decode.text) (Encode.list .str) b n :=
  inherits_list inherits_text

/-- A map of free-form values keeps its texts under their keys. -/
theorem inherits_freeMap : Inherits (Decode.map Decode.free) Encode.free b n := by
  intro v hv m hm
  obtain ⟨ms, rfl, es, hes, rfl⟩ := Decode.map_eq_ok.1 hm
  obtain ⟨hn, hms⟩ := Json.within_obj.1 hv
  refine Json.within_obj.2 ⟨hn, Json.membersWithin_iff.2 fun e he => ?_⟩
  obtain ⟨m, hm, hkey, hread⟩ := Decode.exists_of_mem_members hes (OrderedMap.mem_ofPairs he)
  obtain ⟨htext, hvalue⟩ := Json.membersWithin_iff.1 hms m hm
  have heq : m.2.normalize = e.2 := Except.ok.inj hread
  rw [Json.MemberWithin, ← heq, ← hkey, Json.text?_normalize]
  exact ⟨htext, hvalue.normalize⟩

/-- A section of the components is within the bounds if its map is. -/
theorem within_section {m : OrderedMap String α} (hname : name ≠ "$ref")
    (h : (Encode.map encode m).Within b n) :
    MembersWithin b n (Components.sectionMember name encode m) := by
  rw [Components.sectionMember]
  split
  · exact Json.membersWithin_nil
  · simpa [hname] using h

end

/-! ## References and schemas -/

section
variable {b : Bounds} {n : Depth}

namespace Reference

/-- A reference is within the bounds iff its target is one that they allow and its siblings are. -/
theorem within_encode {r : Reference} : r.encode.Within b n ↔
    n.Allows 1 ∧ b.target r.target ∧ MembersWithin b n.inside r.siblings := by
  simp [encode, members, Json.MemberWithin, Json.text?]

/-- A reference that is read from members within the bounds is within them. -/
theorem within_of_read {ms : Members} {r : Reference} (hn : n.Allows 1)
    (hms : MembersWithin b n.inside ms) (h : read ms = .ok r) : r.encode.Within b n := by
  obtain ⟨ht, -, -, hext⟩ := read_eq_ok.1 h
  refine within_encode.2 ⟨hn, ?_, Members.within_extensions hms hext⟩
  -- the target is the text of a member under `$ref`
  obtain ⟨j, hj, htext⟩ := Members.required_eq_ok.1 ht
  have hmem : j ∈ Members.values ["$ref"] ms := hj ▸ List.mem_singleton_self j
  obtain ⟨m, hm, rfl⟩ := List.mem_map.1 hmem
  obtain ⟨hm, hkey⟩ := List.mem_filter.1 hm
  have hkey : m.1 = "$ref" := List.mem_singleton.1 (of_decide_eq_true hkey)
  refine (Json.membersWithin_iff.1 hms m hm).1 hkey r.target ?_
  cases hv : m.2 with
  | str s =>
    rw [hv] at htext
    cases htext
    rfl
  | null | bool | num | arr | obj =>
    rw [hv] at htext
    cases htext

/-- References inherit the bounds. -/
theorem inherits : Inherits decode encode b n :=
  inherits_record fun _ _ => within_of_read

end Reference

namespace RefOr

variable {α : Type} {inner : Json → Except DecodeError α} {encode : α → Json}

/-- A definition that may be replaced by a reference inherits the bounds if inline ones do. -/
theorem inherits (h : Inherits inner encode b n) :
    Inherits (RefOr.decode inner) (RefOr.encode encode) b n := by
  intro v hv x hx
  rcases decode_eq_ok hx with ⟨r, hr, rfl⟩ | ⟨-, a, ha, rfl⟩
  · exact Reference.inherits v hv r hr
  · exact h v hv a ha

/-- A definition that is not written as a text is not one where a reference may stand either. -/
theorem text?_encode (h : ∀ a, (encode a).text? = none) (x : RefOr α) :
    (x.encode encode).text? = none := by
  cases x with
  | reference r => rfl
  | inline a => exact h a

end RefOr

/-- The type of a schema inherits the bounds. -/
theorem SchemaType.inherits : Inherits decode encode b n := by
  intro v hv t ht
  obtain ⟨_, rfl, rfl⟩ | ⟨names, hnames, rfl⟩ := decode_eq_ok.1 ht
  · exact trivial
  · exact inherits_texts _ hv names hnames

/-- Neither a schema nor a reference is written as a text. -/
theorem SchemaOrRef.text?_encode (x : SchemaOrRef) : x.encode.text? = none := by
  cases x with
  | reference | boolean => rfl
  | inline s => rw [SchemaOrRef.encode, Schema.encode_eq]; rfl

namespace Schema

/-- A schema is within the bounds iff its fields and its other keywords are. -/
theorem within_encode {s : Schema} : s.encode.Within b n ↔ n.Allows 1 ∧
    (∀ t ∈ s.type, t.encode.Within b n.inside) ∧
    (∀ ps ∈ s.properties, (Encode.map SchemaOrRef.encode ps).Within b n.inside) ∧
    (∀ l ∈ s.required, (Encode.list .str l).Within b n.inside) ∧
    MembersWithin b n.inside s.keywords := by
  rw [encode_eq, members]
  simp only [Json.within_obj, Json.membersWithin_append, ne_eq, String.reduceEq,
    not_false_eq_true, Json.membersWithin_optional, and_assoc]

/-- The maps of schemas within a tree are written within the bounds of the tree. -/
abbrev PropertiesWithin (b : Bounds) (v : Json) : Prop :=
  ∀ n, v.Within b n →
    Yields (Decode.map SchemaOrRef.decode)
      (fun ps => (Encode.map SchemaOrRef.encode ps).Within b n) v

/-- A schema that is read from members within the bounds is within them, if its properties are. -/
theorem within_of_read {ms : Members} {s : Schema} (hn : n.Allows 1)
    (hms : MembersWithin b n.inside ms) (hmaps : ∀ e ∈ ms, PropertiesWithin b e.2)
    (h : read ms = .ok s) : s.encode.Within b n := by
  obtain ⟨ht, hp, hr, hk⟩ := read_eq_ok.1 h
  exact within_encode.2 ⟨hn, Members.within_optional hms SchemaType.inherits ht,
    Members.yields_optional (fun e he _ => hmaps e he _ (hms.value he)) hp,
    Members.within_optional hms inherits_texts hr, Members.within_extensions hms hk⟩

end Schema

namespace SchemaOrRef

/-- What is read from a tree is written within its bounds if the maps of schemas among the members
of the tree are. -/
theorem within_of_maps {v : Json} (hv : v.Within b n)
    (hmaps : ∀ ms, v = .obj ms → ∀ e ∈ ms, Schema.PropertiesWithin b e.2) :
    Yields SchemaOrRef.decode (fun x => x.encode.Within b n) v := by
  intro x hx
  obtain ⟨y, rfl, rfl⟩ | ⟨ms, rfl, ⟨r, hr, rfl⟩ | ⟨-, s, hs, rfl⟩⟩ := decode_eq_ok hx
  · exact trivial
  · obtain ⟨hn, hms⟩ := Json.within_obj.1 hv
    exact Reference.within_of_read hn hms hr
  · obtain ⟨hn, hms⟩ := Json.within_obj.1 hv
    exact Schema.within_of_read hn hms (hmaps ms rfl) hs

/-- Schemas and references to them inherit the bounds. -/
theorem inherits : Inherits SchemaOrRef.decode SchemaOrRef.encode b n := by
  intro v
  -- The properties of a schema are a part of the tree, the schemas in it are parts of this part.
  suffices h : (∀ n, v.Within b n →
      Yields SchemaOrRef.decode (fun x => x.encode.Within b n) v) ∧
      Schema.PropertiesWithin b v from h.1 n
  induction v using Json.induction with
  | null | num | str | arr =>
    exact ⟨fun _ _ _ h => (nomatch h), fun _ _ _ h => (nomatch h)⟩
  | bool x =>
    exact ⟨fun _ hv => within_of_maps hv fun _ h => (nomatch h), fun _ _ _ h => (nomatch h)⟩
  | obj ms ih =>
    refine ⟨fun n hv => within_of_maps hv fun ms' hms e he => ?_, fun n hv ps hps => ?_⟩
    · cases hms
      exact (ih _ he).2
    · obtain ⟨hn, hms⟩ := Json.within_obj.1 hv
      obtain ⟨ms', heq, es, hes, rfl⟩ := Decode.map_eq_ok.1 hps
      cases heq
      refine (within_map_iff text?_encode).2 ⟨hn, fun e he => ?_⟩
      obtain ⟨m, hm, -, hread⟩ := Decode.exists_of_mem_members hes (OrderedMap.mem_ofPairs he)
      exact (ih m hm).1 _ (hms.value hm) e.2 hread

end SchemaOrRef

/-- Schemas inherit the bounds. -/
theorem Schema.inherits : Inherits Schema.decode Schema.encode b n :=
  inherits_record fun _ _ hn hms h =>
    Schema.within_of_read hn hms (fun e _ _ he =>
      inherits_map SchemaOrRef.text?_encode SchemaOrRef.inherits e.2 he) h

end

end RpcOpenApi
