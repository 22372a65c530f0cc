import RpcOpenApi.Proofs.Codec.Reading

/-!
# Reading what was written

A value is read back if reading what it is written as gives the value (`ReadsBack`). A reader is
faithful to a tree if whatever it reads from the tree is read back (`Faithful`). This is about trees
in normal form, because a free-form value is kept in its normal form.

That a record is read back is shown in two steps. One says what its parts have to be: the values of
its fields are read back, that of a field that may be left out is not written as `null`, which would
say that it is left out (`OptionReadsBack`), and the other members have keys that none of the fields
has (`Outside`). The other says that a reader ensures this (`Ensures`). Between the two steps, a
record may be taken apart and its parts put into another one.
-/

namespace RpcOpenApi

section
variable {α : Type}

/-- The value is what is read from what it is written as. -/
def ReadsBack (decode : Json → Except DecodeError α) (encode : α → Json) (a : α) : Prop :=
  decode (encode a) = .ok a

/-- The value of a field that may be left out, if there is one, is read back, and it is not written
as `null`. -/
def OptionReadsBack (decode : Json → Except DecodeError α) (encode : α → Json) (o : Option α) :
    Prop :=
  ∀ a ∈ o, ReadsBack decode encode a ∧ encode a ≠ .null

/-- What is read from the tree has a property. -/
def Yields (decode : Json → Except DecodeError α) (P : α → Prop) (v : Json) : Prop :=
  ∀ a, decode v = .ok a → P a

/-- What is read from the tree, if the tree is in normal form, has a property. -/
def Ensures (decode : Json → Except DecodeError α) (P : α → Prop) (v : Json) : Prop :=
  v.Normal → ∀ a, decode v = .ok a → P a

/-- What is read from the tree, if the tree is in normal form, is read back. -/
abbrev Faithful (decode : Json → Except DecodeError α) (encode : α → Json) (v : Json) : Prop :=
  Ensures decode (ReadsBack decode encode) v

/-- Free-form members that can stand beside the fields with some names: they have other keys, none
twice, and their values are in normal form. -/
structure Outside (names : List String) (m : OrderedMap String Json) : Prop where
  normal : Json.Normal (.obj m)
  notMem : ∀ k ∈ OrderedMap.keys m, k ∉ names

variable {decode : Json → Except DecodeError α} {encode : α → Json} {P Q : α → Prop}

/-- What is ensured is ensured in a weaker form. -/
theorem Ensures.imp {v : Json} (h : Ensures decode P v) (hPQ : ∀ a, P a → Q a) :
    Ensures decode Q v :=
  fun hn a ha => hPQ a (h hn a ha)

/-- A record yields what its members yield. -/
theorem yields_record {name : String} {read : Members → Reading α}
    (h : ∀ ms a, read ms = .ok a → P a) (v : Json) : Yields (Decode.record name read) P v := by
  intro a ha
  obtain ⟨ms, -, hread⟩ := Decode.record_eq_ok.1 ha
  exact h ms a hread

/-- A record ensures what its members ensure. -/
theorem ensures_record {name : String} {read : Members → Reading α}
    (h : ∀ ms a, Json.Normal (.obj ms) → read ms = .ok a → P a) (v : Json) :
    Ensures (Decode.record name read) P v := by
  intro hn a ha
  obtain ⟨ms, rfl, hread⟩ := Decode.record_eq_ok.1 ha
  exact h ms a hn hread

/-- A value that is read back and is not written as `null` is read back as that of an optional
field. -/
theorem optionReadsBack_some {a : α} (h : ReadsBack decode encode a) (hnull : encode a ≠ .null) :
    OptionReadsBack decode encode (some a) := by
  intro a' ha
  cases ha
  exact ⟨h, hnull⟩

/-- Values none of which is written as `null` are read back as those of optional fields, too. -/
theorem optionReadsBack_of_forall {o : Option α} (h : ∀ a ∈ o, ReadsBack decode encode a)
    (hnull : ∀ a, encode a ≠ .null) : OptionReadsBack decode encode o :=
  fun a ha => ⟨h a ha, hnull a⟩

/-! ## Members outside of the fields -/

variable {names names' : List String} {m : OrderedMap String Json} {ms : Members}

/-- Beside any fields there may be no other members at all. -/
theorem outside_nil (names : List String) : Outside names [] := ⟨rfl, nofun⟩

/-- Some of the members that stand outside of some fields stand outside of them. -/
theorem Outside.filter (h : Outside names m) (p : String × Json → Bool) :
    Outside names (m.filter p) :=
  ⟨h.normal.filter p, fun k hk => h.notMem k ((List.filter_sublist.map _).subset hk)⟩

/-- None of the fields has a value among members that stand outside of them. -/
theorem Outside.values_eq_nil (h : Outside names m) (hsub : names' ⊆ names) :
    Members.values names' m = [] :=
  Members.values_eq_nil fun e he hk => h.notMem e.1 (List.mem_map_of_mem he) (hsub hk)

/-- Members that stand outside of some fields are all others. -/
theorem Outside.others_eq_self (h : Outside names m) (hsub : names' ⊆ names) :
    Members.others names' m = m :=
  Members.others_eq_self fun e he hk => h.notMem e.1 (List.mem_map_of_mem he) (hsub hk)

namespace Members

/-- The other members of a normal object are read as what they are. -/
theorem extensions_iff_of_normal (hn : Json.Normal (.obj ms)) :
    ms.extensions names = .ok m ↔ m = ms.others names := by
  obtain ⟨hd, hv⟩ := Json.normal_obj_iff.1 (hn.others names)
  rw [extensions_eq_ok, Json.normalizeMembers_eq_self hv, hd.ofPairs_eq, eq_comm]

/-- What is read as the other members of a normal object are these members. -/
theorem extensions_of_normal (hn : Json.Normal (.obj ms)) (h : ms.extensions names = .ok m) :
    m = ms.others names :=
  (extensions_iff_of_normal hn).1 h

/-- What is read as the other members stands outside of names that none of these has. -/
theorem outside_of_forall_others (h : ms.extensions names = .ok m)
    (hothers : ∀ e ∈ ms.others names, e.1 ∉ names') : Outside names' m := by
  refine ⟨normal_of_extensions h, fun k hk => ?_⟩
  obtain ⟨e, he, rfl⟩ := List.mem_map.1 hk
  obtain ⟨e', he', rfl⟩ := exists_of_mem_extensions h he
  exact hothers e' he'

/-- What is read as the other members stands outside of the fields. -/
theorem outside_of_extensions (h : ms.extensions names = .ok m) : Outside names m :=
  outside_of_forall_others h fun _ => notMem_of_mem_others

/-- What an inner record reads as its other members stands outside of the fields of the outer one,
too. -/
theorem outside_of_inner (h : (ms.others names').extensions names = .ok m) : Outside names' m :=
  outside_of_forall_others h fun _ he => notMem_of_mem_others (List.mem_of_mem_filter he)

/-- Members that stand outside of the fields are read as the other members. -/
theorem extensions_of_outside (h : Outside names m) (hm : ms.others names = m) :
    ms.extensions names = .ok m := by
  obtain ⟨hd, hv⟩ := Json.normal_obj_iff.1 h.normal
  rw [extensions_eq_ok, hm, Json.normalizeMembers_eq_self hv, hd.ofPairs_eq]

/-! ## Fields -/

variable {name : String} {a : α} {o : Option α}

/-- A field that may be left out has its value under its name, and under no other one. -/
@[simp] theorem values_optional :
    values names (Encode.optional name encode o)
      = if name ∈ names then o.toList.map encode else [] := by
  cases o <;> simp [Encode.optional]

/-- A field is not among the members with other names than its own. -/
@[simp] theorem others_optional :
    others names (Encode.optional name encode o)
      = if name ∈ names then [] else Encode.optional name encode o := by
  cases o <;> simp [Encode.optional]

/-- The value that stands under a name alone is that of a member. -/
theorem exists_of_values_eq {j : Json} (h : values names ms = [j]) : ∃ e ∈ ms, e.2 = j :=
  exists_of_mem_values (h ▸ List.mem_singleton_self j)

/-- A field that has to be written yields what the reader of its value does. -/
theorem yields_required (hP : ∀ e ∈ ms, Yields decode P e.2)
    (h : ms.required name decode = .ok a) : P a := by
  obtain ⟨j, hj, hd⟩ := required_eq_ok.1 h
  obtain ⟨e, he, rfl⟩ := exists_of_values_eq hj
  exact hP e he a hd

/-- A field with a default yields what the reader of its value does and the default has. -/
theorem yields_defaulted {default : α} (hP : ∀ e ∈ ms, Yields decode P e.2) (hdefault : P default)
    (h : ms.defaulted name decode default = .ok a) : P a := by
  rcases defaulted_eq_ok.1 h with ⟨-, rfl⟩ | h
  · exact hdefault
  · exact yields_required hP (required_eq_ok.2 h)

/-- A field that may be left out yields what the reader of its value does, and the value it has is
not read from `null`. -/
theorem yields_aliased {aliases : List String} (hP : ∀ e ∈ ms, e.2 ≠ .null → Yields decode P e.2)
    (h : (ms.field? name (Decode.optional decode) aliases).orElse none = .ok o) :
    ∀ a ∈ o, P a := by
  rintro a rfl
  rcases field?_orElse_eq_ok.1 h with ⟨-, h⟩ | ⟨j, hj, h⟩
  · cases h
  · obtain ⟨e, he, rfl⟩ := exists_of_values_eq hj
    obtain ⟨hnull, hd⟩ := Decode.optional_eq_ok_some.1 h
    exact hP e he hnull a hd

/-- What is read from each member that is no `null` has a property, and so has what is read as a
field. -/
theorem yields_optional (hP : ∀ e ∈ ms, e.2 ≠ .null → Yields decode P e.2)
    (h : ms.optional name decode = .ok o) : ∀ a ∈ o, P a :=
  yields_aliased hP h

/-- A field that has to be written ensures what the reader of its value does. -/
theorem ensures_required (hn : Json.Normal (.obj ms)) (hP : ∀ e ∈ ms, Ensures decode P e.2)
    (h : ms.required name decode = .ok a) : P a :=
  yields_required (fun e he => hP e he ((Json.normal_obj_iff.1 hn).2 e he)) h

/-- A field with a default ensures what the reader of its value does and the default has. -/
theorem ensures_defaulted {default : α} (hn : Json.Normal (.obj ms))
    (hP : ∀ e ∈ ms, Ensures decode P e.2) (hdefault : P default)
    (h : ms.defaulted name decode default = .ok a) : P a :=
  yields_defaulted (fun e he => hP e he ((Json.normal_obj_iff.1 hn).2 e he)) hdefault h

/-- A field that may be left out ensures what the reader of its value does, and the value it has is
not read from `null`. -/
theorem ensures_aliased {aliases : List String} (hn : Json.Normal (.obj ms))
    (hP : ∀ e ∈ ms, e.2 ≠ .null → Ensures decode P e.2)
    (h : (ms.field? name (Decode.optional decode) aliases).orElse none = .ok o) :
    ∀ a ∈ o, P a :=
  yields_aliased (fun e he hnull => hP e he hnull ((Json.normal_obj_iff.1 hn).2 e he)) h

/-- The same holds of what is read from trees in normal form. -/
theorem ensures_optional (hn : Json.Normal (.obj ms))
    (hP : ∀ e ∈ ms, e.2 ≠ .null → Ensures decode P e.2) (h : ms.optional name decode = .ok o) :
    ∀ a ∈ o, P a :=
  ensures_aliased hn hP h

/-- The value of a field that may be left out is read back. -/
theorem optionReadsBack_of_optional (hn : Json.Normal (.obj ms))
    (hf : ∀ e ∈ ms, Faithful decode encode e.2) (hnull : ∀ a, encode a ≠ .null)
    (h : ms.optional name decode = .ok o) : OptionReadsBack decode encode o :=
  optionReadsBack_of_forall (ensures_optional hn (fun e he _ => hf e he) h) hnull

/-- A field is read where its value is written. -/
theorem required_of_readsBack (h : ReadsBack decode encode a)
    (hv : values [name] ms = [encode a]) : ms.required name decode = .ok a :=
  required_eq_ok.2 ⟨_, hv, h⟩

/-- A field with a default is read where its value is written. -/
theorem defaulted_of_readsBack {default : α} (h : ReadsBack decode encode a)
    (hv : values [name] ms = [encode a]) : ms.defaulted name decode default = .ok a :=
  defaulted_eq_ok.2 (.inr ⟨_, hv, h⟩)

/-- A field that may be left out is read where its value is written, if there is one. -/
theorem aliased_of_readsBack {aliases : List String} (h : OptionReadsBack decode encode o)
    (hv : values (name :: aliases) ms = o.toList.map encode) :
    (ms.field? name (Decode.optional decode) aliases).orElse none = .ok o := by
  refine field?_orElse_eq_ok.2 ?_
  cases o with
  | none => exact .inl ⟨hv, rfl⟩
  | some a =>
    obtain ⟨hback, hnull⟩ := h a rfl
    exact .inr ⟨_, hv, Decode.optional_eq_ok_some.2 ⟨hnull, hback⟩⟩

/-- A field is read back if its value is, and if it stands under its name as it is written. -/
theorem optional_of_readsBack (h : OptionReadsBack decode encode o)
    (hv : values [name] ms = o.toList.map encode) : ms.optional name decode = .ok o :=
  aliased_of_readsBack h hv

end Members

/-! ## Lists and maps -/

/-- A list is read back if its items are. -/
theorem readsBack_list {as : List α} (h : ∀ a ∈ as, ReadsBack decode encode a) :
    ReadsBack (Decode.list decode) (Encode.list encode) as := by
  rw [ReadsBack, Encode.list, Decode.list, Decode.items_eq_ok, List.map_map, List.map_inj_left]
  exact h

/-- A reader of lists yields of the items what their reader yields of the items of the array. -/
theorem yields_list {v : Json} (h : ∀ js, v = .arr js → ∀ j ∈ js, Yields decode P j) :
    Yields (Decode.list decode) (fun as => ∀ a ∈ as, P a) v := by
  intro as has a ha
  obtain ⟨js, rfl, has⟩ := Decode.list_eq_ok.1 has
  obtain ⟨j, hj, hd⟩ := Decode.exists_of_mem_items has ha
  exact h js rfl j hj a hd

/-- What is ensured of each item is ensured of all items of a list. -/
theorem ensures_list (h : ∀ v, Ensures decode P v) (v : Json) :
    Ensures (Decode.list decode) (fun as => ∀ a ∈ as, P a) v := by
  intro hn
  refine yields_list fun js hjs j hj => h j (Json.normal_arr_iff.1 ?_ j hj)
  rwa [← hjs]

/-- A reader of lists is faithful if that of the items is. -/
theorem faithful_list (h : ∀ v, Faithful decode encode v) (v : Json) :
    Faithful (Decode.list decode) (Encode.list encode) v :=
  (ensures_list h v).imp fun _ => readsBack_list

/-- A map is read back if its values are. -/
theorem readsBack_map {m : OrderedMap String α} (h : MapOf (ReadsBack decode encode) m) :
    ReadsBack (Decode.map decode) (Encode.map encode) m := by
  refine Decode.map_eq_ok.2 ⟨_, rfl, m, Decode.members_eq_ok.2 ?_, h.distinct.ofPairs_eq⟩
  rw [List.map_map, List.map_inj_left]
  exact fun e he => Prod.ext rfl (h.values e he)

/-- A reader of maps yields of the values what their reader yields of the values of the object. -/
theorem yields_map {v : Json} (h : ∀ ms, v = .obj ms → ∀ e ∈ ms, Yields decode P e.2) :
    Yields (Decode.map decode) (MapOf P) v := by
  intro m hm
  obtain ⟨ms, rfl, es, hes, rfl⟩ := Decode.map_eq_ok.1 hm
  refine ⟨OrderedMap.distinct_ofPairs es, fun e he => ?_⟩
  obtain ⟨e', he', -, hread⟩ := Decode.exists_of_mem_members hes (OrderedMap.mem_ofPairs he)
  exact h ms rfl e' he' e.2 hread

/-- A reader of maps ensures of the values what their reader ensures of the values of the object. -/
theorem ensures_map_obj (h : ∀ e ∈ ms, Ensures decode P e.2) :
    Ensures (Decode.map decode) (MapOf P) (.obj ms) := by
  intro hn
  refine yields_map fun ms' hms e he => ?_
  cases hms
  exact h e he ((Json.normal_obj_iff.1 hn).2 e he)

/-- What is ensured of each value is ensured of all values of a map. -/
theorem ensures_map (h : ∀ v, Ensures decode P v) (v : Json) :
    Ensures (Decode.map decode) (MapOf P) v := by
  cases v with
  | obj ms => exact ensures_map_obj fun e _ => h e.2
  | null | bool | num | str | arr => exact fun _ _ hm => nomatch hm

/-- A reader of maps is faithful if that of the values is. -/
theorem faithful_map (h : ∀ v, Faithful decode encode v) (v : Json) :
    Faithful (Decode.map decode) (Encode.map encode) v :=
  (ensures_map h v).imp fun _ => readsBack_map

/-! ## Basic parts -/

/-- A text is read back. -/
theorem readsBack_text (s : String) : ReadsBack Decode.text .str s := rfl

/-- Texts are faithful: a text is read back, wherever it was read. -/
theorem faithful_text (v : Json) : Faithful Decode.text .str v := fun _ s _ => readsBack_text s

/-- A text that may be left out is read back. -/
theorem optionReadsBack_text (o : Option String) : OptionReadsBack Decode.text .str o :=
  optionReadsBack_of_forall (fun _ _ => rfl) (fun _ => nofun)

/-- A boolean that may be left out is read back. -/
theorem optionReadsBack_boolean (o : Option Bool) : OptionReadsBack Decode.boolean .bool o :=
  optionReadsBack_of_forall (fun _ _ => rfl) (fun _ => nofun)

/-- A list of texts is read back. -/
theorem readsBack_texts (l : List String) :
    ReadsBack (Decode.list Decode.text) (Encode.list .str) l :=
  readsBack_list fun s _ => readsBack_text s

/-- A list of texts that may be left out is read back. -/
theorem optionReadsBack_texts (o : Option (List String)) :
    OptionReadsBack (Decode.list Decode.text) (Encode.list .str) o :=
  optionReadsBack_of_forall (fun l _ => readsBack_texts l) (fun _ => nofun)

/-- A free-form value is kept as it is. -/
theorem faithful_free (v : Json) : Faithful Decode.free id v := by
  rintro hn a ha
  obtain rfl : v = a := hn.symm.trans (Except.ok.inj ha)
  exact ha

/-- A free-form value of a field that may be left out is kept as it is, and it is not `null`. -/
theorem Members.optionReadsBack_of_aliasedFree {name : String} {aliases : List String}
    {o : Option Json} (hn : Json.Normal (.obj ms))
    (h : (ms.field? name (Decode.optional Decode.free) aliases).orElse none = .ok o) :
    OptionReadsBack Decode.free id o := by
  refine ensures_aliased hn (fun e _ hnull hv j hj => ?_) h
  obtain rfl : e.2 = j := hv.symm.trans (Except.ok.inj hj)
  exact ⟨hj, hnull⟩

/-- A field of any form is read back, since `null` counts as left out. -/
theorem Members.optionReadsBack_of_free {name : String} {o : Option Json}
    (hn : Json.Normal (.obj ms)) (h : ms.optional name Decode.free = .ok o) :
    OptionReadsBack Decode.free id o :=
  optionReadsBack_of_aliasedFree hn h

/-- A map of trees is written as the object that it is. -/
theorem Encode.map_id : Encode.map id = Encode.free := by
  funext m
  rw [Encode.map, Encode.free]
  exact congrArg Json.obj m.map_id

/-- A map of free-form values is kept as it is. -/
theorem faithful_freeMap (v : Json) : Faithful (Decode.map Decode.free) Encode.free v := by
  rw [← Encode.map_id]
  exact faithful_map faithful_free v

/-- A field that is a map of trees is read back. -/
theorem Members.optionReadsBack_of_freeMap {name : String} {o : Option (OrderedMap String Json)}
    (hn : Json.Normal (.obj ms)) (h : ms.optional name (Decode.map Decode.free) = .ok o) :
    OptionReadsBack (Decode.map Decode.free) Encode.free o :=
  optionReadsBack_of_optional hn (fun e _ => faithful_freeMap e.2) (fun _ => nofun) h

/-- A number of sixteen bits is read back. -/
theorem faithful_word16 (v : Json) :
    Faithful Decode.word16 (fun n : Nat => Json.ofInt n) v := by
  intro _ n hn
  obtain ⟨rfl, -⟩ := Decode.word16_eq_ok.1 hn
  exact hn

end

end RpcOpenApi
