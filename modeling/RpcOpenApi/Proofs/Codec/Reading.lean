import RpcOpenApi.Proofs.Normal
import RpcOpenApi.Decode.Basic

/-!
# When reading succeeds

A record can be read iff each of its parts can (`Reading.gives_seq`), and a field iff the members
under its name say so (`Members.values`). Where a problem stands plays no part
in these laws, so that the records are read by what their fields are and not by where they are
written.
-/

namespace RpcOpenApi

/-! ## Steps of a reader -/

namespace Reading

section
variable {α β : Type} {f : Reading (α → β)} {r : Reading α} {g : α → β} {a : α}

/-- The part can be read, and what is read has a property. -/
def Gives (r : Reading α) (P : α → Prop) : Prop := ∃ a, r = .ok a ∧ P a

/-- That something is read is a case of reading something with a property. -/
theorem eq_ok_iff_gives : r = .ok a ↔ r.Gives (fun b => b = a) := by
  cases r <;> simp [Gives]

/-- A function of what is read has a property iff what is read has it under the function. -/
theorem gives_map {P : β → Prop} : (g <$> r).Gives P ↔ r.Gives (fun a => P (g a)) := by
  show (Reading.map g r).Gives P ↔ _
  cases r <;> simp [Gives, Reading.map]

/-- Two parts can be read iff each of them can. -/
theorem gives_seq {P : β → Prop} :
    (f <*> r).Gives P ↔ f.Gives (fun g => r.Gives (fun a => P (g a))) := by
  show (Reading.seq f r).Gives P ↔ _
  cases f <;> cases r <;> simp [Gives, Reading.seq]

/-- At the end of a part the place of an error is dropped, and a value stays. -/
@[simp] theorem toExcept_eq_ok : r.toExcept = .ok a ↔ r = .ok a := by
  cases r <;> simp [toExcept]

/-- A reader that tells no places is taken up as it is. -/
@[simp] theorem ofExcept_eq_ok {place : Nat} {x : Except DecodeError α} :
    ofExcept place x = .ok a ↔ x = .ok a := by
  cases x <;> simp [ofExcept]

/-- The place at which a part stands has no part in its value. -/
@[simp] theorem after_eq_ok {n : Nat} : r.after n = .ok a ↔ r = .ok a := by
  cases r <;> simp [after]

/-- A field that may be missing is read as its value, or else as the default. -/
theorem orElse_eq_ok {default : α} {r : Reading (Option α)} :
    r.orElse default = .ok a ↔ ∃ o, r = .ok o ∧ o.getD default = a := by
  cases r <;> simp [orElse, Reading.map]

/-- A field that may be written once is read iff it is written at most once and then fits. -/
theorem single_eq_ok {field : String} {es : List (Nat × Except DecodeError α)} {o : Option α} :
    single field es = .ok o ↔ es.map Prod.snd = o.toList.map .ok := by
  rcases es with - | ⟨⟨_, e | a⟩, - | ⟨e', es⟩⟩ <;> cases o <;> simp [single]

end

end Reading

namespace Decode

section
variable {α β : Type} {decode : Json → Except DecodeError α}

/-- Two steps succeed iff the first one does and then the second. -/
theorem bind_eq_ok {ε : Type} {x : Except ε α} {f : α → Except ε β} {b : β} :
    (x >>= f) = .ok b ↔ ∃ a, x = .ok a ∧ f a = .ok b := by
  cases x with
  | ok a => exact ⟨fun h => ⟨a, rfl, h⟩, fun ⟨_, ha, h⟩ => by cases ha; exact h⟩
  | error e => exact ⟨fun h => (nomatch h), fun ⟨_, ha, _⟩ => (nomatch ha)⟩

/-- Telling an error in other words changes nothing in a result. -/
theorem mapError_eq_ok {ε ε' : Type} {f : ε → ε'} {x : Except ε α} {a : α} :
    x.mapError f = .ok a ↔ x = .ok a := by
  cases x <;> simp [Except.mapError]

/-- What is not `null` is read as a value that is there. -/
theorem optional_of_ne_null {v : Json} (h : v ≠ .null) :
    Decode.optional decode v = decode v >>= fun a => .ok (some a) := by
  cases v with
  | null => exact (h rfl).elim
  | bool | num | str | arr | obj => rfl

/-- A value that may be `null` is read as a value iff it is not `null` and fits. -/
theorem optional_eq_ok_some {v : Json} {a : α} :
    Decode.optional decode v = .ok (some a) ↔ v ≠ .null ∧ decode v = .ok a := by
  by_cases hv : v = .null
  · subst hv
    simp [Decode.optional]
  · rw [optional_of_ne_null hv, bind_eq_ok]
    simp [hv]

/-- What was read from a value that may be missing comes from this value. -/
theorem exists_of_mapM {o : Option Json} {b : Option α} (h : o.mapM decode = .ok b) {a : α}
    (ha : b = some a) : ∃ j ∈ o, decode j = .ok a := by
  cases o with
  | none => cases ha; cases h
  | some j =>
    obtain ⟨a', ha', h⟩ := bind_eq_ok.1 h
    cases ha
    cases h
    exact ⟨j, rfl, ha'⟩

/-- Items are read iff each of them is. -/
theorem items_eq_ok {js : List Json} {as : List α} :
    items decode js = .ok as ↔ js.map decode = as.map .ok := by
  induction js generalizing as with
  | nil => cases as <;> simp [items]
  | cons j js ih =>
    simp only [items, bind_eq_ok, ih, List.map_cons]
    constructor
    · rintro ⟨a, ha, as', has, h⟩
      cases h
      rw [ha, has, List.map_cons]
    · intro h
      cases as with
      | nil => cases h
      | cons a as' =>
        injection h with h1 h2
        exact ⟨a, h1, as', h2, rfl⟩

/-- Members are read iff the value of each of them is; the keys are kept. -/
theorem members_eq_ok {ms : Members} {es : List (String × α)} :
    members decode ms = .ok es
      ↔ ms.map (fun m => (m.1, decode m.2)) = es.map (fun e => (e.1, .ok e.2)) := by
  induction ms generalizing es with
  | nil => cases es <;> simp [members]
  | cons m ms ih =>
    obtain ⟨k, j⟩ := m
    simp only [members, bind_eq_ok, ih, List.map_cons]
    constructor
    · rintro ⟨a, ha, es', hes, h⟩
      cases h
      rw [ha, hes, List.map_cons]
    · intro h
      cases es with
      | nil => cases h
      | cons e es' =>
        injection h with h1 h2
        injection h1 with hk ha
        exact ⟨e.2, ha, es', h2, by rw [hk]; rfl⟩

/-- Members are read iff each of their values is. -/
theorem exists_members_eq_ok {ms : Members} :
    (∃ es, members decode ms = .ok es) ↔ ∀ m ∈ ms, ∃ a, decode m.2 = .ok a := by
  induction ms with
  | nil => simp [members]
  | cons m ms ih =>
    obtain ⟨k, j⟩ := m
    rw [List.forall_mem_cons, ← ih]
    constructor
    · rintro ⟨es, hes⟩
      obtain ⟨a, ha, hes⟩ := bind_eq_ok.1 hes
      obtain ⟨rest, hrest, -⟩ := bind_eq_ok.1 hes
      exact ⟨⟨a, ha⟩, rest, hrest⟩
    · rintro ⟨⟨a, ha⟩, rest, hrest⟩
      exact ⟨(k, a) :: rest, bind_eq_ok.2 ⟨a, ha, bind_eq_ok.2 ⟨rest, hrest, rfl⟩⟩⟩

/-- The keys of members are kept. -/
theorem keys_of_members {ms : Members} {es : List (String × α)} (h : members decode ms = .ok es) :
    es.map Prod.fst = ms.map Prod.fst := by
  have hkeys := congrArg (List.map Prod.fst) (members_eq_ok.1 h)
  rw [List.map_map, List.map_map] at hkeys
  exact hkeys.symm

/-- The members of an object without repeated keys are read as a map. -/
theorem distinct_of_members {ms : Members} {es : List (String × α)} (hd : OrderedMap.Distinct ms)
    (h : members decode ms = .ok es) : OrderedMap.Distinct es := by
  rwa [OrderedMap.Distinct, OrderedMap.keys, keys_of_members h]

/-- What is read under a key is read from the value of the key. -/
theorem get?_of_members {ms : Members} {es : List (String × α)} (h : members decode ms = .ok es)
    (k : String) : (OrderedMap.get? es k).map Except.ok = (OrderedMap.get? ms k).map decode := by
  have hget := congrArg (fun es => OrderedMap.get? es k) (members_eq_ok.1 h)
  simpa only [OrderedMap.get?_mapValues] using hget.symm

/-- An item that was read comes from one of the items. -/
theorem exists_of_mem_items {js : List Json} {as : List α} (h : items decode js = .ok as) {a : α}
    (ha : a ∈ as) : ∃ j ∈ js, decode j = .ok a := by
  have := items_eq_ok.1 h ▸ List.mem_map_of_mem ha
  exact List.mem_map.1 this

/-- A member that was read comes from one of the members. -/
theorem exists_of_mem_members {ms : Members} {es : List (String × α)}
    (h : members decode ms = .ok es) {e : String × α} (he : e ∈ es) :
    ∃ m ∈ ms, m.1 = e.1 ∧ decode m.2 = .ok e.2 := by
  have := members_eq_ok.1 h ▸ List.mem_map_of_mem he
  obtain ⟨m, hm, heq⟩ := List.mem_map.1 this
  injection heq with hk ha
  exact ⟨m, hm, hk, ha⟩

/-- A list is read from an array. -/
theorem list_eq_ok {v : Json} {as : List α} :
    list decode v = .ok as ↔ ∃ js, v = .arr js ∧ items decode js = .ok as := by
  cases v <;> simp [list]

/-- A text is read from a text. -/
theorem text_eq_ok {j : Json} {s : String} : text j = .ok s ↔ j = .str s := by
  cases j <;> simp [text]

/-- A number of sixteen bits is read from the same number. -/
theorem word16_eq_ok {j : Json} {n : Nat} :
    word16 j = .ok n ↔ j = Json.ofInt n ∧ n < 65536 := by
  rcases j with - | - | (i | - | -) | - | - | -
  case num.int =>
    simp only [word16, Json.ofInt, Json.num.injEq, Number.int.injEq]
    constructor
    · intro h
      split at h
      · cases h
        omega
      · cases h
    · rintro ⟨rfl, h⟩
      rw [if_pos (by omega), Int.toNat_natCast]
  all_goals simp [word16, Json.ofInt]

/-- Texts are read from an array of texts. -/
theorem texts_eq_ok {j : Json} {names : List String} :
    list text j = .ok names ↔ j = .arr (names.map .str) := by
  have hitems {js : List Json} : items text js = .ok names ↔ js = names.map .str := by
    rw [items_eq_ok]
    induction js generalizing names with
    | nil => cases names <;> simp
    | cons j js ih =>
      cases names with
      | nil => simp
      | cons name names => simp [ih, text_eq_ok]
  cases j with
  | arr js => simp [list, hitems]
  | null | bool | num | str | obj => simp [list]

/-- A map is read from an object. -/
theorem map_eq_ok {v : Json} {m : OrderedMap String α} :
    map decode v = .ok m
      ↔ ∃ ms, v = .obj ms ∧ ∃ es, members decode ms = .ok es ∧ OrderedMap.ofPairs es = m := by
  cases v with
  | obj ms =>
    simp only [map, bind_eq_ok, Json.obj.injEq, exists_eq_left']
    exact exists_congr fun es => and_congr_right' ⟨Except.ok.inj, congrArg _⟩
  | null | bool | num | str | arr => simp [map]

/-- A map is read from an object without repeated keys as its members are. -/
theorem map_eq_ok_of_distinct {ms : Members} {m : OrderedMap String α}
    (hd : OrderedMap.Distinct ms) : map decode (.obj ms) = .ok m ↔ members decode ms = .ok m := by
  simp only [map_eq_ok, Json.obj.injEq, exists_eq_left']
  constructor
  · rintro ⟨es, hes, rfl⟩
    rwa [(distinct_of_members hd hes).ofPairs_eq]
  · intro h
    exact ⟨m, h, (distinct_of_members hd h).ofPairs_eq⟩

/-- The variant with a name is one of the variants. -/
theorem mem_of_variantNamed {variants : List (String × α)} {name : String} {a : α}
    (h : variantNamed variants name = .ok a) : (name, a) ∈ variants := by
  rw [variantNamed] at h
  split at h
  · next a' ha =>
    cases h
    obtain ⟨before, after, rfl, -⟩ := List.lookup_eq_some_iff.1 ha
    exact List.mem_append_right _ (.head _)
  · cases h

/-- A variant is read from its name, or from an object with its name as the key of a `null`. -/
theorem variant_eq_ok {variants : List (String × α)} {v : Json} {a : α}
    (h : variant variants v = .ok a) :
    ∃ name, (name, a) ∈ variants ∧ (v = .str name ∨ v = .obj [(name, .null)]) := by
  cases v with
  | str name => exact ⟨name, mem_of_variantNamed h, .inl rfl⟩
  | obj ms =>
    rcases ms with - | ⟨⟨name, j⟩, rest⟩
    · cases h
    · obtain ⟨a', ha, h⟩ := bind_eq_ok.1 h
      obtain ⟨u, hu, h⟩ := bind_eq_ok.1 h
      split at h
      · next hrest =>
        cases h
        rw [List.isEmpty_iff.1 hrest]
        cases j with
        | null => exact ⟨name, mem_of_variantNamed ha, .inr rfl⟩
        | bool | num | str | arr | obj => cases hu
      · cases h
  | null | bool | num | arr => cases h

/-- A record is read from the members of an object. -/
theorem record_eq_ok {name : String} {read : Members → Reading α} {v : Json} {a : α} :
    record name read v = .ok a ↔ ∃ ms, v = .obj ms ∧ read ms = .ok a := by
  cases v <;> simp [record]

end

end Decode

/-! ## Fields of a record -/

/-- The other members of a normal object are a normal object. -/
theorem Json.Normal.others {ms : Members} (h : Json.Normal (.obj ms)) (names : List String) :
    Json.Normal (.obj (ms.others names)) :=
  h.filter _

namespace Members

section
variable {α : Type} {names : List String} {ms : Members} {name : String}
  {decode : Json → Except DecodeError α} {a : α}

/-- The values of the members under some names, in order. -/
def values (names : List String) (ms : Members) : List Json :=
  (ms.filter (fun m => m.1 ∈ names)).map Prod.snd

@[simp] theorem values_nil : values names [] = [] := rfl

@[simp] theorem values_cons (m : String × Json) :
    values names (m :: ms) = if m.1 ∈ names then m.2 :: values names ms else values names ms := by
  by_cases h : m.1 ∈ names <;> simp [values, h]

/-- The values of some members and of further ones stand one after the other. -/
@[simp] theorem values_append (ms' : Members) :
    values names (ms ++ ms') = values names ms ++ values names ms' := by
  simp [values]

@[simp] theorem others_nil : others names [] = [] := rfl

/-- A member is one of the others iff it has none of the names. -/
@[simp] theorem others_cons (m : String × Json) :
    others names (m :: ms) = if m.1 ∈ names then others names ms else m :: others names ms := by
  by_cases h : m.1 ∈ names <;> simp [others, h]

/-- The others of some members and of further ones stand one after the other. -/
@[simp] theorem others_append (ms' : Members) :
    others names (ms ++ ms') = others names ms ++ others names ms' := by
  simp [others]

/-- Members without the names have no values under them. -/
theorem values_eq_nil (h : ∀ m ∈ ms, m.1 ∉ names) : values names ms = [] := by
  rw [values, List.map_eq_nil_iff, List.filter_eq_nil_iff]
  exact fun m hm hk => h m hm (of_decide_eq_true hk)

/-- Members without the names are all among the others. -/
theorem others_eq_self (h : ∀ m ∈ ms, m.1 ∉ names) : others names ms = ms :=
  List.filter_eq_self.2 fun m hm => decide_eq_true (h m hm)

/-- A value under some names belongs to a member. -/
theorem exists_of_mem_values {j : Json} (h : j ∈ values names ms) : ∃ m ∈ ms, m.2 = j := by
  obtain ⟨m, hm, rfl⟩ := List.mem_map.1 h
  exact ⟨m, List.mem_of_mem_filter hm, rfl⟩

/-- The others have none of the names. -/
theorem notMem_of_mem_others {m : String × Json} (h : m ∈ others names ms) : m.1 ∉ names :=
  of_decide_eq_true (List.of_mem_filter (p := fun m : String × Json => decide (m.1 ∉ names)) h)

/-- Members that are selected by their keys have the same values under names that are selected. -/
theorem values_filter {p : String → Bool} (h : ∀ n ∈ names, p n = true) :
    values names (ms.filter (fun m => p m.1)) = values names ms := by
  rw [values, values, List.filter_filter]
  congr 1
  refine List.filter_congr fun m _ => ?_
  by_cases hm : m.1 ∈ names
  · simp [hm, h _ hm]
  · simp [hm]

/-- The members that have none of some names have the same values under other names. -/
theorem values_others {names' : List String} (h : ∀ n ∈ names, n ∉ names') :
    values names (others names' ms) = values names ms :=
  values_filter (p := fun n => n ∉ names') fun n hn => decide_eq_true (h n hn)

/-- Where the members under some names stand does not matter for their values. -/
theorem map_snd_entries (place : Nat) (ms : Members) :
    (entries names place ms).map Prod.snd = values names ms := by
  induction ms generalizing place with
  | nil => rfl
  | cons m ms ih =>
    obtain ⟨k, j⟩ := m
    rw [entries, values_cons]
    split
    · rw [List.map_cons, ih]
    · exact ih _

/-- A field is read iff at most one value stands under its names, and it fits. -/
theorem field?_eq_ok {aliases : List String} {o : Option α} :
    ms.field? name decode aliases = .ok o
      ↔ (values (name :: aliases) ms).map decode = o.toList.map .ok := by
  rw [field?, Reading.single_eq_ok, ← map_snd_entries 0, List.map_map, List.map_map]
  rfl

/-- A field that has to be written is read iff one value stands under its name, and it fits. -/
theorem required_eq_ok :
    ms.required name decode = .ok a ↔ ∃ j, values [name] ms = [j] ∧ decode j = .ok a := by
  have hfield : ms.required name decode = .ok a
      ↔ ms.field? name decode [] = .ok (some a) := by
    rw [required]
    split <;> simp_all
  rw [hfield, field?_eq_ok]
  exact List.map_eq_singleton_iff

/-- A field with a default is read iff at most one value stands under its names, and it fits. -/
theorem field?_orElse_eq_ok {aliases : List String} {default : α} :
    (ms.field? name decode aliases).orElse default = .ok a
      ↔ (values (name :: aliases) ms = [] ∧ a = default) ∨
        ∃ j, values (name :: aliases) ms = [j] ∧ decode j = .ok a := by
  rw [Reading.orElse_eq_ok]
  constructor
  · rintro ⟨o, ho, rfl⟩
    rw [field?_eq_ok] at ho
    cases o with
    | none => exact .inl ⟨List.map_eq_nil_iff.1 ho, rfl⟩
    | some a => exact .inr (List.map_eq_singleton_iff.1 ho)
  · rintro (⟨hv, rfl⟩ | h)
    · exact ⟨none, field?_eq_ok.2 (by rw [hv]; rfl), rfl⟩
    · exact ⟨some a, field?_eq_ok.2 (List.map_eq_singleton_iff.2 h), rfl⟩

/-- A field with a default is missing, and then has the default, or stands once and fits. -/
theorem defaulted_eq_ok {default : α} :
    ms.defaulted name decode default = .ok a
      ↔ (values [name] ms = [] ∧ a = default) ∨
        ∃ j, values [name] ms = [j] ∧ decode j = .ok a :=
  field?_orElse_eq_ok

/-- A field that may be left out is read as nothing iff it is left out or `null`. -/
theorem optional_eq_ok {o : Option α} :
    ms.optional name decode = .ok o
      ↔ (values [name] ms = [] ∧ o = none) ∨
        ∃ j, values [name] ms = [j] ∧ Decode.optional decode j = .ok o :=
  defaulted_eq_ok

/-- A field that has to be written may be written. -/
theorem optional_of_required (hnull : ∀ a, decode .null ≠ .ok a)
    (h : ms.required name decode = .ok a) : ms.optional name decode = .ok (some a) := by
  obtain ⟨j, hj, hd⟩ := required_eq_ok.1 h
  have hne : j ≠ .null := fun he => hnull a (he ▸ hd)
  exact optional_eq_ok.2 (.inr ⟨j, hj, Decode.optional_eq_ok_some.2 ⟨hne, hd⟩⟩)

/-- The extensions of an object are the others of its members, in normal form. -/
theorem extensions_eq_ok {m : OrderedMap String Json} :
    ms.extensions names = .ok m
      ↔ OrderedMap.ofPairs (Json.normalizeMembers (ms.others names)) = m := by
  rw [extensions, Reading.ok.injEq]

/-- What is read as the other members is in normal form. -/
theorem normal_of_extensions {m : OrderedMap String Json} (h : ms.extensions names = .ok m) :
    Json.Normal (.obj m) := by
  obtain rfl := extensions_eq_ok.1 h
  exact Json.normal_normalize (.obj (ms.others names))

/-- What is read as the other members comes from them, with values in normal form. -/
theorem exists_of_mem_extensions {m : OrderedMap String Json} (h : ms.extensions names = .ok m)
    {e : String × Json} (he : e ∈ m) : ∃ e' ∈ ms.others names, e = (e'.1, e'.2.normalize) := by
  obtain rfl := extensions_eq_ok.1 h
  have he := OrderedMap.mem_ofPairs he
  rw [Json.normalizeMembers_eq_map, List.mem_map] at he
  obtain ⟨e', he', rfl⟩ := he
  exact ⟨e', he', rfl⟩

/-- A part without an object of its own is read from the others of the members. -/
@[simp] theorem flattened_eq_ok {read : Members → Reading α} :
    ms.flattened names read = .ok a ↔ read (ms.others names) = .ok a :=
  Reading.after_eq_ok

end

end Members

end RpcOpenApi
