import Mathlib
import RpcOpenApi.OrderedMap

/-!
# Laws of ordered maps

What a map holds is seen through `get?`, and in which order through `keys`. Inserting changes the
value of one key (`get?_insert`) and adds at most one key, at the end (`keys_insert`). For a list of
insertions this gives the two laws that all of the compiler's maps rest on: of several values for
one key the last one is kept (`get?_insertAll`), and new keys stand in the order in which they first
occur (`keys_insertAll`). None of these laws needs the keys of the map to be distinct; that they
stay distinct, and that the values keep a property that all of them have, is `MapOf.insertAll`.
-/

namespace RpcOpenApi

namespace OrderedMap

section
variable {κ ν μ : Type}

/-! ## Keys and lookup -/

@[simp] theorem keys_nil : keys ([] : OrderedMap κ ν) = [] := rfl
@[simp] theorem keys_cons (e : κ × ν) (m : OrderedMap κ ν) : keys (e :: m) = e.1 :: keys m := rfl
@[simp] theorem keys_append (m m' : OrderedMap κ ν) : keys (m ++ m') = keys m ++ keys m' :=
  List.map_append

/-- A map has as many entries as keys. -/
theorem length_keys (m : OrderedMap κ ν) : (keys m).length = m.length := List.length_map _

/-- The keys of entries that are made one by one. -/
@[simp] theorem keys_map {α : Type} (f : α → κ) (g : α → ν) (l : List α) :
    keys (l.map (fun a => (f a, g a))) = l.map f := by
  simp [keys]

/-- The keys of mapped values. -/
@[simp] theorem keys_mapValues (f : ν → μ) (m : OrderedMap κ ν) :
    keys (m.map (fun e => (e.1, f e.2))) = keys m := by
  simp [keys]

/-- Distinct keys stay distinct if other ones are put in their places one by one. -/
theorem Distinct.mapKeys {κ' : Type} {key : κ → κ'} {f : ν → μ} {m : OrderedMap κ ν}
    (h : Distinct m) (hkey : Function.Injective key) :
    Distinct (m.map (fun e => (key e.1, f e.2))) := by
  rw [Distinct, keys_map, ← Function.comp_def, ← List.map_map]
  exact List.Nodup.map hkey h

variable [DecidableEq κ] {m : OrderedMap κ ν} {k k' : κ} {v : ν}

@[simp] theorem get?_nil : get? ([] : OrderedMap κ ν) k = none := rfl

/-- A key has its first value. -/
@[simp] theorem get?_cons (e : κ × ν) (m : OrderedMap κ ν) :
    get? (e :: m) k = if e.1 = k then some e.2 else get? m k := rfl

/-- A key has its value in the first of two maps that has the key. -/
@[simp] theorem get?_append (m m' : OrderedMap κ ν) (k : κ) :
    get? (m ++ m') k = (get? m k).or (get? m' k) := by
  induction m with
  | nil => rfl
  | cons e m ih =>
    rw [List.cons_append, get?, get?, ih]
    split <;> rfl

/-- The value of a key among mapped values is the mapped one. -/
@[simp] theorem get?_mapValues (f : ν → μ) (m : OrderedMap κ ν) (k : κ) :
    get? (m.map (fun e => (e.1, f e.2))) k = (get? m k).map f := by
  induction m with
  | nil => rfl
  | cons e m ih =>
    rw [List.map_cons, get?, get?, ih]
    split <;> rfl

/-- The value of a key among entries under other keys, which keep distinct ones apart. -/
theorem get?_mapKeys {κ' : Type} [DecidableEq κ'] {key : κ → κ'} (hkey : Function.Injective key)
    (f : ν → μ) (m : OrderedMap κ ν) (k : κ) :
    get? (m.map (fun e => (key e.1, f e.2))) (key k) = (get? m k).map f := by
  induction m with
  | nil => rfl
  | cons e m ih =>
    rw [List.map_cons, get?, get?, ih]
    simp only [hkey.eq_iff]
    split <;> rfl

/-- Selecting keys keeps their values. -/
@[simp] theorem get?_filter (p : κ → Bool) (m : OrderedMap κ ν) (k : κ) :
    get? (m.filter (fun e => p e.1)) k = if p k then get? m k else none := by
  induction m with
  | nil => simp
  | cons e m ih =>
    rw [List.filter_cons, get?_cons]
    by_cases he : e.1 = k
    · subst he
      cases h : p e.1 <;> simp [h, ih]
    · cases h : p e.1 <;> simp [he, ih]

/-- A key without a value is none of the keys. -/
theorem get?_eq_none_iff : get? m k = none ↔ k ∉ keys m := by
  induction m with
  | nil => simp
  | cons e m ih =>
    rw [get?, keys_cons, List.mem_cons, not_or]
    split
    · next h => simp [h]
    · next h => exact ih.trans ⟨fun hk => ⟨Ne.symm h, hk⟩, And.right⟩

/-- The keys with a value are the keys. -/
theorem isSome_get?_iff : (get? m k).isSome ↔ k ∈ keys m := by
  rw [Option.isSome_iff_ne_none, ne_eq, get?_eq_none_iff, not_not]

/-- `contains` decides whether a key is one of the keys. -/
theorem contains_iff : contains m k = true ↔ k ∈ keys m := isSome_get?_iff

/-- A value that is found is one of the entries. -/
theorem mem_of_get? (h : get? m k = some v) : (k, v) ∈ m := by
  induction m with
  | nil => cases h
  | cons e m ih =>
    rw [get?] at h
    split at h
    · next hk => cases h; rw [← hk]; exact .head _
    · exact .tail _ (ih h)

/-- An entry of a map with distinct keys is found. -/
theorem Distinct.get?_of_mem (hm : Distinct m) (h : (k, v) ∈ m) : get? m k = some v := by
  induction m with
  | nil => cases h
  | cons e m ih =>
    obtain ⟨he, hm⟩ := List.nodup_cons.1 hm
    rw [get?]
    rcases List.mem_cons.1 h with rfl | h
    · exact if_pos rfl
    · rw [if_neg (fun hk => he ?_), ih hm h]
      rw [hk]
      exact List.mem_map_of_mem h

/-- Two maps with the same keys in the same order and with the same value of each key are the same,
if no key is repeated. -/
theorem Distinct.eq_of_get? {m' : OrderedMap κ ν} (hd : Distinct m) (hkeys : keys m = keys m')
    (h : ∀ k, get? m k = get? m' k) : m = m' := by
  induction m generalizing m' with
  | nil =>
    cases m' with
    | nil => rfl
    | cons e' m' => cases hkeys
  | cons e m ih =>
    cases m' with
    | nil => cases hkeys
    | cons e' m' =>
      obtain ⟨k, v⟩ := e
      obtain ⟨k', v'⟩ := e'
      obtain ⟨hnew, hd⟩ := List.nodup_cons.1 hd
      rw [keys_cons, keys_cons, List.cons.injEq] at hkeys
      obtain ⟨rfl, hkeys⟩ := hkeys
      have hv : v = v' := by simpa using h k
      have htail : m = m' := ih hd hkeys fun name => by
        by_cases hname : k = name
        · have hnew' : k ∉ keys m' := hkeys ▸ hnew
          rw [← hname, get?_eq_none_iff.2 hnew, get?_eq_none_iff.2 hnew']
        · simpa [hname] using h name
      rw [hv, htail]

/-! ## One insertion -/

/-- Inserting sets the value of one key. -/
@[simp] theorem get?_insert (m : OrderedMap κ ν) (k : κ) (v : ν) (k' : κ) :
    get? (insert m k v) k' = if k = k' then some v else get? m k' := by
  induction m with
  | nil => rfl
  | cons e m ih =>
    rw [insert]
    by_cases he : e.1 = k
    · subst he
      simp only [↓reduceIte, get?]
      split <;> rfl
    · rw [if_neg he, get?, get?, ih]
      by_cases hk : k = k'
      · subst hk
        simp [he]
      · simp [hk]

/-- Inserting keeps the keys and their order; a new one comes last. -/
theorem keys_insert (m : OrderedMap κ ν) (k : κ) (v : ν) :
    keys (insert m k v) = if k ∈ keys m then keys m else keys m ++ [k] := by
  induction m with
  | nil => rfl
  | cons e m ih =>
    rw [insert]
    by_cases he : e.1 = k
    · subst he
      simp
    · rw [if_neg he, keys_cons, keys_cons, ih]
      have hk : k ∈ e.1 :: keys m ↔ k ∈ keys m := by simp [Ne.symm he]
      simp only [hk]
      split <;> rfl

/-- An entry after an insertion is the new one or an old one. -/
theorem mem_insert {e : κ × ν} (h : e ∈ insert m k v) : e = (k, v) ∨ e ∈ m := by
  induction m with
  | nil => exact .inl (List.mem_singleton.1 h)
  | cons e' m ih =>
    rw [insert] at h
    split at h
    · exact (List.mem_cons.1 h).imp_right (.tail _)
    · rcases List.mem_cons.1 h with rfl | h
      · exact .inr (.head _)
      · exact (ih h).imp_right (.tail _)

/-- Distinct keys stay distinct. -/
theorem Distinct.insert (hm : Distinct m) : Distinct (insert m k v) := by
  rw [Distinct, keys_insert]
  split
  · exact hm
  · next h => simpa [List.nodup_append] using ⟨hm, fun a ha he => h (he ▸ ha)⟩

/-- Inserting a new key adds the entry at the end. -/
theorem insert_of_notMem (h : k ∉ keys m) : OrderedMap.insert m k v = m ++ [(k, v)] := by
  induction m with
  | nil => rfl
  | cons e m ih =>
    rw [keys_cons, List.mem_cons, not_or] at h
    rw [OrderedMap.insert, if_neg (Ne.symm h.1), ih h.2, List.cons_append]

/-! ## A list of insertions -/

@[simp] theorem insertAll_nil (m : OrderedMap κ ν) : insertAll m [] = m := rfl
@[simp] theorem insertAll_cons (m : OrderedMap κ ν) (e : κ × ν) (es : List (κ × ν)) :
    insertAll m (e :: es) = insertAll (OrderedMap.insert m e.1 e.2) es := rfl

/-- After a list of insertions a key has its last value, or the old one if it has none. -/
theorem get?_insertAll (m : OrderedMap κ ν) (es : List (κ × ν)) (k : κ) :
    get? (insertAll m es) k
      = ((es.filter (fun e => e.1 = k)).getLast?.map Prod.snd).or (get? m k) := by
  induction es generalizing m with
  | nil => rfl
  | cons e es ih =>
    rw [insertAll_cons, ih, get?_insert, List.filter_cons]
    by_cases he : e.1 = k
    · simp only [he, decide_true, ↓reduceIte, List.getLast?_cons, Option.map_some]
      cases (es.filter (fun e => e.1 = k)).getLast? <;> rfl
    · simp [he]

/-- Steps each of which adds at most one key, at the end: the old keys stand first, and the new ones
follow in the order in which they first occur. -/
theorem keys_foldl {β : Type} {step : OrderedMap κ ν → β → OrderedMap κ ν} {key : β → κ}
    (hstep : ∀ m b, keys (step m b) = if key b ∈ keys m then keys m else keys m ++ [key b])
    (m : OrderedMap κ ν) (bs : List β) :
    keys (bs.foldl step m)
      = keys m ++ ((bs.map key).filter (fun k => k ∉ keys m)).eraseDups := by
  induction bs generalizing m with
  | nil => simp
  | cons b bs ih =>
    rw [List.foldl_cons, ih, hstep, List.map_cons, List.filter_cons]
    by_cases hb : key b ∈ keys m
    · simp [hb]
    · simp only [hb, ↓reduceIte, not_false_eq_true, decide_true, List.eraseDups_cons,
        List.append_assoc, List.singleton_append, List.filter_filter]
      congr 3
      refine List.filter_congr (fun k _ => ?_)
      by_cases hk : k = key b <;> simp [hk]

/-- After a list of insertions the old keys stand first, and the new ones follow in the order in
which they first occur. -/
theorem keys_insertAll (m : OrderedMap κ ν) (es : List (κ × ν)) :
    keys (insertAll m es) = keys m ++ ((keys es).filter (fun k => k ∉ keys m)).eraseDups :=
  keys_foldl (fun m e => keys_insert m e.1 e.2) m es

/-- An entry after a list of insertions is one of them or an old one. -/
theorem mem_insertAll {es : List (κ × ν)} {e : κ × ν} (h : e ∈ insertAll m es) :
    e ∈ es ∨ e ∈ m := by
  induction es generalizing m with
  | nil => exact .inr h
  | cons e' es ih =>
    rcases ih h with h | h
    · exact .inl (.tail _ h)
    · refine (mem_insert h).imp_left (fun he => ?_)
      rw [he]
      exact .head _

/-- Distinct keys stay distinct. -/
theorem Distinct.insertAll {es : List (κ × ν)} (hm : Distinct m) : Distinct (insertAll m es) := by
  induction es generalizing m with
  | nil => exact hm
  | cons e es ih => exact ih hm.insert

/-- Inserting new and distinct keys adds the entries at the end. -/
theorem insertAll_of_distinct {es : List (κ × ν)} (hm : Distinct (m ++ es)) :
    insertAll m es = m ++ es := by
  induction es generalizing m with
  | nil => simp
  | cons e es ih =>
    have he : e.1 ∉ keys m := by
      rw [Distinct, keys_append, keys_cons] at hm
      exact fun h => (List.nodup_append.1 hm).2.2 _ h _ (.head _) rfl
    rw [insertAll_cons, insert_of_notMem he, ih (by simpa using hm), List.append_assoc]
    rfl

/-! ## Maps of lists of entries -/

/-- The map of a list of entries has the last value of each key. -/
theorem get?_ofPairs (es : List (κ × ν)) (k : κ) :
    get? (ofPairs es) k = (es.filter (fun e => e.1 = k)).getLast?.map Prod.snd := by
  simp [ofPairs, get?_insertAll]

/-- The map of a list of entries has the keys in the order in which they first occur. -/
theorem keys_ofPairs (es : List (κ × ν)) : keys (ofPairs es) = (keys es).eraseDups := by
  simp [ofPairs, keys_insertAll]

/-- The map of a list of entries has distinct keys. -/
theorem distinct_ofPairs (es : List (κ × ν)) : Distinct (ofPairs es) :=
  Distinct.insertAll List.nodup_nil

/-- The entries of the map of a list are among those of the list. -/
theorem mem_ofPairs {es : List (κ × ν)} {e : κ × ν} (h : e ∈ ofPairs es) : e ∈ es :=
  (mem_insertAll h).elim id (fun h => nomatch h)

/-- Entries with distinct keys are a map already. -/
theorem Distinct.ofPairs_eq (hm : Distinct m) : ofPairs m = m :=
  insertAll_of_distinct (by simpa using hm)

/-- After the entries of a map have been inserted, they win. -/
theorem Distinct.get?_insertAll {es : OrderedMap κ ν} (h : Distinct es) (m : OrderedMap κ ν)
    (k : κ) : get? (OrderedMap.insertAll m es) k = (get? es k).or (get? m k) := by
  rw [OrderedMap.get?_insertAll, ← get?_ofPairs, h.ofPairs_eq]

/-! ## First occurrences -/

section
variable {α : Type} [BEq α] [LawfulBEq α]

/-- Selecting elements keeps the order of their first occurrences. -/
theorem eraseDups_filter (p : α → Bool) :
    ∀ l : List α, (l.filter p).eraseDups = l.eraseDups.filter p
  | [] => rfl
  | a :: l => by
    rw [List.filter_cons, List.eraseDups_cons, List.filter_cons,
      ← eraseDups_filter p (l.filter (fun b => !b == a)), List.filter_filter]
    split
    · rw [List.eraseDups_cons, List.filter_filter]
      congr 3
      exact funext fun b => Bool.and_comm ..
    · next ha =>
      congr 1
      refine List.filter_congr (fun b _ => ?_)
      by_cases hb : b = a
      · subst hb; simp [ha]
      · simp [hb]
termination_by l => l.length
decreasing_by
  exact Nat.lt_succ_of_le (List.length_filter_le ..)

/-- No element is left twice. -/
theorem nodup_eraseDups : ∀ l : List α, l.eraseDups.Nodup
  | [] => List.nodup_nil
  | a :: l => by
    rw [List.eraseDups_cons, List.nodup_cons]
    exact ⟨fun h => by simp at h, nodup_eraseDups _⟩
termination_by l => l.length
decreasing_by
  exact Nat.lt_succ_of_le (List.length_filter_le ..)

/-- Elements that are distinct already are all left. -/
theorem eraseDups_of_nodup {l : List α} (h : l.Nodup) : l.eraseDups = l := by
  induction l with
  | nil => rfl
  | cons a l ih =>
    obtain ⟨ha, hl⟩ := List.nodup_cons.1 h
    rw [List.eraseDups_cons, List.filter_eq_self.2 (fun b hb => ?_), ih hl]
    have hne : b ≠ a := fun e => ha (e ▸ hb)
    simpa using hne

/-- Dropping repetitions before a selection is not seen after it. -/
@[simp] theorem eraseDups_filter_eraseDups (p : α → Bool) (l : List α) :
    (l.eraseDups.filter p).eraseDups = (l.filter p).eraseDups := by
  rw [← eraseDups_filter, eraseDups_of_nodup (nodup_eraseDups _)]

end

/-- After distinct keys have been inserted into a map of one entry, the key of this entry stands
first and the others follow. -/
theorem Distinct.keys_insertAll_singleton {es : OrderedMap κ ν} (hd : Distinct es) (k : κ)
    (v : ν) :
    keys (OrderedMap.insertAll [(k, v)] es) = k :: (keys es).filter (· ≠ k) := by
  have hfilter : (keys es).filter (fun k' => k' ∉ keys [(k, v)]) = (keys es).filter (· ≠ k) :=
    List.filter_congr fun k' _ => by simp
  have hnodup : ((keys es).filter (· ≠ k)).Nodup := hd.filter _
  rw [keys_insertAll, hfilter, eraseDups_of_nodup hnodup]
  rfl

end

end OrderedMap

/-! ## Maps whose values have a property -/

/-- The keys are distinct, and the values have a property. -/
structure MapOf {κ α : Type} (P : α → Prop) (m : OrderedMap κ α) : Prop where
  distinct : OrderedMap.Distinct m
  values : ∀ e ∈ m, P e.2

namespace MapOf

section
variable {κ α : Type} {P Q : α → Prop} {m : OrderedMap κ α}

/-- Nothing has to be asked of a map without entries. -/
theorem nil : MapOf P ([] : OrderedMap κ α) := ⟨List.nodup_nil, nofun⟩

/-- A map of one entry has a property if its value has it. -/
theorem singleton {k : κ} {a : α} (h : P a) : MapOf P [(k, a)] :=
  ⟨List.nodup_singleton _, fun _ he => List.mem_singleton.1 he ▸ h⟩

/-- A map with a property has a weaker one. -/
theorem imp (h : MapOf P m) (hPQ : ∀ a, P a → Q a) : MapOf Q m :=
  ⟨h.distinct, fun e he => hPQ _ (h.values e he)⟩

/-- Selecting entries keeps the property. -/
theorem filter (h : MapOf P m) (p : κ × α → Bool) : MapOf P (List.filter p m) :=
  ⟨(List.filter_sublist.map _).nodup h.distinct,
    fun e he => h.values e (List.mem_of_mem_filter he)⟩

variable [DecidableEq κ]

/-- Inserting a value with the property keeps it. -/
theorem insert (h : MapOf P m) {k : κ} {a : α} (ha : P a) : MapOf P (m.insert k a) := by
  refine ⟨h.distinct.insert, fun e he => ?_⟩
  rcases OrderedMap.mem_insert he with rfl | he
  · exact ha
  · exact h.values e he

/-- Inserting a map with the property keeps it. -/
theorem insertAll (h : MapOf P m) {m' : OrderedMap κ α} (h' : MapOf P m') :
    MapOf P (m.insertAll m') :=
  ⟨h.distinct.insertAll, fun e he =>
    (OrderedMap.mem_insertAll he).elim (h'.values e) (h.values e)⟩

end

end MapOf

end RpcOpenApi
