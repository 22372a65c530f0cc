import RpcOpenApi.Proofs.Codec.Reading
import RpcOpenApi.Files.Document
import RpcOpenApi.Files.Store

/-!
# Writing to one file

Writing a text changes the content of one file (`Files.write_eq_ok`), and making directories that
of none (`Files.contents_createDirectories`). The file that is written is the one that its path
leads to afterwards (`Files.location_put`): the walk along the path meets the same directories as
before, since a new file takes no directory away (`Files.locate_put`). So what is read from the path
is the text that was written to it, and at every other location stands what stood there
(`Files.writeText_eq_ok`).
-/

namespace RpcOpenApi

namespace Files

/-- The files with a text at a location. -/
def put (f : Files) (l : Location) (text : String) : Files :=
  { f with contents := OrderedMap.insert f.contents l text.toUTF8 }

/-- The files after a text has been written to a path, as far as their contents go: at its location
is the text, and at every other one what was there. -/
structure Wrote (path text : String) (f f' : Files) : Prop where
  read : f'.read path = .ok text
  contents : ∃ l, f'.location path = .ok l ∧
    ∀ l', OrderedMap.get? f'.contents l'
      = if l = l' then some text.toUTF8 else OrderedMap.get? f.contents l'

section
variable {f f' : Files} {l l' : Location} {ss : List (List Char)} {path text : String}

/-! ## Making directories -/

/-- One directory after the other is made, and no file. -/
theorem contents_makeDirectories (f : Files) (l : Location) (ss : List (List Char)) :
    (f.makeDirectories l ss).2.contents = f.contents := by
  induction ss generalizing f l with
  | nil => rfl
  | cons s ss ih =>
    simp only [makeDirectories]
    split_ifs
    · rfl
    · rfl
    · exact ih f (next l s)
    · exact ih _ (next l s)

/-- Making a directory makes no file and changes none. -/
theorem contents_createDirectories (f : Files) (path : String) :
    (f.createDirectories path).2.contents = f.contents := by
  unfold createDirectories
  split
  · exact contents_makeDirectories f _ _
  · rfl

/-! ## Writing -/

/-- What is written to a path is put at the location that is its target. -/
theorem write_eq_ok : f.write path text = (.ok (), f') ↔
    ∃ l, f.target path = .ok l ∧ f' = f.put l text := by
  unfold write
  cases f.target path with
  | ok l => simp [put, eq_comm]
  | error e => simp

/-! ## The walk along a path -/

/-- No directory is taken away by a text that is put somewhere. -/
theorem isDirectory_put (h : f.isDirectory l' = true) : (f.put l text).isDirectory l' = true := by
  obtain ⟨d, hd, hbelow⟩ := List.any_eq_true.1 h
  refine List.any_eq_true.2 ⟨d, ?_, hbelow⟩
  rw [knownDirectories, List.mem_append] at hd ⊢
  refine hd.imp_right fun hd => ?_
  obtain ⟨k, hk, rfl⟩ := List.mem_map.1 hd
  refine List.mem_map_of_mem ?_
  rw [put, OrderedMap.keys_insert]
  split
  · exact hk
  · exact List.mem_append_left _ hk

/-- A directory is found where one is. -/
theorem directory_eq_ok : f.directory l = .ok l' ↔ f.isDirectory l = true ∧ l = l' := by
  unfold directory
  split
  · next h => simp [h]
  · next h => split <;> simp [h]

/-- A walk goes on from a directory only. -/
theorem locate_cons_eq_ok {s : List Char} : f.locate l (s :: ss) = .ok l' ↔
    f.isDirectory l = true ∧ f.locate (next l s) ss = .ok l' := by
  rw [locate, Decode.bind_eq_ok]
  constructor
  · rintro ⟨d, hd, h⟩
    obtain ⟨hdirectory, rfl⟩ := directory_eq_ok.1 hd
    exact ⟨hdirectory, h⟩
  · rintro ⟨hdirectory, h⟩
    exact ⟨l, directory_eq_ok.2 ⟨hdirectory, rfl⟩, h⟩

/-- A walk leads to the directory of its last segment, and goes on from there. -/
theorem locate_concat_eq_ok {s : List Char} : f.locate l (ss ++ [s]) = .ok l' ↔
    ∃ d, f.locate l ss = .ok d ∧ f.isDirectory d = true ∧ next d s = l' := by
  induction ss generalizing l with
  | nil =>
    rw [List.nil_append, locate_cons_eq_ok]
    simp [locate]
  | cons s' ss ih => simp only [List.cons_append, locate_cons_eq_ok, ih, and_assoc, exists_and_left]

/-- A walk leads to where it led before a text was put somewhere. -/
theorem locate_put {start : Location} (h : f.locate start ss = .ok l') :
    (f.put l text).locate start ss = .ok l' := by
  induction ss generalizing start with
  | nil => exact h
  | cons s ss ih =>
    obtain ⟨hdirectory, h⟩ := locate_cons_eq_ok.1 h
    exact locate_cons_eq_ok.2 ⟨isDirectory_put hdirectory, ih h⟩

/-- No segments are left out at the end of those that are as many as all. -/
theorem dropEmpty_eq_self
    (h : ¬(ss.reverse.dropWhile List.isEmpty).reverse.length < ss.length) :
    (ss.reverse.dropWhile List.isEmpty).reverse = ss := by
  have hsuffix : ss.reverse.dropWhile List.isEmpty <:+ ss.reverse := List.dropWhile_suffix _
  have hlength : (ss.reverse.dropWhile List.isEmpty).length = ss.reverse.length := by
    have hle := hsuffix.length_le
    rw [List.length_reverse] at h hle ⊢
    omega
  rw [hsuffix.eq_of_length hlength, List.reverse_reverse]

/-- A file is written where its segments lead to. -/
theorem locate_of_fileLocation {start : Location} (h : f.fileLocation start ss = .ok l) :
    f.locate start ss = .ok l := by
  unfold fileLocation at h
  obtain ⟨d, hd, h⟩ := Decode.bind_eq_ok.1 h
  obtain ⟨d', hd', h⟩ := Decode.bind_eq_ok.1 h
  obtain ⟨hdirectory, rfl⟩ := directory_eq_ok.1 hd'
  dsimp only at h
  split at h
  · cases h
  · next hfile =>
    obtain ⟨hlength, hfile⟩ := not_or.1 hfile
    rw [dropEmpty_eq_self hlength] at h hd hfile
    rcases List.eq_nil_or_concat ss with rfl | ⟨init, last, rfl⟩
    · cases hd
      exact h
    · rw [List.concat_eq_append] at h hd ⊢
      rw [List.dropLast_concat] at hd
      rw [List.getLast?_concat] at h
      exact locate_concat_eq_ok.2 ⟨d, hd, hdirectory, Except.ok.inj h⟩

/-- A path leads somewhere iff it begins somewhere and its segments lead there. -/
theorem location_eq_ok : f.location path = .ok l ↔
    ∃ start ss, f.start? path = some (start, ss) ∧ f.locate start ss = .ok l := by
  unfold location
  split <;> simp [*]

/-- The target of a path is where the path leads to. -/
theorem location_of_target (h : f.target path = .ok l) : f.location path = .ok l := by
  unfold target at h
  split at h
  · next start ss hstart => exact location_eq_ok.2 ⟨start, ss, hstart, locate_of_fileLocation h⟩
  · cases h

/-- A path leads to where it led before a text was put somewhere. -/
theorem location_put (h : f.location path = .ok l') : (f.put l text).location path = .ok l' := by
  obtain ⟨start, ss, hstart, hlocate⟩ := location_eq_ok.1 h
  exact location_eq_ok.2 ⟨start, ss, hstart, locate_put hlocate⟩

/-- A text is read back from its bytes. -/
theorem fromUTF8?_toUTF8 (text : String) : String.fromUTF8? text.toUTF8 = some text :=
  dif_pos text.isValidUTF8

/-- From a path that leads to a file with a text in it, this text is read. -/
theorem read_of_location (hl : f.location path = .ok l)
    (ht : OrderedMap.get? f.contents l = some text.toUTF8) : f.read path = .ok text := by
  unfold read
  refine Decode.bind_eq_ok.2 ⟨l, hl, ?_⟩
  rw [ht]
  dsimp only
  rw [fromUTF8?_toUTF8]

/-! ## Writing a text, with the directories that are missing -/

/-- Making the directory of a file makes no file and changes none. -/
theorem contents_prepareDirectory (f : Files) (path : String) :
    ((system.prepareDirectory path).run f).2.contents = f.contents := by
  unfold FileSystem.prepareDirectory
  split
  · rfl
  · exact contents_createDirectories f _

/-- What is done after an action on the files is done on what this action leaves. -/
theorem run_bind {α β : Type} {x : StateM Files α} {a : α} (h : x.run f = (a, f'))
    (k : α → StateM Files β) : (x >>= k).run f = (k a).run f' := by
  rw [StateT.run_bind, h]
  rfl

/-- A text is written iff its directory can be made and it can be written there. -/
theorem run_writeText (f : Files) (path text : String) :
    ∃ made, made.contents = f.contents ∧
      ((∃ e, (system.writeText path text).run f = (.error e, made)) ∨
        ∃ l, made.location path = .ok l ∧
          (system.writeText path text).run f = (.ok (), made.put l text)) := by
  obtain ⟨made, hmade⟩ : ∃ made, ((system.prepareDirectory path).run f).2 = made := ⟨_, rfl⟩
  have hcontents : made.contents = f.contents := hmade ▸ contents_prepareDirectory f path
  refine ⟨made, hcontents, ?_⟩
  unfold FileSystem.writeText
  cases hprepared : ((system.prepareDirectory path).run f).1 with
  | error e =>
    rw [run_bind (Prod.ext hprepared hmade)]
    exact .inl ⟨e, rfl⟩
  | ok _ =>
    rw [run_bind (Prod.ext hprepared hmade)]
    have hwrite : (system.write path text).run made = made.write path text := rfl
    cases htarget : made.target path with
    | error e =>
      have hfailed : made.write path text = (.error e, made) := by rw [write, htarget]
      rw [run_bind (hwrite.trans hfailed)]
      exact .inl ⟨_, rfl⟩
    | ok l =>
      have hwritten : made.write path text = (.ok (), made.put l text) :=
        write_eq_ok.2 ⟨l, htarget, rfl⟩
      rw [run_bind (hwrite.trans hwritten)]
      exact .inr ⟨l, location_of_target htarget, rfl⟩

/-- **What is written is read**, and no other file has another content. -/
theorem writeText_eq_ok (h : (system.writeText path text).run f = (.ok (), f')) :
    Wrote path text f f' := by
  obtain ⟨made, hcontents, ⟨e, herror⟩ | ⟨l, hl, hok⟩⟩ := run_writeText f path text
  · cases herror.symm.trans h
  · obtain rfl : made.put l text = f' := congrArg Prod.snd (hok.symm.trans h)
    have hlocation : (made.put l text).location path = .ok l := location_put hl
    have hget (l' : Location) : OrderedMap.get? (made.put l text).contents l'
        = if l = l' then some text.toUTF8 else OrderedMap.get? f.contents l' := by
      rw [put, OrderedMap.get?_insert, hcontents]
    exact ⟨read_of_location hlocation (by rw [hget, if_pos rfl]), l, hlocation, hget⟩

/-- If a text cannot be written, no file has another content. -/
theorem writeText_eq_error {e : ServiceError}
    (h : (system.writeText path text).run f = (.error e, f')) : f'.contents = f.contents := by
  obtain ⟨made, hcontents, ⟨e', herror⟩ | ⟨l, -, hok⟩⟩ := run_writeText f path text
  · obtain rfl : made = f' := congrArg Prod.snd (herror.symm.trans h)
    exact hcontents
  · cases hok.symm.trans h

end

end Files

end RpcOpenApi
