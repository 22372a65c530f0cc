import RpcOpenApi.Proofs.Yaml.ScalarTokens

/-!
# The tokens of a written tree
-/

namespace RpcOpenApi

namespace Yaml

open Layout

/-! ## The tokens of a tree -/

mutual

/-- The tokens of a tree behind an indicator. A sequence that is not indented further than the key
before it has no tokens for its beginning and its end. -/
def nodeTokens (compact : Bool) : Json → List Token
  | .str s => [textToken s.toList]
  | .arr [] => [.flowSequenceStart, .flowSequenceEnd]
  | .arr (j :: js) =>
    let items := .blockEntry :: nodeTokens true j ++ itemsTokens js
    if compact then .blockSequenceStart :: items ++ [.blockEnd] else items
  | .obj [] => [.flowMappingStart, .flowMappingEnd]
  | .obj ((k, j) :: ms) =>
    .blockMappingStart :: .key :: textToken k.toList :: .value :: nodeTokens (!isSimpleKey k) j
      ++ membersTokens ms ++ [.blockEnd]
  | j => (wordText? j).toList.map (.scalar .plain)

/-- The tokens of the entries of a sequence. -/
def itemsTokens : List Json → List Token
  | [] => []
  | j :: js => .blockEntry :: nodeTokens true j ++ itemsTokens js

/-- The tokens of the entries of a mapping. -/
def membersTokens : List (String × Json) → List Token
  | [] => []
  | (k, j) :: ms =>
    .key :: textToken k.toList :: .value :: nodeTokens (!isSimpleKey k) j ++ membersTokens ms

end

/-- A word or a number is one plain scalar. -/
theorem nodeTokens_word {j : Json} {w : List Char} (h : wordText? j = some w) (compact : Bool) :
    nodeTokens compact j = [.scalar .plain w] := by
  unfold wordText? at h
  split at h <;> cases h <;> rfl

/-- An array that is not empty has a beginning and an end, unless it is the value of a member. -/
theorem nodeTokens_arr (compact : Bool) (j : Json) (js : List Json) :
    nodeTokens compact (.arr (j :: js))
      = if compact then .blockSequenceStart :: itemsTokens (j :: js) ++ [.blockEnd]
        else itemsTokens (j :: js) := by
  rw [nodeTokens, itemsTokens]

/-- An object that is not empty has a beginning and an end. -/
theorem nodeTokens_obj (compact : Bool) (m : String × Json) (ms : List (String × Json)) :
    nodeTokens compact (.obj (m :: ms))
      = .blockMappingStart :: membersTokens (m :: ms) ++ [.blockEnd] := by
  obtain ⟨k, j⟩ := m
  rw [nodeTokens, membersTokens]
  simp

/-! ## Between an indicator and an entry -/

variable {rest cs : List Char} {tokens start : List Token} {indents outer : List Nat}
  {key : Option KeyStart} {line m n : Nat} {compact : Bool} {r : Rest}

/-- The position behind an indicator of a container that is indented by `m`. A node may begin on
the line of the indicator if nothing else is before it there. -/
structure Placed (compact : Bool) (m : Nat) (r : Rest) : Prop where
  column : m < r.column
  compact : compact = true → r.column = m + 1 ∧ r.offset = m + 1

/-- Behind the indicator of an entry a node may begin. -/
theorem Placed.indicator : Placed true n ⟨cs, line, n + 1, n + 1⟩ :=
  ⟨Nat.lt_succ_self n, fun _ => ⟨rfl, rfl⟩⟩

/-- A container begins behind an indicator. -/
theorem reaches_opening (tokens : List Token) (indents : List Nat) (hplaced : Placed compact m r)
    (hcs : BeginsEntry cs) (hr : r.chars = opening compact n ++ cs)
    (hn : compact = true → n = m + step) :
    ∃ line, Reaches (behind tokens (m :: indents) compact r)
      (entry tokens (m :: indents) none line n cs) := by
  cases compact with
  | true =>
    obtain rfl := hn rfl
    obtain ⟨hcolumn, hoffset⟩ := hplaced.compact rfl
    refine ⟨r.line, .of_advance ?_ ?_⟩
    · rw [advance_behind hr hcs hplaced.column, advance_entry hcs fun k hk => ?_]
      · simp only [behind, entry, Rest.right, hcolumn, hoffset]
        rfl
      · cases hk
        omega
    · simp only [behind, entry, hr, opening, List.length_append]
      omega
  | false =>
    rw [opening, if_neg (by decide), List.cons_append] at hr
    exact ⟨_, reaches_lineFeed hr hcs⟩

/-- Before the first entry of a container a word ends. -/
theorem endsWord_opening : endsWord (opening compact n ++ cs) := by
  cases compact <;> rfl

/-- What is behind an indicator is separated from it. -/
theorem endsWord_nodeChars (n : Nat) (compact : Bool) (j : Json) (cs : List Char) :
    endsWord (nodeChars n compact j ++ cs) := by
  have hword : ∀ {j w}, wordText? j = some w → endsWord (nodeChars n compact j ++ cs) := by
    intro j w hw
    rw [nodeChars_word hw]
    rfl
  cases j with
  | null => exact hword rfl
  | bool v => cases v <;> exact hword rfl
  | num x => exact hword rfl
  | str s => rfl
  | arr js =>
    cases js with
    | nil => rfl
    | cons j js => rw [nodeChars_arr, List.append_assoc]; exact endsWord_opening
  | obj ms =>
    cases ms with
    | nil => rfl
    | cons m ms => rw [nodeChars_obj, List.append_assoc]; exact endsWord_opening

/-! ## Entries -/

/-- Behind an indicator the tree is taken off as its tokens, up to the next entry of a container
around it. -/
def Scans (j : Json) (compact : Bool) : Prop :=
  ∀ (tokens : List Token) (m : Nat) (indents : List Nat) (r : Rest) (n : Nat) (rest : List Char),
    Placed compact m r → r.chars = nodeChars m compact j ++ (pad n ++ rest) → n ≤ m →
    BeginsEntry rest →
    ∃ key line, Stale key line ∧ Reaches (behind tokens (m :: indents) compact r)
      (entry (tokens ++ nodeTokens compact j) (m :: indents) key line n rest)

/-- The first item of an array begins an entry. -/
theorem beginsEntry_itemsBody (n : Nat) (j : Json) (js : List Json) (cs : List Char) :
    BeginsEntry (itemsBody n j js ++ cs) :=
  ⟨by decide, by decide, by decide⟩

/-- An item is taken off, up to the next entry. -/
theorem reaches_item (tokens : List Token) {j : Json} (hj : Scans j true)
    (h : Opens n .blockSequenceStart indents (n :: outer) start) (hkey : Stale key line)
    (hm : m ≤ n) (hrest : BeginsEntry rest) :
    ∃ key' line', Stale key' line' ∧
      Reaches (entry tokens indents key line n ('-' :: (nodeChars n true j ++ (pad m ++ rest))))
        (entry (tokens ++ start ++ [.blockEntry] ++ nodeTokens true j) (n :: outer) key' line' m
          rest) := by
  have hdash := reaches_dash tokens h hkey (endsWord_nodeChars n true j (pad m ++ rest))
  obtain ⟨key', line', hkey', hnode⟩ :=
    hj (tokens ++ start ++ [.blockEntry]) n outer _ m rest .indicator rfl hm hrest
  exact ⟨key', line', hkey', hdash.trans hnode⟩

/-- The items of a sequence are taken off. -/
theorem reaches_items (tokens : List Token) (js : List Json) (j : Json)
    (hscans : ∀ j' ∈ j :: js, Scans j' true)
    (h : Opens n .blockSequenceStart indents (n :: outer) start) (hkey : Stale key line)
    (hm : m ≤ n) (hrest : BeginsEntry rest) :
    ∃ key' line', Stale key' line' ∧
      Reaches (entry tokens indents key line n (itemsBody n j js ++ (pad m ++ rest)))
        (entry (tokens ++ start ++ itemsTokens (j :: js)) (n :: outer) key' line' m rest) := by
  obtain ⟨hj, hjs⟩ := List.forall_mem_cons.1 hscans
  induction js generalizing j tokens indents start key line with
  | nil =>
    obtain ⟨key', line', hkey', hitem⟩ := reaches_item tokens hj h hkey hm hrest
    refine ⟨key', line', hkey', ?_⟩
    simpa [itemsBody, itemsChars, itemsTokens] using hitem
  | cons j' js ih =>
    obtain ⟨key₁, line₁, hkey₁, hitem⟩ := reaches_item tokens hj h hkey (Nat.le_refl n)
      (beginsEntry_itemsBody n j' js (pad m ++ rest))
    obtain ⟨key', line', hkey', hitems⟩ := ih
      (tokens ++ start ++ [.blockEntry] ++ nodeTokens true j) j' hjs .level hkey₁
      (hjs j' (.head _)) fun j hj => hjs j (.tail _ hj)
    refine ⟨key', line', hkey', ?_⟩
    have hbody : itemsBody n j (j' :: js) ++ (pad m ++ rest)
        = '-' :: (nodeChars n true j ++ (pad n ++ (itemsBody n j' js ++ (pad m ++ rest)))) := by
      simp [itemsBody, itemsChars_cons]
    rw [hbody]
    have htokens : tokens ++ start ++ itemsTokens (j :: j' :: js)
        = tokens ++ start ++ [.blockEntry] ++ nodeTokens true j ++ []
          ++ itemsTokens (j' :: js) := by
      simp [itemsTokens]
    rw [htokens]
    exact hitem.trans hitems

/-- The key of a member is taken off with its colon. -/
theorem reaches_key (tokens : List Token) (k : String)
    (h : Opens n .blockMappingStart indents (n :: outer) start)
    (hkey : Stale key line) (hcs : endsWord cs) :
    ∃ r : Rest, r.chars = cs ∧ Placed (!isSimpleKey k) n r ∧
      Reaches (entry tokens indents key line n (keyChars n k ++ cs))
        (behind (tokens ++ start ++ [.key, textToken k.toList, .value]) (n :: outer)
          (!isSimpleKey k) r) := by
  cases hk : isSimpleKey k with
  | true =>
    obtain ⟨r, hr, -, hcolumn, hreaches⟩ := reaches_simpleKey tokens hk h hkey hcs
    exact ⟨r, hr, ⟨hcolumn, nofun⟩, hreaches⟩
  | false =>
    have hchars : keyChars n k ++ cs
        = '?' :: ' ' :: (textLines (n + step) k.toList ++ (pad n ++ ':' :: cs)) := by
      simp [keyChars, hk]
    have hspace : endsWord (' ' :: (textLines (n + step) k.toList ++ (pad n ++ ':' :: cs))) := rfl
    have hquestion := reaches_question tokens h hkey hspace
    have hcolon : BeginsEntry (':' :: cs) := ⟨by decide, by decide, by decide⟩
    obtain ⟨key₁, line₁, hkey₁, htext⟩ := reaches_text k.toList (tokens ++ start ++ [.key]) outer
      true (r := ⟨_, line, n + 1, n + 1⟩) rfl (Nat.lt_succ_self n) (Nat.le_refl n) hcolon
    refine ⟨⟨cs, line₁, n + 1, n + 1⟩, rfl, .indicator, ?_⟩
    rw [hchars]
    simpa using (hquestion.trans htext).trans (reaches_colon hkey₁ hcs)

/-- A key begins an entry. -/
theorem beginsEntry_keyChars (n : Nat) (k : String) : BeginsEntry (keyChars n k ++ cs) := by
  rw [keyChars]
  split
  · rw [List.append_assoc]
    exact beginsEntry_flowText _ _ (permits_textStyle _)
  · exact ⟨by decide, by decide, by decide⟩

/-- The first member of an object begins an entry. -/
theorem beginsEntry_membersBody (n : Nat) (k : String) (j : Json) (ms : List (String × Json))
    (cs : List Char) : BeginsEntry (membersBody n k j ms ++ cs) := by
  rw [membersBody, List.append_assoc]
  exact beginsEntry_keyChars n k

/-- A member is taken off, up to the next entry. -/
theorem reaches_member (tokens : List Token) (k : String) {j : Json}
    (hj : ∀ compact, Scans j compact)
    (h : Opens n .blockMappingStart indents (n :: outer) start) (hkey : Stale key line)
    (hm : m ≤ n) (hrest : BeginsEntry rest) :
    ∃ key' line', Stale key' line' ∧
      Reaches (entry tokens indents key line n
          (keyChars n k ++ (nodeChars n (!isSimpleKey k) j ++ (pad m ++ rest))))
        (entry (tokens ++ start ++ [.key, textToken k.toList, .value]
          ++ nodeTokens (!isSimpleKey k) j) (n :: outer) key' line' m rest) := by
  obtain ⟨r, hr, hplaced, hkeys⟩ := reaches_key tokens k h hkey
    (endsWord_nodeChars n (!isSimpleKey k) j (pad m ++ rest))
  obtain ⟨key', line', hkey', hnode⟩ :=
    hj _ (tokens ++ start ++ [.key, textToken k.toList, .value]) n outer r m rest hplaced hr hm
      hrest
  exact ⟨key', line', hkey', hkeys.trans hnode⟩

/-- The members of a mapping are taken off. -/
theorem reaches_members (tokens : List Token) (ms : List (String × Json)) (k : String) (j : Json)
    (hscans : ∀ m' ∈ (k, j) :: ms, ∀ compact, Scans m'.2 compact)
    (h : Opens n .blockMappingStart indents (n :: outer) start) (hkey : Stale key line)
    (hm : m ≤ n) (hrest : BeginsEntry rest) :
    ∃ key' line', Stale key' line' ∧
      Reaches (entry tokens indents key line n (membersBody n k j ms ++ (pad m ++ rest)))
        (entry (tokens ++ start ++ membersTokens ((k, j) :: ms)) (n :: outer) key' line' m
          rest) := by
  obtain ⟨hj, hms⟩ := List.forall_mem_cons.1 hscans
  induction ms generalizing k j tokens indents start key line with
  | nil =>
    obtain ⟨key', line', hkey', hmember⟩ := reaches_member tokens k hj h hkey hm hrest
    refine ⟨key', line', hkey', ?_⟩
    simpa [membersBody, membersChars, membersTokens] using hmember
  | cons m' ms ih =>
    obtain ⟨k', j'⟩ := m'
    obtain ⟨key₁, line₁, hkey₁, hmember⟩ := reaches_member tokens k hj h hkey (Nat.le_refl n)
      (beginsEntry_membersBody n k' j' ms (pad m ++ rest))
    obtain ⟨key', line', hkey', hmembers⟩ := ih
      (tokens ++ start ++ [.key, textToken k.toList, .value]
        ++ nodeTokens (!isSimpleKey k) j) k' j' hms .level hkey₁ (hms _ (.head _))
      fun m hm => hms m (.tail _ hm)
    refine ⟨key', line', hkey', ?_⟩
    have hbody : membersBody n k j ((k', j') :: ms) ++ (pad m ++ rest)
        = keyChars n k ++ (nodeChars n (!isSimpleKey k) j
          ++ (pad n ++ (membersBody n k' j' ms ++ (pad m ++ rest)))) := by
      simp [membersBody, membersChars_cons]
    have htokens : tokens ++ start ++ membersTokens ((k, j) :: (k', j') :: ms)
        = tokens ++ start ++ [.key, textToken k.toList, .value] ++ nodeTokens (!isSimpleKey k) j
          ++ [] ++ membersTokens ((k', j') :: ms) := by
      simp [membersTokens]
    rw [hbody, htokens]
    exact hmember.trans hmembers

/-! ## Trees -/

/-- A scalar that is no text is taken off as its token. -/
theorem scans_word {j : Json} {b : Depth} {w : List Char} (hj : j.Within Json.wholeNumbers b)
    (hw : wordText? j = some w) (compact : Bool) : Scans j compact := by
  intro tokens m indents r n rest hplaced hr hn hrest
  obtain ⟨hplain, hne, -⟩ := resolvePlain_wordText hj hw
  rw [nodeTokens_word hw]
  exact reaches_plain hplain hne (by rw [hr, nodeChars_word hw]; simp) hplaced.column hn hrest

/-- The entries of an inner container are indented more. -/
theorem lt_add_step (m : Nat) : m < m + step := Nat.lt_add_of_pos_right (by decide)

/-- A container that is indented further than what is around it begins. -/
theorem opens_deeper (m : Nat) (indents : List Nat) (t : Token) :
    Opens (m + step) t (m :: indents) ((m + step) :: m :: indents) [t] :=
  .deeper fun k hk => by
    cases hk
    exact lt_add_step m

/-- A tree is taken off as its tokens. -/
theorem scans {j : Json} {b : Depth} (hj : j.Within Json.wholeNumbers b) (compact : Bool) :
    Scans j compact := by
  induction j using Json.induction generalizing compact b with
  | null => exact scans_word hj rfl compact
  | bool v => cases v <;> exact scans_word hj rfl compact
  | num x => exact scans_word hj rfl compact
  | str s =>
    intro tokens m indents r n rest hplaced hr hn hrest
    exact reaches_text _ _ _ _ hr hplaced.column hn hrest
  | arr js ih =>
    obtain ⟨-, hjs⟩ := Json.within_arr.1 hj
    intro tokens m indents r n rest hplaced hr hn hrest
    cases js with
    | nil => exact reaches_empty .sequence hr hplaced.column hrest
    | cons j js =>
      have hscans : ∀ j' ∈ j :: js, Scans j' true := fun j' hj' => ih j' hj' (hjs j' hj') true
      rw [nodeTokens_arr]
      cases compact with
      | true =>
        rw [nodeChars_arr, List.append_assoc, if_pos rfl] at hr
        obtain ⟨line, hopening⟩ := reaches_opening tokens indents hplaced
          (beginsEntry_itemsBody ..) hr fun _ => rfl
        obtain ⟨key', line', hkey', hitems⟩ := reaches_items tokens (m := n) js j hscans
          (opens_deeper m indents .blockSequenceStart) (.none line) (by omega) hrest
        have hclosed := (hopening.trans hitems).trans
          (reaches_close hrest (Nat.lt_of_le_of_lt hn (lt_add_step m)))
        exact ⟨key', line', hkey', by simpa using hclosed⟩
      | false =>
        rw [nodeChars_arr, List.append_assoc, if_neg (by decide)] at hr
        obtain ⟨line, hopening⟩ := reaches_opening tokens indents hplaced
          (beginsEntry_itemsBody ..) hr nofun
        obtain ⟨key', line', hkey', hitems⟩ := reaches_items tokens (m := n) js j hscans
          .level (.none line) hn hrest
        exact ⟨key', line', hkey', by simpa using hopening.trans hitems⟩
  | obj ms ih =>
    obtain ⟨-, hms⟩ := Json.within_obj.1 hj
    intro tokens m indents r n rest hplaced hr hn hrest
    cases ms with
    | nil => exact reaches_empty .mapping hr hplaced.column hrest
    | cons member ms =>
      obtain ⟨k, j⟩ := member
      have hscans : ∀ m' ∈ (k, j) :: ms, ∀ compact, Scans m'.2 compact := fun m' hm' =>
        ih m' hm' (hms.value hm')
      rw [nodeChars_obj, List.append_assoc] at hr
      rw [nodeTokens_obj]
      obtain ⟨line, hopening⟩ := reaches_opening tokens indents hplaced
        (beginsEntry_membersBody ..) hr fun _ => rfl
      obtain ⟨key', line', hkey', hmembers⟩ := reaches_members tokens (m := n) ms k j
        hscans (opens_deeper m indents .blockMappingStart) (.none line) (by omega) hrest
      have hclosed := (hopening.trans hmembers).trans
        (reaches_close hrest (Nat.lt_of_le_of_lt hn (lt_add_step m)))
      exact ⟨key', line', hkey', by simpa using hclosed⟩

/-- At the end of the text the outermost container ends. -/
theorem run?_end (hkey : Stale key line) (fuel : Nat) :
    run? (fuel + 1) (entry tokens [0] key line 0 [])
      = some (tokens ++ [Token.blockEnd]).toArray := by
  have hadvance : (entry tokens [0] key line 0 []).advance = entry tokens [0] key line 0 [] :=
    advance_entry trivial fun k hk => by cases hk; exact Nat.le_refl 0
  rw [run?, hadvance]
  simp [entry, finish?, close, inFlow, dropKey?, hkey.not_isRequired]

/-- The text of a nonempty object is cut into the tokens of the object. -/
theorem tokens?_render_obj {m : String × Json} {ms : List (String × Json)} {b : Depth}
    (hj : (Json.obj (m :: ms)).Within Json.wholeNumbers b) :
    tokens? (render (.obj (m :: ms))) = some (nodeTokens true (.obj (m :: ms))).toArray := by
  obtain ⟨hallowed, hbreaks⟩ := unifyBreaks_renderChars hj
  obtain ⟨-, hms⟩ := Json.within_obj.1 hj
  obtain ⟨k, j⟩ := m
  have hchars : renderChars (.obj ((k, j) :: ms)) = membersBody 0 k j ms ++ (pad 0 ++ []) := by
    rw [renderChars, membersChars_cons]
    simp [pad]
  have hnil : BeginsEntry [] := trivial
  have hopens : Opens 0 .blockMappingStart [] [0] [.blockMappingStart] := .deeper (by simp)
  obtain ⟨key, line, hkey, n, hn, hrun⟩ := reaches_members [] (m := 0) ms k j
    (fun m' hm' => scans (hms.value hm')) hopens (.none 0) (Nat.le_refl 0) hnil
  have hfuel : (renderChars (.obj ((k, j) :: ms))).length + 1
      = n + ((renderChars (.obj ((k, j) :: ms))).length - n + 1) := by
    rw [hchars]
    simp only [entry, List.length_nil] at hn
    omega
  have hstart : Layout.start (renderChars (.obj ((k, j) :: ms)))
      = entry [] [] none 0 0 (membersBody 0 k j ms ++ (pad 0 ++ [])) := by
    rw [hchars]
    rfl
  rw [tokens?, render, String.toList_ofList, if_pos hallowed, hbreaks]
  dsimp only
  rw [hfuel, hstart, hrun, run?_end hkey, nodeTokens_obj]
  rfl

end Yaml

end RpcOpenApi
