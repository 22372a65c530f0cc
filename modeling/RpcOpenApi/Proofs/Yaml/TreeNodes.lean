import RpcOpenApi.Proofs.Yaml.TreeTokens
import RpcOpenApi.Yaml.Anchor

/-!
# The nodes of a written tree

The tokens of a tree are read as one node of the same shape (`document?_nodeTokens`), without
anchors, aliases and tags (`number?_nodeOf`). The functions that read nodes take fuel, of which
three times the number of tokens is enough.
-/

namespace RpcOpenApi

namespace Yaml

/-! ## The node of a tree -/

/-- The node of a text. -/
def textNode {ν : Type} (cs : List Char) : Node ν := .scalar {} (textStyle cs).scalarStyle cs

mutual

/-- The node of a tree. -/
def nodeOf {ν : Type} : Json → Node ν
  | .str s => textNode s.toList
  | .arr js => .sequence {} (itemNodes js)
  | .obj ms => .mapping {} (entryNodes ms)
  | j => .scalar {} .plain ((wordText? j).getD [])

/-- The nodes of the items of an array. -/
def itemNodes {ν : Type} : List Json → List (Node ν)
  | [] => []
  | j :: js => nodeOf j :: itemNodes js

/-- The nodes of the members of an object. -/
def entryNodes {ν : Type} : List (String × Json) → List (Node ν × Node ν)
  | [] => []
  | (k, j) :: ms => (textNode k.toList, nodeOf j) :: entryNodes ms

end

variable {ν : Type} {handles : TagHandles} {context : Context} {compact : Bool} {fuel : Nat}
  {ts : List Token}

/-- The node of a word or a number is a plain scalar. -/
theorem nodeOf_word {j : Json} {w : List Char} (h : wordText? j = some w) :
    (nodeOf j : Node ν) = .scalar {} .plain w := by
  unfold wordText? at h
  split at h <;> cases h <;> rfl

/-! ## The first token of a node -/

/-- A token that a node begins with. A sequence that is not indented begins with a dash. -/
inductive BeginsNode : Bool → Token → Prop
  | scalar {compact : Bool} (style : ScalarStyle) (cs : List Char) :
    BeginsNode compact (.scalar style cs)
  | flowSequence {compact : Bool} : BeginsNode compact .flowSequenceStart
  | flowMapping {compact : Bool} : BeginsNode compact .flowMappingStart
  | blockSequence {compact : Bool} : BeginsNode compact .blockSequenceStart
  | blockMapping {compact : Bool} : BeginsNode compact .blockMappingStart
  | level : BeginsNode false .blockEntry

/-- The tokens of a tree begin with one that a node begins with. -/
theorem exists_nodeTokens_eq (compact : Bool) (j : Json) :
    ∃ t ts, nodeTokens compact j = t :: ts ∧ BeginsNode compact t := by
  have hword : ∀ {j w}, wordText? j = some w → ∃ t ts, nodeTokens compact j = t :: ts ∧
      BeginsNode compact t := fun hw => ⟨_, [], nodeTokens_word hw compact, .scalar ..⟩
  cases j with
  | null => exact hword rfl
  | bool v => cases v <;> exact hword rfl
  | num x => exact hword rfl
  | str s => exact ⟨_, _, rfl, .scalar ..⟩
  | arr js =>
    cases js with
    | nil => exact ⟨_, _, rfl, .flowSequence⟩
    | cons j js =>
      rw [nodeTokens_arr]
      cases compact with
      | true => exact ⟨_, _, rfl, .blockSequence⟩
      | false => exact ⟨_, _, rfl, .level⟩
  | obj ms =>
    cases ms with
    | nil => exact ⟨_, _, rfl, .flowMapping⟩
    | cons m ms =>
      rw [nodeTokens_obj]
      exact ⟨_, _, rfl, .blockMapping⟩

/-- A token that ends an entry. -/
theorem nodeUnless?_of_beginsNode {ends : List Token}
    (hends : ends = [.key, .value, .blockEnd] ∨
      compact = true ∧ (ends = [.blockEntry, .blockEnd] ∨
        ends = [.blockEntry, .key, .value, .blockEnd])) (j : Json) :
    nodeUnless? handles (fuel + 1) context ends (nodeTokens compact j ++ ts)
      = node? handles fuel context (nodeTokens compact j ++ ts) := by
  obtain ⟨t, ts', htokens, hbegins⟩ := exists_nodeTokens_eq compact j
  have hnext : nextIn ends (nodeTokens compact j ++ ts) = false := by
    rw [htokens]
    rcases hends with rfl | ⟨rfl, rfl | rfl⟩ <;> cases hbegins <;> simp [nextIn]
  rw [nodeUnless?, hnext]
  rfl

/-! ## Reading nodes -/

/-- A scalar is a node wherever one may stand. -/
theorem node?_scalar (style : ScalarStyle) (cs : List Char) :
    node? handles (fuel + 1) context (.scalar style cs :: ts)
      = some (.scalar {} style cs, ts) := by
  cases context <;> rfl

/-- In a block the entries of an indented sequence are a node. -/
theorem node?_blockSequence {items : List WrittenNode} {ts' : List Token} (hflow : context ≠ .flow)
    (h : blockItems? handles fuel ts = some (items, ts')) :
    node? handles (fuel + 1) context (.blockSequenceStart :: ts)
      = some (.sequence {} items, ts') := by
  cases context with
  | flow => exact absurd rfl hflow
  | block | member => simp [node?, properties?, h]

/-- In a block the entries of a mapping are a node. -/
theorem node?_blockMapping {entries : List (WrittenNode × WrittenNode)} {ts' : List Token}
    (hflow : context ≠ .flow) (h : blockEntries? handles fuel ts = some (entries, ts')) :
    node? handles (fuel + 1) context (.blockMappingStart :: ts)
      = some (.mapping {} entries, ts') := by
  cases context with
  | flow => exact absurd rfl hflow
  | block | member => simp [node?, properties?, h]

/-- As the value of a member the entries of a sequence are a node without an indentation of their
own. -/
theorem node?_level {items : List WrittenNode} {ts' : List Token}
    (h : levelItems? handles fuel (.blockEntry :: ts) = some (items, ts')) :
    node? handles (fuel + 1) .member (.blockEntry :: ts) = some (.sequence {} items, ts') := by
  simp [node?, properties?, h]

/-- The tokens of a tree are read as its node, in a place where a node of its layout may stand. -/
def Parses (handles : TagHandles) (j : Json) : Prop :=
  ∀ (compact : Bool) (context : Context) (fuel : Nat) (ts : List Token), context ≠ .flow →
    (compact = false → context = .member ∧ ts.head? ≠ some .blockEntry) →
    3 * (nodeTokens compact j).length ≤ fuel →
    node? handles fuel context (nodeTokens compact j ++ ts) = some (nodeOf j, ts)

/-- Every tree is written with some token. -/
theorem length_nodeTokens_pos (compact : Bool) (j : Json) :
    0 < (nodeTokens compact j).length := by
  obtain ⟨t, ts, h, -⟩ := exists_nodeTokens_eq compact j
  rw [h]
  exact Nat.succ_pos _

/-- The items of a sequence that is indented further are read up to its end. -/
theorem blockItems?_itemsTokens (fuel : Nat) (ts : List Token) {js : List Json}
    (hjs : ∀ j ∈ js, Parses handles j) (hfuel : 3 * (itemsTokens js).length ≤ fuel + 1)
    (hpos : 1 ≤ fuel) :
    blockItems? handles fuel (itemsTokens js ++ .blockEnd :: ts) = some (itemNodes js, ts) := by
  induction js generalizing fuel with
  | nil =>
    obtain ⟨fuel, rfl⟩ := Nat.exists_eq_add_of_le' hpos
    rfl
  | cons j js ih =>
    obtain ⟨hj, hjs⟩ := List.forall_mem_cons.1 hjs
    have hnode := length_nodeTokens_pos true j
    simp only [itemsTokens, List.length_cons, List.length_append] at hfuel
    obtain ⟨fuel, rfl⟩ := Nat.exists_eq_add_of_le' (by omega : 2 ≤ fuel)
    have hitem :=
      hj true .block fuel (itemsTokens js ++ .blockEnd :: ts) (by simp) (by simp) (by omega)
    rw [← nodeUnless?_of_beginsNode (.inr ⟨rfl, .inl rfl⟩)] at hitem
    rw [itemsTokens, List.cons_append, List.cons_append, List.append_assoc, blockItems?, hitem,
      Option.bind_eq_bind, Option.bind_some]
    simp only [ih (fuel + 1) hjs (by omega) (by omega)]
    rfl

/-- The items of a sequence that is not indented further are read as long as there are dashes. -/
theorem levelItems?_itemsTokens (fuel : Nat) {js : List Json} (hjs : ∀ j ∈ js, Parses handles j)
    (hts : ts.head? ≠ some .blockEntry) (hfuel : 3 * (itemsTokens js).length ≤ fuel + 1)
    (hpos : 1 ≤ fuel) :
    levelItems? handles fuel (itemsTokens js ++ ts) = some (itemNodes js, ts) := by
  induction js generalizing fuel with
  | nil =>
    obtain ⟨fuel, rfl⟩ := Nat.exists_eq_add_of_le' hpos
    rw [itemsTokens, List.nil_append]
    unfold levelItems?
    split
    next heq => cases heq
    next => exact absurd rfl hts
    next => rfl
  | cons j js ih =>
    obtain ⟨hj, hjs⟩ := List.forall_mem_cons.1 hjs
    have hnode := length_nodeTokens_pos true j
    simp only [itemsTokens, List.length_cons, List.length_append] at hfuel
    obtain ⟨fuel, rfl⟩ := Nat.exists_eq_add_of_le' (by omega : 2 ≤ fuel)
    have hitem := hj true .block fuel (itemsTokens js ++ ts) (by simp) (by simp) (by omega)
    rw [← nodeUnless?_of_beginsNode (.inr ⟨rfl, .inr rfl⟩)] at hitem
    rw [itemsTokens, List.cons_append, List.cons_append, List.append_assoc, levelItems?, hitem,
      Option.bind_eq_bind, Option.bind_some]
    simp only [ih (fuel + 1) hjs (by omega) (by omega)]
    rfl

/-- The members of a mapping are read up to its end. -/
theorem blockEntries?_membersTokens (fuel : Nat) (ts : List Token) {ms : List (String × Json)}
    (hms : ∀ m ∈ ms, Parses handles m.2) (hfuel : 3 * (membersTokens ms).length ≤ fuel + 1)
    (hpos : 1 ≤ fuel) :
    blockEntries? handles fuel (membersTokens ms ++ .blockEnd :: ts)
      = some (entryNodes ms, ts) := by
  induction ms generalizing fuel with
  | nil =>
    obtain ⟨fuel, rfl⟩ := Nat.exists_eq_add_of_le' hpos
    rfl
  | cons m ms ih =>
    obtain ⟨k, j⟩ := m
    obtain ⟨(hj : Parses handles j), hms⟩ := List.forall_mem_cons.1 hms
    have hnode := length_nodeTokens_pos (!isSimpleKey k) j
    simp only [membersTokens, List.length_cons, List.length_append] at hfuel
    obtain ⟨fuel, rfl⟩ := Nat.exists_eq_add_of_le' (by omega : 3 ≤ fuel)
    have hnext : (membersTokens ms ++ .blockEnd :: ts).head? ≠ some .blockEntry := by
      cases ms <;> simp [membersTokens]
    have hvalue := hj (!isSimpleKey k) .member (fuel + 1) (membersTokens ms ++ .blockEnd :: ts)
      (by simp) (fun _ => ⟨rfl, hnext⟩) (by omega)
    rw [← nodeUnless?_of_beginsNode (.inl rfl)] at hvalue
    have hkey : ∀ ts, nodeUnless? handles (fuel + 2) .member [.key, .value, .blockEnd]
        (textToken k.toList :: ts) = some (textNode k.toList, ts) := fun _ => rfl
    rw [membersTokens]
    simp only [List.cons_append, List.append_assoc]
    rw [blockEntries?, hkey, Option.bind_eq_bind, Option.bind_some]
    simp only [hvalue]
    simp only [Option.bind_some, ih (fuel + 2) hms (by omega) (by omega)]
    rfl

/-- A word or a number is read as its node. -/
theorem parses_word {j : Json} {w : List Char} (h : wordText? j = some w) : Parses handles j := by
  intro compact context fuel ts _ _ hfuel
  rw [nodeTokens_word h] at hfuel ⊢
  obtain ⟨fuel, rfl⟩ := Nat.exists_eq_add_of_le' (Nat.le_trans (by decide : 1 ≤ 3 * 1) hfuel)
  rw [nodeOf_word h]
  exact node?_scalar ..

/-- The tokens of every tree are read as its node. -/
theorem parses (handles : TagHandles) (j : Json) : Parses handles j := by
  induction j using Json.induction with
  | null => exact parses_word rfl
  | bool v => cases v <;> exact parses_word rfl
  | num x => exact parses_word rfl
  | str s =>
    intro compact context fuel ts _ _ hfuel
    obtain ⟨fuel, rfl⟩ := Nat.exists_eq_add_of_le' (Nat.le_trans (by decide : 1 ≤ 3 * 1) hfuel)
    exact node?_scalar ..
  | arr js ih =>
    intro compact context fuel ts hflow hlevel hfuel
    cases js with
    | nil =>
      obtain ⟨fuel, rfl⟩ := Nat.exists_eq_add_of_le' (Nat.le_trans (by decide : 2 ≤ 3 * 2) hfuel)
      cases context <;> rfl
    | cons j js =>
      rw [nodeTokens_arr] at hfuel ⊢
      cases compact with
      | true =>
        simp only [if_true, List.length_cons, List.length_append] at hfuel
        obtain ⟨fuel, rfl⟩ := Nat.exists_eq_add_of_le' (by omega : 1 ≤ fuel)
        have hitems := blockItems?_itemsTokens fuel ts ih (by omega) (by omega)
        rw [if_pos rfl, List.append_assoc, List.cons_append]
        exact node?_blockSequence hflow hitems
      | false =>
        obtain ⟨rfl, hts⟩ := hlevel rfl
        rw [if_neg (by decide)] at hfuel ⊢
        have hlength : 1 ≤ (itemsTokens (j :: js)).length := by simp [itemsTokens]
        obtain ⟨fuel, rfl⟩ := Nat.exists_eq_add_of_le' (by omega : 1 ≤ fuel)
        have hitems := levelItems?_itemsTokens fuel ih hts hfuel (by omega)
        rw [itemsTokens] at hitems ⊢
        exact node?_level hitems
  | obj ms ih =>
    intro compact context fuel ts hflow _ hfuel
    cases ms with
    | nil =>
      obtain ⟨fuel, rfl⟩ := Nat.exists_eq_add_of_le' (Nat.le_trans (by decide : 2 ≤ 3 * 2) hfuel)
      cases context <;> rfl
    | cons m ms =>
      rw [nodeTokens_obj] at hfuel ⊢
      simp only [List.length_cons, List.length_append] at hfuel
      obtain ⟨fuel, rfl⟩ := Nat.exists_eq_add_of_le' (by omega : 1 ≤ fuel)
      have hentries := blockEntries?_membersTokens fuel ts ih (by omega) (by omega)
      rw [List.append_assoc, List.cons_append]
      exact node?_blockMapping hflow hentries

/-- The tokens of a nonempty object are read as the only document of a text. -/
theorem document?_nodeTokens (m : String × Json) (ms : List (String × Json)) :
    document? (nodeTokens true (.obj (m :: ms))) = some (some (nodeOf (.obj (m :: ms)))) := by
  have hnode := parses TagHandles.default (.obj (m :: ms)) true .block
    (3 * (nodeTokens true (.obj (m :: ms))).length + 3) [] nofun nofun (Nat.le_add_right _ _)
  rw [List.append_nil] at hnode
  rw [nodeTokens_obj] at hnode ⊢
  generalize hts : membersTokens (m :: ms) ++ [.blockEnd] = ts at hnode ⊢
  rw [List.cons_append, hts] at hnode ⊢
  rw [List.length_cons] at hnode
  simp [document?, isDocumentHead, hnode, isOver]

/-! ## Names -/

/-- A text has no anchors to be numbered. -/
theorem number?_textNode (names : AnchorNames) (cs : List Char) :
    (textNode cs : WrittenNode).number? names = some (textNode cs, names) := rfl

/-- Items without anchors stay as they are. -/
theorem numberItems?_itemNodes (names : AnchorNames) {js : List Json}
    (h : ∀ j ∈ js, (nodeOf j : WrittenNode).number? names = some (nodeOf j, names)) :
    numberItems? names (itemNodes js) = some (itemNodes js, names) := by
  induction js with
  | nil => rfl
  | cons j js ih =>
    obtain ⟨hj, hjs⟩ := List.forall_mem_cons.1 h
    simp [itemNodes, numberItems?, hj, ih hjs]

/-- Entries without anchors stay as they are. -/
theorem numberEntries?_entryNodes (names : AnchorNames) {ms : List (String × Json)}
    (h : ∀ m ∈ ms, (nodeOf m.2 : WrittenNode).number? names = some (nodeOf m.2, names)) :
    numberEntries? names (entryNodes ms) = some (entryNodes ms, names) := by
  induction ms with
  | nil => rfl
  | cons m ms ih =>
    obtain ⟨hm, hms⟩ := List.forall_mem_cons.1 h
    simp [entryNodes, numberEntries?, number?_textNode, hm, ih hms]

/-- The node of a tree has no anchors and no aliases. -/
theorem number?_nodeOf (names : AnchorNames) (j : Json) :
    (nodeOf j : WrittenNode).number? names = some (nodeOf j, names) := by
  induction j using Json.induction with
  | null | bool | num | str => rfl
  | arr js ih => simp [nodeOf, Node.number?, Properties.number, numberItems?_itemNodes names ih]
  | obj ms ih => simp [nodeOf, Node.number?, Properties.number, numberEntries?_entryNodes names ih]

end Yaml

end RpcOpenApi
