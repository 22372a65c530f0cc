import RpcOpenApi.Proofs.Yaml.TreeNodes
import RpcOpenApi.Yaml.Reader

/-!
# The values of the nodes of a written tree

What a node says depends on the shape of its place: `0` is a text in a place for texts and a number
in a free-form value. A tree fits a shape (`Fits`) if every part of it is of a kind that its place
can hold and no member of it would be skipped. Such a tree is what its node is read as
(`node_nodeOf`), and so it is what its text is read as (`read?_render`).
-/

namespace RpcOpenApi

namespace Yaml

/-! ## Trees that fit a shape -/

/-- A place in which any value may stand. -/
def IsOpen : Shape → Prop
  | .free | .generic _ | .genericCodes | .genericList _ | .genericRecord _ | .statusCode => True
  | .text | .boolean | .integer | .variant | .optional _ | .list _ | .map _ | .codeMap _
  | .record .. => False

/-- The tree can stand in a place of the shape: its scalars are of the kinds that their places are
for, and its containers stand where there is a shape for each of their parts. -/
inductive Fits : Shape → Json → Prop
  | word {shape : Shape} {j : Json} {w : List Char} (hopen : IsOpen (Tree.required shape).2)
    (hj : wordText? j = some w) : Fits shape j
  | absent {shape : Shape} (h : (Tree.required shape).1 = true) : Fits shape .null
  | boolean {shape : Shape} (h : (Tree.required shape).2 = .boolean) (b : Bool) :
    Fits shape (.bool b)
  | integer {shape : Shape} (h : (Tree.required shape).2 = .integer) (i : Int) :
    Fits shape (.num (.int i))
  | text {shape : Shape}
    (h : IsOpen (Tree.required shape).2 ∨ (Tree.required shape).2 = .text ∨
      (Tree.required shape).2 = .variant)
    (s : String) : Fits shape (.str s)
  | sequence {shape inner : Shape} {js : List Json}
    (h : itemShape? (Tree.required shape).2 = some inner) (hjs : ∀ j ∈ js, Fits inner j) :
    Fits shape (.arr js)
  | mapping {shape : Shape} {rule : KeyRule} {memberRule : String → MemberRule}
    {ms : List (String × Json)}
    (h : mappingRules? (Tree.required shape).2 = some (rule, memberRule))
    (inner : String → Shape) (hkept : ∀ m ∈ ms, memberRule m.1 = .kept (inner m.1))
    (hms : ∀ m ∈ ms, Fits (inner m.1) m.2) : Fits shape (.obj ms)

/-! ## Scalars -/

variable {t : Tree} {shape : Shape} {style : ScalarStyle} {cs : List Char} {j : Json} {depth : Nat}

/-- A text that stands for nothing is no spelling of anything else. -/
theorem eq_null_of_isNothing (h : isNothing cs) (hj : (resolvePlain cs).json? cs = some j) :
    j = .null := by
  have hnull : resolvePlain cs = .null := by
    rw [resolvePlain, if_pos]
    simpa [isNothing] using h
  rw [hnull] at hj
  cases hj
  rfl

/-- Where a value of any form is read, a scalar without a tag is what it looks like. -/
theorem scalar?_of_isOpen (h : IsOpen shape) :
    scalar? shape {} style cs = untaggedScalar? style cs := by
  cases shape <;> first | rfl | exact h.elim

/-- A text is written in a style in which it says itself. -/
theorem untaggedScalar?_textStyle (cs : List Char) :
    untaggedScalar? (textStyle cs).scalarStyle cs = some (.str (String.ofList cs)) := by
  have hpermits := permits_textStyle cs
  cases hstyle : textStyle cs with
  | plain =>
    rw [hstyle] at hpermits
    have htext := resolvePlain_of_not_needsQuotes hpermits.1
    rw [untaggedScalar?, TextStyle.scalarStyle, if_pos rfl, htext]
    rfl
  | singleQuoted | doubleQuoted | literal => rfl

@[simp] theorem liftM_some {α : Type} (a : α) : (liftM (some a) : Reader α) = pure a := rfl

/-- How a scalar without a tag is read. -/
theorem node_scalar (t : Tree) (depth : Nat) (shape : Shape) (style : ScalarStyle)
    (cs : List Char) :
    t.node depth shape (.scalar {} style cs)
      = if (Tree.required shape).1 ∧ style = .plain ∧ isNothing cs then pure .null
        else liftM (scalar? (Tree.required shape).2 {} style cs) := by
  have habsent : isAbsent? {} style cs = some (decide (style = .plain) && isNothing cs) := by
    by_cases h : style = .plain <;> simp [isAbsent?, h]
  rw [Tree.node]
  simp only [Tree.follow, pure_bind, habsent, liftM_some, Bool.and_eq_true, decide_eq_true_eq]
  by_cases hoptional : (Tree.required shape).1 <;> simp [hoptional]

/-- A scalar is read as what it says in its place, unless it stands for the absence of a value. -/
theorem node_scalar_of_scalar? (hscalar : scalar? (Tree.required shape).2 {} style cs = some j)
    (hnothing : style = .plain → isNothing cs → j = .null) :
    t.node depth shape (.scalar {} style cs) = pure j := by
  rw [node_scalar, hscalar]
  split
  next h => rw [hnothing h.2.1 h.2.2]
  next => rfl

/-- What is not a text is read as it is where any value may stand. -/
theorem node_word {b : Depth} (hopen : IsOpen (Tree.required shape).2)
    (hj : j.Within Json.wholeNumbers b) (h : wordText? j = some cs) :
    t.node depth shape (nodeOf j) = pure j := by
  obtain ⟨-, -, hjson⟩ := resolvePlain_wordText hj h
  rw [nodeOf_word h]
  refine node_scalar_of_scalar? ?_ fun _ hnothing => eq_null_of_isNothing hnothing hjson
  rw [scalar?_of_isOpen hopen]
  exact hjson

/-- Where a value may be absent, `null` is read as such. -/
theorem node_absent (h : (Tree.required shape).1 = true) :
    t.node depth shape (nodeOf .null) = pure .null := by
  rw [nodeOf_word rfl, node_scalar, if_pos ⟨h, rfl, rfl⟩]

/-- A boolean is read where one is wanted. -/
theorem node_boolean (h : (Tree.required shape).2 = .boolean) (b : Bool) :
    t.node depth shape (nodeOf (.bool b)) = pure (.bool b) := by
  cases b <;>
  · rw [nodeOf_word rfl]
    exact node_scalar_of_scalar? (by rw [h]; rfl) nofun

/-- An integer is read where one is wanted. -/
theorem node_integer {b : Depth} {i : Int} (h : (Tree.required shape).2 = .integer)
    (hi : (Json.num (.int i)).Within Json.wholeNumbers b) :
    t.node depth shape (nodeOf (.num (.int i))) = pure (.num (.int i)) := by
  obtain ⟨-, -, hjson⟩ := resolvePlain_wordText hi rfl
  rw [nodeOf_word rfl]
  refine node_scalar_of_scalar? ?_ fun _ hnothing => eq_null_of_isNothing hnothing hjson
  have hrange : Number.minInt ≤ i ∧ i ≤ Number.maxInt := hi
  have hinteger : integerJson? (numberText (.int i)) = some (.num (.int i)) := by
    rw [numberText, integerJson?, integer?_intText, Option.bind_eq_bind, Option.bind_some,
      sizedInt?, if_pos hrange]
    rfl
  rw [h]
  exact hinteger

/-- A text is never taken for anything else. -/
theorem node_text
    (h : IsOpen (Tree.required shape).2 ∨ (Tree.required shape).2 = .text ∨
      (Tree.required shape).2 = .variant)
    (s : String) : t.node depth shape (nodeOf (.str s)) = pure (.str s) := by
  have huntagged := untaggedScalar?_textStyle s.toList
  rw [String.ofList_toList] at huntagged
  refine node_scalar_of_scalar? ?_ fun hstyle hnothing => ?_
  · rcases h with h | h | h
    · rw [scalar?_of_isOpen h, huntagged]
    · rw [h, scalar?, String.ofList_toList]
    · rw [h, scalar?, variant?, String.ofList_toList]
      rfl
  · rw [untaggedScalar?, if_pos hstyle] at huntagged
    exact eq_null_of_isNothing hnothing huntagged

/-! ## Containers -/

/-- Under every rule the key that is read is the key that was written. -/
theorem key_textNode (t : Tree) (rule : KeyRule) (k : String) :
    t.key rule (textNode k.toList) = pure k := by
  have hany : anyScalar? {} (textStyle k.toList).scalarStyle k.toList = some (.str k) := by
    rw [anyScalar?, untaggedScalar?_textStyle, String.ofList_toList]
  have hkey : key? rule {} (textStyle k.toList).scalarStyle k.toList = some k := by
    cases rule with
    | anyScalar => rw [key?, String.ofList_toList]
    | text => rw [key?, hany]; rfl
    | code | position => rw [key?, hany]
  rw [Tree.key, textNode]
  simp only [Tree.follow, pure_bind, hkey]
  rfl

/-- The items of an array are read one after the other. -/
theorem mapM_itemNodes {inner : Shape} {js : List Json}
    (h : ∀ j ∈ js, t.node depth inner (nodeOf j) = pure j) :
    (itemNodes js).mapM (t.node depth inner) = pure js := by
  induction js with
  | nil => rfl
  | cons j js ih =>
    obtain ⟨hj, hjs⟩ := List.forall_mem_cons.1 h
    rw [itemNodes, List.mapM_cons, hj, ih hjs]
    rfl

/-- A sequence is read item by item. -/
theorem node_sequence {inner : Shape} {js : List Json}
    (h : itemShape? (Tree.required shape).2 = some inner)
    (hjs : ∀ j ∈ js, t.node depth inner (nodeOf j) = pure j) :
    t.node (depth + 1) shape (nodeOf (.arr js)) = pure (.arr js) := by
  have hallows : allowsTag (Tree.required shape).2 {} = true := by
    cases (Tree.required shape).2 <;> rfl
  rw [nodeOf, Tree.node]
  simp only [Tree.follow, pure_bind, h, hallows, liftM_some, mapM_itemNodes hjs]
  rfl

/-- The members of an object are read one after the other, and none is skipped. -/
theorem filterMapM_entryNodes {ms : List (String × Json)}
    {read : NumberedNode × NumberedNode → Reader (Option (String × Json))}
    (h : ∀ m ∈ ms, read (textNode m.1.toList, nodeOf m.2) = pure (some m)) :
    (entryNodes ms).filterMapM read = pure ms := by
  induction ms with
  | nil => rfl
  | cons m ms ih =>
    obtain ⟨hm, hms⟩ := List.forall_mem_cons.1 h
    rw [entryNodes, List.filterMapM_cons, hm, pure_bind, ih hms]
    rfl

/-- A mapping is read member by member. -/
theorem node_mapping {rule : KeyRule} {memberRule : String → MemberRule} {inner : String → Shape}
    {ms : List (String × Json)} 
    (h : mappingRules? (Tree.required shape).2 = some (rule, memberRule))
    (hkept : ∀ m ∈ ms, memberRule m.1 = .kept (inner m.1))
    (hms : ∀ m ∈ ms, t.node depth (inner m.1) (nodeOf m.2) = pure m.2) :
    t.node (depth + 1) shape (nodeOf (.obj ms)) = pure (.obj ms) := by
  have hallows : allowsTag (Tree.required shape).2 {} = true := by
    cases (Tree.required shape).2 <;> rfl
  rw [nodeOf, Tree.node]
  simp only [Tree.follow, pure_bind, h, hallows, liftM_some]
  rw [filterMapM_entryNodes fun m hm => by
    rw [key_textNode, pure_bind, hkept m hm]
    simp only [hms m hm, pure_bind]]
  rfl

/-- **A tree that fits a shape is what its node is read as**, if it is no deeper than a tree may
be. -/
theorem node_nodeOf (t : Tree) {n : Nat} (h : Fits shape j)
    (hj : j.Within Json.wholeNumbers (.atMost n)) (hn : n ≤ depth) :
    t.node depth shape (nodeOf j) = pure j := by
  induction h generalizing depth n with
  | word hopen hw => exact node_word hopen hj hw
  | absent h => exact node_absent h
  | boolean h b => exact node_boolean h b
  | integer h i => exact node_integer h hj
  | text h s => exact node_text h s
  | sequence h hjs ih =>
    obtain ⟨(hpos : 1 ≤ n), hjs⟩ := Json.within_arr.1 hj
    obtain ⟨depth, rfl⟩ := Nat.exists_eq_add_of_le' (Nat.le_trans hpos hn)
    exact node_sequence h fun j hmem => ih j hmem (hjs j hmem) (Nat.sub_le_of_le_add hn)
  | mapping h inner hkept hms ih =>
    obtain ⟨(hpos : 1 ≤ n), hms⟩ := Json.within_obj.1 hj
    obtain ⟨depth, rfl⟩ := Nat.exists_eq_add_of_le' (Nat.le_trans hpos hn)
    exact node_mapping h hkept fun m hmem =>
      ih m hmem (hms.value hmem) (Nat.sub_le_of_le_add hn)

/-! ## Texts -/

/-- The text of a nonempty object has one document, whose root is the node of the object. -/
theorem exists_tree?_render {m : String × Json} {ms : List (String × Json)} {b : Depth}
    (hj : (Json.obj (m :: ms)).Within Json.wholeNumbers b) :
    ∃ t, tree? (render (.obj (m :: ms))) = some (some t) ∧ t.root = nodeOf (.obj (m :: ms)) := by
  obtain ⟨t, ht, hroot⟩ : ∃ t, Tree.ofNode? (nodeOf (.obj (m :: ms))) = some t ∧
      t.root = nodeOf (.obj (m :: ms)) := by
    rw [Tree.ofNode?, number?_nodeOf]
    exact ⟨_, rfl, rfl⟩
  refine ⟨t, ?_, hroot⟩
  rw [tree?, tokens?_render_obj hj, Option.bind_eq_bind, Option.bind_some, List.toList_toArray,
    document?_nodeTokens, Option.bind_eq_bind, Option.bind_some]
  simp only [ht]
  rfl

/-- A nonempty object that fits a shape is what its text is read as. -/
theorem read?_render {m : String × Json} {ms : List (String × Json)} {n : Nat}
    (h : Fits shape (.obj (m :: ms)))
    (hj : (Json.obj (m :: ms)).Within Json.wholeNumbers (.atMost n)) (hn : n ≤ depthLimit) :
    read? shape (render (.obj (m :: ms))) = some (.obj (m :: ms)) := by
  obtain ⟨t, htree, hroot⟩ := exists_tree?_render hj
  rw [read?, htree, Option.bind_eq_bind, Option.bind_some]
  simp only [hroot, node_nodeOf t h hj hn]
  rfl

end Yaml

end RpcOpenApi
