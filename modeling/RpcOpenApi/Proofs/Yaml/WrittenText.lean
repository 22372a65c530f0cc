import RpcOpenApi.Proofs.Yaml.LiteralText
import RpcOpenApi.Proofs.Yaml.Resolution

/-!
# The characters of a written text

Every character of a written text is one that may stand in a text, and no line of it ends with a
carriage return, so the text is read as it is (`unifyBreaks_renderChars`). A key on the line of its
value is short enough to be one, since a character takes at most four times its bytes when it is
escaped (`byteLength_flowText_le`).
-/

namespace RpcOpenApi

namespace Yaml

variable {c : Char} {cs : List Char}

/-! ## The choice of a style -/

/-- What is asked of a text that is written in a style. -/
def TextStyle.Permits : TextStyle → List Char → Prop
  | .plain, cs => needsQuotes cs = false ∧ plainAllowed cs
  | .singleQuoted, cs => '\n' ∉ cs ∧ singleQuotesAllowed cs
  | .doubleQuoted, _ => True
  | .literal, cs => '\n' ∈ cs ∧ literalAllowed cs

/-- A text is written in a style that can express it. -/
theorem permits_textStyle (cs : List Char) : (textStyle cs).Permits cs := by
  rw [textStyle]
  split
  next hfeed =>
    split
    next h => exact ⟨by simpa using hfeed, h⟩
    next => exact trivial
  next hfeed =>
    split
    next h =>
      rw [Bool.and_eq_true, Bool.not_eq_true'] at h
      exact h
    next =>
      split
      next h => exact ⟨by simpa using hfeed, h⟩
      next => exact trivial

/-! ## Bytes -/

@[simp] theorem byteLength_cons (c : Char) (cs : List Char) :
    byteLength (c :: cs) = c.utf8Size + byteLength cs := rfl

@[simp] theorem byteLength_append (cs cs' : List Char) :
    byteLength (cs ++ cs') = byteLength cs + byteLength cs' := by
  simp [byteLength]

/-- The bytes of a text are those of its characters. -/
theorem byteLength_toList (s : String) : byteLength s.toList = s.utf8ByteSize := by
  have h : ∀ cs : List Char, (String.ofList cs).utf8ByteSize = byteLength cs := by
    intro cs
    induction cs with
    | nil => rfl
    | cons c cs ih =>
      rw [String.ofList_cons, String.utf8ByteSize_append, String.utf8ByteSize_singleton, ih]
      rfl
  rw [← h, String.ofList_toList]

/-- A character that can be seen takes one byte. -/
theorem IsVisible.utf8Size (h : IsVisible c) : c.utf8Size = 1 :=
  Char.utf8Size_eq_one_iff.2 (Nat.le_of_lt h.2)

/-- A text of characters that can be seen has as many bytes as characters. -/
theorem byteLength_of_isVisible (h : ∀ c ∈ cs, IsVisible c) : byteLength cs = cs.length := by
  induction cs with
  | nil => rfl
  | cons c cs ih =>
    obtain ⟨hc, hcs⟩ := List.forall_mem_cons.1 h
    rw [byteLength_cons, hc.utf8Size, ih hcs, List.length_cons, Nat.add_comm]

/-- A code is written with as many digits as its escape asks for. -/
theorem length_hexDigits (width n : Nat) : (hexDigits width n).length = width := by
  induction width generalizing n with
  | zero => rfl
  | succ width ih => simp [hexDigits, ih]

/-- A character beyond two hexadecimal digits takes two bytes at least. -/
theorem two_le_utf8Size (h : ¬c.toNat ≤ 0xff) : 2 ≤ c.utf8Size := by
  have hone : c.utf8Size ≠ 1 :=
    fun h' => h (Nat.le_trans (Char.utf8Size_eq_one_iff.1 h') (by decide))
  have := c.utf8Size_pos
  omega

/-- A character beyond four hexadecimal digits takes four bytes. -/
theorem four_le_utf8Size (h : ¬c.toNat ≤ 0xffff) : 4 ≤ c.utf8Size := by
  have hle : ∀ n : UInt32, n.toNat ≤ 0xffff → ¬c.val ≤ n := fun n hn h' => h (Nat.le_trans h' hn)
  unfold Char.utf8Size
  dsimp only
  rw [if_neg (hle _ (by decide)), if_neg (hle _ (by decide)), if_neg (hle _ (by decide))]

/-- An escape takes at most four times the bytes of its character. -/
theorem length_escape_le (c : Char) : (escape c).length ≤ 4 * c.utf8Size := by
  have hpos : 1 ≤ c.utf8Size := c.utf8Size_pos
  unfold escape
  split
  case h_15 =>
    dsimp only
    split
    next => simp [length_hexDigits]; omega
    next h =>
      have htwo := two_le_utf8Size h
      split
      next => simp [length_hexDigits]; omega
      next h =>
        have hfour := four_le_utf8Size h
        simp [length_hexDigits]; omega
  all_goals
    simp only [List.length_cons, List.length_nil]
    omega

/-- In double quotes a character takes at most four times its bytes. -/
theorem byteLength_doubleQuotedChar_le (c : Char) :
    byteLength (doubleQuotedChar c) ≤ 4 * c.utf8Size := by
  rw [doubleQuotedChar]
  split
  next =>
    rw [byteLength_of_isVisible (isVisible_escape c)]
    exact length_escape_le c
  next =>
    simp [byteLength]
    omega

/-- So it does in single quotes. -/
theorem byteLength_singleQuotedChar_le (c : Char) :
    byteLength (singleQuotedChar c) ≤ 4 * c.utf8Size := by
  have hpos : 1 ≤ c.utf8Size := c.utf8Size_pos
  rw [singleQuotedChar]
  split
  next => exact Nat.le_trans (by decide : _ ≤ 4 * 1) (Nat.mul_le_mul_left 4 hpos)
  next =>
    simp [byteLength]
    omega

/-- What holds of each character holds of all of them together. -/
theorem byteLength_flatMap_le (cs : List Char) {f : Char → List Char}
    (hf : ∀ c ∈ cs, byteLength (f c) ≤ 4 * c.utf8Size) :
    byteLength (cs.flatMap f) ≤ 4 * byteLength cs := by
  induction cs with
  | nil => exact Nat.le_refl _
  | cons c cs ih =>
    obtain ⟨hc, hcs⟩ := List.forall_mem_cons.1 hf
    have := ih hcs
    rw [List.flatMap_cons, byteLength_append, byteLength_cons]
    omega

/-- A text of one line in single quotes. -/
theorem singleQuotedTail_of_line {indent : Nat} (hcs : ∀ c ∈ cs, ¬isBreak c) :
    singleQuotedTail indent false cs = cs.flatMap singleQuotedChar ++ ['\''] := by
  induction cs with
  | nil => rfl
  | cons c cs ih =>
    obtain ⟨hc, hcs⟩ := List.forall_mem_cons.1 hcs
    rw [singleQuotedTail_cons _ _ hc, ih hcs, freshPad, if_neg (by decide), List.nil_append,
      List.flatMap_cons, List.append_assoc]

/-- A text of one line is written on one line. -/
theorem not_isBreak_flowText (indent : Nat) (style : TextStyle) (hcs : ∀ c ∈ cs, ¬isBreak c) :
    ∀ c ∈ flowText indent style cs, ¬isBreak c := by
  have hquoted : ∀ q f, ¬isBreak q → (∀ c ∈ cs, ∀ d ∈ f c, ¬isBreak d) →
      ∀ c ∈ q :: cs.flatMap f ++ [q], ¬isBreak c := by
    intro q f hq hf
    refine List.forall_mem_append.2 ⟨List.forall_mem_cons.2 ⟨hq, fun d hd => ?_⟩,
      List.forall_mem_singleton.2 hq⟩
    obtain ⟨c, hc, hd⟩ := List.mem_flatMap.1 hd
    exact hf c hc d hd
  have hdouble := hquoted '"' doubleQuotedChar (by decide) fun _ _ => not_isBreak_doubleQuotedChar
  cases style with
  | plain => exact hcs
  | singleQuoted =>
    rw [flowText, singleQuotedTail_of_line hcs]
    exact hquoted '\'' singleQuotedChar (by decide)
      fun c hc => not_isBreak_singleQuotedChar (hcs c hc)
  | doubleQuoted => exact hdouble
  | literal => exact hdouble

/-- A text on one line takes at most four times its bytes, and two for the quotes. -/
theorem byteLength_flowText_le (indent : Nat) (style : TextStyle) (hcs : ∀ c ∈ cs, ¬isBreak c) :
    byteLength (flowText indent style cs) ≤ 4 * byteLength cs + 2 := by
  have hquoted : ∀ q f, byteLength [q] = 1 → (∀ c, byteLength (f c) ≤ 4 * c.utf8Size) →
      byteLength (q :: cs.flatMap f ++ [q]) ≤ 4 * byteLength cs + 2 := by
    intro q f hq hf
    have := byteLength_flatMap_le cs fun c _ => hf c
    rw [← List.singleton_append, byteLength_append, byteLength_append, hq]
    omega
  have hdouble := hquoted '"' doubleQuotedChar rfl byteLength_doubleQuotedChar_le
  cases style with
  | plain =>
    rw [flowText]
    omega
  | singleQuoted =>
    rw [flowText, singleQuotedTail_of_line hcs]
    exact hquoted '\'' singleQuotedChar rfl byteLength_singleQuotedChar_le
  | doubleQuoted => exact hdouble
  | literal => exact hdouble

/-- A key on the line of its value ends within the bytes that a key may take. -/
theorem byteLength_simpleKey_le {k : String} (indent : Nat) (h : isSimpleKey k) :
    byteLength (flowText indent (textStyle k.toList) k.toList) ≤ 1024 := by
  simp only [isSimpleKey, Bool.and_eq_true, Bool.not_eq_true', decide_eq_true_eq] at h
  have hbreak : ∀ c ∈ k.toList, ¬isBreak c := by simpa [List.any_eq_false] using h.1
  have := byteLength_flowText_le indent (textStyle k.toList) hbreak
  rw [byteLength_toList] at this
  omega

/-! ## Characters -/

/-- Of characters that are written as themselves no line end becomes another one. -/
theorem unifyBreaks_of_isPrintable (h : ∀ c ∈ cs, isPrintable c) : unifyBreaks cs = cs := by
  induction cs with
  | nil => rfl
  | cons c cs ih =>
    obtain ⟨hc, hcs⟩ := List.forall_mem_cons.1 h
    have hreturn : c ≠ '\r' := by rintro rfl; exact absurd hc (by decide)
    have hnext : c ≠ '\u0085' := by rintro rfl; exact absurd hc (by decide)
    unfold unifyBreaks
    split
    next heq => exact absurd (List.head_eq_of_cons_eq heq) hreturn
    next heq =>
      cases heq
      rw [if_neg (not_or.2 ⟨hreturn, hnext⟩), ih hcs]
    next heq => cases heq

/-- Indentation is written as itself. -/
theorem isPrintable_pad {n : Nat} : ∀ c ∈ pad n, isPrintable c := by
  intro c hc
  rw [mem_pad hc]
  decide

/-- A text in double quotes has only characters that are written as themselves. -/
theorem isPrintable_doubleQuoted (cs : List Char) : ∀ c ∈ doubleQuoted cs, isPrintable c := by
  have hchar : ∀ c, ∀ d ∈ doubleQuotedChar c, isPrintable d := by
    intro c
    rw [doubleQuotedChar]
    split
    next => exact fun d hd => (isVisible_escape c d hd).isPrintable
    next h =>
      simp only [Bool.or_eq_true, not_or, Bool.not_eq_true', Bool.not_eq_false] at h
      exact List.forall_mem_singleton.2 h.1.1.1
  refine List.forall_mem_append.2 ⟨List.forall_mem_cons.2 ⟨by decide, ?_⟩,
    List.forall_mem_singleton.2 (by decide)⟩
  simp only [List.mem_flatMap]
  rintro d ⟨c, -, hd⟩
  exact hchar c d hd

/-- So has the indentation of a line that is not the first one. -/
theorem isPrintable_freshPad {n : Nat} (fresh : Bool) : ∀ c ∈ freshPad n fresh, isPrintable c := by
  rw [freshPad]
  split
  · exact isPrintable_pad
  · exact List.forall_mem_nil _

/-- What is left of a text in single quotes has only such characters if the text has. -/
theorem isPrintable_singleQuotedTail {indent : Nat} (fresh : Bool) (h : ∀ c ∈ cs, isPrintable c) :
    ∀ c ∈ singleQuotedTail indent fresh cs, isPrintable c := by
  induction cs generalizing fresh with
  | nil =>
    exact List.forall_mem_append.2 ⟨isPrintable_freshPad fresh,
      List.forall_mem_singleton.2 (by decide)⟩
  | cons c cs ih =>
    obtain ⟨hc, hcs⟩ := List.forall_mem_cons.1 h
    by_cases hbreak : isBreak c
    · rw [singleQuotedTail_break _ _ hbreak]
      exact List.forall_mem_cons.2 ⟨hc, ih _ hcs⟩
    · rw [singleQuotedTail_cons _ _ hbreak, singleQuotedChar]
      refine List.forall_mem_append.2 ⟨isPrintable_freshPad fresh,
        List.forall_mem_append.2 ⟨?_, ih _ hcs⟩⟩
      split
      · exact List.all_eq_true.1 rfl
      · exact List.forall_mem_singleton.2 hc

/-- The lines of a literal text have only such characters if the text has. -/
theorem isPrintable_literalLines {n : Nat} (fresh : Bool) (h : ∀ c ∈ cs, isPrintable c) :
    ∀ c ∈ literalLines n fresh cs, isPrintable c := by
  induction cs generalizing fresh with
  | nil =>
    cases fresh with
    | true => exact List.forall_mem_nil _
    | false => exact List.forall_mem_singleton.2 (by decide)
  | cons c cs ih =>
    obtain ⟨hc, hcs⟩ := List.forall_mem_cons.1 h
    rw [literalLines_cons, literalChar]
    refine List.forall_mem_append.2 ⟨?_, ih _ hcs⟩
    split
    · exact List.forall_mem_singleton.2 hc
    · exact List.forall_mem_append.2 ⟨isPrintable_freshPad fresh, List.forall_mem_singleton.2 hc⟩

/-- A literal text has only such characters if the text has. -/
theorem isPrintable_literal {n : Nat} (h : ∀ c ∈ cs, isPrintable c) :
    ∀ c ∈ literal n cs, isPrintable c := by
  have hmarks : ∀ c ∈ indentationMark cs ++ chompingMark cs, isPrintable c := by
    rcases indentationMark_eq cs with h | h <;> rcases chompingMark_eq cs with h' | h' | h' <;>
      rw [h, h'] <;> exact List.all_eq_true.1 rfl
  rw [literal]
  simp only [List.forall_mem_append, List.forall_mem_cons, List.cons_append] at hmarks ⊢
  exact ⟨by decide, hmarks, by decide, isPrintable_literalLines true h⟩

/-- A text on one line has only such characters in each style that permits it. -/
theorem isPrintable_flowText {n : Nat} {style : TextStyle} (h : style.Permits cs) :
    ∀ c ∈ flowText n style cs, isPrintable c := by
  cases style with
  | plain => exact isPrintable_of_mem (plainAllowed_iff.1 h.2).2.2.2.2
  | singleQuoted =>
    have hcs := isPrintable_of_mem (singleQuotesAllowed_iff.1 h.2).1
    exact List.forall_mem_cons.2 ⟨by decide, isPrintable_singleQuotedTail false hcs⟩
  | doubleQuoted | literal => exact isPrintable_doubleQuoted cs

/-- A text is written with characters that are written as themselves. -/
theorem isPrintable_textLines (n : Nat) (cs : List Char) :
    ∀ c ∈ textLines n cs, isPrintable c := by
  have hpermits := permits_textStyle cs
  have hline : isPrintable '\n' := by decide
  rw [textLines]
  split
  next h =>
    rw [h] at hpermits
    exact isPrintable_literal (isPrintable_of_literalAllowed hpermits.2)
  next =>
    exact List.forall_mem_append.2
      ⟨isPrintable_flowText hpermits, List.forall_mem_singleton.2 hline⟩

/-! ## Trees -/

/-- The entries of a sequence, behind the indentation of the first one. -/
def itemsBody (n : Nat) (j : Json) (js : List Json) : List Char :=
  '-' :: (nodeChars n true j ++ itemsChars n js)

/-- The entries of a mapping, behind the indentation of the first one. -/
def membersBody (n : Nat) (k : String) (j : Json) (ms : List (String × Json)) : List Char :=
  keyChars n k ++ (nodeChars n (!isSimpleKey k) j ++ membersChars n ms)

/-- What is between an indicator and the first entry of a container. -/
def opening (compact : Bool) (n : Nat) : List Char := if compact then [' '] else '\n' :: pad n

/-- The items of an array begin with the indentation of the first one. -/
theorem itemsChars_cons (n : Nat) (j : Json) (js : List Json) :
    itemsChars n (j :: js) = pad n ++ itemsBody n j js := by
  simp [itemsChars, itemsBody]

/-- The members of an object begin with the indentation of the first one. -/
theorem membersChars_cons (n : Nat) (k : String) (j : Json) (ms : List (String × Json)) :
    membersChars n ((k, j) :: ms) = pad n ++ membersBody n k j ms := by
  simp [membersChars, membersBody]

/-- A sequence begins on the line of a dash. Below a key it is not indented further. -/
theorem nodeChars_arr (n : Nat) (compact : Bool) (j : Json) (js : List Json) :
    nodeChars n compact (.arr (j :: js))
      = opening compact (if compact then n + step else n)
        ++ itemsBody (if compact then n + step else n) j js := by
  cases compact <;> simp [nodeChars, itemsBody, opening]

/-- A mapping is indented further than what is around it. -/
theorem nodeChars_obj (n : Nat) (compact : Bool) (k : String) (j : Json)
    (ms : List (String × Json)) :
    nodeChars n compact (.obj ((k, j) :: ms))
      = opening compact (n + step) ++ membersBody (n + step) k j ms := by
  simp [nodeChars, membersBody, opening]

/-- A scalar that is no text, behind an indicator. -/
theorem nodeChars_word {j : Json} {w : List Char} (h : wordText? j = some w) (n : Nat)
    (compact : Bool) : nodeChars n compact j = ' ' :: w ++ ['\n'] := by
  unfold wordText? at h
  split at h <;> cases h <;> rfl

/-- A key is written with characters that are written as themselves. -/
theorem isPrintable_keyChars (n : Nat) (k : String) : ∀ c ∈ keyChars n k, isPrintable c := by
  have hcolon : ∀ c ∈ [':'], isPrintable c := List.all_eq_true.1 rfl
  have hquestion : ∀ c ∈ ['?', ' '], isPrintable c := List.all_eq_true.1 rfl
  rw [keyChars]
  split
  · exact List.forall_mem_append.2 ⟨isPrintable_flowText (permits_textStyle _), hcolon⟩
  · exact List.forall_mem_append.2 ⟨List.forall_mem_append.2 ⟨List.forall_mem_append.2
      ⟨hquestion, isPrintable_textLines _ _⟩, isPrintable_pad⟩, hcolon⟩

/-- The items of an array are, if each of them is. -/
theorem isPrintable_itemsChars {n : Nat} {js : List Json}
    (h : ∀ j ∈ js, ∀ c ∈ nodeChars n true j, isPrintable c) :
    ∀ c ∈ itemsChars n js, isPrintable c := by
  induction js with
  | nil => exact nofun
  | cons j js ih =>
    obtain ⟨hj, hjs⟩ := List.forall_mem_cons.1 h
    simp only [itemsChars_cons, itemsBody, List.forall_mem_append, List.forall_mem_cons]
    exact ⟨isPrintable_pad, by decide, hj, ih hjs⟩

/-- The members of an object are, if the values of all of them are. -/
theorem isPrintable_membersChars {n : Nat} {ms : List (String × Json)}
    (h : ∀ m ∈ ms, ∀ compact, ∀ c ∈ nodeChars n compact m.2, isPrintable c) :
    ∀ c ∈ membersChars n ms, isPrintable c := by
  induction ms with
  | nil => exact nofun
  | cons m ms ih =>
    obtain ⟨hm, hms⟩ := List.forall_mem_cons.1 h
    obtain ⟨k, j⟩ := m
    simp only [membersChars_cons, membersBody, List.forall_mem_append]
    exact ⟨isPrintable_pad, isPrintable_keyChars n k, hm _, ih hms⟩

/-- What opens a container is written with such characters. -/
theorem isPrintable_opening (compact : Bool) (n : Nat) :
    ∀ c ∈ opening compact n, isPrintable c := by
  cases compact with
  | true => exact List.all_eq_true.1 rfl
  | false => exact List.forall_mem_cons.2 ⟨by decide, isPrintable_pad⟩

/-- So are a word and a number. -/
theorem isPrintable_word {j : Json} {b : Depth} {w : List Char}
    (hj : j.Within Json.wholeNumbers b) (hw : wordText? j = some w) {n : Nat} {compact : Bool} :
    ∀ c ∈ nodeChars n compact j, isPrintable c := by
  obtain ⟨hplain, -, -⟩ := resolvePlain_wordText hj hw
  rw [nodeChars_word hw]
  exact List.forall_mem_append.2 ⟨List.forall_mem_cons.2
    ⟨by decide, isPrintable_of_mem (plainAllowed_iff.1 hplain).2.2.2.2⟩,
    List.forall_mem_singleton.2 (by decide)⟩

/-- A tree is written with characters that are written as themselves. -/
theorem isPrintable_nodeChars {j : Json} {b : Depth} (hj : j.Within Json.wholeNumbers b) (n : Nat)
    (compact : Bool) : ∀ c ∈ nodeChars n compact j, isPrintable c := by
  induction j using Json.induction generalizing n compact b with
  | null => exact isPrintable_word hj rfl
  | bool v => cases v <;> exact isPrintable_word hj rfl
  | num x => exact isPrintable_word hj rfl
  | str s => exact List.forall_mem_cons.2 ⟨by decide, isPrintable_textLines _ _⟩
  | arr js ih =>
    obtain ⟨-, hjs⟩ := Json.within_arr.1 hj
    cases js with
    | nil => exact List.all_eq_true.1 rfl
    | cons j js =>
      have hitems := isPrintable_itemsChars fun j' hj' =>
        ih j' hj' (hjs j' hj') (if compact then n + step else n) true
      rw [nodeChars_arr]
      rw [itemsChars_cons] at hitems
      exact List.forall_mem_append.2
        ⟨isPrintable_opening _ _, (List.forall_mem_append.1 hitems).2⟩
  | obj ms ih =>
    obtain ⟨-, hms⟩ := Json.within_obj.1 hj
    cases ms with
    | nil => exact List.all_eq_true.1 rfl
    | cons m ms =>
      obtain ⟨k, j⟩ := m
      have hmembers := isPrintable_membersChars fun m hm =>
        ih m hm (hms.value hm) (n + step)
      rw [nodeChars_obj]
      rw [membersChars_cons] at hmembers
      exact List.forall_mem_append.2
        ⟨isPrintable_opening _ _, (List.forall_mem_append.1 hmembers).2⟩

/-- A whole text has only characters that are written as themselves. -/
theorem isPrintable_renderChars {j : Json} {b : Depth} (hj : j.Within Json.wholeNumbers b) :
    ∀ c ∈ renderChars j, isPrintable c := by
  unfold renderChars
  split
  next => exact isPrintable_textLines _ _
  next j js =>
    obtain ⟨-, hjs⟩ := Json.within_arr.1 hj
    exact isPrintable_itemsChars fun j' hj' => isPrintable_nodeChars (hjs j' hj') 0 true
  next m ms =>
    obtain ⟨-, hms⟩ := Json.within_obj.1 hj
    exact isPrintable_membersChars fun m hm => isPrintable_nodeChars (hms.value hm) 0
  next => exact fun c hc => isPrintable_nodeChars hj 0 true c (List.mem_of_mem_drop hc)

/-- The text of a tree is read as it is. -/
theorem unifyBreaks_renderChars {j : Json} {b : Depth} (hj : j.Within Json.wholeNumbers b) :
    (renderChars j).all isAllowed ∧ unifyBreaks (renderChars j) = renderChars j := by
  have hprintable := isPrintable_renderChars hj
  refine ⟨List.all_eq_true.2 fun c hc => ?_, unifyBreaks_of_isPrintable hprintable⟩
  have h := hprintable c hc
  simp only [isPrintable, Bool.and_eq_true] at h
  exact h.1.1.1.1

end Yaml

end RpcOpenApi
