import RpcOpenApi.Proofs.Yaml.Layout
import RpcOpenApi.Proofs.Yaml.WrittenText

/-!
# Scalars are taken off as they were written

Behind an indicator a scalar is taken off as one token, with everything up to the next entry of a
container around it: `reaches_plain` for words, numbers and texts without quotes, `reaches_quoted`,
`reaches_literal`, and `reaches_text` for a text in whatever style it is written. The two empty
containers are written like scalars (`reaches_empty`). A key on the line of its value is taken off
with its colon (`reaches_simpleKey`).
-/

namespace RpcOpenApi

namespace Yaml

open Layout

variable {c : Char} {cs rest : List Char} {tokens : List Token} {indents : List Nat}
  {key : Option KeyStart} {line n m : Nat} {keyAllowed : Bool} {r : Rest}

/-! ## Scalars -/

/-- The style of a scalar that is written in a style. -/
def TextStyle.scalarStyle : TextStyle → ScalarStyle
  | .plain => .plain
  | .singleQuoted => .singleQuoted
  | .doubleQuoted => .doubleQuoted
  | .literal => .literal

/-- The token of a text. -/
def textToken (cs : List Char) : Token := .scalar (textStyle cs).scalarStyle cs

/-- A text that does not begin with a mark of a document is not read as one. -/
theorem isDocumentMark_append (cs : List Char) {mark : Char} (hne : cs ≠ [])
    (hrest : rest.head? ≠ some mark) (h : ∀ tail, cs ≠ mark :: mark :: mark :: tail) :
    isDocumentMark mark (cs ++ rest) = false := by
  unfold isDocumentMark
  split
  next x y z tail heq =>
    by_contra hmark
    simp only [Bool.and_eq_true, decide_eq_true_eq, Bool.not_eq_false] at hmark
    obtain ⟨⟨⟨rfl, rfl⟩, rfl⟩, -⟩ := hmark
    rcases cs with _ | ⟨x, _ | ⟨y, _ | ⟨z, cs⟩⟩⟩
    · exact hne rfl
    · cases heq; exact hrest rfl
    · cases heq; exact hrest rfl
    · cases heq; exact h _ rfl
  next => rfl

/-- What is asked of the beginning of a plain text. -/
theorem beginsWithIndicator_cons (h : beginsWithIndicator (c :: cs) = false) :
    (∀ tail, c :: cs ≠ '-' :: '-' :: '-' :: tail) ∧ (∀ tail, c :: cs ≠ '.' :: '.' :: '.' :: tail) ∧
      isLeadingIndicator c = false ∧ (c = '-' ∨ c = '?' → endsWord cs = false) := by
  unfold beginsWithIndicator at h
  split at h
  next => cases h
  next => cases h
  next hdash hdot heq =>
    cases heq
    simp only [Bool.or_eq_false_iff, Bool.and_eq_false_iff, decide_eq_false_iff_not] at h
    refine ⟨fun tail heq => ?_, fun tail heq => ?_, h.1, fun hc => h.2.resolve_left ?_⟩
    · cases heq
      exact hdash _ rfl rfl
    · cases heq
      exact hdot _ rfl rfl
    · rcases hc with rfl | rfl <;> decide
  next heq => cases heq

/-- Where a word goes on, no blank follows. -/
theorem not_isBlank_head (h : endsWord cs = false) : cs.head?.any isBlank = false := by
  cases cs with
  | nil => rfl
  | cons d cs => simpa using (isSpace_eq_false.1 h).1

/-- Where a word goes on, it goes on whatever follows it. -/
theorem endsWord_append (h : endsWord cs = false) : endsWord (cs ++ rest) = false := by
  cases cs with
  | nil => cases h
  | cons d cs => exact h

/-- A plain scalar may begin with any character that does not begin something else. -/
theorem startsPlain_eq_true (hspace : isSpace c = false) (hleading : isLeadingIndicator c = false)
    (hend : c = '-' ∨ c = '?' ∨ c = ':' → endsWord cs = false) : startsPlain false c cs = true := by
  simp only [isLeadingIndicator, List.mem_cons, decide_eq_false_iff_not, not_or] at hleading
  rw [startsPlain]
  split
  next hc => simpa using not_isBlank_head (hend (.inl hc))
  next =>
    split
    next hc =>
      rw [Bool.or_eq_true, decide_eq_true_eq, decide_eq_true_eq] at hc
      rw [hend (.inr hc)]
      rfl
    next => simp [hspace, hleading]

/-- A plain text is read as a plain scalar. -/
theorem step?_plain (rest : List Char) {s : Layout} (houter : s.outer = [])
    (h : plainAllowed (c :: cs)) (hrest : rest.head? = some ':' ∨ rest.head? = some '\n') :
    s.step? c (cs ++ rest) = s.plain? := by
  obtain ⟨hbegins, hinner, hborders, hbreak, hescapes⟩ := plainAllowed_iff.1 h
  obtain ⟨hdashes, hdots, hleading, hword⟩ := beginsWithIndicator_cons hbegins
  have hspace : isSpace c = false := by
    refine isSpace_eq_false.2 ⟨?_, hbreak c (.head _)⟩
    rw [isBlank_iff_of_isPrintable (isPrintable_of_mem hescapes c (.head _))]
    simp only [bordersOn, Bool.or_eq_false_iff] at hborders
    simpa using hborders.1
  have hcolon : c = ':' → endsWord cs = false := by
    simp only [hasInnerIndicator, Bool.or_eq_false_iff] at hinner
    simpa using hinner.1.1
  have hmark : isDocumentMark '-' (c :: (cs ++ rest)) = false :=
    isDocumentMark_append (c :: cs) (List.cons_ne_nil c cs)
      (by rcases hrest with h | h <;> simp [h]) hdashes
  have hmark' : isDocumentMark '.' (c :: (cs ++ rest)) = false :=
    isDocumentMark_append (c :: cs) (List.cons_ne_nil c cs)
      (by rcases hrest with h | h <;> simp [h]) hdots
  have hend : c = '-' ∨ c = '?' ∨ c = ':' → endsWord (cs ++ rest) = false := by
    rintro (h | h | h)
    · exact endsWord_append (hword (.inl h))
    · exact endsWord_append (hword (.inr h))
    · exact endsWord_append (hcolon h)
  have hstarts : startsPlain false c (cs ++ rest) = true :=
    startsPlain_eq_true hspace hleading hend
  simp only [isLeadingIndicator, List.mem_cons, decide_eq_false_iff_not, not_or] at hleading
  have hindicator : ∀ d, d = '-' ∨ d = '?' ∨ d = ':' → ¬(c = d ∧ endsWord (cs ++ rest) = true) := by
    rintro d hd ⟨rfl, hends⟩
    rw [hend hd] at hends
    cases hends
  have hstep : s.step? c (cs ++ rest)
      = if c = '-' ∧ endsWord (cs ++ rest) = true then s.blockEntry?
        else if c = '?' ∧ endsWord (cs ++ rest) = true then s.key?
        else if c = ':' ∧ endsWord (cs ++ rest) = true then s.value?
        else if startsPlain false c (cs ++ rest) = true then s.plain? else none := by
    simp [step?, hmark, hmark', inFlow, houter, hleading]
  rw [hstep, if_neg (hindicator '-' (by simp)), if_neg (hindicator '?' (by simp)),
    if_neg (hindicator ':' (by simp)), if_pos hstarts]

/-- A scalar stands further in than the container around it. -/
theorem indent_succ_le (hcolumn : ∀ m ∈ indents.head?, m ≤ r.column) :
    indent ⟨tokens.toArray, indents, key, [], keyAllowed, r⟩ + 1 ≤ r.column + 1 := by
  cases indents with
  | nil =>
    simp only [indent]
    omega
  | cons m ms =>
    have := hcolumn m rfl
    simp only [indent]
    omega

/-- A plain text is taken off before a colon. -/
theorem plain?_colon (hr : r.chars = cs ++ ':' :: rest) (hkey : key.any (·.isRequired) = false)
    (h : plainAllowed cs) (hcolumn : ∀ m ∈ indents.head?, m ≤ r.column) (hrest : endsWord rest) :
    Layout.plain? ⟨tokens.toArray, indents, key, [], keyAllowed, r⟩
      = some ⟨(tokens ++ [Token.scalar .plain cs]).toArray, indents,
        noted tokens indents key keyAllowed r, [], false, r.past (':' :: rest) cs⟩ := by
  rw [Layout.plain?, noteKey?_eq _ _ _ _ _ hkey]
  simp [inFlow, hr, plain?_text_colon h (indent_succ_le hcolumn) hrest, emit]

/-- The position behind the end of a line and the indentation of the next one. -/
theorem past_lineFeed (hcs : ∀ c ∈ cs, ¬isBreak c) (n : Nat) :
    r.past rest (cs ++ '\n' :: pad n) = ⟨rest, r.line + 1, n, n⟩ := by
  rw [Rest.past_append, Rest.past_of_line _ _ hcs, Rest.past_cons_of_break (by decide), past_pad]
  simp [Rest.down]

/-- A plain text is taken off with the end of its line, up to the next entry. -/
theorem plain?_lineFeed (tokens : List Token) (indents : List Nat) (key : Option KeyStart)
    (keyAllowed : Bool) (hr : r.chars = cs ++ '\n' :: (pad n ++ rest))
    (hkey : key.any (·.isRequired) = false) (h : plainAllowed cs) (hcolumn : m ≤ r.column)
    (hn : n ≤ m) (hrest : BeginsEntry rest) :
    Layout.plain? ⟨tokens.toArray, m :: indents, key, [], keyAllowed, r⟩
      = some (entry (tokens ++ [.scalar .plain cs]) (m :: indents)
        (noted tokens (m :: indents) key keyAllowed r) (r.line + 1) n rest) := by
  have hbreak := (plainAllowed_iff.1 h).2.2.2.1
  have htext := plain?_text (r := r) h (by omega : (m + 1 : Int) ≤ r.column + 1)
    (by omega : (n : Int) < m + 1) hrest
  rw [Layout.plain?, noteKey?_eq _ _ _ _ _ hkey]
  simp [inFlow, indent, hr, htext, emit, entry, past_lineFeed hbreak]

/-! ### Quotes -/

/-- The styles with quotes. -/
def TextStyle.IsQuoted (style : TextStyle) : Prop := style = .singleQuoted ∨ style = .doubleQuoted

/-- The first of the characters that are left is skipped. -/
theorem skip_one (hr : r.chars = c :: cs) : r.skip 1 = r.right c cs := by
  rw [Rest.skip, hr]
  rfl

/-- A quote begins a scalar. -/
theorem step?_quote {s : Layout} : s.step? '\'' cs = s.quoted? .singleQuoted ∧
    s.step? '"' cs = s.quoted? .doubleQuoted := by
  constructor <;> simp [step?, isDocumentMark_of_ne]

/-- A text in quotes becomes a scalar, if the reader of its quotes comes to the end of it. -/
theorem quoted?_eq {style : ScalarStyle} {r' : Rest} (hkey : key.any (·.isRequired) = false)
    (hread : (if style = .singleQuoted then singleQuoted? {} (r.skip 1) (r.skip 1).chars
      else doubleQuoted? {} .text (r.skip 1) (r.skip 1).chars) = some (cs, r')) :
    Layout.quoted? ⟨tokens.toArray, indents, key, [], keyAllowed, r⟩ style
      = some ⟨(tokens ++ [Token.scalar style cs]).toArray, indents,
        noted tokens indents key keyAllowed r, [], false, r'⟩ := by
  rw [Layout.quoted?, noteKey?_eq _ _ _ _ _ hkey]
  split at hread
  next h => simp [h, hread, emit]
  next h => simp [h, hread, emit]

/-- A text of one line may be indented by any number of blanks in single quotes. -/
theorem exists_singleQuotedTail (hn : 0 < n ∨ ∀ c ∈ cs, ¬isBreak c) :
    ∃ n', 0 < n' ∧ singleQuotedTail n false cs = singleQuotedTail n' false cs := by
  rcases hn with hn | hbreak
  · exact ⟨n, hn, rfl⟩
  · exact ⟨1, Nat.one_pos, by
      rw [singleQuotedTail_of_line hbreak, singleQuotedTail_of_line hbreak]⟩

/-- A text in quotes is taken off. -/
theorem step?_quoted (tokens : List Token) (indents : List Nat) (key : Option KeyStart)
    (keyAllowed : Bool) {style : TextStyle} {rest' : List Char} (hstyle : style.IsQuoted)
    (hpermits : style.Permits cs) (hn : 0 < n ∨ ∀ c ∈ cs, ¬isBreak c)
    (hr : r.chars = flowText n style cs ++ rest) (hchars : r.chars = c :: rest')
    (hkey : key.any (·.isRequired) = false) (hrest : rest.head? ≠ some '\'') :
    Layout.step? ⟨tokens.toArray, indents, key, [], keyAllowed, r⟩ c rest'
      = some ⟨(tokens ++ [Token.scalar style.scalarStyle cs]).toArray, indents,
        noted tokens indents key keyAllowed r, [], false, r.past rest (flowText n style cs)⟩ := by
  have hskip := skip_one hchars
  rcases hstyle with rfl | rfl
  · obtain ⟨n', hn', htail⟩ := exists_singleQuotedTail hn
    rw [flowText] at hr ⊢
    obtain ⟨rfl, rfl⟩ : c = '\'' ∧ rest' = singleQuotedTail n false cs ++ rest := by
      simpa using hchars.symm.trans hr
    have htext := singleQuoted?_text (r := r.skip 1) hn' hpermits.2 hpermits.1
      (by rw [hskip]; exact Nat.succ_pos _) hrest
    rw [← htail] at htext
    rw [step?_quote.1, Rest.past_cons (by decide), ← hskip]
    exact quoted?_eq hkey (by rw [if_pos rfl, ← htext, hskip]; rfl)
  · have hr : r.chars = '"' :: (cs.flatMap doubleQuotedChar ++ '"' :: rest) := by
      simpa [flowText, doubleQuoted] using hr
    obtain ⟨rfl, rfl⟩ : c = '"' ∧ rest' = cs.flatMap doubleQuotedChar ++ '"' :: rest := by
      simpa using hchars.symm.trans hr
    have htext := doubleQuoted?_text cs rest (r := r.skip 1) (w := {}) rfl
      (by rw [hskip]; exact Nat.succ_pos _)
    have hpast : r.past rest (flowText n .doubleQuoted cs)
        = (r.skip 1).past rest (cs.flatMap doubleQuotedChar ++ ['"']) := by
      rw [hskip, flowText, doubleQuoted, List.cons_append, Rest.past_cons (by decide),
        List.append_assoc]
      · rfl
      all_goals simp
    rw [step?_quote.2, hpast]
    have hchars : (r.skip 1).chars = cs.flatMap doubleQuotedChar ++ '"' :: rest := by
      rw [hskip]
      rfl
    exact quoted?_eq hkey (by rw [if_neg (by decide), hchars]; exact htext)

/-! ### Keys and values -/

/-- A text that may be written without quotes is not empty. -/
theorem ne_nil_of_permits_plain (h : TextStyle.plain.Permits cs) : cs ≠ [] := by
  rintro rfl
  exact absurd h.1 (by decide)

/-- A text on one line is not written as nothing. -/
theorem flowText_ne_nil {style : TextStyle} (hpermits : style.Permits cs) :
    flowText n style cs ≠ [] := by
  cases style with
  | plain => exact ne_nil_of_permits_plain hpermits
  | singleQuoted | doubleQuoted | literal => exact nofun

/-- A plain text begins with a character that is not skipped. -/
theorem beginsEntry_plain (rest : List Char) (h : plainAllowed cs) (hne : cs ≠ []) :
    BeginsEntry (cs ++ rest) := by
  obtain ⟨c, cs, rfl⟩ := List.exists_cons_of_ne_nil hne
  obtain ⟨hbegins, -, hborders, hbreak, hescapes⟩ := plainAllowed_iff.1 h
  have hleading := (beginsWithIndicator_cons hbegins).2.2.1
  have hprintable := isPrintable_of_mem hescapes c (.head _)
  refine ⟨isSpace_eq_false.2 ⟨?_, hbreak c (.head _)⟩, ?_, ?_⟩
  · rw [isBlank_iff_of_isPrintable hprintable]
    simp only [bordersOn, Bool.or_eq_false_iff] at hborders
    simpa using hborders.1
  · rintro rfl
    exact absurd hleading (by decide)
  · rintro rfl
    exact absurd hprintable (by decide)

/-- So does a text in every style but that of a literal block. -/
theorem beginsEntry_flowText (n : Nat) (rest : List Char) {style : TextStyle}
    (hpermits : style.Permits cs) : BeginsEntry (flowText n style cs ++ rest) := by
  cases style with
  | plain => exact beginsEntry_plain _ hpermits.2 (ne_nil_of_permits_plain hpermits)
  | singleQuoted | doubleQuoted | literal => exact ⟨by decide, by decide, by decide⟩

/-- A text of one line is not written in lines of its own. -/
theorem textStyle_of_line (hcs : ∀ c ∈ cs, ¬isBreak c) : textStyle cs ≠ .literal := by
  intro h
  have hpermits := permits_textStyle cs
  rw [h] at hpermits
  exact hcs _ hpermits.1 (by decide)

/-- A text of one line before a colon is taken off, and it is noted where it began. -/
theorem reaches_keyText (tokens : List Token) (hcs : ∀ c ∈ cs, ¬isBreak c) (hkey : Stale key line)
    (hindents : ∀ m ∈ indents.head?, m ≤ n) (hrest : endsWord rest) :
    Reaches (entry tokens indents key line n (flowText m (textStyle cs) cs ++ ':' :: rest))
      ⟨(tokens ++ [textToken cs]).toArray, indents,
        some ⟨tokens.length, decide (indents.head? = some n), line, n, n⟩, [], false,
        ⟨':' :: rest, line, n + (flowText m (textStyle cs) cs).length,
          n + byteLength (flowText m (textStyle cs) cs)⟩⟩ := by
  have hpermits := permits_textStyle cs
  have hpast := Rest.past_of_line ⟨flowText m (textStyle cs) cs ++ ':' :: rest, line, n, n⟩
    (':' :: rest) (not_isBreak_flowText m (textStyle cs) hcs)
  have hbegins := beginsEntry_flowText m (':' :: rest) hpermits
  have hliteral := textStyle_of_line hcs
  rw [textToken]
  generalize textStyle cs = style at hpermits hpast hbegins hliteral
  obtain ⟨c, rest', hchars⟩ : ∃ c rest', flowText m style cs ++ ':' :: rest = c :: rest' :=
    List.exists_cons_of_ne_nil (by simp)
  have hstep : (entry tokens indents key line n (flowText m style cs ++ ':' :: rest)).step? c rest'
      = some ⟨(tokens ++ [Token.scalar style.scalarStyle cs]).toArray, indents,
        noted tokens indents key true ⟨flowText m style cs ++ ':' :: rest, line, n, n⟩, [], false,
        Rest.past (':' :: rest) ⟨flowText m style cs ++ ':' :: rest, line, n, n⟩
          (flowText m style cs)⟩ := by
    cases style with
    | plain =>
      obtain ⟨d, cs, rfl⟩ := List.exists_cons_of_ne_nil (ne_nil_of_permits_plain hpermits)
      obtain ⟨rfl, rfl⟩ : c = d ∧ rest' = cs ++ ':' :: rest := by simpa [flowText] using hchars.symm
      rw [step?_plain _ rfl hpermits.2 (.inl rfl)]
      exact plain?_colon rfl hkey.not_isRequired hpermits.2 hindents hrest
    | singleQuoted =>
      exact step?_quoted _ _ _ _ (.inl rfl) hpermits (.inr hcs) rfl hchars hkey.not_isRequired
        (by simp)
    | doubleQuoted =>
      exact step?_quoted _ _ _ _ (.inr rfl) hpermits (.inr hcs) rfl hchars hkey.not_isRequired
        (by simp)
    | literal => exact absurd rfl hliteral
  rw [hpast] at hstep
  refine .of_step (advance_entry hbegins hindents) hchars hstep ?_
  have hpos := List.length_pos_of_ne_nil (flowText_ne_nil (n := m) hpermits)
  simp only [entry, List.length_append]
  omega

/-- A key on the line of its value is taken off with its colon. -/
theorem reaches_simpleKey (tokens : List Token) {k : String} {indents' : List Nat}
    {start : List Token} (hk : isSimpleKey k)
      (h : Opens n .blockMappingStart indents indents' start)
    (hkey : Stale key line) (hrest : endsWord rest) :
    ∃ r : Rest, r.chars = rest ∧ r.line = line ∧ n < r.column ∧
      Reaches (entry tokens indents key line n (keyChars n k ++ rest))
        (behind (tokens ++ start ++ [.key, textToken k.toList, .value]) indents' false r) := by
  have hbytes := byteLength_simpleKey_le n hk
  have hbreak : ∀ c ∈ k.toList, ¬isBreak c := by
    simp only [isSimpleKey, Bool.and_eq_true, Bool.not_eq_true'] at hk
    simpa [List.any_eq_false] using hk.1
  generalize hlength : (flowText n (textStyle k.toList) k.toList).length = length
  generalize hbytes' : byteLength (flowText n (textStyle k.toList) k.toList) = bytes at hbytes
  refine ⟨⟨rest, line, n + length + 1, n + bytes + 1⟩, rfl, rfl, by simp only; omega, ?_⟩
  have htext := reaches_keyText tokens (m := n) hbreak hkey h.head_le hrest
  rw [hlength, hbytes'] at htext
  rw [keyChars, if_pos hk, List.append_assoc]
  exact htext.trans (reaches_value h (by omega) (by omega) hrest)

/-- Behind an indicator a blank is skipped. -/
theorem advance_behind (hr : r.chars = ' ' :: cs) (hcs : BeginsEntry cs) (hcolumn : m < r.column) :
    (behind tokens (m :: indents) keyAllowed r).advance
      = behind tokens (m :: indents) keyAllowed (r.right ' ' cs) := by
  have hskip : skipSpace false false keyAllowed r r.chars = (keyAllowed, r.right ' ' cs) := by
    rw [hr]
    refine (skipSpace_pad keyAllowed r 1 cs).trans ?_
    rw [skipSpace_of_beginsEntry _ _ hcs]
    rfl
  rw [advance]
  simp only [behind, inFlow, List.isEmpty_nil, Bool.not_true, hskip]
  refine close_of_le fun k hk => ?_
  cases hk
  exact Nat.le_succ_of_le (Nat.le_of_lt hcolumn)

/-- A scalar without quotes is taken off behind an indicator. -/
theorem reaches_plain (h : plainAllowed cs) (hne : cs ≠ [])
    (hr : r.chars = ' ' :: (cs ++ '\n' :: (pad n ++ rest))) (hcolumn : m < r.column) (hn : n ≤ m)
    (hrest : BeginsEntry rest) :
    ∃ key line, Stale key line ∧ Reaches (behind tokens (m :: indents) keyAllowed r)
      (entry (tokens ++ [.scalar .plain cs]) (m :: indents) key line n rest) := by
  have hbegins := beginsEntry_plain ('\n' :: (pad n ++ rest)) h hne
  obtain ⟨c, cs', rfl⟩ := List.exists_cons_of_ne_nil hne
  have hstep := plain?_lineFeed tokens indents none keyAllowed
    (r := r.right ' ' (c :: cs' ++ '\n' :: (pad n ++ rest))) rfl rfl h
    (Nat.le_succ_of_le (Nat.le_of_lt hcolumn)) hn hrest
  rw [← step?_plain ('\n' :: (pad n ++ rest)) rfl h (.inr rfl)] at hstep
  refine ⟨_, _, stale_noted rfl (fun k hk => ?_) (Nat.lt_succ_self _),
    .of_step (advance_behind hr hbegins hcolumn) rfl hstep ?_⟩
  · cases hk
    exact Nat.lt_succ_of_lt hcolumn
  · simp only [behind, entry, hr, List.length_cons, List.length_append]
    omega

/-- A text in quotes is taken off behind an indicator. -/
theorem reaches_quoted {style : TextStyle} (hstyle : style.IsQuoted) (hpermits : style.Permits cs)
    (hr : r.chars = ' ' :: (flowText (m + step) style cs ++ '\n' :: (pad n ++ rest)))
    (hcolumn : m < r.column) (hrest : BeginsEntry rest) :
    ∃ key line, Stale key line ∧ Reaches (behind tokens (m :: indents) keyAllowed r)
      (entry (tokens ++ [.scalar style.scalarStyle cs]) (m :: indents) key line n rest) := by
  generalize htext : flowText (m + step) style cs = text at hr
  have hbegins : BeginsEntry (text ++ '\n' :: (pad n ++ rest)) :=
    htext ▸ beginsEntry_flowText _ _ hpermits
  obtain ⟨c, rest', hchars⟩ : ∃ c rest', text ++ '\n' :: (pad n ++ rest) = c :: rest' :=
    List.exists_cons_of_ne_nil (by simp)
  have hright : (r.right ' ' (text ++ '\n' :: (pad n ++ rest))).chars
      = flowText (m + step) style cs ++ '\n' :: (pad n ++ rest) := by
    rw [htext]
    rfl
  have hindented : 0 < m + step := Nat.succ_pos _
  have hstep := step?_quoted tokens (m :: indents) none keyAllowed hstyle hpermits
    (.inl hindented) hright hchars rfl (by simp)
  rw [htext] at hstep
  have hline := Rest.line_le_past (r.right ' ' (text ++ '\n' :: (pad n ++ rest)))
    ('\n' :: (pad n ++ rest)) text
  refine ⟨_, _, stale_noted rfl (fun k hk => ?_) (Nat.lt_succ_of_le hline),
    .trans (.of_step (advance_behind hr hbegins hcolumn) hchars hstep ?_)
      (reaches_lineFeed (Rest.chars_past _ _ _) hrest)⟩
  · cases hk
    exact Nat.lt_succ_of_lt hcolumn
  · simp only [behind, hr, List.length_cons, List.length_append, Rest.chars_past]
    omega

/-- A literal block is taken off behind an indicator. -/
theorem reaches_literal (hpermits : TextStyle.literal.Permits cs)
    (hr : r.chars = ' ' :: (literal (m + step) cs ++ (pad n ++ rest)))
    (hcolumn : m < r.column) (hn : n ≤ m) (hrest : BeginsEntry rest) :
    ∃ key line, Stale key line ∧ Reaches (behind tokens (m :: indents) keyAllowed r)
      (entry (tokens ++ [.scalar .literal cs]) (m :: indents) key line n rest) := by
  have hne : cs ≠ [] := List.ne_nil_of_mem hpermits.1
  rw [literal_eq, List.cons_append] at hr
  generalize hright : r.right ' ' ('|' :: (literalBody (m + step) cs ++ (pad n ++ rest))) = r₁
  have hchars : r₁.chars = '|' :: (literalBody (m + step) cs ++ (pad n ++ rest)) := by
    rw [← hright]
    rfl
  have hbody : (r₁.skip 1).chars = literalBody (m + step) cs ++ (pad n ++ rest) := by
    rw [skip_one hchars]
    rfl
  have hblock := block?_literal (m : Int) (r := r₁.skip 1) (m := n) (by omega) hpermits.2 hne
    (by rw [step]; omega) hrest hbody
  obtain ⟨line, hpast⟩ := past_literalBody (r := r₁.skip 1) (m + step) n rest hne
  have hstep : Layout.step? (behind tokens (m :: indents) keyAllowed r₁) '|'
      (literalBody (m + step) cs ++ (pad n ++ rest))
      = some (entry (tokens ++ [.scalar .literal cs]) (m :: indents) none line n rest) := by
    rw [hpast] at hblock
    have hblock' : Layout.step? (behind tokens (m :: indents) keyAllowed r₁) '|'
        (literalBody (m + step) cs ++ (pad n ++ rest))
        = (behind tokens (m :: indents) keyAllowed r₁).block? .literal := by
      simp [step?, isDocumentMark_of_ne, behind, inFlow]
    rw [hblock', Layout.block?]
    simp [dropKey?, behind, indent, hblock, emit, entry]
  refine ⟨none, line, .none line,
    .of_step (advance_behind hr ?_ hcolumn) (hright ▸ hchars) (hright ▸ hstep) ?_⟩
  · exact ⟨by decide, by decide, by decide⟩
  · simp only [behind, entry, hr, List.length_cons, List.length_append]
    omega

/-- A text is taken off behind an indicator. -/
theorem reaches_text (cs : List Char) (tokens : List Token) (indents : List Nat)
    (keyAllowed : Bool) (hr : r.chars = ' ' :: (textLines (m + step) cs ++ (pad n ++ rest)))
    (hcolumn : m < r.column) (hn : n ≤ m) (hrest : BeginsEntry rest) :
    ∃ key line, Stale key line ∧ Reaches (behind tokens (m :: indents) keyAllowed r)
      (entry (tokens ++ [textToken cs]) (m :: indents) key line n rest) := by
  have hpermits := permits_textStyle cs
  have hflow : ∀ style, style ≠ .literal → textStyle cs = style →
      r.chars = ' ' :: (flowText (m + step) style cs ++ '\n' :: (pad n ++ rest)) := by
    intro style hne h
    rw [hr, textLines, h]
    cases style with
    | literal => exact absurd rfl hne
    | plain | singleQuoted | doubleQuoted => simp
  rw [textToken]
  cases h : textStyle cs with
  | plain =>
    rw [h] at hpermits
    exact reaches_plain hpermits.2 (ne_nil_of_permits_plain hpermits) (hflow .plain (by decide) h)
      hcolumn hn hrest
  | singleQuoted =>
    exact reaches_quoted (.inl rfl) (h ▸ hpermits) (hflow .singleQuoted (by decide) h) hcolumn hrest
  | doubleQuoted =>
    exact reaches_quoted (.inr rfl) (h ▸ hpermits) (hflow .doubleQuoted (by decide) h) hcolumn hrest
  | literal =>
    exact reaches_literal (h ▸ hpermits) (by rw [hr, textLines, h]) hcolumn hn hrest

/-! ## Empty containers -/

/-- The tokens of an empty container. -/
inductive EmptyPair : Char → Char → Token → Token → Prop
  | sequence : EmptyPair '[' ']' .flowSequenceStart .flowSequenceEnd
  | mapping : EmptyPair '{' '}' .flowMappingStart .flowMappingEnd

/-- An empty container is taken off behind an indicator. -/
theorem reaches_empty {d : Char} {first last : Token} (hpair : EmptyPair c d first last)
    (hr : r.chars = ' ' :: c :: d :: '\n' :: (pad n ++ rest)) (hcolumn : m < r.column)
    (hrest : BeginsEntry rest) :
    ∃ key line, Stale key line ∧ Reaches (behind tokens (m :: indents) keyAllowed r)
      (entry (tokens ++ [first, last]) (m :: indents) key line n rest) := by
  have hbegins : BeginsEntry (c :: d :: '\n' :: (pad n ++ rest)) := by
    cases hpair <;> exact ⟨by decide, by decide, by decide⟩
  generalize hright : r.right ' ' (c :: d :: '\n' :: (pad n ++ rest)) = r₁
  have hchars : r₁.chars = c :: d :: '\n' :: (pad n ++ rest) := by
    rw [← hright]
    rfl
  have hline : r₁.line = r.line := by
    rw [← hright]
    rfl
  have hcolumn₁ : ∀ k ∈ (m :: indents).head?, k < r₁.column := by
    intro k hk
    cases hk
    rw [← hright]
    exact Nat.lt_succ_of_lt hcolumn
  -- the opening bracket could begin a key, which is noted outside the new flow level
  have hstart : Layout.step? (behind tokens (m :: indents) keyAllowed r₁) c
      (d :: '\n' :: (pad n ++ rest))
      = some ⟨(tokens ++ [first]).toArray, m :: indents, none,
        [noted tokens (m :: indents) none keyAllowed r₁], true, r₁.skip 1⟩ := by
    have hnote := noteKey?_eq tokens (m :: indents) none keyAllowed r₁ rfl
    cases hpair <;> simp [step?, isDocumentMark_of_ne, behind, flowStart?, hnote, emit]
  have hend : Layout.step? ⟨(tokens ++ [first]).toArray, m :: indents, none,
      [noted tokens (m :: indents) none keyAllowed r₁], true, r₁.skip 1⟩ d ('\n' :: (pad n ++ rest))
      = some ⟨(tokens ++ [first, last]).toArray, m :: indents,
        noted tokens (m :: indents) none keyAllowed r₁, [], false, (r₁.skip 1).skip 1⟩ := by
    cases hpair <;> simp [step?, isDocumentMark_of_ne, flowEnd?, dropKey?, emit]
  rw [skip_one hchars] at hstart hend
  rw [skip_one rfl] at hend
  have hadvance : Layout.advance ⟨(tokens ++ [first]).toArray, m :: indents, none,
      [noted tokens (m :: indents) none keyAllowed r₁], true,
      r₁.right c (d :: '\n' :: (pad n ++ rest))⟩
      = ⟨(tokens ++ [first]).toArray, m :: indents, none,
        [noted tokens (m :: indents) none keyAllowed r₁], true,
        r₁.right c (d :: '\n' :: (pad n ++ rest))⟩ := by
    cases hpair <;> simp [advance, inFlow, Rest.right, skipSpace, isBreak, byteOrderMark, close]
  refine ⟨_, _, stale_noted rfl hcolumn₁ (Nat.lt_succ_self _),
    .trans (.of_step (hright ▸ advance_behind hr hbegins hcolumn) hchars hstart ?_)
      (.trans (.of_step hadvance rfl hend ?_) (reaches_lineFeed rfl hrest))⟩
  · simp only [behind, hr, Rest.right, List.length_cons]
    omega
  · exact Nat.lt_succ_self _

end Yaml

end RpcOpenApi
