import Mathlib
import RpcOpenApi.Yaml.Printer
import RpcOpenApi.Yaml.ScalarText

/-!
# What is written of a text is read back

Each of the four styles of a text is read as that text (`plain?_text`, `singleQuoted?_text`,
`doubleQuoted?_text`, `block?_literal`), and the reader stops right behind it, whatever follows a
closing quote, and before the next entry of a container in the other styles (`Follows`).

A reader goes through its characters one by one, and keeps apart the gap that it may have to drop.
What it has read so far is the text before the gap with what the gap stands for (`Words.read`). Each
character that is written for the text adds itself to that. The blanks that indent a new line add
nothing, since they come after the end of a line.
-/

namespace RpcOpenApi

namespace Yaml

variable {c : Char} {cs rest : List Char} {r : Rest}

/-! ## Positions -/

/-- The position after some characters, with what is left there. -/
def Rest.past (rest : List Char) : Rest → List Char → Rest
  | r, [] => { r with chars := rest }
  | r, c :: cs =>
    (if isBreak c then r.down (cs ++ rest) else r.right c (cs ++ rest)).past rest cs

/-- The number of bytes of some characters. -/
def byteLength (cs : List Char) : Nat := (cs.map Char.utf8Size).sum

namespace Rest

/-- After the end of a line the position is at the beginning of the next one. -/
theorem past_cons_of_break (hc : isBreak c) :
    r.past rest (c :: cs) = (r.down (cs ++ rest)).past rest cs := by
  rw [past, if_pos hc]

/-- After any other character the position is one column further. -/
theorem past_cons (hc : ¬isBreak c) :
    r.past rest (c :: cs) = (r.right c (cs ++ rest)).past rest cs := by
  rw [past, if_neg hc]

/-- The position after two texts is reached by way of the first one. -/
theorem past_append (r : Rest) (rest cs cs' : List Char) :
    r.past rest (cs ++ cs') = (r.past (cs' ++ rest) cs).past rest cs' := by
  induction cs generalizing r with
  | nil => cases cs' <;> rfl
  | cons c cs ih =>
    rw [List.cons_append, past, past, ih, List.append_assoc]

/-- At the position after a text stands what is left. -/
@[simp] theorem chars_past (r : Rest) (rest cs : List Char) : (r.past rest cs).chars = rest := by
  induction cs generalizing r with
  | nil => rfl
  | cons c cs ih => rw [past, ih]

/-- On the way through a text the number of the line does not fall. -/
theorem line_le_past (r : Rest) (rest cs : List Char) : r.line ≤ (r.past rest cs).line := by
  induction cs generalizing r with
  | nil => exact Nat.le_refl _
  | cons c cs ih =>
    rw [past]
    refine Nat.le_trans ?_ (ih _)
    split
    · exact Nat.le_succ _
    · exact Nat.le_refl _

/-- The position after some characters of one line. -/
theorem past_of_line (r : Rest) (rest : List Char) {cs : List Char} (h : ∀ c ∈ cs, ¬isBreak c) :
    r.past rest cs = ⟨rest, r.line, r.column + cs.length, r.offset + byteLength cs⟩ := by
  induction cs generalizing r with
  | nil => rfl
  | cons c cs ih =>
    obtain ⟨hc, hcs⟩ := List.forall_mem_cons.1 h
    rw [past_cons hc, ih _ hcs, right, byteLength, byteLength, List.map_cons, List.sum_cons,
      List.length_cons]
    simp only [Rest.mk.injEq, true_and]
    omega

/-- What is left is part of the position after a text. -/
theorem with_chars_past (r : Rest) (rest cs : List Char) :
    { r.past rest cs with chars := rest } = r.past rest cs := by
  have hchars := chars_past r rest cs
  generalize r.past rest cs = r' at hchars
  subst hchars
  rfl

end Rest

/-- A condition that a test finds to hold of all characters holds of each of them. -/
theorem forall_mem_of_all {p : Char → Prop} [DecidablePred p] (h : cs.all (fun c => decide (p c))) :
    ∀ c ∈ cs, p c :=
  fun c hc => of_decide_eq_true (List.all_eq_true.1 h c hc)

/-- Indentation consists of blanks. -/
theorem mem_pad {n : Nat} (hc : c ∈ pad n) : c = ' ' := (List.mem_replicate.1 hc).2

/-- No line ends within an indentation. -/
theorem not_isBreak_of_mem_pad {n : Nat} : ∀ c ∈ pad n, ¬isBreak c := by
  intro c hc
  rw [mem_pad hc]
  decide

/-- An indentation begins with a blank, unless it is empty. -/
theorem pad_succ (n : Nat) : pad (n + 1) = ' ' :: pad n := rfl

@[simp] theorem length_pad (n : Nat) : (pad n).length = n := List.length_replicate

/-- An indentation has as many bytes as blanks. -/
@[simp] theorem byteLength_pad (n : Nat) : byteLength (pad n) = n := by
  rw [byteLength, pad, List.map_replicate, List.sum_replicate_nat]
  exact Nat.mul_one n

/-- An indentation leads on within the line. -/
theorem past_pad (r : Rest) (rest : List Char) (n : Nat) :
    r.past rest (pad n) = ⟨rest, r.line, r.column + n, r.offset + n⟩ := by
  rw [Rest.past_of_line r rest not_isBreak_of_mem_pad, length_pad, byteLength_pad]

/-! ## Classes of characters -/

/-- The next entry of a container, or the end of the text, after the indentation of its line. -/
def BeginsEntry : List Char → Prop
  | [] => True
  | c :: _ => isSpace c = false ∧ c ≠ '#' ∧ c ≠ byteOrderMark

/-- A blank that is written as itself is no tabulator. -/
theorem isBlank_iff_of_isPrintable (hc : isPrintable c) : isBlank c ↔ c = ' ' := by
  have htab : c ≠ '\t' := by
    rintro rfl
    exact absurd hc (by decide)
  simp [isBlank, htab]

/-- A blank does not end a line. -/
theorem not_isBreak_blank (hc : isBlank c) : ¬isBreak c := by
  have hc : c = ' ' ∨ c = '\t' := by simpa [isBlank] using hc
  rcases hc with rfl | rfl <;> decide

/-- What is no space is neither a blank nor the end of a line. -/
theorem isSpace_eq_false : isSpace c = false ↔ ¬isBlank c ∧ ¬isBreak c := by simp [isSpace]

/-! ## Words and gaps -/

namespace Gap

/-- The gap stands for all the ends of lines in it. -/
def Faithful : Gap → Prop
  | lines first _ => first ≠ some '\n'
  | _ => True

/-- There are blanks in the gap, and no end of a line. -/
def isBlanks : Gap → Bool
  | blanks _ => true
  | _ => false

variable {g : Gap}

/-- A blank is added to the gap of a line. -/
theorem fold_blank (hg : g.isLines = false) : (g.blank c).fold = c :: g.fold := by
  cases g with
  | none | blanks => rfl
  | lines => cases hg

/-- The gap of a line stays one when a blank is added. -/
theorem isLines_blank (hg : g.isLines = false) : (g.blank c).isLines = false := by
  cases g with
  | none | blanks => rfl
  | lines => cases hg

/-- At the beginning of a line a blank adds nothing to the gap. -/
theorem blank_of_isLines (hg : g.isLines) : g.blank c = g := by
  cases g with
  | none | blanks => cases hg
  | lines => rfl

/-- After the end of a line the gap is one of lines. -/
theorem isLines_lineEnd : (g.lineEnd c).isLines := by cases g <;> rfl

/-- A gap of lines stands for its line ends, without the first one if that is a line feed. -/
theorem fold_lines {first : Option Char} (hfirst : first ≠ some '\n') (more : List Char) :
    (lines first more).fold = more ++ first.toList := by
  unfold fold
  split <;> simp_all

/-- The line and the paragraph separator are kept in a gap. -/
theorem fold_lineEnd (hg : g.Faithful) (hb : g.isBlanks = false) (hc : c ≠ '\n') :
    (g.lineEnd c).fold = c :: g.fold ∧ (g.lineEnd c).Faithful := by
  have hfirst : some c ≠ some '\n' := by simpa using hc
  cases g with
  | none => exact ⟨fold_lines hfirst [], hfirst⟩
  | blanks => cases hb
  | lines first more => exact ⟨by rw [lineEnd, fold_lines hg, fold_lines hg]; rfl, hg⟩

end Gap

namespace Words

/-- What has been read, if the gap is not dropped. -/
def read (w : Words) : List Char := (w.gap.fold ++ w.text).reverse

variable {w : Words}

/-- A character that is added is read, after the gap before it. -/
@[simp] theorem read_add : (w.add c).read = w.read ++ [c] := by
  simp [add, read, Gap.fold]

/-- After a character that is added there is no gap. -/
@[simp] theorem gap_add : (w.add c).gap = .none := rfl

/-- Without a gap the characters are all that has been read. -/
theorem text_eq_of_gap (h : w.gap = .none) : w.text.reverse = w.read := by
  rw [read, h, Gap.fold, List.nil_append]

/-- Adds a character of a line. -/
def put (w : Words) (c : Char) : Words := if isBlank c then w.addSpace c else w.add c

/-- A blank is added to the gap. -/
theorem addSpace_of_isBlank (hc : isBlank c) : w.addSpace c = { w with gap := w.gap.blank c } := by
  rw [addSpace, if_neg (not_isBreak_blank hc)]

/-- The end of a line is added to the gap. -/
theorem addSpace_of_isBreak (hc : isBreak c) :
    w.addSpace c = { w with gap := w.gap.lineEnd c } := by
  rw [addSpace, if_pos hc]

/-- Within a line a blank counts as read, and the gap stays within the line. -/
theorem read_addSpace (hw : w.gap.isLines = false) (hc : isBlank c) :
    (w.addSpace c).read = w.read ++ [c] ∧ (w.addSpace c).gap.isLines = false := by
  rw [addSpace_of_isBlank hc]
  exact ⟨by simp [read, Gap.fold_blank hw], Gap.isLines_blank hw⟩

/-- A character of a line is added to what has been read, unless it is a blank that indents the
line. -/
theorem read_put (hw : w.gap.isLines → ¬isBlank c) :
    (w.put c).read = w.read ++ [c] ∧ (w.put c).gap.isLines = false := by
  rw [put]
  split
  next hc => exact read_addSpace (Bool.eq_false_iff.2 fun h => hw h hc) hc
  next => exact ⟨read_add, rfl⟩

/-- After a character of a line there are blanks in the gap only if it is one. -/
theorem gap_put (hw : w.gap.isLines → ¬isBlank c) :
    (w.put c).gap.Faithful ∧ ((w.put c).gap.isBlanks → isBlank c) := by
  have hlines := (read_put hw).2
  refine ⟨?_, fun h => ?_⟩
  · cases hg : (w.put c).gap with
    | none | blanks => trivial
    | lines => simp [hg, Gap.isLines] at hlines
  · by_cases hc : isBlank c
    · exact hc
    · rw [put, if_neg hc] at h
      cases h

/-- After a character that is no blank there is no gap. -/
theorem gap_put_of_not_isBlank (hc : ¬isBlank c) : (w.put c).gap = .none := by
  rw [put, if_neg hc, gap_add]

/-- The characters of a line are added to what has been read, one after the other. -/
theorem read_foldl_put (hw : w.gap.isLines = false) (cs : List Char) :
    (cs.foldl put w).read = w.read ++ cs := by
  induction cs generalizing w with
  | nil => rw [List.foldl_nil, List.append_nil]
  | cons c cs ih =>
    obtain ⟨hread, hlines⟩ := read_put (w := w) (c := c) (by simp [hw])
    rw [List.foldl_cons, ih hlines, hread, List.append_assoc]
    rfl

end Words

/-! ## Plain scalars -/

section
variable {indent : Int} {w : Words}

/-- In a block no colon within a plain text is stray. -/
@[simp] theorem isStrayColon_block : isStrayColon false cs = false := by
  unfold isStrayColon
  split <;> simp

/-- At the end of a line a plain scalar goes on with a gap. -/
theorem plain?_cons_of_isBreak (hc : isBreak c) :
    plain? false indent w r (c :: cs) = plain? false indent (w.addSpace c) (r.down cs) cs :=
  if_pos hc

/-- At a blank a plain scalar goes on with a gap. -/
theorem plain?_cons_blank :
    plain? false indent w r (' ' :: cs)
      = plain? false indent (w.addSpace ' ') (r.right ' ' cs) cs := by
  simp [plain?, isBreak, isBlank]

/-- Outside of flow collections a plain scalar takes in a character of a word, unless it is a colon
at the end of a word or begins what cannot be a part of the scalar. -/
theorem plain?_cons (hc : isSpace c = false)
    (hstop : w.gap.isNone = true ∨ stopsPlain false indent r.column (c :: cs) = false)
    (hend : c = ':' → endsWord cs = false) :
    plain? false indent w r (c :: cs) = plain? false indent (w.add c) (r.right c cs) cs := by
  obtain ⟨hblank, hbreak⟩ := isSpace_eq_false.1 hc
  have hstop : ¬(!w.gap.isNone && stopsPlain false indent r.column (c :: cs)) = true := by
    rcases hstop with h | h <;> simp [h]
  have hstray : ¬isStrayColon false (c :: cs) = true := by simp
  have hends : ¬endsPlain false (c :: cs) = true := by
    by_cases h : c = ':'
    · subst h
      simp [endsPlain, hend rfl]
    · unfold endsPlain
      split <;> simp_all
  rw [plain?, if_neg hbreak, if_neg hblank, if_neg hstop, if_neg hstray, if_neg hends]

/-- Blanks after the end of a line are skipped. -/
theorem plain?_pad (hw : w.gap.isLines) (n : Nat) :
    plain? false indent w r (pad n ++ cs) = plain? false indent w (r.past cs (pad n)) cs := by
  induction n generalizing r with
  | zero => cases cs <;> rfl
  | succ n ih =>
    have hspace : w.addSpace ' ' = w := by
      rw [Words.addSpace_of_isBlank (by decide), Gap.blank_of_isLines hw]
    rw [pad_succ, List.cons_append, plain?_cons_blank, hspace, ih, Rest.past_cons (by decide)]

/-- Within a line there is a gap behind a character iff that is a blank. -/
theorem isNone_put (hw : w.gap.isLines = false) (hc : ¬isBreak c) :
    (!(w.put c).gap.isNone) = isSpace c := by
  by_cases hblank : isBlank c
  · rw [Words.put, if_pos hblank, Words.addSpace_of_isBlank hblank]
    cases hg : w.gap with
    | none | blanks => simp [Gap.blank, Gap.isNone, isSpace, hblank]
    | lines => simp [hg, Gap.isLines] at hw
  · rw [Words.gap_put_of_not_isBlank hblank]
    simp [Gap.isNone, isSpace, hblank, hc]

/-- A plain scalar goes on at its own indentation, unless a comment begins. -/
theorem stopsPlain_eq_false {column : Nat} (hindent : indent ≤ column) (hcolumn : 0 < column)
    (hc : c ≠ '#') : stopsPlain false indent column (c :: cs) = false := by
  have hmark : atDocumentMark column (c :: cs) = false := by
    simp [atDocumentMark, Nat.ne_of_gt hcolumn]
  simp [stopsPlain, hmark, hc, hindent]

/-- A plain scalar takes in the characters of a line. -/
theorem plain?_line (hcs : ∀ c ∈ cs, isPrintable c ∧ ¬isBreak c) (hw : w.gap.isLines = false)
    (hinner : hasInnerIndicator (!w.gap.isNone) cs = false)
    (hindent : indent ≤ r.column + 1)
    (hcolumn : w.gap.isNone ∨ (indent ≤ r.column ∧ 0 < r.column)) :
    plain? false indent w r (cs ++ rest)
      = plain? false indent (cs.foldl Words.put w) (r.past rest cs) rest := by
  induction cs generalizing w r with
  | nil => cases rest <;> rfl
  | cons c cs ih =>
    obtain ⟨⟨hprintable, hbreak⟩, hcs⟩ := List.forall_mem_cons.1 hcs
    simp only [hasInnerIndicator, Bool.or_eq_false_iff] at hinner
    obtain ⟨⟨hcolon, hsharp⟩, hinner⟩ := hinner
    have hstep : plain? false indent w r (c :: (cs ++ rest))
        = plain? false indent (w.put c) (r.right c (cs ++ rest)) (cs ++ rest) := by
      by_cases hblank : isBlank c
      · rw [(isBlank_iff_of_isPrintable hprintable).1 hblank, plain?_cons_blank]
        rfl
      · rw [Words.put, if_neg hblank]
        refine plain?_cons (isSpace_eq_false.2 ⟨hblank, hbreak⟩) ?_ ?_
        · rcases hcolumn with h | h
          · exact .inl h
          · by_cases hnone : w.gap.isNone
            · exact .inl hnone
            · exact .inr (stopsPlain_eq_false h.1 h.2 (by simpa [hnone] using hsharp))
        · rintro rfl
          -- the colon is not the last character, since nothing ends a word
          cases cs with
          | nil => exact absurd hcolon (by decide)
          | cons d cs => simpa [endsWord] using hcolon
    rw [List.cons_append, hstep, List.foldl_cons, Rest.past_cons hbreak]
    have hright : indent ≤ (r.right c (cs ++ rest)).column := hindent
    refine ih hcs (Words.read_put (by simp [hw])).2 ?_ ?_ (.inr ⟨hright, Nat.succ_pos _⟩)
    · rwa [isNone_put hw hbreak]
    · omega

end

section
variable {indent : Int}

/-- The characters of a text that needs no escapes are written as themselves. -/
theorem isPrintable_of_mem (h : needsEscapes cs = false) : ∀ c ∈ cs, isPrintable c := by
  simp only [needsEscapes, Bool.or_eq_false_iff, Bool.not_eq_false', List.all_eq_true] at h
  exact h.1

/-- What is asked of a text that is written without quotes. -/
theorem plainAllowed_iff : plainAllowed cs ↔
    beginsWithIndicator cs = false ∧ hasInnerIndicator false cs = false ∧
    bordersOn (· = ' ') cs = false ∧ (∀ c ∈ cs, ¬isBreak c) ∧ needsEscapes cs = false := by
  simp [plainAllowed, and_assoc]

/-- The last character of a plain text leaves no gap. -/
theorem gap_foldl_put (h : plainAllowed cs) : (cs.foldl Words.put {}).gap = .none := by
  obtain ⟨-, -, hborders, -, hescapes⟩ := plainAllowed_iff.1 h
  rcases List.eq_nil_or_concat cs with rfl | ⟨cs, c, rfl⟩
  · rfl
  · rw [List.concat_eq_append] at hborders hescapes ⊢
    have hc : ¬isBlank c := by
      rw [isBlank_iff_of_isPrintable (isPrintable_of_mem hescapes c (by simp))]
      simp [bordersOn] at hborders
      exact hborders.2
    rw [List.foldl_append, List.foldl_cons, List.foldl_nil, Words.gap_put_of_not_isBlank hc]

/-- What is read of a plain text before its end. -/
theorem plain?_append (h : plainAllowed cs) (hindent : indent ≤ r.column + 1) :
    plain? false indent {} r (cs ++ rest)
      = plain? false indent { text := cs.reverse } (r.past rest cs) rest := by
  obtain ⟨-, hinner, -, hbreak, hescapes⟩ := plainAllowed_iff.1 h
  have hcs : ∀ c ∈ cs, isPrintable c ∧ ¬isBreak c := fun c hc =>
    ⟨isPrintable_of_mem hescapes c hc, hbreak c hc⟩
  have hwords : cs.foldl Words.put {} = { text := cs.reverse } := by
    have hread := (Words.text_eq_of_gap (gap_foldl_put h)).trans (Words.read_foldl_put rfl cs)
    have htext : (cs.foldl Words.put {}).text.reverse = cs := hread
    have hgap := gap_foldl_put h
    generalize cs.foldl Words.put {} = w at htext hgap
    cases w
    simp only at htext hgap
    rw [hgap, ← htext, List.reverse_reverse]
  rw [plain?_line (w := {}) hcs rfl hinner hindent (.inl rfl), hwords]

/-- A plain text before a colon is read back. -/
theorem plain?_text_colon (h : plainAllowed cs) (hindent : indent ≤ r.column + 1)
    (hrest : endsWord rest) :
    plain? false indent {} r (cs ++ ':' :: rest)
      = some (cs, false, r.past (':' :: rest) cs) := by
  rw [plain?_append h hindent]
  have hends : endsPlain false (':' :: rest) = true := by rw [endsPlain, hrest]
  simp [plain?, isBreak, isBlank, hends, Gap.isNone, Words.endPlain, Gap.isLines,
    Rest.with_chars_past]

/-- A plain text is read back, up to the next entry of a container around it. -/
theorem plain?_text {n : Nat} (h : plainAllowed cs) (hindent : indent ≤ r.column + 1)
    (hn : n < indent) (hrest : BeginsEntry rest) :
    plain? false indent {} r (cs ++ '\n' :: (pad n ++ rest))
      = some (cs, true, r.past rest (cs ++ '\n' :: pad n)) := by
  have hbreak : isBreak '\n' = true := by decide
  have hlines : (Gap.lineEnd '\n' .none).isLines := rfl
  rw [plain?_append h hindent, plain?_cons_of_isBreak hbreak,
    Words.addSpace_of_isBreak hbreak, plain?_pad hlines, Rest.past_append, List.cons_append,
    Rest.past_cons_of_break hbreak]
  cases rest with
  | nil =>
    rw [plain?]
    simp [Words.endPlain, Gap.lineEnd, Gap.isLines, past_pad]
  | cons c cs =>
    obtain ⟨hspace, -, -⟩ := hrest
    obtain ⟨hblank, hbreak⟩ := isSpace_eq_false.1 hspace
    have hstops : stopsPlain false indent n (c :: cs) = true := by simp [stopsPlain, hn]
    simp [plain?, hblank, hbreak, past_pad, Rest.down, hstops, Gap.lineEnd, Gap.isNone,
      Words.endPlain, Gap.isLines]

end

/-! ## Single quotes -/

/-- The blanks at the beginning of a line that is not the first one. -/
def freshPad (indent : Nat) (fresh : Bool) : List Char := if fresh then pad indent else []

section
variable {w : Words}

/-- How a character is read. -/
theorem singleQuoted?_eq (w : Words) (r : Rest) (c : Char) (cs : List Char) :
    singleQuoted? w r (c :: cs)
      = if isBreak c then singleQuoted? (w.addSpace c) (r.down cs) cs
        else if isBlank c then singleQuoted? (w.addSpace c) (r.right c cs) cs
        else if atDocumentMark r.column (c :: cs) then none
        else if c = '\'' then
          match cs with
          | '\'' :: cs => singleQuoted? (w.add '\'') ((r.right c cs).right c cs) cs
          | cs => some (w.read, r.right c cs)
        else singleQuoted? (w.add c) (r.right c cs) cs := by
  rw [singleQuoted?.eq_def]
  rfl

/-- At the end of a line a text in single quotes goes on with a gap. -/
theorem singleQuoted?_break (hc : isBreak c) :
    singleQuoted? w r (c :: cs) = singleQuoted? (w.addSpace c) (r.down cs) cs := by
  rw [singleQuoted?_eq, if_pos hc]

/-- At a blank a text in single quotes goes on with a gap. -/
theorem singleQuoted?_blank :
    singleQuoted? w r (' ' :: cs) = singleQuoted? (w.addSpace ' ') (r.right ' ' cs) cs := by
  simp [singleQuoted?_eq, isBreak, isBlank]

/-- The mark of a document stands at the beginning of a line only. -/
theorem atDocumentMark_eq_false (hcolumn : 0 < r.column) : atDocumentMark r.column cs = false := by
  simp [atDocumentMark, Nat.ne_of_gt hcolumn]

/-- A character of a word is added to a text in single quotes. -/
theorem singleQuoted?_cons (hc : isSpace c = false) (hcolumn : 0 < r.column) (hquote : c ≠ '\'') :
    singleQuoted? w r (c :: cs) = singleQuoted? (w.add c) (r.right c cs) cs := by
  obtain ⟨hblank, hbreak⟩ := isSpace_eq_false.1 hc
  simp [singleQuoted?_eq, hbreak, hblank, atDocumentMark_eq_false hcolumn, hquote]

/-- Two quotes in a text in single quotes stand for one. -/
theorem singleQuoted?_quotes (hcolumn : 0 < r.column) :
    singleQuoted? w r ('\'' :: '\'' :: cs)
      = singleQuoted? (w.add '\'') ((r.right '\'' cs).right '\'' cs) cs := by
  rw [singleQuoted?_eq]
  simp [isBreak, isBlank, atDocumentMark_eq_false hcolumn]

/-- One quote ends a text in single quotes, unless another one follows. -/
theorem singleQuoted?_end (hcolumn : 0 < r.column) (hrest : rest.head? ≠ some '\'') :
    singleQuoted? w r ('\'' :: rest) = some (w.read, r.right '\'' rest) := by
  rw [singleQuoted?_eq]
  simp only [isBreak, isBlank, atDocumentMark_eq_false hcolumn]
  cases rest with
  | nil => rfl
  | cons d cs =>
    have hd : d ≠ '\'' := by simpa using hrest
    simp [hd]

/-- The reader is given the characters that are left beside its position. -/
theorem singleQuoted?_past_nil : singleQuoted? w (r.past rest []) cs = singleQuoted? w r cs := by
  cases cs with
  | nil => rfl
  | cons c cs =>
    rw [singleQuoted?_eq, singleQuoted?_eq]
    rfl

/-- The blanks at the beginning of a line are skipped. -/
theorem singleQuoted?_freshPad {indent : Nat} {fresh : Bool} (hw : w.gap.isLines = fresh) :
    singleQuoted? w r (freshPad indent fresh ++ cs)
      = singleQuoted? w (r.past cs (freshPad indent fresh)) cs := by
  cases fresh with
  | false => exact singleQuoted?_past_nil.symm
  | true =>
    have hspace : w.addSpace ' ' = w := by
      rw [Words.addSpace_of_isBlank (by decide), Gap.blank_of_isLines hw]
    rw [freshPad, if_pos rfl]
    induction indent generalizing r with
    | zero => exact singleQuoted?_past_nil.symm
    | succ n ih =>
      rw [pad_succ, List.cons_append, singleQuoted?_blank, hspace, ih, Rest.past_cons (by decide)]

/-- A text in single quotes is closed by a quote, on a line with its indentation. -/
theorem singleQuotedTail_nil (indent : Nat) (fresh : Bool) :
    singleQuotedTail indent fresh [] = freshPad indent fresh ++ ['\''] := rfl

/-- The end of a line is written as itself, and the next line is indented. -/
theorem singleQuotedTail_break (indent : Nat) (fresh : Bool) (hc : isBreak c) :
    singleQuotedTail indent fresh (c :: cs) = c :: singleQuotedTail indent true cs := by
  rw [singleQuotedTail, if_pos hc]

/-- A character of a line in single quotes. -/
def singleQuotedChar (c : Char) : List Char := if c = '\'' then ['\'', '\''] else [c]

/-- No line ends within a character in single quotes. -/
theorem not_isBreak_singleQuotedChar (hc : ¬isBreak c) :
    ∀ d ∈ singleQuotedChar c, ¬isBreak d := by
  rw [singleQuotedChar]
  split
  next => exact forall_mem_of_all rfl
  next => exact List.forall_mem_singleton.2 hc

/-- A character of a line is written in single quotes, behind the indentation if it is the first
one. -/
theorem singleQuotedTail_cons (indent : Nat) (fresh : Bool) (hc : ¬isBreak c) :
    singleQuotedTail indent fresh (c :: cs)
      = freshPad indent fresh ++ (singleQuotedChar c ++ singleQuotedTail indent false cs) := by
  rw [singleQuotedTail, if_neg hc, List.append_assoc]
  rfl

/-- A character of a line in single quotes is read back. -/
theorem singleQuoted?_char (hc : isPrintable c) (hbreak : ¬isBreak c) (hcolumn : 0 < r.column) :
    singleQuoted? w r (singleQuotedChar c ++ rest)
      = singleQuoted? (w.put c) (r.past rest (singleQuotedChar c)) rest := by
  by_cases hblank : isBlank c
  · obtain rfl := (isBlank_iff_of_isPrintable hc).1 hblank
    exact singleQuoted?_blank
  · rw [Words.put, if_neg hblank, singleQuotedChar]
    split
    next h =>
      subst h
      exact singleQuoted?_quotes hcolumn
    next h =>
      rw [Rest.past_cons hbreak, singleQuoted?_past_nil]
      exact singleQuoted?_cons (isSpace_eq_false.2 ⟨hblank, hbreak⟩) hcolumn h

end

/-- Where no character of one kind stands before one of another, the first one does not, nor do the
others. -/
theorem hasPair_cons {p q : Char → Bool} (h : hasPair p q (c :: cs) = false) :
    (p c → ∀ d ∈ cs.head?, ¬q d) ∧ hasPair p q cs = false := by
  cases cs with
  | nil => exact ⟨fun _ _ => nofun, rfl⟩
  | cons d cs =>
    simp only [hasPair, Bool.or_eq_false_iff] at h
    refine ⟨fun hp e he => ?_, h.2⟩
    cases he
    simpa [hp] using h.1

/-- A character of a line in single quotes does not stand at its beginning. -/
theorem column_freshPad {indent : Nat} (hindent : 0 < indent) {fresh : Bool}
    (hcolumn : fresh = false → 0 < r.column) :
    0 < (r.past rest (freshPad indent fresh)).column := by
  cases fresh with
  | false => exact hcolumn rfl
  | true =>
    rw [freshPad, if_pos rfl, past_pad]
    exact Nat.lt_of_lt_of_le hindent (Nat.le_add_left _ _)

/-- What is left of a text in single quotes is read back, with what was read before. The line and
the paragraph separator are no line feeds, so they are kept. -/
theorem singleQuoted?_tail {indent : Nat} (hindent : 0 < indent)
    (hrest : rest.head? ≠ some '\'') {fresh : Bool} {w : Words}
    (hcs : ∀ c ∈ cs, isPrintable c ∧ c ≠ '\n')
    (hends : hasPair (· = ' ') isBreak cs = false) (hbegins : hasPair isBreak (· = ' ') cs = false)
    (hw : w.gap.Faithful) (hfresh : w.gap.isLines = fresh)
    (hblanks : w.gap.isBlanks → ∀ c ∈ cs.head?, ¬isBreak c)
    (hlines : fresh = true → ∀ c ∈ cs.head?, c ≠ ' ') (hcolumn : fresh = false → 0 < r.column) :
    singleQuoted? w r (singleQuotedTail indent fresh cs ++ rest)
      = some (w.read ++ cs, r.past rest (singleQuotedTail indent fresh cs)) := by
  induction cs generalizing w r fresh with
  | nil =>
    rw [singleQuotedTail_nil, List.append_assoc, singleQuoted?_freshPad hfresh, List.append_nil,
      Rest.past_append]
    exact singleQuoted?_end (column_freshPad hindent hcolumn) hrest
  | cons c cs ih =>
    obtain ⟨⟨hprintable, hfeed⟩, hcs⟩ := List.forall_mem_cons.1 hcs
    obtain ⟨hend, hends⟩ := hasPair_cons hends
    obtain ⟨hbegin, hbegins⟩ := hasPair_cons hbegins
    by_cases hbreak : isBreak c
    · have hgap : w.gap.isBlanks = false := Bool.eq_false_iff.2 fun h => hblanks h c rfl hbreak
      obtain ⟨hfold, hfaithful⟩ := Gap.fold_lineEnd hw hgap hfeed
      have hspace := Words.addSpace_of_isBreak (w := w) hbreak
      have hread : (w.addSpace c).read = w.read ++ [c] := by simp [hspace, Words.read, hfold]
      have hlines : (w.addSpace c).gap.isLines = true := by rw [hspace, Gap.isLines_lineEnd]
      rw [singleQuotedTail_break _ _ hbreak, List.cons_append, singleQuoted?_break hbreak,
        Rest.past_cons_of_break hbreak, ih hcs hends hbegins, hread, List.append_assoc]
      · rfl
      · rwa [hspace]
      · exact hlines
      · intro h
        cases hg : (w.addSpace c).gap with
        | none | blanks => simp [hg, Gap.isLines] at hlines
        | lines => simp [hg, Gap.isBlanks] at h
      · exact fun _ d hd => by simpa using hbegin hbreak d hd
      · exact nofun
    · have hput : w.gap.isLines → ¬isBlank c := by
        rw [hfresh, isBlank_iff_of_isPrintable hprintable]
        exact fun h => hlines h c rfl
      obtain ⟨hread, hlast⟩ := Words.read_put hput
      obtain ⟨hfaithful, hblank⟩ := Words.gap_put hput
      rw [singleQuotedTail_cons _ _ hbreak, List.append_assoc, List.append_assoc,
        singleQuoted?_freshPad hfresh,
        singleQuoted?_char hprintable hbreak (column_freshPad hindent hcolumn),
        Rest.past_append, Rest.past_append, ih hcs hends hbegins hfaithful hlast, hread,
        List.append_assoc, List.append_assoc]
      · rfl
      · exact fun h d hd => hend
          (by simpa using (isBlank_iff_of_isPrintable hprintable).1 (hblank h)) d hd
      · exact nofun
      · intro _
        rw [Rest.past_of_line _ _ (not_isBreak_singleQuotedChar hbreak)]
        exact Nat.lt_of_lt_of_le (column_freshPad hindent hcolumn) (Nat.le_add_right _ _)

/-- What is asked of a text that is written in single quotes. -/
theorem singleQuotesAllowed_iff : singleQuotesAllowed cs ↔
    needsEscapes cs = false ∧ hasPair isBreak (· = ' ') cs = false := by
  simp [singleQuotesAllowed]

/-- A text in single quotes is read back. -/
theorem singleQuoted?_text {indent : Nat} (hindent : 0 < indent) (h : singleQuotesAllowed cs)
    (hfeed : '\n' ∉ cs) (hcolumn : 0 < r.column) (hrest : rest.head? ≠ some '\'') :
    singleQuoted? {} r (singleQuotedTail indent false cs ++ rest)
      = some (cs, r.past rest (singleQuotedTail indent false cs)) := by
  obtain ⟨hescapes, hbegins⟩ := singleQuotesAllowed_iff.1 h
  have hcs : ∀ c ∈ cs, isPrintable c ∧ c ≠ '\n' := fun c hc =>
    ⟨isPrintable_of_mem hescapes c hc, fun h => hfeed (h ▸ hc)⟩
  simp only [needsEscapes, Bool.or_eq_false_iff] at hescapes
  exact singleQuoted?_tail (w := {}) hindent hrest hcs hescapes.2 hbegins trivial rfl nofun nofun
    fun _ => hcolumn

/-! ## Double quotes -/

section
variable {w : Words}

/-- The reader of double quotes is given the characters that are left beside its position. -/
theorem doubleQuoted?_past_nil {state : EscapeState} :
    doubleQuoted? w state (r.past rest []) cs = doubleQuoted? w state r cs := by
  cases cs <;> rfl

/-- How a character is read outside of escapes. -/
theorem doubleQuoted?_outside (w : Words) (r : Rest) (c : Char) (cs : List Char) :
    doubleQuoted? w .text r (c :: cs)
      = if isBreak c then doubleQuoted? (w.addSpace c) .text (r.down cs) cs
        else if isBlank c then doubleQuoted? (w.addSpace c) .text (r.right c cs) cs
        else if atDocumentMark r.column (c :: cs) then none
        else if c = '"' then some (w.read, r.right c cs)
        else if c = '\\' then doubleQuoted? w .backslash (r.right c cs) cs
        else doubleQuoted? (w.add c) .text (r.right c cs) cs := rfl

/-- At a blank a text in double quotes goes on with a gap. -/
theorem doubleQuoted?_blank :
    doubleQuoted? w .text r (' ' :: cs)
      = doubleQuoted? (w.addSpace ' ') .text (r.right ' ' cs) cs := by
  simp [doubleQuoted?_outside, isBreak, isBlank]

/-- A character of a word is added to a text in double quotes. -/
theorem doubleQuoted?_cons (hc : isSpace c = false) (hcolumn : 0 < r.column) (hquote : c ≠ '"')
    (hbackslash : c ≠ '\\') :
    doubleQuoted? w .text r (c :: cs) = doubleQuoted? (w.add c) .text (r.right c cs) cs := by
  obtain ⟨hblank, hbreak⟩ := isSpace_eq_false.1 hc
  simp [doubleQuoted?_outside, hbreak, hblank, atDocumentMark_eq_false hcolumn, hquote,
    hbackslash]

/-- A quote ends a text in double quotes. -/
theorem doubleQuoted?_end (hcolumn : 0 < r.column) :
    doubleQuoted? w .text r ('"' :: rest) = some (w.read, r.right '"' rest) := by
  simp [doubleQuoted?_outside, isBreak, isBlank, atDocumentMark_eq_false hcolumn]

/-- A backslash in double quotes begins an escape. -/
theorem doubleQuoted?_backslash (hcolumn : 0 < r.column) :
    doubleQuoted? w .text r ('\\' :: cs) = doubleQuoted? w .backslash (r.right '\\' cs) cs := by
  simp [doubleQuoted?_outside, isBreak, isBlank, atDocumentMark_eq_false hcolumn]

/-- How the character behind a backslash is read, if no line ends there. -/
theorem doubleQuoted?_behind {d : Char} (hbreak : ¬isBreak d) :
    doubleQuoted? w .backslash r (d :: cs)
      = match escapeLength? d with
        | some n => doubleQuoted? w (.digits n 0) (r.right d cs) cs
        | none =>
          match escaped? d with
          | some e => doubleQuoted? (w.add e) .text (r.right d cs) cs
          | none => none :=
  if_neg hbreak

/-- An escape of one letter. -/
theorem doubleQuoted?_letter {d : Char} (hcolumn : 0 < r.column) (hbreak : ¬isBreak d)
    (hlength : escapeLength? d = none) (hd : escaped? d = some c) :
    doubleQuoted? w .text r ('\\' :: d :: rest)
      = doubleQuoted? (w.add c) .text (r.past rest ['\\', d]) rest := by
  rw [doubleQuoted?_backslash hcolumn, doubleQuoted?_behind hbreak, Rest.past_cons (by decide),
    Rest.past_cons hbreak, hlength, hd]
  rfl

/-- A mark behind a backslash says how many digits follow. -/
theorem doubleQuoted?_mark {d : Char} {n : Nat} (hbreak : ¬isBreak d)
    (hlength : escapeLength? d = some n) :
    doubleQuoted? w .backslash r (d :: cs) = doubleQuoted? w (.digits n 0) (r.right d cs) cs := by
  rw [doubleQuoted?_behind hbreak, hlength]

/-- How a digit of an escape is read. -/
theorem doubleQuoted?_inside (w : Words) (r : Rest) (left value : Nat) (d : Char)
    (cs : List Char) :
    doubleQuoted? w (.digits left value) r (d :: cs)
      = match hexDigit? d with
        | none => none
        | some n =>
          if left ≤ 1 then
            match charOfCode? (16 * value + n) with
            | some e => doubleQuoted? (w.add e) .text (r.right d cs) cs
            | none => none
          else doubleQuoted? w (.digits (left - 1) (16 * value + n)) (r.right d cs) cs := rfl

/-- A digit that is not the last one adds to the code. -/
theorem doubleQuoted?_digit {d : Char} {left value n : Nat} (hd : hexDigit? d = some n)
    (hleft : 0 < left) :
    doubleQuoted? w (.digits (left + 1) value) r (d :: cs)
      = doubleQuoted? w (.digits left (16 * value + n)) (r.right d cs) cs := by
  have hmore : ¬left + 1 ≤ 1 := by omega
  simp only [doubleQuoted?_inside, hd, if_neg hmore, Nat.add_sub_cancel]

/-- The last digit completes the code of a character. -/
theorem doubleQuoted?_lastDigit {d : Char} {value n : Nat} (hd : hexDigit? d = some n)
    (hc : charOfCode? (16 * value + n) = some c) :
    doubleQuoted? w (.digits 1 value) r (d :: cs)
      = doubleQuoted? (w.add c) .text (r.right d cs) cs := by
  simp only [doubleQuoted?_inside, hd, hc, if_pos (Nat.le_refl 1)]

/-- A character of one byte that can be seen. -/
def IsVisible (c : Char) : Prop := 0x20 < c.toNat ∧ c.toNat < 0x7f

/-- Whether a character can be seen is decided by its code. -/
instance : DecidablePred IsVisible := fun _ => inferInstanceAs (Decidable (_ ∧ _))

/-- A character that can be seen does not end a line. -/
theorem IsVisible.not_isBreak (h : IsVisible c) : ¬isBreak c := by
  intro hc
  simp only [isBreak, Bool.or_eq_true, decide_eq_true_eq] at hc
  rcases hc with (((rfl | rfl) | rfl) | rfl) | rfl <;> exact absurd h (by decide)

/-- Hexadecimal digits can be seen. -/
theorem isVisible_hexChar : ∀ n < 16, IsVisible (hexChar n) := by decide

/-- A hexadecimal digit is read as its value. -/
theorem hexDigit?_hexChar : ∀ n < 16, hexDigit? (hexChar n) = some n := by decide

/-- No hexadecimal digit ends a line. -/
theorem not_isBreak_hexChar (n : Nat) (hn : n < 16) : ¬isBreak (hexChar n) :=
  (isVisible_hexChar n hn).not_isBreak

/-- The digits of an escape, up to the last one, are read back. -/
theorem doubleQuoted?_hexDigits (width left value n : Nat) (hleft : 0 < left)
    (hn : n < 16 ^ width) :
    doubleQuoted? w (.digits (width + left) value) r (hexDigits width n ++ rest)
      = doubleQuoted? w (.digits left (16 ^ width * value + n)) (r.past rest (hexDigits width n))
        rest := by
  induction width generalizing left n rest with
  | zero =>
    obtain rfl : n = 0 := by simpa using hn
    rw [hexDigits, doubleQuoted?_past_nil, Nat.zero_add, Nat.pow_zero, Nat.one_mul]
    rfl
  | succ width ih =>
    have hdiv : n / 16 < 16 ^ width := by
      rw [Nat.pow_succ] at hn
      exact Nat.div_lt_of_lt_mul (by rwa [Nat.mul_comm])
    have hmod : n % 16 < 16 := Nat.mod_lt n (by decide)
    rw [hexDigits, List.append_assoc, show width + 1 + left = width + (left + 1) by omega,
      ih (left + 1) (n / 16) (Nat.succ_pos _) hdiv, Rest.past_append, List.singleton_append,
      Rest.past_cons (not_isBreak_hexChar _ hmod), doubleQuoted?_past_nil,
      doubleQuoted?_digit (hexDigit?_hexChar _ hmod) hleft, List.nil_append]
    congr 2
    rw [Nat.pow_succ]
    have := Nat.div_add_mod n 16
    have : 16 * (16 ^ width * value) = 16 ^ width * 16 * value := by
      rw [Nat.mul_comm (16 ^ width) 16, Nat.mul_assoc]
    omega

/-- The codes of characters are bounded. -/
theorem toNat_lt (c : Char) : c.toNat < 0x110000 := by
  rcases c.valid with h | ⟨-, h⟩
  · exact Nat.lt_trans h (by decide)
  · exact h

/-- A character is found by its code. -/
theorem charOfCode?_toNat (c : Char) : charOfCode? c.toNat = some c := by
  have hvalid : c.toNat < 0xd800 ∨ (0xdfff < c.toNat ∧ c.toNat ≤ 0x10ffff) := by
    rcases c.valid with h | ⟨h, h'⟩
    · exact .inl h
    · exact .inr ⟨h, Nat.le_of_lt_succ h'⟩
  rw [charOfCode?, if_pos hvalid, Char.ofNat_toNat]

/-- An escape with the digits of the code of a character. -/
theorem doubleQuoted?_code {d : Char} {width : Nat} (hcolumn : 0 < r.column) (hbreak : ¬isBreak d)
    (hlength : escapeLength? d = some (width + 1)) (hc : c.toNat < 16 ^ (width + 1)) :
    doubleQuoted? w .text r ('\\' :: d :: hexDigits (width + 1) c.toNat ++ rest)
      = doubleQuoted? (w.add c) .text
        (r.past rest ('\\' :: d :: hexDigits (width + 1) c.toNat)) rest := by
  have hdiv : c.toNat / 16 < 16 ^ width := by
    rw [Nat.pow_succ] at hc
    exact Nat.div_lt_of_lt_mul (by rwa [Nat.mul_comm])
  have hmod : c.toNat % 16 < 16 := Nat.mod_lt _ (by decide)
  have hvalue : 16 * (16 ^ width * 0 + c.toNat / 16) + c.toNat % 16 = c.toNat := by omega
  rw [List.cons_append, doubleQuoted?_backslash hcolumn, List.cons_append,
    doubleQuoted?_mark hbreak hlength, hexDigits, List.append_assoc,
    doubleQuoted?_hexDigits width 1 0 _ (by decide) hdiv, List.singleton_append,
    doubleQuoted?_lastDigit (hexDigit?_hexChar _ hmod) (by rw [hvalue, charOfCode?_toNat]),
    Rest.past_cons (by decide), Rest.past_cons hbreak, Rest.past_append,
    Rest.past_cons (not_isBreak_hexChar _ hmod), doubleQuoted?_past_nil]
  simp only [List.cons_append, List.append_assoc, List.nil_append]

/-- An escaped character is read back. -/
theorem doubleQuoted?_escape (hcolumn : 0 < r.column) :
    doubleQuoted? w .text r (escape c ++ rest)
      = doubleQuoted? (w.add c) .text (r.past rest (escape c)) rest := by
  unfold escape
  split
  case h_15 =>
    have hmax : c.toNat < 16 ^ 8 := Nat.lt_trans (toNat_lt c) (by decide)
    dsimp only
    split
    next h => exact doubleQuoted?_code hcolumn (by decide) rfl (Nat.lt_succ_of_le h)
    next =>
      split
      next h => exact doubleQuoted?_code hcolumn (by decide) rfl (Nat.lt_succ_of_le h)
      next => exact doubleQuoted?_code hcolumn (by decide) rfl hmax
  all_goals exact doubleQuoted?_letter hcolumn (by decide) rfl rfl

/-- A character in double quotes is read back. -/
theorem doubleQuoted?_char (c : Char) (rest : List Char) (hw : w.gap.isLines = false)
    (hcolumn : 0 < r.column) :
    ∃ w' : Words, w'.read = w.read ++ [c] ∧ w'.gap.isLines = false ∧
      doubleQuoted? w .text r (doubleQuotedChar c ++ rest)
        = doubleQuoted? w' .text (r.past rest (doubleQuotedChar c)) rest := by
  rw [doubleQuotedChar]
  split
  next => exact ⟨w.add c, Words.read_add, rfl, doubleQuoted?_escape hcolumn⟩
  next h =>
    simp only [Bool.or_eq_true, Bool.not_eq_true', decide_eq_true_eq, not_or, Bool.not_eq_false]
      at h
    obtain ⟨⟨⟨hprintable, hbreak⟩, hquote⟩, hbackslash⟩ := h
    refine ⟨w.put c, (Words.read_put (by simp [hw])).1, (Words.read_put (by simp [hw])).2, ?_⟩
    rw [Rest.past_cons hbreak, doubleQuoted?_past_nil]
    by_cases hblank : isBlank c
    · obtain rfl := (isBlank_iff_of_isPrintable hprintable).1 hblank
      exact doubleQuoted?_blank
    · rw [Words.put, if_neg hblank]
      exact doubleQuoted?_cons (isSpace_eq_false.2 ⟨hblank, hbreak⟩) hcolumn hquote hbackslash

/-- A code is written with hexadecimal digits. -/
theorem exists_of_mem_hexDigits {d : Char} {width n : Nat} (hd : d ∈ hexDigits width n) :
    ∃ m < 16, d = hexChar m := by
  induction width generalizing n with
  | zero => cases hd
  | succ width ih =>
    rcases List.mem_append.1 hd with hd | hd
    · exact ih hd
    · exact ⟨n % 16, Nat.mod_lt n (by decide), List.mem_singleton.1 hd⟩

/-- The escape of a character by its code consists of characters that can be seen. -/
theorem isVisible_code {mark : Char} (hmark : IsVisible mark) (width n : Nat) :
    ∀ d ∈ '\\' :: mark :: hexDigits width n, IsVisible d := by
  refine List.forall_mem_cons.2 ⟨by decide, List.forall_mem_cons.2 ⟨hmark, fun d hd => ?_⟩⟩
  obtain ⟨m, hm, rfl⟩ := exists_of_mem_hexDigits hd
  exact isVisible_hexChar m hm

/-- An escape is written with the visible characters of one byte. -/
theorem isVisible_escape (c : Char) : ∀ d ∈ escape c, IsVisible d := by
  unfold escape
  split
  case h_15 =>
    dsimp only
    split
    next => exact isVisible_code (by decide) _ _
    next => split <;> exact isVisible_code (by decide) _ _
  all_goals exact forall_mem_of_all rfl

/-- No line ends within a text in double quotes. -/
theorem not_isBreak_doubleQuotedChar : ∀ d ∈ doubleQuotedChar c, ¬isBreak d := by
  intro d hd
  rw [doubleQuotedChar] at hd
  split at hd
  next => exact (isVisible_escape c d hd).not_isBreak
  next h =>
    obtain rfl := List.mem_singleton.1 hd
    simp only [Bool.or_eq_true, not_or] at h
    exact h.1.1.2

/-- What is left of a text in double quotes is read back, with what was read before. -/
theorem doubleQuoted?_text (cs rest : List Char) (hw : w.gap.isLines = false)
    (hcolumn : 0 < r.column) :
    doubleQuoted? w .text r (cs.flatMap doubleQuotedChar ++ '"' :: rest)
      = some (w.read ++ cs, r.past rest (cs.flatMap doubleQuotedChar ++ ['"'])) := by
  induction cs generalizing w r with
  | nil =>
    rw [List.flatMap_nil, List.nil_append, doubleQuoted?_end hcolumn, List.append_nil]
    rfl
  | cons c cs ih =>
    obtain ⟨w', hread, hlines, hstep⟩ := doubleQuoted?_char c (r := r)
      (cs.flatMap doubleQuotedChar ++ '"' :: rest) hw hcolumn
    rw [List.flatMap_cons, List.append_assoc, hstep, ih hlines, hread, List.append_assoc]
    · simp only [List.append_assoc, List.singleton_append, Rest.past_append]
    · rw [Rest.past_of_line _ _ not_isBreak_doubleQuotedChar]
      exact Nat.lt_of_lt_of_le hcolumn (Nat.le_add_right _ _)

end

end Yaml

end RpcOpenApi
