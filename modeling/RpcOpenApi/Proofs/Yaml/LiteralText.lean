import RpcOpenApi.Proofs.Yaml.ScalarText

/-!
# What is written as a literal block is read back

A text of several lines is written line by line, behind an indentation that is told in the header if
the text itself begins with a blank or an empty line. The reader of the lines keeps the ends of
lines that it may have to drop apart from the text before them; together they are what has been
written so far (`BlockLines.Reads`), and what the header says about the end of the text is what has
to be kept of them (`BlockLines.Reads.finish`).
-/

namespace RpcOpenApi

namespace Yaml

variable {c : Char} {cs rest : List Char} {r : Rest}

/-! ## What has been read -/

/-- A text with the end of its last line. `fresh` says whether the last character before it ended a
line. -/
def terminated (fresh : Bool) : List Char → List Char
  | [] => if fresh then [] else ['\n']
  | c :: cs => c :: terminated (isBreak c) cs

/-- A line feed is added to a text unless its last character ends a line. -/
theorem terminated_append (fresh : Bool) (cs : List Char) (c : Char) :
    terminated fresh (cs ++ [c]) = cs ++ [c] ++ (if isBreak c then [] else ['\n']) := by
  induction cs generalizing fresh with
  | nil => rfl
  | cons d cs ih => rw [List.cons_append, terminated, ih]; rfl

/-- The lines that have been read, with what is kept apart of them, are a text in reverse. -/
structure BlockLines.Reads (b : BlockLines) (done : List Char) : Prop where
  text : b.more ++ b.lineEnd.toList ++ b.text = done
  inLine : b.inLine = done.head?.any (fun c => !isBreak c)
  bare : b.inLine = true → b.more = [] ∧ b.lineEnd = none
  single : ∀ c d before, done = c :: d :: before → isBreak c → ¬isBreak d →
    b.more = [] ∧ b.lineEnd = some c

namespace BlockLines.Reads

variable {b : BlockLines} {done : List Char}

/-- At the beginning nothing has been read. -/
theorem start (indent : Option Nat) : Reads { indent } [] :=
  ⟨rfl, rfl, nofun, nofun⟩

/-- What has been read does not depend on the indentation that has been seen. -/
theorem widen (h : b.Reads done) (widest : Nat) (indent : Option Nat) :
    ({ b with widest, indent } : BlockLines).Reads done :=
  ⟨h.text, h.inLine, h.bare, h.single⟩

/-- A character within a line. -/
theorem char (h : b.Reads done) (hline : b.inLine = true) (hc : ¬isBreak c) :
    ({ b with text := c :: b.text } : BlockLines).Reads (c :: done) := by
  obtain ⟨hmore, hend⟩ := h.bare hline
  refine ⟨?_, ?_, h.bare, ?_⟩
  · simp [← h.text, hmore, hend]
  · simp [hline, hc]
  · rintro c' d before ⟨⟩ hbreak
    exact absurd hbreak hc

/-- The first character of a line. -/
theorem beginLine (h : b.Reads done) (hc : ¬isBreak c) :
    (b.beginLine true c).Reads (c :: done) := by
  refine ⟨?_, ?_, fun _ => ⟨rfl, rfl⟩, ?_⟩
  · simp [← h.text, BlockLines.beginLine, BlockLines.joined]
  · simp [BlockLines.beginLine, hc]
  · rintro c' d before ⟨⟩ hbreak
    exact absurd hbreak hc

/-- The end of a line. -/
theorem lineEnd (h : b.Reads done) (hline : b.inLine = true) (hc : isBreak c) :
    ({ b with lineEnd := some c, inLine := false } : BlockLines).Reads (c :: done) := by
  obtain ⟨hmore, hend⟩ := h.bare hline
  refine ⟨?_, ?_, nofun, ?_⟩
  · simp [← h.text, hmore, hend]
  · simp [hc]
  · rintro c' d before ⟨⟩ - -
    exact ⟨hmore, rfl⟩

/-- The end of an empty line. -/
theorem emptyLine (h : b.Reads done) (hline : b.inLine = false) (hc : isBreak c) :
    ({ b with more := c :: b.more } : BlockLines).Reads (c :: done) := by
  refine ⟨?_, ?_, fun hline' => ?_, ?_⟩
  · simp [← h.text]
  · simp [hline, hc]
  · simp [hline] at hline'
  · rintro c' d before ⟨⟩ - hd
    have hinLine := h.inLine
    simp [hline] at hinLine
    exact absurd hinLine hd

end BlockLines.Reads

/-- What the header of a literal block says about the end of the text. -/
def writtenChomping (cs : List Char) : Chomping :=
  ((chompingMark cs).head?.bind chomping?).getD .clip

/-- A text whose last line has no end is written without one. -/
theorem writtenChomping_of_line (cs : List Char) (hc : ¬isBreak c) :
    writtenChomping (cs ++ [c]) = .strip := by
  rw [writtenChomping, chompingMark, List.reverse_concat]
  cases cs.reverse with
  | nil => simp [hc, chomping?]
  | cons d before => simp [hc, chomping?]

/-- Of the line ends at the end of a text one is kept, or all of them if there are more. -/
theorem writtenChomping_of_break (cs : List Char) (hc : isBreak c) :
    writtenChomping (cs ++ [c])
      = if cs.getLast?.any (fun d => !isBreak d) then .clip else .keep := by
  rw [writtenChomping, chompingMark, List.reverse_concat, List.getLast?_eq_head?_reverse]
  cases cs.reverse with
  | nil => simp [hc, chomping?]
  | cons d before => by_cases hd : isBreak d <;> simp [hc, hd, chomping?]

/-- What is kept of the end of the text is what the header asks for. -/
theorem BlockLines.Reads.finish {b : BlockLines} (h : b.Reads (terminated true cs).reverse)
    (hne : cs ≠ []) : b.finish (writtenChomping cs) = cs := by
  obtain ⟨cs, c, rfl⟩ := (List.eq_nil_or_concat cs).resolve_left hne
  rw [List.concat_eq_append] at h ⊢
  rw [terminated_append] at h
  by_cases hc : isBreak c
  · rw [if_pos hc, List.append_nil, List.reverse_concat] at h
    rw [writtenChomping_of_break cs hc]
    split
    next hd =>
      -- the end of the last line is kept, and no empty line follows it
      rw [List.getLast?_eq_head?_reverse, Option.any_eq_true] at hd
      obtain ⟨d, hd, hbreak⟩ := hd
      obtain ⟨before, hbefore⟩ := List.head?_eq_some_iff.1 hd
      obtain ⟨hmore, hend⟩ := h.single c d before (by rw [hbefore]) hc (by simpa using hbreak)
      have htext := h.text
      rw [hmore, List.nil_append] at htext
      rw [BlockLines.finish, htext, List.reverse_cons, List.reverse_reverse]
    next => rw [BlockLines.finish, h.text, List.reverse_cons, List.reverse_reverse]
  · rw [if_neg hc, List.reverse_append, List.reverse_concat] at h
    obtain ⟨hmore, hend⟩ := h.single '\n' c cs.reverse rfl (by decide) hc
    have htext := h.text
    rw [hmore, hend] at htext
    have htext : b.text = c :: cs.reverse := List.tail_eq_of_cons_eq htext
    rw [writtenChomping_of_line cs hc, BlockLines.finish, htext, List.reverse_cons,
      List.reverse_reverse]

/-! ## The lines -/

section
variable {b : BlockLines} {chomping : Chomping} {least n : Nat}

/-- The reader of lines is given the characters that are left beside its position. -/
theorem blockLines?_past_nil :
    blockLines? true chomping least b (r.past rest []) cs
      = blockLines? true chomping least b r cs := by
  cases cs <;> rfl

/-- A character within a line. -/
theorem blockLines?_char (hline : b.inLine = true) (hc : ¬isBreak c) :
    blockLines? true chomping least b r (c :: cs)
      = blockLines? true chomping least { b with text := c :: b.text } (r.right c cs) cs := by
  exact (if_pos hline).trans (if_neg hc)

/-- The end of a line. -/
theorem blockLines?_lineEnd (hline : b.inLine = true) (hc : isBreak c) :
    blockLines? true chomping least b r (c :: cs)
      = blockLines? true chomping least { b with lineEnd := some c, inLine := false }
        (r.down cs) cs := by
  exact (if_pos hline).trans (if_pos hc)

/-- The end of an empty line. -/
theorem blockLines?_emptyLine (hline : b.inLine = false) (hc : isBreak c) :
    blockLines? true chomping least b r (c :: cs)
      = blockLines? true chomping least { b with more := c :: b.more } (r.down cs) cs := by
  have hspace : c ≠ ' ' := by rintro rfl; exact absurd hc (by decide)
  have htab : c ≠ '\t' := by rintro rfl; exact absurd hc (by decide)
  simp [blockLines?, hline, hspace, htab, hc]

/-- A blank before a line, within its indentation. -/
theorem blockLines?_blank (hline : b.inLine = false) (hindent : ∀ m ∈ b.indent, r.column < m) :
    blockLines? true chomping least b r (' ' :: cs)
      = blockLines? true chomping least { b with widest := max b.widest (r.column + 1) }
        (r.right ' ' cs) cs := by
  cases b with
  | mk text lineEnd more leadingBlank inLine indent widest =>
    cases indent with
    | none => simp_all [blockLines?]
    | some m => simp_all [blockLines?]

/-- The blanks that indent a line are skipped. -/
theorem blockLines?_pad (hline : b.inLine = false) (k : Nat) (hwidest : r.column ≤ b.widest)
    (hindent : ∀ m ∈ b.indent, r.column + k ≤ m) :
    blockLines? true chomping least b r (pad k ++ cs)
      = blockLines? true chomping least { b with widest := max b.widest (r.column + k) }
        (r.past cs (pad k)) cs := by
  induction k generalizing b r with
  | zero =>
    rw [Nat.add_zero, Nat.max_eq_left hwidest]
    exact blockLines?_past_nil.symm
  | succ k ih =>
    rw [pad_succ, List.cons_append, blockLines?_blank hline, ih (by exact hline),
      Rest.past_cons (by decide)]
    · congr 2
      simp only [Rest.right]
      omega
    · exact Nat.le_max_right _ _
    · intro m hm
      have := hindent m hm
      simp only [Rest.right]
      omega
    · intro m hm
      have := hindent m hm
      omega

/-- The indentation is known, or it will be seen from the first line. -/
def BlockLines.Indented (b : BlockLines) (least n : Nat) : Prop :=
  b.indent = some n ∨ (b.indent = none ∧ b.inLine = false ∧ max b.widest least ≤ n)

/-- A line begins behind its indentation. If that is to be seen from the line, the line does not
begin with a blank. -/
theorem blockLines?_begin (chomping : Chomping) (cs : List Char) (hline : b.inLine = false)
    (hindent : b.Indented least n) (hc : isPrintable c) (hbreak : ¬isBreak c)
    (hblank : b.indent = none → c ≠ ' ') (hcolumn : r.column = 0) :
    ∃ widest, blockLines? true chomping least b r (pad n ++ c :: cs)
      = blockLines? true chomping least ({ b with widest, indent := some n }.beginLine true c)
        (r.past cs (pad n ++ [c])) cs := by
  have htab : c ≠ '\t' := by rintro rfl; exact absurd hc (by decide)
  refine ⟨max b.widest n, ?_⟩
  rw [blockLines?_pad hline n (by omega), past_pad, hcolumn, Nat.zero_add, Rest.past_append,
    past_pad, Rest.past_cons hbreak, blockLines?_past_nil, hcolumn, Nat.zero_add]
  · cases b with
    | mk text lineEnd more leadingBlank inLine indent widest =>
      rcases hindent with hindent | ⟨hindent, -, hwidest⟩
      · simp only at hindent hline
        subst hindent hline
        simp [blockLines?, htab, hbreak]
      · simp only at hindent hline hwidest
        subst hindent hline
        have hmax : max (max widest n) least = n := by omega
        simp [blockLines?, htab, hbreak, hblank rfl, hmax]
  · intro m hm
    rcases hindent with hindent | ⟨hindent, -, -⟩
    · rw [hindent] at hm
      cases hm
      omega
    · rw [hindent] at hm
      cases hm

/-- A character of a text in a literal block. -/
def literalChar (n : Nat) (fresh : Bool) (c : Char) : List Char :=
  if isBreak c then [c] else freshPad n fresh ++ [c]

/-- The lines of a literal text are written character by character. -/
theorem literalLines_cons (n : Nat) (fresh : Bool) (c : Char) (cs : List Char) :
    literalLines n fresh (c :: cs) = literalChar n fresh c ++ literalLines n (isBreak c) cs := by
  rw [literalLines, literalChar]
  split
  next h => rw [h]; rfl
  next h => rw [Bool.eq_false_iff.2 h, List.append_assoc]; rfl

/-- A character of a text is read back. -/
theorem blockLines?_literalChar (chomping : Chomping) (cs : List Char) {done : List Char}
    (hb : b.Reads done)
    (hindent : b.Indented least n) (hc : isPrintable c)
    (hfirst : b.indent = none → c ≠ ' ' ∧ ¬isBreak c) (hcolumn : b.inLine = false → r.column = 0) :
    ∃ b' : BlockLines, b'.Reads (c :: done) ∧ b'.indent = some n ∧ b'.inLine = !isBreak c ∧
      (b'.inLine = false → (r.past cs (literalChar n (!b.inLine) c)).column = 0) ∧
      blockLines? true chomping least b r (literalChar n (!b.inLine) c ++ cs)
        = blockLines? true chomping least b' (r.past cs (literalChar n (!b.inLine) c)) cs := by
  by_cases hbreak : isBreak c
  · have hindent : b.indent = some n := by
      rcases hindent with h | ⟨h, -⟩
      · exact h
      · exact absurd hbreak (hfirst h).2
    rw [literalChar, if_pos hbreak, hbreak, Rest.past_cons_of_break hbreak]
    cases hline : b.inLine with
    | true => exact ⟨_, hb.lineEnd hline hbreak, hindent, rfl, fun _ => rfl,
        blockLines?_lineEnd hline hbreak⟩
    | false => exact ⟨_, hb.emptyLine hline hbreak, hindent, hline, fun _ => rfl,
        blockLines?_emptyLine hline hbreak⟩
  · rw [literalChar, if_neg hbreak, Bool.eq_false_iff.2 hbreak, List.append_assoc]
    cases hline : b.inLine with
    | true =>
      have hindent : b.indent = some n := by
        rcases hindent with h | ⟨-, h, -⟩
        · exact h
        · simp [hline] at h
      refine ⟨_, hb.char hline hbreak, hindent, hline, ?_, ?_⟩
      · simp [hline]
      · rw [Bool.not_true, freshPad, if_neg (by decide), List.nil_append, List.nil_append,
          Rest.past_cons hbreak, blockLines?_past_nil]
        exact blockLines?_char hline hbreak
    | false =>
      obtain ⟨widest, hbegin⟩ := blockLines?_begin chomping cs hline hindent
        hc hbreak (fun h => (hfirst h).1) (hcolumn hline)
      exact ⟨_, (hb.widen widest (some n)).beginLine hbreak, rfl, rfl,
        by simp [BlockLines.beginLine], hbegin⟩

/-- The lines of a text are read back, unless the indentation is to be seen from a line that begins
with a blank. -/
theorem blockLines?_lines (chomping : Chomping) (rest : List Char) {done : List Char}
    (hb : b.Reads done) (hindent : b.Indented least n) (hcs : ∀ c ∈ cs, isPrintable c)
    (hfirst : b.indent = none → ∃ c ∈ cs.head?, c ≠ ' ' ∧ ¬isBreak c)
    (hcolumn : b.inLine = false → r.column = 0) :
    ∃ b' : BlockLines, b'.Reads ((terminated (!b.inLine) cs).reverse ++ done) ∧
      b'.indent = some n ∧ b'.inLine = false ∧
      (r.past rest (literalLines n (!b.inLine) cs)).column = 0 ∧
      blockLines? true chomping least b r (literalLines n (!b.inLine) cs ++ rest)
        = blockLines? true chomping least b' (r.past rest (literalLines n (!b.inLine) cs))
          rest := by
  induction cs generalizing b r done with
  | nil =>
    have hindent : b.indent = some n := by
      rcases hindent with h | ⟨h, -⟩
      · exact h
      · obtain ⟨c, hc, -⟩ := hfirst h
        cases hc
    cases hline : b.inLine with
    | false => exact ⟨b, hb, hindent, hline, hcolumn hline, blockLines?_past_nil.symm⟩
    | true => exact ⟨_, hb.lineEnd hline (by decide), hindent, rfl, rfl,
        blockLines?_lineEnd hline (by decide)⟩
  | cons c cs ih =>
    obtain ⟨hprintable, hcs⟩ := List.forall_mem_cons.1 hcs
    have hfirst : b.indent = none → c ≠ ' ' ∧ ¬isBreak c := by
      intro h
      obtain ⟨d, hd, hd'⟩ := hfirst h
      cases hd
      exact hd'
    obtain ⟨b₁, hb₁, hindent₁, hline₁, hcolumn₁, hstep⟩ :=
      blockLines?_literalChar chomping (literalLines n (isBreak c) cs ++ rest) hb hindent
        hprintable hfirst hcolumn
    have hfresh : (!b₁.inLine) = isBreak c := by rw [hline₁, Bool.not_not]
    have hih := ih hb₁ (.inl hindent₁) hcs (by simp [hindent₁]) hcolumn₁
    rw [hfresh] at hih
    rw [literalLines_cons, terminated, List.reverse_cons, List.append_assoc, List.append_assoc,
      hstep, Rest.past_append]
    exact hih

/-- The lines end before the next entry of a container around the block. -/
theorem blockLines?_end {m : Nat} (hline : b.inLine = false) (hindent : b.indent = some n)
    (hm : m < n) (hcolumn : r.column = 0) (hrest : BeginsEntry rest) :
    blockLines? true chomping least b r (pad m ++ rest)
      = some (b.finish chomping, r.past rest (pad m)) := by
  have hpad : ∀ k ∈ b.indent, r.column + m ≤ k := by
    intro k hk
    rw [hindent] at hk
    cases hk
    omega
  rw [blockLines?_pad hline m (by omega) hpad, past_pad, hcolumn]
  cases rest with
  | nil => rfl
  | cons c cs =>
    obtain ⟨hspace, -, -⟩ := hrest
    obtain ⟨hblank, hbreak⟩ := isSpace_eq_false.1 hspace
    simp only [isBlank, Bool.or_eq_true, decide_eq_true_eq, not_or] at hblank
    have hne : m ≠ n := Nat.ne_of_lt hm
    simp [blockLines?, hline, hindent, hblank, hbreak, hne, BlockLines.finish]

end

/-! ## The header -/

/-- The indentation of a literal text is marked by `2`, or not at all. -/
theorem indentationMark_eq (cs : List Char) :
    indentationMark cs = [] ∨ indentationMark cs = ['2'] := by
  rw [indentationMark]
  split
  · exact .inr rfl
  · exact .inl rfl

/-- What becomes of the last line end is marked by a plus or a minus sign, or not at all. -/
theorem chompingMark_eq (cs : List Char) :
    chompingMark cs = [] ∨ chompingMark cs = ['+'] ∨ chompingMark cs = ['-'] := by
  unfold chompingMark
  split
  · simp
  · split <;> simp
  · split
    · simp
    · split <;> simp

/-- The header of a literal block is read back. -/
theorem blockHeader?_marks (cs lines : List Char)
    (hr : r.chars = indentationMark cs ++ chompingMark cs ++ '\n' :: lines) :
    blockHeader? r = some (writtenChomping cs,
      if indentationMark cs = [] then none else some step,
      r.past lines (indentationMark cs ++ chompingMark cs ++ ['\n'])) := by
  obtain ⟨chars, line, column, offset⟩ := r
  simp only at hr
  rw [writtenChomping]
  rcases indentationMark_eq cs with h | h <;> rcases chompingMark_eq cs with h' | h' | h' <;>
    rw [h, h'] at hr ⊢ <;> subst hr
  all_goals
    simp [blockHeader?, chomping?, step, Rest.skip, Rest.skipComment, Rest.skipBlanks, Rest.span,
      Rest.nextIs, Rest.atLineEnd, Rest.past, Rest.down, Rest.right, isBlank, isBreak]

/-! ## The whole text -/

/-- What is asked of a text that is written as a literal block. -/
theorem isPrintable_of_literalAllowed (h : literalAllowed cs) : ∀ c ∈ cs, isPrintable c := by
  simp only [literalAllowed, Bool.not_eq_true', Bool.or_eq_false_iff] at h
  exact isPrintable_of_mem h.1

/-- The lines of a literal block with their header, behind its indicator. -/
def literalBody (n : Nat) (cs : List Char) : List Char :=
  indentationMark cs ++ chompingMark cs ++ ['\n'] ++ literalLines n true cs

/-- A literal text begins with a bar. -/
theorem literal_eq (n : Nat) (cs : List Char) : literal n cs = '|' :: literalBody n cs := by
  simp [literal, literalBody]

/-- The lines of a literal block end with the end of a line. -/
theorem exists_literalLines_eq (n : Nat) (fresh : Bool) (h : fresh = true → cs ≠ []) :
    ∃ lines c, literalLines n fresh cs = lines ++ [c] ∧ isBreak c := by
  induction cs generalizing fresh with
  | nil =>
    cases fresh with
    | true => exact absurd rfl (h rfl)
    | false => exact ⟨[], '\n', rfl, by decide⟩
  | cons c cs ih =>
    rw [literalLines_cons]
    by_cases hcs : isBreak c = true ∧ cs = []
    · obtain ⟨hc, rfl⟩ := hcs
      refine ⟨[], c, ?_, hc⟩
      rw [literalChar, if_pos hc, hc]
      rfl
    · obtain ⟨lines, d, hlines, hd⟩ := ih (isBreak c) fun hc hnil => hcs ⟨hc, hnil⟩
      exact ⟨literalChar n fresh c ++ lines, d, by rw [hlines, List.append_assoc], hd⟩

/-- Behind a literal block the position is that of the next entry. -/
theorem past_literalBody (n m : Nat) (rest : List Char) (hne : cs ≠ []) :
    ∃ line, r.past rest (literalBody n cs ++ pad m) = ⟨rest, line, m, m⟩ := by
  obtain ⟨lines, c, hlines, hc⟩ := exists_literalLines_eq n true fun _ => hne
  have hpast := Rest.past_append r rest
    (indentationMark cs ++ chompingMark cs ++ ['\n'] ++ lines) (c :: pad m)
  rw [Rest.past_cons_of_break hc, past_pad, Rest.down, Nat.zero_add] at hpast
  exact ⟨_, by rw [literalBody, hlines, ← hpast]; simp⟩

/-- A text in a literal block is read back, up to the next entry of a container around it. -/
theorem block?_literal (parent : Int) {n m : Nat} (hn : n = (max parent 0).toNat + step)
    (hcs : literalAllowed cs) (hne : cs ≠ []) (hm : m < n) (hrest : BeginsEntry rest)
    (hr : r.chars = literalBody n cs ++ (pad m ++ rest)) :
    block? true parent r = some (cs, r.past rest (literalBody n cs ++ pad m)) := by
  generalize hmarks : indentationMark cs ++ chompingMark cs ++ ['\n'] = marks
  have hcolumn : (r.past (literalLines n true cs ++ (pad m ++ rest)) marks).column = 0 := by
    rw [← hmarks, Rest.past_append, Rest.past_cons_of_break (by decide)]
    rfl
  have hheader := blockHeader?_marks cs (r := r)
    (literalLines n true cs ++ (pad m ++ rest)) (by rw [hr, literalBody]; simp)
  have hleast : (max (parent + 1) 1).toNat ≤ n := by
    rw [hn, step]
    omega
  generalize hb : ({ indent := if indentationMark cs = [] then none else some n } : BlockLines) = b
  have hline : b.inLine = false := by rw [← hb]
  have hindented : b.Indented (max (parent + 1) 1).toNat n := by
    subst hb
    by_cases h : indentationMark cs = []
    · exact .inr ⟨by simp [h], rfl, by simpa using hleast⟩
    · exact .inl (by simp [h])
  have hfirst : b.indent = none → ∃ c ∈ cs.head?, c ≠ ' ' ∧ ¬isBreak c := by
    subst hb
    intro h
    have hmark : indentationMark cs = [] := by simpa using h
    obtain ⟨c, cs', rfl⟩ := List.exists_cons_of_ne_nil hne
    by_cases hc : c = ' ' ∨ isBreak c
    · exact absurd hmark (by simp [indentationMark, hc]; decide)
    · exact ⟨c, rfl, not_or.1 hc⟩
  obtain ⟨b', hreads, hindent, hline', hcolumn', hlines⟩ :=
    blockLines?_lines (writtenChomping cs) (pad m ++ rest) (hb ▸ BlockLines.Reads.start _)
      hindented (isPrintable_of_literalAllowed hcs) hfirst fun _ => hcolumn
  rw [hline, Bool.not_false] at hreads hcolumn' hlines
  rw [List.append_nil] at hreads
  have hstart : (if indentationMark cs = [] then none else some step : Option Nat).map
      (fun k => (max parent 0).toNat + k) = if indentationMark cs = [] then none else some n := by
    rw [hn]
    split <;> rfl
  rw [block?, hheader, Option.bind_eq_bind, Option.bind_some]
  simp only [hstart, hb, Rest.chars_past, hmarks]
  rw [hlines, blockLines?_end hline' hindent hm hcolumn' hrest, hreads.finish hne, literalBody,
    hmarks, Rest.past_append r, Rest.past_append r]

end Yaml

end RpcOpenApi
