import RpcOpenApi.Proofs.Codec.Bounds
import RpcOpenApi.Json.Printer
import RpcOpenApi.Json.Token

/-!
# The tokens of a written text

The text of a tree over several lines is read as the tokens of the tree (`Json.tokens`), provided
its numbers are whole (`Json.wholeNumbers`): an integer is written with its digits, and they are
read back; how the other floating values are written is a matter of their shortest decimals.

A character that ends a word or a number is looked at twice, once to end the token and once for
itself. So there are two ways for a part of a text to be read: with all its tokens complete
(`Json.Reads`), or with the last one to be ended by what follows (`Json.Lexes`). Everything but a
number, `true`, `false` and `null` is read in the first way, and after these there is always a comma
or a new line (`Lexes.append`).
-/

namespace RpcOpenApi

/-- An integer that is stored exactly, or minus zero, which is the one floating value that an
integer in a text can have. -/
def Number.Whole : Number → Prop
  | .int i => Number.minInt ≤ i ∧ i ≤ Number.maxInt
  | .float d => d = ⟨true, 0, 0⟩
  | .nonFinite => False

/-- Whether the value of a number is an integer within the range can be decided. -/
instance : DecidablePred Number.Whole
  | .int i => inferInstanceAs (Decidable (Number.minInt ≤ i ∧ i ≤ Number.maxInt))
  | .float d => inferInstanceAs (Decidable (d = ⟨true, 0, 0⟩))
  | .nonFinite => isFalse id

namespace Json

mutual

/-- The tokens of a tree. -/
def tokens : Json → List Token
  | .str s => [.text (some s)]
  | .arr [] => [.openBracket, .closeBracket]
  | .arr (j :: js) => .openBracket :: tokens j ++ itemsTokens js
  | .obj [] => [.openBrace, .closeBrace]
  | .obj ((k, j) :: ms) =>
    .openBrace :: .text (some k) :: .colon :: tokens j ++ membersTokens ms
  | j => [.scalar (some j)]

/-- The tokens of the items after the first one, and of the end of the array. -/
def itemsTokens : List Json → List Token
  | [] => [.closeBracket]
  | j :: js => .comma :: tokens j ++ itemsTokens js

/-- The tokens of the members after the first one, and of the end of the object. -/
def membersTokens : List (String × Json) → List Token
  | [] => [.closeBrace]
  | (k, j) :: ms => .comma :: .text (some k) :: .colon :: tokens j ++ membersTokens ms

end

/-- Nothing is asked of a tree but that its numbers are whole. -/
def wholeNumbers : Bounds := ⟨fun _ => True, Number.Whole⟩

/-- All targets are allowed. -/
instance : DecidablePred wholeNumbers.target := fun _ => isTrue trivial

/-- Whether a number is allowed can be decided. -/
instance : DecidablePred wholeNumbers.number := inferInstanceAs (DecidablePred Number.Whole)

/-! ## Reading a part of a text -/

/-- Between two tokens, a part of a text is read as some tokens. -/
def Reads (cs : List Char) (ts : List Token) : Prop :=
  ∀ done, cs.foldlM Reading.step ⟨done, .blank⟩ = some ⟨ts.reverse ++ done, .blank⟩

/-- Between two tokens, a part of a text is read as some tokens, of which the last one may have to
be ended. -/
def Lexes (cs : List Char) (ts : List Token) : Prop :=
  ∀ done, ∃ r, cs.foldlM Reading.step ⟨done, .blank⟩ = some r ∧
    r.finish = some (ts.reverse ++ done)

variable {cs cs' : List Char} {ts ts' : List Token} {c : Char}

/-- What is read as some tokens and then as others is read as all of them. -/
theorem Reads.append (h : Reads cs ts) (h' : Reads cs' ts') : Reads (cs ++ cs') (ts ++ ts') := by
  intro done
  rw [List.foldlM_append, h done, Option.bind_eq_bind, Option.bind_some, h', List.reverse_append,
    List.append_assoc]

/-- What leaves no token open is read as its tokens. -/
theorem Reads.lexes (h : Reads cs ts) : Lexes cs ts := fun done => ⟨_, h done, rfl⟩

section
variable {done : List Token} {run : List Char}

/-- Between two tokens a character begins the next one. -/
theorem Reading.step_blank : Reading.step ⟨done, .blank⟩ c = Reading.start done c := rfl

/-- A word goes on with a small letter, and is ended by any other character. -/
theorem Reading.step_word : Reading.step ⟨done, .word run⟩ c
    = if c.isLower then some ⟨done, .word (c :: run)⟩
      else (Reading.finish ⟨done, .word run⟩).bind (Reading.start · c) := rfl

/-- A number goes on with the characters of numbers, and is ended by any other one. -/
theorem Reading.step_number : Reading.step ⟨done, .number run⟩ c
    = if isNumberChar c then some ⟨done, .number (c :: run)⟩
      else (Reading.finish ⟨done, .number run⟩).bind (Reading.start · c) := rfl

end

/-- A comma or a new line ends a token. -/
theorem Reading.step_of_finish {r : Reading} (h : r.finish = some ts) (hc : c = ',' ∨ c = '\n') :
    r.step c = Reading.step ⟨ts, .blank⟩ c := by
  obtain ⟨done, now⟩ := r
  cases now with
  | blank =>
    cases h
    rfl
  | word run =>
    have hlower : ¬c.isLower := by rcases hc with rfl | rfl <;> decide
    rw [Reading.step_word, if_neg hlower, h, Option.bind_some, Reading.step_blank]
  | number run =>
    have hnumber : ¬isNumberChar c := by rcases hc with rfl | rfl <;> decide
    rw [Reading.step_number, if_neg hnumber, h, Option.bind_some, Reading.step_blank]
  | string | escape | unicode | half | halfEscape => cases h

/-- What follows a part of a text ends its last token if it begins with a comma or a new line. -/
theorem Lexes.append (h : Lexes cs ts) (hsep : ∃ c ∈ cs'.head?, c = ',' ∨ c = '\n')
    (h' : Reads cs' ts') : Reads (cs ++ cs') (ts ++ ts') := by
  intro done
  obtain ⟨r, hr, hfinish⟩ := h done
  obtain ⟨c, hhead, hc⟩ := hsep
  obtain ⟨rest, rfl⟩ := List.head?_eq_some_iff.1 hhead
  rw [List.foldlM_append, hr, Option.bind_eq_bind, Option.bind_some, List.foldlM_cons,
    Reading.step_of_finish hfinish hc, ← List.foldlM_cons, h', List.reverse_append,
    List.append_assoc]

/-- A token may be left open behind others. -/
theorem Reads.append_lexes (h : Reads cs ts) (h' : Lexes cs' ts') :
    Lexes (cs ++ cs') (ts ++ ts') := by
  intro done
  obtain ⟨r, hr, hfinish⟩ := h' (ts.reverse ++ done)
  refine ⟨r, ?_, by rw [hfinish, List.reverse_append, List.append_assoc]⟩
  rw [List.foldlM_append, h done, Option.bind_eq_bind, Option.bind_some, hr]

/-- The tokens of a text that is read with all of them complete. -/
theorem Reads.tokens? (h : Reads cs ts) : Json.tokens? cs = some ts := by
  rw [Json.tokens?, h]
  simp [Reading.finish]

/-! ## Blanks and strings -/

/-- Blanks are read as no token. -/
theorem reads_blanks (hcs : ∀ c ∈ cs, isBlank c) : Reads cs [] := by
  intro done
  induction cs with
  | nil => rfl
  | cons c cs ih =>
    obtain ⟨hc, hcs⟩ := List.forall_mem_cons.1 hcs
    have hstep : Reading.step ⟨done, .blank⟩ c = some ⟨done, .blank⟩ := if_pos hc
    rw [List.foldlM_cons, hstep, Option.bind_eq_bind, Option.bind_some, ih hcs]

/-- The beginning of a line is read as no token. -/
theorem reads_newline (level : Nat) : Reads (newline level) [] := by
  refine reads_blanks fun c hc => ?_
  rcases List.mem_cons.1 hc with rfl | hc
  · rfl
  · rw [List.eq_of_mem_replicate hc]
    rfl

/-- A hexadecimal digit is read as its value. -/
theorem hexDigit?_hexChar : ∀ n < 16, hexDigit? (hexChar n) = some n := by decide

/-- A character inside quotes is read as itself. -/
theorem foldlM_quotedChar (done : List Token) (run : List Char) (c : Char) :
    (quotedChar c).foldlM Reading.step ⟨done, .string (some run)⟩
      = some ⟨done, .string (some (c :: run))⟩ := by
  fun_cases quotedChar c
  -- The seven characters with an escape of one letter.
  iterate 7 rfl
  next hcontrol =>
    have hhigh := hexDigit?_hexChar (c.toNat / 16) (by omega)
    have hlow := hexDigit?_hexChar (c.toNat % 16) (by omega)
    have hvalue : 16 * (c.toNat / 16) + c.toNat % 16 = c.toNat := Nat.div_add_mod ..
    have hunit : Reading.codeUnit (some run) none c.toNat = .string (some (c :: run)) := by
      have hhalf : ¬isHighHalf c.toNat ∧ ¬isLowHalf c.toNat := by
        simp only [isHighHalf, isLowHalf, Bool.decide_and, Bool.and_eq_true, decide_eq_true_eq]
        omega
      simp [Reading.codeUnit, hhalf, TextRun.add]
    have hzero : hexDigit? '0' = some 0 := rfl
    simp [Reading.step, Reading.inString, Reading.afterBackslash, hzero, hhigh, hlow, hvalue, hunit]
  next hquote hbackslash _ _ _ _ _ hplain =>
    have hstep : Reading.inString done (some run) c = some ⟨done, .string (some (c :: run))⟩ := by
      rw [Reading.inString, if_neg hquote, if_neg hbackslash, if_neg hplain]
      rfl
    simpa [Reading.step] using hstep

/-- The characters inside quotes are read as themselves. -/
theorem foldlM_quotedChars (done : List Token) (s run : List Char) :
    (s.flatMap quotedChar).foldlM Reading.step ⟨done, .string (some run)⟩
      = some ⟨done, .string (some (s.reverse ++ run))⟩ := by
  induction s generalizing run with
  | nil => rfl
  | cons c s ih =>
    rw [List.flatMap_cons, List.foldlM_append, foldlM_quotedChar, Option.bind_eq_bind,
      Option.bind_some, ih, List.reverse_cons, List.append_assoc, List.singleton_append]

/-- A string in quotes is read as its text. -/
theorem reads_quoted (s : String) : Reads (quoted s) [.text (some s)] := by
  intro done
  have hopen : Reading.step ⟨done, .blank⟩ '"' = some ⟨done, .string (some [])⟩ := rfl
  have hclose (run : TextRun) : Reading.step ⟨done, .string run⟩ '"'
      = some ⟨.text (run.map fun cs => String.ofList cs.reverse) :: done, .blank⟩ := rfl
  rw [quoted, List.cons_append, List.foldlM_cons, hopen, Option.bind_eq_bind, Option.bind_some,
    List.foldlM_append, foldlM_quotedChars, Option.bind_eq_bind, Option.bind_some,
    List.foldlM_cons, hclose]
  simp

/-! ## Numbers -/

section
variable {n : Nat} {ds : List Char}

/-- A number is the value of its digits. -/
theorem digitsValue_decimalDigits (n : Nat) : digitsValue (Decimal.decimalDigits n) = n :=
  Nat.ofDigitChars_ten_toDigits

/-- The digits of a number are decimal digits. -/
theorem isDigit_of_mem_decimalDigits (hc : c ∈ Decimal.decimalDigits n) : c.isDigit :=
  Nat.isDigit_of_mem_toDigits (by decide) (by decide) hc

/-- Only zero is written with a zero in front. -/
theorem eq_zero_of_head?_decimalDigits (h : (Decimal.decimalDigits n).head? = some '0') :
    n = 0 := by
  induction n using Nat.strongRecOn with
  | _ n ih =>
    rw [Decimal.decimalDigits, Nat.toDigits_eq_if (by decide)] at h
    split at h
    · exact Nat.digitChar_eq_zero.1 (Option.some.inj h)
    · rw [List.head?_append_of_ne_nil _ Nat.toDigits_ne_nil] at h
      have := ih (n / 10) (by omega) h
      omega

/-- The digits of a number are all of its leading digits. -/
theorem takeDigits?_decimalDigits (n : Nat) :
    takeDigits? (Decimal.decimalDigits n) = some (Decimal.decimalDigits n, []) := by
  have hall : ∀ c ∈ Decimal.decimalDigits n, c.isDigit := fun c => isDigit_of_mem_decimalDigits
  have hne : Decimal.decimalDigits n ≠ [] := Nat.toDigits_ne_nil
  rw [takeDigits?, List.takeWhile_eq_self_iff.2 hall, List.dropWhile_eq_nil_iff.2 hall]
  simp [hne]

/-- An integer is written as its sign and its digits. -/
theorem ofText?_intText (i : Int) : NumberParts.ofText? (intText i)
    = some ⟨decide (i < 0), Decimal.decimalDigits i.natAbs, none, none⟩ := by
  have hzero : ¬((Decimal.decimalDigits i.natAbs).length > 1 ∧
      (Decimal.decimalDigits i.natAbs).head? = some '0') := by
    rintro ⟨hlength, hhead⟩
    rw [eq_zero_of_head?_decimalDigits hhead] at hlength
    exact absurd hlength (by decide)
  have htake := takeDigits?_decimalDigits i.natAbs
  by_cases hi : i < 0
  · simp [NumberParts.ofText?, intText, hi, htake, hzero]
  · cases hds : Decimal.decimalDigits i.natAbs with
    | nil => exact absurd hds Nat.toDigits_ne_nil
    | cons d ds =>
      have hd : d ≠ '-' := by
        rintro rfl
        exact absurd (isDigit_of_mem_decimalDigits (hds ▸ List.mem_cons_self)) (by decide)
      have hfirst : 0 < ds.length → d ≠ '0' := by simpa [hds] using hzero
      rw [hds] at htake
      simpa [NumberParts.ofText?, intText, hi, hds, htake, hd] using hfirst

/-- The digits of an integer that is stored exactly have its value. -/
theorem value?_intText {i : Int} (hi : Number.minInt ≤ i ∧ i ≤ Number.maxInt) :
    NumberParts.value? ⟨decide (i < 0), Decimal.decimalDigits i.natAbs, none, none⟩
      = some (.int i) := by
  have hvalue : (if i < 0 then -(i.natAbs : Int) else i.natAbs) = i := by
    split <;> omega
  have hminus : ¬(i < 0 ∧ (i.natAbs : Int) = 0) := by omega
  simp only [NumberParts.value?, digitsValue_decimalDigits, decide_eq_true_eq, hvalue]
  rw [if_pos ⟨rfl, rfl, hi.1, hi.2, hminus⟩]

/-- The characters of a number are read one after the other. -/
theorem foldlM_numberChars (done : List Token) {run : List Char}
    (hcs : ∀ c ∈ cs, isNumberChar c) :
    cs.foldlM Reading.step ⟨done, .number run⟩ = some ⟨done, .number (cs.reverse ++ run)⟩ := by
  induction cs generalizing run with
  | nil => rfl
  | cons c cs ih =>
    obtain ⟨hc, hcs⟩ := List.forall_mem_cons.1 hcs
    have hstep : Reading.step ⟨done, .number run⟩ c = some ⟨done, .number (c :: run)⟩ := if_pos hc
    rw [List.foldlM_cons, hstep, Option.bind_eq_bind, Option.bind_some, ih hcs, List.reverse_cons,
      List.append_assoc, List.singleton_append]

/-- A text that begins like a number and goes on like one is read as one number. -/
theorem lexes_number {parts : NumberParts} (hc : c = '-' ∨ c.isDigit)
    (hcs : ∀ c ∈ cs, isNumberChar c) (h : NumberParts.ofText? (c :: cs) = some parts) :
    Lexes (c :: cs) [.scalar (parts.value?.map .num)] := by
  intro done
  have hstart : Reading.step ⟨done, .blank⟩ c = some ⟨done, .number [c]⟩ := by
    rcases hc with rfl | hc
    · rfl
    · have hblank : ¬isBlank c := by
        simp only [isBlank, Bool.or_eq_true, decide_eq_true_eq]
        rintro (((rfl | rfl) | rfl) | rfl) <;> exact absurd hc (by decide)
      rw [Reading.step_blank, Reading.start, if_neg hblank, if_pos (by simp [hc])]
      all_goals
        rintro rfl
        exact absurd hc (by decide)
  refine ⟨⟨done, .number (cs.reverse ++ [c])⟩, ?_, ?_⟩
  · rw [List.foldlM_cons, hstart, Option.bind_eq_bind, Option.bind_some, foldlM_numberChars _ hcs]
  · simp [Reading.finish, h]

/-- A whole number is read as itself. -/
theorem lexes_number_of_whole {x : Number} (hx : x.Whole) :
    Lexes (numberText x) [.scalar (some (.num x))] := by
  cases x with
  | int i =>
    have hall : ∀ c ∈ Decimal.decimalDigits i.natAbs, isNumberChar c := fun c hc => by
      simp [isNumberChar, isDigit_of_mem_decimalDigits hc]
    have h := ofText?_intText i
    have hvalue := congrArg (Option.map Json.num) (value?_intText hx)
    rw [Option.map_some] at hvalue
    rw [numberText, ← hvalue]
    rw [intText] at h ⊢
    split at h
    next hi =>
      rw [if_pos hi]
      exact lexes_number (.inl rfl) hall h
    next hi =>
      rw [if_neg hi]
      cases hds : Decimal.decimalDigits i.natAbs with
      | nil => exact absurd hds Nat.toDigits_ne_nil
      | cons d ds =>
        rw [hds] at hall h
        have hd : d.isDigit := isDigit_of_mem_decimalDigits (hds ▸ List.mem_cons_self)
        exact lexes_number (.inr hd) (List.forall_mem_cons.1 hall).2 h
  | float d =>
    cases hx
    have hparts : NumberParts.ofText? ['-', '0', '.', '0'] = some ⟨true, ['0'], some ['0'], none⟩ :=
      rfl
    have hvalue : NumberParts.value? ⟨true, ['0'], some ['0'], none⟩
        = some (.float ⟨true, 0, 0⟩) := by decide +kernel
    have hcs : ∀ c ∈ ['0', '.', '0'], isNumberChar c := by simp [isNumberChar]
    have hlexes := lexes_number (.inl rfl) hcs hparts
    rwa [hvalue] at hlexes
  | nonFinite => exact hx.elim

end

/-! ## Trees -/

section
variable {j : Json} {js : List Json} {ms : List (String × Json)} {k : String} {level : Nat}

/-- A comma or the end of a line follows an item of an array. -/
theorem separates_prettyItems (level : Nat) (js : List Json) :
    ∃ c ∈ (prettyItems level js).head?, c = ',' ∨ c = '\n' := by
  cases js with
  | nil => exact ⟨_, rfl, .inr rfl⟩
  | cons => exact ⟨_, rfl, .inl rfl⟩

/-- A comma or the end of a line follows a member of an object. -/
theorem separates_prettyMembers (level : Nat) (ms : List (String × Json)) :
    ∃ c ∈ (prettyMembers level ms).head?, c = ',' ∨ c = '\n' := by
  cases ms with
  | nil => exact ⟨_, rfl, .inr rfl⟩
  | cons => exact ⟨_, rfl, .inl rfl⟩

/-- One character that is a token by itself is read as that token. -/
theorem reads_singleton {t : Token} (h : ∀ done, Reading.start done c = some ⟨t :: done, .blank⟩) :
    Reads [c] [t] := by
  intro done
  rw [List.foldlM_cons, Reading.step_blank, h]
  rfl

/-- An item is read on a line of its own. -/
theorem lexes_item {t : Token} (h : ∀ done, Reading.start done c = some ⟨t :: done, .blank⟩)
    (hj : Lexes (prettyChars level j) (tokens j)) :
    Lexes (c :: newline level ++ prettyChars level j) (t :: tokens j) :=
  ((reads_singleton h).append (reads_newline level)).append_lexes hj

/-- A member is read on a line of its own. -/
theorem lexes_member {t : Token} (h : ∀ done, Reading.start done c = some ⟨t :: done, .blank⟩)
    (hj : Lexes (prettyChars level j) (tokens j)) :
    Lexes (c :: newline level ++ quoted k ++ ':' :: ' ' :: prettyChars level j)
      (t :: .text (some k) :: .colon :: tokens j) := by
  have hcolon : Reads [':', ' '] [.colon] := fun _ => rfl
  exact (((reads_singleton h).append (reads_newline level)).append (reads_quoted k)).append_lexes
    (hcolon.append_lexes hj)

/-- The items that follow the first one are read, if each item is. -/
theorem reads_prettyItems (level : Nat)
    (h : ∀ j ∈ js, ∀ level, Lexes (prettyChars level j) (tokens j)) :
    Reads (prettyItems level js) (itemsTokens js) := by
  induction js with
  | nil => exact (reads_newline level).append (reads_singleton fun _ => rfl)
  | cons j js ih =>
    obtain ⟨hj, hjs⟩ := List.forall_mem_cons.1 h
    exact (lexes_item (fun _ => rfl) (hj _)).append (separates_prettyItems level js) (ih hjs)

/-- The members that follow the first one are read, if the value of each member is. -/
theorem reads_prettyMembers (level : Nat)
    (h : ∀ m ∈ ms, ∀ level, Lexes (prettyChars level m.2) (tokens m.2)) :
    Reads (prettyMembers level ms) (membersTokens ms) := by
  induction ms with
  | nil => exact (reads_newline level).append (reads_singleton fun _ => rfl)
  | cons m ms ih =>
    obtain ⟨hm, hms⟩ := List.forall_mem_cons.1 h
    exact (lexes_member (fun _ => rfl) (hm _)).append (separates_prettyMembers level ms) (ih hms)

/-- **The text of a tree is read as its tokens**, at every level of nesting. -/
theorem lexes_prettyChars {n : Depth} (h : j.Within wholeNumbers n) (level : Nat) :
    Lexes (prettyChars level j) (tokens j) := by
  induction j using induction generalizing n level with
  | null => exact fun _ => ⟨_, rfl, rfl⟩
  | bool b => cases b <;> exact fun _ => ⟨_, rfl, rfl⟩
  | num x => exact lexes_number_of_whole h
  | str s => exact (reads_quoted s).lexes
  | arr js ih =>
    obtain ⟨-, hjs⟩ := within_arr.1 h
    have ih : ∀ j ∈ js, ∀ level, Lexes (prettyChars level j) (tokens j) :=
      fun j hj level => ih j hj (hjs j hj) level
    cases js with
    | nil => exact Reads.lexes fun _ => rfl
    | cons j js =>
      obtain ⟨hj, hjs⟩ := List.forall_mem_cons.1 ih
      exact ((lexes_item (fun _ => rfl) (hj _)).append (separates_prettyItems level js)
        (reads_prettyItems level hjs)).lexes
  | obj ms ih =>
    obtain ⟨-, hms⟩ := within_obj.1 h
    have ih : ∀ m ∈ ms, ∀ level, Lexes (prettyChars level m.2) (tokens m.2) :=
      fun m hm level => ih m hm (hms.value hm) level
    cases ms with
    | nil => exact Reads.lexes fun _ => rfl
    | cons m ms =>
      obtain ⟨hm, hms⟩ := List.forall_mem_cons.1 ih
      exact ((lexes_member (fun _ => rfl) (hm _)).append (separates_prettyMembers level ms)
        (reads_prettyMembers level hms)).lexes

/-- The tokens of the text of a tree are those of the tree. -/
theorem tokens?_pretty {n : Depth} (h : j.Within wholeNumbers n) :
    tokens? j.pretty.toList = some j.tokens := by
  have hend : Reads ['\n'] [] := reads_blanks (by simp [isBlank])
  have hreads := (lexes_prettyChars h 0).append ⟨_, rfl, .inr rfl⟩ hend
  rw [pretty, String.toList_ofList, hreads.tokens?, List.append_nil]

end

end Json

end RpcOpenApi
