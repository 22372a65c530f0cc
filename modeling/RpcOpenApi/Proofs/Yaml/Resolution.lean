import RpcOpenApi.Proofs.Json.Tokens
import RpcOpenApi.Proofs.Yaml.ScalarText
import RpcOpenApi.Yaml.Reader

/-!
# What a plain scalar says is what was written

A text that is written without quotes is read as a text, whatever it looks like
(`resolvePlain_of_not_needsQuotes`), and the words and numbers that are written without quotes are
read as themselves (`resolvePlain_wordText`).
-/

namespace RpcOpenApi

namespace Yaml

variable {c : Char} {cs : List Char}

/-- A text that needs no quotes is read as a text. -/
theorem resolvePlain_of_not_needsQuotes (h : needsQuotes cs = false) : resolvePlain cs = .text := by
  rw [needsQuotes] at h
  split at h
  next h' => exact h'
  next => cases h

/-! ## Integers -/

/-- A decimal digit is read as its value. -/
theorem digit?_of_isDigit (h : c.isDigit) : digit? 10 c = some (c.toNat - 48) := by
  have hrange : '0' ≤ c ∧ c ≤ '9' := by
    simp only [Char.isDigit, Bool.and_eq_true, decide_eq_true_eq] at h
    exact h
  have hle : c.toNat ≤ 57 := hrange.2
  have hsmall : c.toNat - 48 < 10 := by omega
  simp [digit?, hrange, Option.filter, hsmall]

/-- Decimal digits are read as the number that they spell. -/
theorem nat?_of_isDigit (hcs : ∀ c ∈ cs, c.isDigit) (hne : cs ≠ []) :
    nat? 10 cs = some (Json.digitsValue cs) := by
  have hfold : ∀ (cs : List Char) (n : Nat), (∀ c ∈ cs, c.isDigit) →
      cs.foldlM (fun n c => do return 10 * n + (← digit? 10 c)) n
        = some (cs.foldl (fun n c => 10 * n + (c.toNat - 48)) n) := by
    intro cs
    induction cs with
    | nil => exact fun _ _ => rfl
    | cons c cs ih =>
      intro n h
      obtain ⟨hc, hcs⟩ := List.forall_mem_cons.1 h
      rw [List.foldlM_cons, digit?_of_isDigit hc, List.foldl_cons, ← ih _ hcs]
      rfl
  obtain ⟨c, cs, rfl⟩ := List.exists_cons_of_ne_nil hne
  exact hfold (c :: cs) 0 hcs

/-- The digits of a number have no superfluous zero in front. -/
theorem isPaddedDigits_decimalDigits (n : Nat) :
    isPaddedDigits (Decimal.decimalDigits n) = false := by
  have hhead := Json.eq_zero_of_head?_decimalDigits (n := n)
  have hdigits : ∀ c ∈ Decimal.decimalDigits n, c.isDigit :=
    fun c => Json.isDigit_of_mem_decimalDigits
  cases hds : Decimal.decimalDigits n with
  | nil => rfl
  | cons c cs =>
    rw [hds] at hhead hdigits
    by_cases hc : c = '0'
    · subst hc
      rw [hhead rfl] at hds
      cases hds
      rfl
    · have hsign : dropSign (c :: cs) = c :: cs := by
        unfold dropSign
        split
        next h => cases h; exact absurd (hdigits _ (.head _)) (by decide)
        next h => cases h; exact absurd (hdigits _ (.head _)) (by decide)
        next => rfl
      rw [isPaddedDigits, hsign]
      split
      next h => exact absurd (List.head_eq_of_cons_eq h) hc
      next => rfl

/-- A natural number is read from the digits that it is written with. -/
theorem unsigned?_decimalDigits (n : Nat) : unsigned? (Decimal.decimalDigits n) = some n := by
  have hdigits : ∀ c ∈ Decimal.decimalDigits n, c.isDigit :=
    fun c => Json.isDigit_of_mem_decimalDigits
  have hnat : nat? 10 (Decimal.decimalDigits n) = some n := by
    rw [nat?_of_isDigit hdigits Nat.toDigits_ne_nil, Json.digitsValue_decimalDigits]
  have hpadded := isPaddedDigits_decimalDigits n
  generalize Decimal.decimalDigits n = ds at hdigits hnat hpadded
  unfold unsigned?
  split
  case h_4 => rw [if_neg (by simp [hpadded]), hnat]
  all_goals exact absurd (hdigits _ (.tail _ (.head _))) (by decide)

/-- An integer is written with its sign and its digits, and read back. -/
theorem integer?_intText (i : Int) : integer? (intText i) = some i := by
  rw [intText]
  split
  next hi =>
    rw [integer?, unsigned?_decimalDigits]
    exact congrArg some (by omega : -(i.natAbs : Int) = i)
  next hi =>
    have hhead : ∀ c ∈ Decimal.decimalDigits i.natAbs, c ≠ '-' ∧ c ≠ '+' := by
      intro c hc
      have hdigit := Json.isDigit_of_mem_decimalDigits hc
      constructor <;> (rintro rfl; exact absurd hdigit (by decide))
    have hunsigned := unsigned?_decimalDigits i.natAbs
    generalize Decimal.decimalDigits i.natAbs = ds at hhead hunsigned
    unfold integer?
    split
    next => exact absurd rfl (hhead _ (.head _)).1
    next => exact absurd rfl (hhead _ (.head _)).2
    next =>
      rw [hunsigned]
      exact congrArg some (by omega : (i.natAbs : Int) = i)

/-- An integer is written with digits and a minus sign only. -/
theorem mem_intText {i : Int} (hc : c ∈ intText i) : c = '-' ∨ c.isDigit := by
  rw [intText] at hc
  split at hc
  · rcases List.mem_cons.1 hc with rfl | hc
    · exact .inl rfl
    · exact .inr (Json.isDigit_of_mem_decimalDigits hc)
  · exact .inr (Json.isDigit_of_mem_decimalDigits hc)

/-- No integer is written as nothing. -/
theorem intText_ne_nil (i : Int) : intText i ≠ [] := by
  intro h
  exact absurd (h ▸ integer?_intText i) nofun

/-- An integer within the range is read from the text that it is written as. -/
theorem resolvePlain_intText {i : Int} (hi : Number.minInt ≤ i ∧ i ≤ Number.maxInt) :
    resolvePlain (intText i) = .int i := by
  have hword : ∀ w : List Char, w.any (fun c => c ≠ '-' && !c.isDigit) → intText i ≠ w := by
    rintro w h rfl
    obtain ⟨c, hc, hother⟩ := List.any_eq_true.1 h
    rcases mem_intText hc with rfl | hdigit
    · exact absurd hother (by decide)
    · simp [hdigit] at hother
  have hempty : (intText i).isEmpty = false := List.isEmpty_eq_false_iff.2 (intText_ne_nil i)
  have hnull : isNullWord (intText i) = false := by
    simp only [isNullWord, Bool.or_eq_false_iff, decide_eq_false_iff_not]
    exact ⟨⟨⟨hword _ rfl, hword _ rfl⟩, hword _ rfl⟩, hword _ rfl⟩
  have hbool : boolWord? (intText i) = none := by
    rw [boolWord?, if_neg, if_neg]
    · rintro (h | h | h) <;> exact hword _ rfl h
    · rintro (h | h | h) <;> exact hword _ rfl h
  rw [resolvePlain, if_neg (by simp [hempty, hnull]), hbool, integer?_intText, Option.bind_some,
    sizedInt?, if_pos hi]

/-! ## Words and numbers -/

/-- What can be seen can be written without an escape. -/
theorem IsVisible.isPrintable (h : IsVisible c) : isPrintable c := by
  obtain ⟨hlow, hhigh⟩ := h
  have hallowed : isAllowed c = true := by
    have hrange : 0x20 ≤ c.toNat ∧ c.toNat ≤ 0x7e := by omega
    simp [isAllowed, hrange]
  have hne : ∀ d : Char, ¬(0x20 < d.toNat ∧ d.toNat < 0x7f) → c ≠ d := by
    rintro d hd rfl
    exact hd ⟨hlow, hhigh⟩
  simp [Yaml.isPrintable, hallowed, hne '\t' (by decide), hne '\r' (by decide),
    hne '\u0085' (by decide), hne byteOrderMark (by decide)]

/-- Digits can be seen. -/
theorem isVisible_of_isDigit (h : c.isDigit) : IsVisible c := by
  simp only [Char.isDigit, Bool.and_eq_true, decide_eq_true_eq] at h
  exact ⟨Nat.lt_of_lt_of_le (by decide) h.1, Nat.lt_of_le_of_lt h.2 (by decide)⟩

/-- Where no character is of the first kind, none of the first kind stands before one of the
second. -/
theorem hasPair_eq_false {p q : Char → Bool} (h : ∀ c ∈ cs, ¬p c) : hasPair p q cs = false := by
  induction cs with
  | nil => rfl
  | cons c cs ih =>
    obtain ⟨hc, hcs⟩ := List.forall_mem_cons.1 h
    cases cs with
    | nil => rfl
    | cons d cs => simp [hasPair, hc, ih hcs]

/-- Visible characters, none of them a colon or a number sign, need no quotes, unless they begin
like something else. -/
theorem plainAllowed_of_isVisible (hcs : ∀ c ∈ cs, IsVisible c ∧ c ≠ ':' ∧ c ≠ '#')
    (hbegins : beginsWithIndicator cs = false) : plainAllowed cs := by
  have hspace : ∀ c ∈ cs, c ≠ ' ' := by
    rintro c hc rfl
    exact absurd (hcs _ hc).1 (by decide)
  have hinner : ∀ spaced, hasInnerIndicator spaced cs = false := by
    clear hbegins hspace
    induction cs with
    | nil => exact fun _ => rfl
    | cons c cs ih =>
      obtain ⟨⟨-, hcolon, hsharp⟩, hcs⟩ := List.forall_mem_cons.1 hcs
      intro spaced
      simp [hasInnerIndicator, hcolon, hsharp, ih hcs]
  have hborders : bordersOn (· = ' ') cs = false := by
    simp only [bordersOn, Bool.or_eq_false_iff, Option.any_eq_false, decide_eq_false_iff_not]
    exact ⟨fun c hc => hspace c (List.mem_of_mem_head? hc),
      fun c hc => hspace c (List.mem_of_mem_getLast? hc)⟩
  have hescapes : needsEscapes cs = false := by
    have hall : cs.all (fun c => isPrintable c) = true :=
      List.all_eq_true.2 fun c hc => (hcs c hc).1.isPrintable
    rw [needsEscapes, hall, hasPair_eq_false fun c hc => by simpa using hspace c hc]
    rfl
  exact plainAllowed_iff.2
    ⟨hbegins, hinner false, hborders, fun c hc => (hcs c hc).1.not_isBreak, hescapes⟩

/-- What can be seen is neither a blank nor the end of a line. -/
theorem IsVisible.isSpace (h : IsVisible c) : isSpace c = false := by
  refine isSpace_eq_false.2 ⟨fun hc => ?_, h.not_isBreak⟩
  rw [(isBlank_iff_of_isPrintable h.isPrintable).1 hc] at h
  exact absurd h (by decide)

/-- A digit at the beginning of a plain text is no indicator. -/
theorem beginsWithIndicator_digit (hc : c.isDigit) : beginsWithIndicator (c :: cs) = false := by
  have hother : ∀ d : Char, ¬d.isDigit → c ≠ d := by
    rintro d hd rfl
    exact hd hc
  have hleading : isLeadingIndicator c = false := by
    rw [isLeadingIndicator, decide_eq_false_iff_not]
    intro hmem
    have hnot := (List.all_eq_true (p := fun d => !d.isDigit)).1 rfl c hmem
    simp [hc] at hnot
  unfold beginsWithIndicator
  split
  next h => exact absurd (List.head_eq_of_cons_eq h) (hother _ (by decide))
  next h => exact absurd (List.head_eq_of_cons_eq h) (hother _ (by decide))
  next h =>
    cases h
    simp [hleading, hother '-' (by decide), hother '?' (by decide)]
  next => rfl

/-- Neither is a minus sign before a digit. -/
theorem beginsWithIndicator_minus (hc : c.isDigit) :
    beginsWithIndicator ('-' :: c :: cs) = false := by
  have hminus : c ≠ '-' := by
    rintro rfl
    exact absurd hc (by decide)
  have hspace := (isVisible_of_isDigit hc).isSpace
  unfold beginsWithIndicator
  split
  next h => cases h; exact absurd rfl hminus
  next h => cases h
  next h =>
    cases h
    simp [endsWord, hspace, isLeadingIndicator]
  next => rfl

/-- An integer may be written without quotes. -/
theorem plainAllowed_intText (i : Int) : plainAllowed (intText i) := by
  refine plainAllowed_of_isVisible (fun c hc => ?_) ?_
  · rcases mem_intText hc with rfl | hdigit
    · decide
    · refine ⟨isVisible_of_isDigit hdigit, ?_, ?_⟩ <;>
      · rintro rfl
        exact absurd hdigit (by decide)
  · have hdigits : ∀ c ∈ Decimal.decimalDigits i.natAbs, c.isDigit :=
      fun c => Json.isDigit_of_mem_decimalDigits
    rw [intText]
    cases hds : Decimal.decimalDigits i.natAbs with
    | nil => exact absurd hds Nat.toDigits_ne_nil
    | cons d ds =>
      have hd := hdigits d (by simp [hds])
      split
      next => exact beginsWithIndicator_minus hd
      next => exact beginsWithIndicator_digit hd

/-- A number whose value is an integer may be written without quotes, and is read as that number. -/
theorem plainAllowed_numberText {x : Number} (hx : x.Whole) :
    plainAllowed (numberText x) ∧ numberText x ≠ [] ∧
      (resolvePlain (numberText x)).json? (numberText x) = some (.num x) := by
  cases x with
  | int i =>
    refine ⟨plainAllowed_intText i, intText_ne_nil i, ?_⟩
    rw [numberText, resolvePlain_intText hx]
    rfl
  | float d =>
    obtain rfl : d = ⟨true, 0, 0⟩ := hx
    exact ⟨rfl, nofun, rfl⟩
  | nonFinite => exact hx.elim

/-- A scalar that is no text, as it is written. -/
def wordText? : Json → Option (List Char)
  | .null => some "null".toList
  | .bool true => some "true".toList
  | .bool false => some "false".toList
  | .num x => some (numberText x)
  | _ => none

/-- Words and numbers are written without quotes, and read as themselves. -/
theorem resolvePlain_wordText {j : Json} {b : Depth} (hj : j.Within Json.wholeNumbers b)
    (h : wordText? j = some cs) :
    plainAllowed cs ∧ cs ≠ [] ∧ (resolvePlain cs).json? cs = some j := by
  unfold wordText? at h
  split at h
  case h_4 => cases h; exact plainAllowed_numberText hj
  case h_5 => cases h
  all_goals cases h; exact ⟨rfl, nofun, rfl⟩

end Yaml

end RpcOpenApi
