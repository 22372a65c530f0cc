import RpcOpenApi.Yaml.Layout
import RpcOpenApi.Proofs.Yaml.LiteralText

/-!
# Steps through a written text

The text of a tree is cut into tokens piece by piece: a piece takes one state to another
(`Layout.Reaches`), with as much fuel as there is text. Between two pieces the state is at the
beginning of an entry (`Layout.entry`), behind the indentation of its line, or behind an indicator
(`Layout.behind`), before a node.

Where a key may have begun is noted by every scalar and never crossed out, but no key spans lines:
at a later entry the note is stale (`Stale`), and the first step there drops it.
-/

namespace RpcOpenApi

namespace Yaml

variable {c : Char} {cs rest : List Char} {tokens : List Token} {indents : List Nat}
  {key : Option KeyStart} {line column n : Nat}

namespace Layout

/-- Taking tokens off one state comes to the other one. -/
def Reaches (s s' : Layout) : Prop :=
  ∃ n, n + s'.rest.chars.length ≤ s.rest.chars.length ∧
    ∀ fuel, run? (n + fuel) s = run? fuel s'

/-- What is reached from a reached state is reached. -/
theorem Reaches.trans {s s' s'' : Layout} (h : Reaches s s') (h' : Reaches s' s'') :
    Reaches s s'' := by
  obtain ⟨n, hn, hrun⟩ := h
  obtain ⟨n', hn', hrun'⟩ := h'
  exact ⟨n + n', by omega, fun fuel => by rw [Nat.add_assoc, hrun, hrun']⟩

/-- What is skipped before a token, and the containers that end there, make no difference. -/
theorem Reaches.of_advance {s s' : Layout} (h : s.advance = s'.advance)
    (hlength : s'.rest.chars.length ≤ s.rest.chars.length) : Reaches s s' := by
  refine ⟨0, by omega, fun fuel => ?_⟩
  rw [Nat.zero_add]
  cases fuel with
  | zero => rfl
  | succ fuel => rw [run?, run?, h]

/-- One token is taken off. -/
theorem Reaches.of_step {s s₁ s' : Layout} (hadvance : s.advance = s₁)
    (hchars : s₁.rest.chars = c :: cs) (hstep : s₁.step? c cs = some s')
    (hlength : s'.rest.chars.length < s.rest.chars.length) : Reaches s s' := by
  refine ⟨1, by omega, fun fuel => ?_⟩
  rw [Nat.add_comm, run?, hadvance, hchars]
  simp [hstep]

/-! ## States -/

/-- The state at the beginning of an entry, where a key may begin. Nothing but blanks and indicators
is before it on its line. -/
def entry (tokens : List Token) (indents : List Nat) (key : Option KeyStart) (line column : Nat)
    (cs : List Char) : Layout :=
  { tokens := tokens.toArray, indents, key, outer := [], keyAllowed := true,
    rest := ⟨cs, line, column, column⟩ }

/-- The state behind an indicator, before a node. -/
def behind (tokens : List Token) (indents : List Nat) (keyAllowed : Bool) (rest : Rest) : Layout :=
  { tokens := tokens.toArray, indents, key := none, outer := [], keyAllowed, rest }

/-- A key may have begun only on an earlier line, and where no key had to begin. -/
def Stale (key : Option KeyStart) (line : Nat) : Prop :=
  ∀ k ∈ key, k.isRequired = false ∧ k.line < line

/-- Where no key may begin, none has to be dropped. -/
theorem Stale.none (line : Nat) : Stale none line := nofun

/-- A key that is to be dropped is not a required one. -/
theorem Stale.not_isRequired (h : Stale key line) : key.any (·.isRequired) = false :=
  (Option.any_eq_false _ _).2 fun k hk => (h k hk).1

/-! ## Between tokens -/

/-- Blanks are skipped. -/
theorem skipSpace_pad (keyAllowed : Bool) (r : Rest) (n : Nat) (cs : List Char) :
    skipSpace false false keyAllowed r (pad n ++ cs)
      = skipSpace false false keyAllowed (r.past cs (pad n)) cs := by
  induction n generalizing r with
  | zero => cases cs <;> rfl
  | succ n ih =>
    rw [pad_succ, List.cons_append, Rest.past_cons (by decide), ← ih]
    simp [skipSpace, isBreak]

/-- The end of a line is skipped, and a key may begin on the next one. -/
theorem skipSpace_lineFeed (keyAllowed : Bool) (r : Rest) (cs : List Char) :
    skipSpace false false keyAllowed r ('\n' :: cs)
      = skipSpace false false true (r.down cs) cs := by
  simp [skipSpace, isBreak]

/-- Nothing is skipped before an entry. -/
theorem skipSpace_of_beginsEntry (keyAllowed : Bool) (r : Rest) (h : BeginsEntry cs) :
    skipSpace false false keyAllowed r cs = (keyAllowed, { r with chars := cs }) := by
  cases cs with
  | nil => rfl
  | cons c cs =>
    obtain ⟨hspace, hsharp, hmark⟩ := h
    obtain ⟨hblank, hbreak⟩ := isSpace_eq_false.1 hspace
    simp only [isBlank, Bool.or_eq_true, decide_eq_true_eq, not_or] at hblank
    simp [skipSpace, hbreak, hblank, hsharp, hmark]

variable {s : Layout}

/-- No container ends at a column that is not left of the innermost one. -/
theorem close_of_le (h : ∀ m ∈ s.indents.head?, m ≤ column) : s.close column = s := by
  have hclosed : s.indents.takeWhile (fun m => decide (column < m)) = [] := by
    cases hs : s.indents with
    | nil => rfl
    | cons m ms =>
      have := h m (by simp [hs])
      rw [List.takeWhile_cons_of_neg]
      simpa using this
  rw [close]
  split
  · rfl
  · simp [hclosed]

/-- The innermost container ends at a column left of it. -/
theorem close_cons {keyAllowed : Bool} {r : Rest} {m : Nat} (h : column < m) :
    (⟨tokens.toArray, m :: indents, key, [], keyAllowed, r⟩ : Layout).close column
      = (⟨(tokens ++ [Token.blockEnd]).toArray, indents, key, [], keyAllowed, r⟩ : Layout).close
        column := by
  have hm : decide (column < m) = true := decide_eq_true h
  simp [close, inFlow, hm, List.replicate_succ]

/-- At an entry that is not left of the innermost container nothing is skipped and nothing ends. -/
theorem advance_entry (hcs : BeginsEntry cs) (h : ∀ m ∈ indents.head?, m ≤ column) :
    (entry tokens indents key line column cs).advance
      = entry tokens indents key line column cs := by
  rw [advance]
  simp only [entry, inFlow, List.isEmpty_nil, Bool.not_true, skipSpace_of_beginsEntry _ _ hcs]
  exact close_of_le h

/-- The indentation of a line is skipped. -/
theorem advance_lineFeed {keyAllowed : Bool} {r : Rest} (hr : r.chars = '\n' :: (pad n ++ cs))
    (hcs : BeginsEntry cs) :
    (⟨tokens.toArray, indents, key, [], keyAllowed, r⟩ : Layout).advance
      = (entry tokens indents key (r.line + 1) n cs).advance := by
  rw [advance, advance]
  simp only [entry, inFlow, List.isEmpty_nil, Bool.not_true, hr, skipSpace_lineFeed, skipSpace_pad,
    skipSpace_of_beginsEntry _ _ hcs, past_pad, Rest.down, Nat.zero_add]

/-- Behind the end of a line the next entry begins. -/
theorem reaches_lineFeed {keyAllowed : Bool} {r : Rest} (hr : r.chars = '\n' :: (pad n ++ cs))
    (hcs : BeginsEntry cs) :
    Reaches ⟨tokens.toArray, indents, key, [], keyAllowed, r⟩
      (entry tokens indents key (r.line + 1) n cs) := by
  refine .of_advance (advance_lineFeed hr hcs) ?_
  rw [hr]
  simp only [entry, List.length_cons, List.length_append]
  omega

/-- Before an entry that is left of the innermost container, the container ends. -/
theorem reaches_close {m : Nat} (hcs : BeginsEntry cs) (h : column < m) :
    Reaches (entry tokens (m :: indents) key line column cs)
      (entry (tokens ++ [.blockEnd]) indents key line column cs) := by
  refine .of_advance ?_ (Nat.le_refl _)
  rw [advance, advance]
  simp only [entry, inFlow, List.isEmpty_nil, Bool.not_true, skipSpace_of_beginsEntry _ _ hcs]
  exact close_cons h

/-! ## Entries -/

/-- A container that begins at a column with a token, unless it is there already: the columns of the
open containers before and after that, and the token if it is taken. -/
inductive Opens (n : Nat) (t : Token) : List Nat → List Nat → List Token → Prop
  | level {indents : List Nat} : Opens n t (n :: indents) (n :: indents) []
  | deeper {indents : List Nat} (h : ∀ m ∈ indents.head?, m < n) :
    Opens n t indents (n :: indents) [t]

variable {indents' : List Nat} {start before after : List Token} {t : Token}

/-- A container is opened within those that are indented less. -/
theorem Opens.head_le (h : Opens n t indents indents' start) : ∀ m ∈ indents.head?, m ≤ n := by
  cases h with
  | level => exact fun m hm => by cases hm; exact Nat.le_refl _
  | deeper h => exact fun m hm => Nat.le_of_lt (h m hm)

/-- An item that is inserted behind a list stands behind it. -/
theorem insertIdx_append_length {α : Type} (l l' : List α) (a : α) :
    (l ++ l').insertIdx l.length a = l ++ a :: l' := by
  induction l with
  | nil => rfl
  | cons b l ih => exact congrArg (b :: ·) ih

/-- Entering a column opens a container there, unless it is open already. -/
theorem enter_of_opens (h : Opens n t indents indents' start) {keyAllowed : Bool} {r : Rest} :
    (⟨(before ++ after).toArray, indents, key, [], keyAllowed, r⟩ : Layout).enter n before.length t
      = ⟨(before ++ start ++ after).toArray, indents', key, [], keyAllowed, r⟩ := by
  cases h with
  | level => simp [enter, inFlow, indent]
  | deeper h =>
    have hindent :
      ¬(n : Int) ≤ indent ⟨(before ++ after).toArray, indents, key, [], keyAllowed, r⟩ := by
      cases indents with
      | nil =>
        simp only [indent]
        omega
      | cons m ms => simpa [indent] using h m rfl
    simp [enter, inFlow, hindent, insertIdx_append_length]

/-- At an entry a container begins, unless it is there already. -/
theorem dropKey?_enter_entry (h : Opens n t indents indents' start) (hkey : Stale key line) :
    ((entry tokens indents key line n cs).enter (entry tokens indents key line n cs).rest.column
      (entry tokens indents key line n cs).tokens.size t).dropKey?
      = some (entry (tokens ++ start) indents' none line n cs) := by
  have henter : Layout.enter ⟨(tokens ++ []).toArray, indents, key, [], true, ⟨cs, line, n, n⟩⟩ n
      tokens.length t
      = ⟨(tokens ++ start ++ []).toArray, indents', key, [], true, ⟨cs, line, n, n⟩⟩ :=
    enter_of_opens h
  simp only [List.append_nil] at henter
  simp only [entry, List.size_toArray, henter, dropKey?, hkey.not_isRequired]
  rfl

/-- A line that begins with another character is no mark of a document. -/
theorem isDocumentMark_of_ne {mark : Char} (h : c ≠ mark) :
    isDocumentMark mark (c :: cs) = false := by
  unfold isDocumentMark
  split
  next heq =>
    cases heq
    simp [h]
  next => rfl

/-- A hyphen at the end of a word starts no document. -/
theorem isDocumentMark_of_endsWord {mark : Char} (h : endsWord cs) (hmark : isSpace mark = false) :
    isDocumentMark mark (c :: cs) = false := by
  unfold isDocumentMark
  split
  next d b _ _ heq =>
    cases heq
    have hb : b ≠ mark := by
      rintro rfl
      rw [endsWord, hmark] at h
      cases h
    simp [hb]
  next => rfl

/-- The dash of an item. -/
theorem reaches_dash (tokens : List Token)
    (h : Opens n .blockSequenceStart indents indents' start)
    (hkey : Stale key line) (hcs : endsWord cs) :
    Reaches (entry tokens indents key line n ('-' :: cs))
      (behind (tokens ++ start ++ [.blockEntry]) indents' true ⟨cs, line, n + 1, n + 1⟩) := by
  have hbegins : BeginsEntry ('-' :: cs) := ⟨by decide, by decide, by decide⟩
  refine .of_step (advance_entry hbegins h.head_le) rfl ?_ (Nat.lt_succ_self _)
  have hmark : isDocumentMark '-' ('-' :: cs) = false := isDocumentMark_of_endsWord hcs (by decide)
  have hmark' : isDocumentMark '.' ('-' :: cs) = false := isDocumentMark_of_ne (by decide)
  have hstep : (entry tokens indents key line n ('-' :: cs)).step? '-' cs
      = Layout.blockEntry? (entry tokens indents key line n ('-' :: cs)) := by
    simp [step?, hmark, hmark', hcs]
  rw [hstep, blockEntry?, if_neg (by simp [entry]), dropKey?_enter_entry h hkey]
  simp [emit, entry, behind, Rest.skip]
  rfl

/-- The question mark before a key that does not stand on the line of its value. -/
theorem reaches_question (tokens : List Token)
    (h : Opens n .blockMappingStart indents indents' start)
    (hkey : Stale key line) (hcs : endsWord cs) :
    Reaches (entry tokens indents key line n ('?' :: cs))
      (behind (tokens ++ start ++ [.key]) indents' true ⟨cs, line, n + 1, n + 1⟩) := by
  have hbegins : BeginsEntry ('?' :: cs) := ⟨by decide, by decide, by decide⟩
  refine .of_step (advance_entry hbegins h.head_le) rfl ?_ (Nat.lt_succ_self _)
  have hmark : isDocumentMark '-' ('?' :: cs) = false := isDocumentMark_of_ne (by decide)
  have hmark' : isDocumentMark '.' ('?' :: cs) = false := isDocumentMark_of_ne (by decide)
  have hstep : (entry tokens indents key line n ('?' :: cs)).step? '?' cs
      = (entry tokens indents key line n ('?' :: cs)).key? := by
    simp [step?, hmark, hmark', hcs]
  rw [hstep, key?, if_neg (by simp [entry]), dropKey?_enter_entry h hkey]
  simp [emit, entry, behind, Rest.skip, inFlow]
  rfl

/-- The colon behind such a key, on a line of its own. -/
theorem reaches_colon (hkey : Stale key line) (hcs : endsWord cs) :
    Reaches (entry tokens (n :: indents) key line n (':' :: cs))
      (behind (tokens ++ [.value]) (n :: indents) true ⟨cs, line, n + 1, n + 1⟩) := by
  have hbegins : BeginsEntry (':' :: cs) := ⟨by decide, by decide, by decide⟩
  have hopens : Opens n .blockMappingStart (n :: indents) (n :: indents) [] := .level
  refine .of_step (advance_entry hbegins hopens.head_le) rfl ?_ (Nat.lt_succ_self _)
  have hmark : isDocumentMark '-' (':' :: cs) = false := isDocumentMark_of_ne (by decide)
  have hmark' : isDocumentMark '.' (':' :: cs) = false := isDocumentMark_of_ne (by decide)
  have hstep : (entry tokens (n :: indents) key line n (':' :: cs)).step? ':' cs
      = (entry tokens (n :: indents) key line n (':' :: cs)).value? := by
    simp [step?, hmark, hmark', hcs]
  have hfilter : key.filter (fun k => k.reaches ⟨':' :: cs, line, n, n⟩) = none := by
    refine Option.filter_eq_none_iff.2 fun k hk => ?_
    have hline : ¬line ≤ k.line := Nat.not_le_of_lt (hkey k hk).2
    simp [KeyStart.reaches, hline]
  rw [hstep, value?]
  simp [entry, hfilter, dropKey?, hkey.not_isRequired, enter, inFlow, indent, emit, behind,
    Rest.skip]
  rfl

/-! ## Keys -/

/-- What is noted at the beginning of a scalar. -/
def noted (tokens : List Token) (indents : List Nat) (key : Option KeyStart) (keyAllowed : Bool)
    (r : Rest) : Option KeyStart :=
  if keyAllowed then
    some ⟨tokens.length, decide (indents.head? = some r.column), r.line, r.column, r.offset⟩
  else key

/-- Where no required key is pending, the next token may begin a key. -/
theorem noteKey?_eq (tokens : List Token) (indents : List Nat) (key : Option KeyStart)
    (keyAllowed : Bool) (r : Rest) (hkey : key.any (·.isRequired) = false) :
    noteKey? ⟨tokens.toArray, indents, key, [], keyAllowed, r⟩
      = some ⟨tokens.toArray, indents, noted tokens indents key keyAllowed r, [],
        keyAllowed, r⟩ := by
  have hrequired : decide (indent ⟨tokens.toArray, indents, none, [], keyAllowed, r⟩ = r.column)
      = decide (indents.head? = some r.column) := by
    cases indents with
    | nil =>
      simp only [indent]
      exact decide_eq_decide.2 ⟨fun h => by omega, nofun⟩
    | cons m ms =>
      simp only [indent]
      exact decide_eq_decide.2 ⟨fun h => congrArg some (Int.ofNat.inj h),
        fun h => congrArg Int.ofNat (Option.some.inj h)⟩
  rw [noteKey?, noted]
  cases keyAllowed with
  | false => rfl
  | true => simp [dropKey?, hkey, inFlow, hrequired]

/-- What was noted at a scalar that no key had to begin is stale on a later line. -/
theorem stale_noted {keyAllowed : Bool} {r : Rest} (hkey : key = none)
    (hcolumn : ∀ m ∈ indents.head?, m < r.column) (hline : r.line < line) :
    Stale (noted tokens indents key keyAllowed r) line := by
  intro k hk
  rw [noted, hkey] at hk
  split at hk
  next =>
    cases hk
    refine ⟨decide_eq_false fun h => ?_, hline⟩
    exact absurd (hcolumn _ h) (Nat.lt_irrefl _)
  next => cases hk

/-- The colon behind a key on its line. The token for the key, and one for the mapping if it begins
with the entry, are inserted before the key. -/
theorem reaches_value {offset : Nat} {required : Bool}
    (h : Opens n .blockMappingStart indents indents' start) (hcolumn : n ≤ column)
    (hoffset : offset ≤ n + 1024) (hcs : endsWord cs) :
    Reaches
      ⟨(tokens ++ [t]).toArray, indents, some ⟨tokens.length, required, line, n, n⟩, [], false,
        ⟨':' :: cs, line, column, offset⟩⟩
      (behind (tokens ++ start ++ [.key, t, .value]) indents' false
        ⟨cs, line, column + 1, offset + 1⟩) := by
  have hbegins : BeginsEntry (':' :: cs) := ⟨by decide, by decide, by decide⟩
  have hreaches : KeyStart.reaches ⟨tokens.length, required, line, n, n⟩
      ⟨':' :: cs, line, column, offset⟩ = true := by simp [KeyStart.reaches, hoffset]
  generalize hs : (⟨(tokens ++ [t]).toArray, indents, some ⟨tokens.length, required, line, n, n⟩,
    [], false, ⟨':' :: cs, line, column, offset⟩⟩ : Layout) = s
  have hadvance : s.advance = s := by
    subst hs
    rw [advance]
    simp only [inFlow, List.isEmpty_nil, Bool.not_true, skipSpace_of_beginsEntry _ _ hbegins]
    exact close_of_le fun m hm => Nat.le_trans (h.head_le m hm) hcolumn
  refine .of_step hadvance (by rw [← hs]) ?_ (by rw [← hs]; exact Nat.lt_succ_self _)
  have hmark : isDocumentMark '-' (':' :: cs) = false := isDocumentMark_of_ne (by decide)
  have hmark' : isDocumentMark '.' (':' :: cs) = false := isDocumentMark_of_ne (by decide)
  have hstep : s.step? ':' cs = s.value? := by simp [step?, hmark, hmark', hcs]
  rw [hstep, value?]
  subst hs
  simp only [Option.filter_some, hreaches, if_true, List.insertIdxIfInBounds_toArray,
    insertIdx_append_length, enter_of_opens h]
  simp [emit, behind, Rest.skip]
  rfl

end Layout

end Yaml

end RpcOpenApi
