import RpcOpenApi.Yaml.Token

/-!
# The text of a scalar

A scalar that spans several lines is folded: a single end of a line stands for a blank, and of
several the first is dropped (`Yaml.Gap.fold`). Block scalars are delimited by their indentation,
the others by quotes, by indicators, or by less indentation.
-/

namespace RpcOpenApi

namespace Yaml

/-! ## Gaps within a scalar -/

/-- The blanks between two words of a scalar, kept in reverse. -/
inductive Gap where
  | none
  | blanks (run : List Char)
  /-- The end of a line, unless it was escaped, and those of the empty lines that follow. -/
  | lines (first : Option Char) (more : List Char)

namespace Gap

/-- A blank in a gap counts only before the end of the line. -/
def blank (c : Char) : Gap → Gap
  | none => blanks [c]
  | blanks run => blanks (c :: run)
  | lines first more => lines first more

/-- The end of a line in a gap. -/
def lineEnd (c : Char) : Gap → Gap
  | none | blanks _ => lines (some c) []
  | lines first more => lines first (c :: more)

/-- The gap spans lines. -/
def isLines : Gap → Bool
  | lines _ _ => true
  | _ => false

/-- The gap is empty. -/
def isNone : Gap → Bool
  | none => true
  | _ => false

/-- What a gap stands for, in reverse. -/
def fold : Gap → List Char
  | none => []
  | blanks run => run
  | lines (some '\n') [] => [' ']
  | lines (some '\n') more => more
  | lines first more => more ++ first.toList

end Gap

/-! ## Plain scalars -/

/-- What has been read of a scalar: the text before the gap, in reverse, and the gap. -/
structure Words where
  text : List Char := []
  gap : Gap := .none

namespace Words

/-- Adds a character that is no blank. -/
def add (w : Words) (c : Char) : Words := { text := c :: w.gap.fold ++ w.text }

/-- Adds a character to the gap. -/
def addSpace (w : Words) (c : Char) : Words :=
  { w with gap := if isBreak c then w.gap.lineEnd c else w.gap.blank c }

end Words

/-- A plain scalar ends before a character that is no blank. -/
def endsPlain (inFlow : Bool) (cs : List Char) : Bool :=
  match cs with
  | ':' :: rest => endsWord rest
  | c :: _ => inFlow && c ∈ [',', '[', ']', '{', '}']
  | [] => true

/-- A plain scalar that has come to a gap does not go on after it: the next line is indented less,
or a document mark or a comment follows. -/
def stopsPlain (inFlow : Bool) (indent : Int) (column : Nat) (cs : List Char) : Bool :=
  (!inFlow && (column : Int) < indent) || atDocumentMark column cs || cs.head? = some '#'

/-- A colon in a flow collection that is followed by an indicator is neither a part of a plain
scalar nor its end. -/
def isStrayColon (inFlow : Bool) (cs : List Char) : Bool :=
  match cs with
  | ':' :: c :: _ => inFlow && c ∈ [',', '?', '[', ']', '{', '}']
  | _ => false

/-- The outcome of reading a plain scalar: its text, whether its end stands on a later line than its
last word, and what is left. -/
def Words.endPlain (w : Words) (r : Rest) (cs : List Char) : List Char × Bool × Rest :=
  (w.text.reverse, w.gap.isLines, { r with chars := cs })

/-- Reads a plain scalar. -/
def plain? (inFlow : Bool) (indent : Int) (w : Words) (r : Rest) :
    List Char → Option (List Char × Bool × Rest)
  | [] => some (w.endPlain r [])
  | c :: cs =>
    if isBreak c then plain? inFlow indent (w.addSpace c) (r.down cs) cs
    else if isBlank c then
      if c = '\t' && w.gap.isLines && (r.column : Int) < indent then none
      else plain? inFlow indent (w.addSpace c) (r.right c cs) cs
    else if !w.gap.isNone && stopsPlain inFlow indent r.column (c :: cs) then
      some (w.endPlain r (c :: cs))
    else if isStrayColon inFlow (c :: cs) then none
    else if endsPlain inFlow (c :: cs) then some (w.endPlain r (c :: cs))
    else plain? inFlow indent (w.add c) (r.right c cs) cs

/-! ## Quoted scalars -/

/-- Reads a scalar in single quotes, after the first one. -/
def singleQuoted? (w : Words) (r : Rest) : List Char → Option (List Char × Rest)
  | [] => none
  | c :: cs =>
    if isBreak c then singleQuoted? (w.addSpace c) (r.down cs) cs
    else if isBlank c then singleQuoted? (w.addSpace c) (r.right c cs) cs
    else if atDocumentMark r.column (c :: cs) then none
    else if c = '\'' then
      match cs with
      | '\'' :: cs => singleQuoted? (w.add '\'') ((r.right c cs).right c cs) cs
      | cs => some ((w.gap.fold ++ w.text).reverse, r.right c cs)
    else singleQuoted? (w.add c) (r.right c cs) cs

/-- The character of a one-letter escape. -/
def escaped? (c : Char) : Option Char :=
  match c with
  | '0' => some '\x00'
  | 'a' => some '\x07'
  | 'b' => some '\x08'
  | 't' => some '\t'
  | '\t' => some '\t'
  | 'n' => some '\n'
  | 'v' => some '\x0b'
  | 'f' => some '\x0c'
  | 'r' => some '\r'
  | 'e' => some '\x1b'
  | ' ' => some ' '
  | '"' => some '"'
  | '/' => some '/'
  | '\\' => some '\\'
  | 'N' => some '\u0085'
  | '_' => some '\u00a0'
  | 'L' => some '\u2028'
  | 'P' => some '\u2029'
  | _ => none

/-- The number of hexadecimal digits of an escape. -/
def escapeLength? (c : Char) : Option Nat :=
  match c with
  | 'x' => some 2
  | 'u' => some 4
  | 'U' => some 8
  | _ => none

/-- The character with a code, if there is one. -/
def charOfCode? (n : Nat) : Option Char :=
  if n < 0xd800 ∨ (0xdfff < n ∧ n ≤ 0x10ffff) then some (Char.ofNat n) else none

/-- Where a scalar in double quotes is being read: in its text, after a backslash, or in an escape
with some digits to come and the value of those before. -/
inductive EscapeState where
  | text
  | backslash
  | digits (left value : Nat)

/-- Reads a scalar in double quotes, after the first one. -/
def doubleQuoted? (w : Words) (state : EscapeState) (r : Rest) :
    List Char → Option (List Char × Rest)
  | [] => none
  | c :: cs =>
    match state with
    | .text =>
      if isBreak c then doubleQuoted? (w.addSpace c) .text (r.down cs) cs
      else if isBlank c then doubleQuoted? (w.addSpace c) .text (r.right c cs) cs
      else if atDocumentMark r.column (c :: cs) then none
      else if c = '"' then some ((w.gap.fold ++ w.text).reverse, r.right c cs)
      else if c = '\\' then doubleQuoted? w .backslash (r.right c cs) cs
      else doubleQuoted? (w.add c) .text (r.right c cs) cs
    | .backslash =>
      if isBreak c then
        doubleQuoted? { text := w.gap.fold ++ w.text, gap := .lines none [] } .text (r.down cs) cs
      else
        match escapeLength? c with
        | some n => doubleQuoted? w (.digits n 0) (r.right c cs) cs
        | none =>
          match escaped? c with
          | some e => doubleQuoted? (w.add e) .text (r.right c cs) cs
          | none => none
    | .digits left value =>
      match hexDigit? c with
      | none => none
      | some d =>
        let value := 16 * value + d
        if left ≤ 1 then
          match charOfCode? value with
          | some e => doubleQuoted? (w.add e) .text (r.right c cs) cs
          | none => none
        else doubleQuoted? w (.digits (left - 1) value) (r.right c cs) cs

/-! ## Block scalars -/

/-- What happens to the end of the last line of a block scalar and to the empty lines after it. -/
inductive Chomping where
  | strip
  | clip
  | keep
  deriving DecidableEq

/-- The chomping that an indicator asks for. -/
def chomping? (c : Char) : Option Chomping :=
  if c = '+' then some .keep else if c = '-' then some .strip else none

/-- The header of a block scalar, after its indicator: the chomping, and how much further than its
parent it is indented, `none` if that is to be seen from its lines. -/
def blockHeader? (r : Rest) : Option (Chomping × Option Nat × Rest) := do
  let digit (c : Char) : Option Nat :=
    if c.isDigit && c ≠ '0' then some (c.toNat - 48) else none
  let (chomping, increment, r) ← match r.chars with
    | [] => pure (Chomping.clip, none, r)
    | c :: cs =>
      match chomping? c with
      | some ch =>
        if cs.head?.any Char.isDigit then do
          pure (ch, some (← cs.head?.bind digit), r.skip 2)
        else pure (ch, none, r.skip 1)
      | none =>
        if c.isDigit then do
          let n ← digit c
          match cs.head?.bind chomping? with
          | some ch => pure (ch, some n, r.skip 2)
          | none => pure (.clip, some n, r.skip 1)
        else pure (.clip, none, r)
  let r := r.skipComment
  if !r.atLineEnd then none
  match r.chars with
  | [] => return (chomping, increment, r)
  | _ :: cs => return (chomping, increment, r.down cs)

/-- What has been read of a block scalar. Texts are kept in reverse. -/
structure BlockLines where
  text : List Char := []
  /-- The end of the last line. -/
  lineEnd : Option Char := none
  /-- The ends of the empty lines after it. -/
  more : List Char := []
  /-- The last line begins with a blank. -/
  leadingBlank : Bool := false
  /-- The last line is being read. -/
  inLine : Bool := false
  /-- The indentation, once it is known. -/
  indent : Option Nat := none
  /-- The greatest indentation of the empty lines before the first line. -/
  widest : Nat := 0

namespace BlockLines

/-- The text before a new line that begins with `c`. In a folded scalar the end of a line between
two lines that do not begin with a blank is folded. -/
def joined (literal : Bool) (b : BlockLines) (c : Char) : List Char :=
  if !literal && b.lineEnd = some '\n' && !b.leadingBlank && !isBlank c then
    (if b.more.isEmpty then [' '] else b.more) ++ b.text
  else b.more ++ b.lineEnd.toList ++ b.text

/-- Begins a new line with its first character. -/
def beginLine (literal : Bool) (b : BlockLines) (c : Char) : BlockLines :=
  { b with
    text := c :: b.joined literal c
    lineEnd := none
    more := []
    leadingBlank := isBlank c
    inLine := true }

/-- The whole text. -/
def finish (chomping : Chomping) (b : BlockLines) : List Char :=
  (match chomping with
    | .strip => b.text
    | .clip => b.lineEnd.toList ++ b.text
    | .keep => b.more ++ b.lineEnd.toList ++ b.text).reverse

end BlockLines

/-- Reads the lines of a block scalar. `least` is the least indentation that they may have. -/
def blockLines? (literal : Bool) (chomping : Chomping) (least : Nat) (b : BlockLines) (r : Rest) :
    List Char → Option (List Char × Rest)
  | [] => some (b.finish chomping, { r with chars := [] })
  | c :: cs =>
    if b.inLine then
      if isBreak c then
        blockLines? literal chomping least { b with lineEnd := some c, inLine := false }
          (r.down cs) cs
      else blockLines? literal chomping least { b with text := c :: b.text } (r.right c cs) cs
    else
      let outside := match b.indent with
        | some n => decide (r.column < n)
        | none => true
      if c = ' ' && outside then
        blockLines? literal chomping least { b with widest := max b.widest (r.column + 1) }
          (r.right c cs) cs
      else if c = '\t' && outside then none
      else if isBreak c then
        blockLines? literal chomping least { b with more := c :: b.more } (r.down cs) cs
      else
        let indent := b.indent.getD (max b.widest least)
        if r.column = indent then
          blockLines? literal chomping least
            ({ b with indent := some indent }.beginLine literal c) (r.right c cs) cs
        else some (b.finish chomping, { r with chars := c :: cs })

/-- Reads a block scalar after its indicator. `parent` is the indentation of the container that it
stands in. -/
def block? (literal : Bool) (parent : Int) (r : Rest) : Option (List Char × Rest) := do
  let (chomping, increment, r) ← blockHeader? r
  let indent := increment.map (fun n => (max parent 0).toNat + n)
  blockLines? literal chomping (max (parent + 1) 1).toNat { indent } r r.chars

end Yaml

end RpcOpenApi
