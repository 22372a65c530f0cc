import RpcOpenApi.Yaml.Character

/-!
# Tokens of a YAML text

The tokens of a YAML text are its indicators and scalars, and the marks that its indentation makes:
where a block container begins and ends. This module has the tokens and the readers of the smaller
ones: names, tags, directives. A reader takes the rest of the text with its position and gives what
it has read with what is left (`Yaml.Rest`).
-/

namespace RpcOpenApi

namespace Yaml

/-- How a scalar is written. -/
inductive ScalarStyle where
  | plain
  | singleQuoted
  | doubleQuoted
  | literal
  | folded
  deriving DecidableEq, Repr

/-- The bytes of a tag, which need not be the encoding of a text. -/
abbrev TagBytes := List UInt8

/-- The bytes of a tag that is given as a text. -/
def tagBytes (tag : String) : TagBytes := tag.toUTF8.toList

/-- A token of a YAML text. -/
inductive Token where
  | versionDirective (major minor : Nat)
  | tagDirective (handle : List Char) (expansion : TagBytes)
  | documentStart
  | documentEnd
  | blockSequenceStart
  | blockMappingStart
  | blockEnd
  | flowSequenceStart
  | flowSequenceEnd
  | flowMappingStart
  | flowMappingEnd
  | blockEntry
  | flowEntry
  | key
  | value
  | alias (name : List Char)
  | anchor (name : List Char)
  | tag (handle : List Char) (suffix : TagBytes)
  | scalar (style : ScalarStyle) (text : List Char)
  deriving DecidableEq, Repr

/-- What is left of a text, with its position: the number of the line, and how many characters and
how many bytes of the line are before it. -/
structure Rest where
  chars : List Char
  line : Nat
  column : Nat
  offset : Nat

namespace Rest

/-- The position after a character of a line, and what is left there. -/
def right (r : Rest) (c : Char) (cs : List Char) : Rest :=
  ⟨cs, r.line, r.column + 1, r.offset + c.utf8Size⟩

/-- The position after the end of a line, and what is left there. -/
def down (r : Rest) (cs : List Char) : Rest := ⟨cs, r.line + 1, 0, 0⟩

/-- The position after some characters of a line. -/
def skip (r : Rest) (n : Nat) : Rest :=
  ⟨r.chars.drop n, r.line, r.column + n,
    (r.chars.take n).foldl (fun offset c => offset + c.utf8Size) r.offset⟩

/-- The next character satisfies a test. -/
def nextIs (r : Rest) (p : Char → Bool) : Bool := r.chars.head?.any p

/-- The text has ended, or a blank or the end of a line follows. -/
def atSpace (r : Rest) : Bool := endsWord r.chars

/-- The text or the line ends here. -/
def atLineEnd (r : Rest) : Bool :=
  match r.chars with
  | [] => true
  | c :: _ => isBreak c

/-- The characters up to the first one that does not satisfy a test. -/
def span (r : Rest) (p : Char → Bool) : List Char × Rest :=
  let taken := r.chars.takeWhile p
  (taken, r.skip taken.length)

/-- What is left after the blanks of a line. -/
def skipBlanks (r : Rest) : Rest := (r.span isBlank).2

/-- What is left after the blanks of a line and a comment. -/
def skipComment (r : Rest) : Rest :=
  let r := r.skipBlanks
  if r.nextIs (· = '#') then (r.span (fun c => !isBreak c)).2 else r

end Rest

/-- Three characters at the beginning of a line that start or end a document. -/
def isDocumentMark (mark : Char) (cs : List Char) : Bool :=
  match cs with
  | a :: b :: c :: rest => a = mark && b = mark && c = mark && endsWord rest
  | _ => false

/-- A document starts or ends here. -/
def atDocumentMark (column : Nat) (cs : List Char) : Bool :=
  column = 0 && (isDocumentMark '-' cs || isDocumentMark '.' cs)

/-! ## Names and tags -/

/-- The name of an anchor, after its indicator. -/
def anchorName? (r : Rest) : Option (List Char × Rest) :=
  let (name, r) := r.span isNameChar
  let ends := r.atSpace || r.nextIs (· ∈ ['?', ':', ',', ']', '}', '%', '@', '\x60'])
  if name.isEmpty || !ends then none else some (name, r)

/-- A character of a tag that stands for itself. -/
def isTagChar (c : Char) : Bool :=
  isNameChar c
    || c ∈ [';', '/', '?', ':', '@', '&', '=', '+', '$', '.', '!', '~', '*', '\'', '(', ')']

/-- A character that may stand in a tag between angle brackets as well. -/
def isVerbatimTagChar (c : Char) : Bool := isTagChar c || c ∈ [',', '[', ']']

/-- The value of a hexadecimal digit. -/
def hexDigit? (c : Char) : Option Nat :=
  if '0' ≤ c ∧ c ≤ '9' then some (c.toNat - 48)
  else if 'a' ≤ c ∧ c ≤ 'f' then some (c.toNat - 87)
  else if 'A' ≤ c ∧ c ≤ 'F' then some (c.toNat - 55)
  else none

/-- How many bytes follow the first byte of an encoded character. -/
def bytesAfter? (first : Nat) : Option Nat :=
  if first < 0x80 then some 0
  else if first < 0xc0 then none
  else if first < 0xe0 then some 1
  else if first < 0xf0 then some 2
  else if first < 0xf8 then some 3
  else none

/-- How many bytes of a character are to come after a byte. `pending` of them were to come before
it. -/
def pendingAfter? (pending byte : Nat) : Option Nat :=
  match pending with
  | 0 => bytesAfter? byte
  | pending + 1 => if 0x80 ≤ byte ∧ byte < 0xc0 then some pending else none

/-- The bytes of a run of characters of a tag, in which a percent sign with two hexadecimal digits
stands for a byte. Bytes that stand for a character have to be as many as the first one says, and
`pending` of them are to come. -/
def percentBytes? (pending : Nat) : List Char → Option TagBytes
  | [] => if pending = 0 then some [] else none
  | '%' :: a :: b :: cs => do
    let byte := 16 * (← hexDigit? a) + (← hexDigit? b)
    return byte.toUInt8 :: (← percentBytes? (← pendingAfter? pending byte) cs)
  | c :: cs =>
    if c = '%' ∨ pending ≠ 0 then none else do return c.toNat.toUInt8 :: (← percentBytes? 0 cs)

/-- A tag ends before its first zero byte. -/
def untilZero (bytes : TagBytes) : TagBytes := bytes.takeWhile (· ≠ 0)

/-- The longest run of characters of a tag, with the bytes that it stands for. -/
def tagRun? (verbatim : Bool) (r : Rest) : Option (TagBytes × Rest) := do
  let (run, r) := r.span (fun c => c = '%' || if verbatim then isVerbatimTagChar c else isTagChar c)
  return (← percentBytes? 0 run, r)

/-- A tag ends here. Within a flow collection a comma may follow it. -/
def endsTag (inFlow : Bool) (r : Rest) : Bool := r.atSpace || (inFlow && r.nextIs (· = ','))

/-- A tag with its handle, after the exclamation mark. Without a handle of its own it is a local
tag, and a mark that stands alone is the tag of that name. -/
def tag? (inFlow : Bool) (r : Rest) : Option (Token × Rest) := do
  if r.nextIs (· = '<') then
    let (suffix, r) ← tagRun? true (r.skip 1)
    if suffix.isEmpty || !r.nextIs (· = '>') then none
    let r := r.skip 1
    if endsTag inFlow r then return (.tag [] (untilZero suffix), r) else none
  else
    let (name, after) := r.span isNameChar
    if after.nextIs (· = '!') then
      let (suffix, r) ← tagRun? false (after.skip 1)
      if suffix.isEmpty then none
      if !endsTag inFlow r then none
      return (.tag ('!' :: name ++ ['!']) (untilZero suffix), r)
    else
      let (suffix, rest) ← tagRun? false r
      let suffix := untilZero suffix
      if !endsTag inFlow rest then none
      if suffix.isEmpty then return (.tag [] (tagBytes "!"), rest)
      else return (.tag ['!'] suffix, rest)

/-! ## Directives -/

/-- A version number of at most nine digits. -/
def versionNumber? (r : Rest) : Option (Nat × Rest) :=
  let (ds, r) := r.span Char.isDigit
  if ds.isEmpty ∨ ds.length > 9 then none
  else some (ds.foldl (fun n c => 10 * n + (c.toNat - 48)) 0, r)

/-- The version that a version directive gives. -/
def versionDirective? (r : Rest) : Option (Token × Rest) := do
  let (major, r) ← versionNumber? r.skipBlanks
  if !r.nextIs (· = '.') then none
  let (minor, r) ← versionNumber? (r.skip 1)
  return (.versionDirective major minor, r)

/-- The handle that a tag directive gives, with what it stands for. -/
def tagDirective? (r : Rest) : Option (Token × Rest) := do
  let r := r.skipBlanks
  if !r.nextIs (· = '!') then none
  let (name, r) := (r.skip 1).span isNameChar
  let closed := r.nextIs (· = '!')
  if !closed && !name.isEmpty then none
  let handle := '!' :: name ++ (if closed then ['!'] else [])
  let r := if closed then r.skip 1 else r
  if !r.nextIs isBlank then none
  let (expansion, r) ← tagRun? true r.skipBlanks
  if expansion.isEmpty || !r.atSpace then none
  return (.tagDirective handle (untilZero expansion), r)

/-- A directive, after its indicator, with the rest of its line. -/
def directive? (r : Rest) : Option (Token × Rest) := do
  let (name, r) := r.span isNameChar
  if name.isEmpty || !r.atSpace then none
  let (t, r) ←
    if name = "YAML".toList then versionDirective? r
    else if name = "TAG".toList then tagDirective? r
    else none
  let r := r.skipComment
  if !r.atLineEnd then none
  match r.chars with
  | [] => return (t, r)
  | _ :: cs => return (t, r.down cs)

end Yaml

end RpcOpenApi
