import RpcOpenApi.Yaml.Scalar

/-!
# Writing YAML texts

A tree is written in block style: each entry of a container on its own lines, two blanks of
indentation for each level. A sequence within a mapping is not indented further than its key, and a
container within a sequence begins on the line of its dash. Lines are never folded.

A text is written without quotes where that is possible, a text of several lines as a literal
block, and else in the quotes that can express it (`Yaml.textStyle`).
-/

namespace RpcOpenApi

namespace Yaml

/-! ## The style of a text -/

/-- The way in which a text is written. -/
inductive TextStyle where
  | plain
  | singleQuoted
  | doubleQuoted
  | literal
  deriving DecidableEq

/-- A character that means something else than itself at the beginning of a plain scalar. -/
def isLeadingIndicator (c : Char) : Bool :=
  c ∈ ['#', ',', '[', ']', '{', '}', '&', '*', '!', '|', '>', '\'', '"', '%', '@', '\x60']

/-- The beginning of a text means something else than itself. -/
def beginsWithIndicator (cs : List Char) : Bool :=
  match cs with
  | '-' :: '-' :: '-' :: _ => true
  | '.' :: '.' :: '.' :: _ => true
  | c :: rest => isLeadingIndicator c || ((c = '-' || c = '?') && endsWord rest)
  | [] => false

/-- A text has a colon at the end of a word, or a number sign after a blank. `spaced` says whether
the character before was a blank. -/
def hasInnerIndicator (spaced : Bool) : List Char → Bool
  | [] => false
  | c :: cs =>
    (c = ':' && endsWord cs) || (c = '#' && spaced) || hasInnerIndicator (isSpace c) cs

/-- Some character that satisfies the first test is directly followed by one that satisfies the
second. -/
def hasPair (p q : Char → Bool) : List Char → Bool
  | c :: d :: cs => (p c && q d) || hasPair p q (d :: cs)
  | _ => false

/-- The first or the last character of a text satisfies a test. -/
def bordersOn (p : Char → Bool) (cs : List Char) : Bool := cs.head?.any p || cs.getLast?.any p

/-- A text can only be written with escapes: it has a character that is not written as itself, or a
blank before the end of a line. -/
def needsEscapes (cs : List Char) : Bool :=
  !cs.all (fun c => isPrintable c) || hasPair (· = ' ') isBreak cs

/-- A text can be written without quotes, as far as its characters are concerned. -/
def plainAllowed (cs : List Char) : Bool :=
  !(beginsWithIndicator cs || hasInnerIndicator false cs || bordersOn (· = ' ') cs
    || cs.any isBreak || needsEscapes cs)

/-- A text can be written in single quotes. -/
def singleQuotesAllowed (cs : List Char) : Bool :=
  !(needsEscapes cs || hasPair isBreak (· = ' ') cs)

/-- A text can be written as a literal block. -/
def literalAllowed (cs : List Char) : Bool := !(needsEscapes cs || cs.getLast?.any (· = ' '))

/-- The style in which a text is written. -/
def textStyle (cs : List Char) : TextStyle :=
  if cs.any (· = '\n') then
    if literalAllowed cs then .literal else .doubleQuoted
  else if !needsQuotes cs && plainAllowed cs then .plain
  else if singleQuotesAllowed cs then .singleQuoted
  else .doubleQuoted

/-! ## Scalars -/

/-- A run of blanks. -/
def pad (n : Nat) : List Char := List.replicate n ' '

/-- An upper-case hexadecimal digit. -/
def hexChar (n : Nat) : Char := if n < 10 then Char.ofNat (48 + n) else Char.ofNat (55 + n)

/-- The last digits of a number in base sixteen, as many as are asked for. -/
def hexDigits : Nat → Nat → List Char
  | 0, _ => []
  | width + 1, n => hexDigits width (n / 16) ++ [hexChar (n % 16)]

/-- The escape of a character. -/
def escape (c : Char) : List Char :=
  match c with
  | '\x00' => ['\\', '0']
  | '\x07' => ['\\', 'a']
  | '\x08' => ['\\', 'b']
  | '\x09' => ['\\', 't']
  | '\x0a' => ['\\', 'n']
  | '\x0b' => ['\\', 'v']
  | '\x0c' => ['\\', 'f']
  | '\x0d' => ['\\', 'r']
  | '\x1b' => ['\\', 'e']
  | '"' => ['\\', '"']
  | '\\' => ['\\', '\\']
  | '\u0085' => ['\\', 'N']
  | '\u2028' => ['\\', 'L']
  | '\u2029' => ['\\', 'P']
  | c =>
    let n := c.toNat
    if n ≤ 0xff then '\\' :: 'x' :: hexDigits 2 n
    else if n ≤ 0xffff then '\\' :: 'u' :: hexDigits 4 n
    else '\\' :: 'U' :: hexDigits 8 n

/-- A character in double quotes. -/
def doubleQuotedChar (c : Char) : List Char :=
  if !isPrintable c || isBreak c || c = '"' || c = '\\' then escape c else [c]

/-- A text in double quotes. -/
def doubleQuoted (cs : List Char) : List Char := '"' :: cs.flatMap doubleQuotedChar ++ ['"']

/-- The rest of a text in single quotes. After the end of a line, what comes next is indented.
`fresh` says whether the last character ended a line. -/
def singleQuotedTail (indent : Nat) (fresh : Bool) : List Char → List Char
  | [] => (if fresh then pad indent else []) ++ ['\'']
  | c :: cs =>
    if isBreak c then c :: singleQuotedTail indent true cs
    else (if fresh then pad indent else []) ++ (if c = '\'' then ['\'', '\''] else [c])
      ++ singleQuotedTail indent false cs

/-- The lines of a literal block, with the end of the last one. `fresh` says whether the last
character ended a line. -/
def literalLines (indent : Nat) (fresh : Bool) : List Char → List Char
  | [] => if fresh then [] else ['\n']
  | c :: cs =>
    if isBreak c then c :: literalLines indent true cs
    else (if fresh then pad indent else []) ++ c :: literalLines indent false cs

/-- The number of blanks by which each level is indented. -/
def step : Nat := 2

/-- What the header of a literal block says about the beginning of the text: the indentation, if the
text itself begins with a blank or an empty line. -/
def indentationMark (cs : List Char) : List Char :=
  if cs.head?.any (fun c => c = ' ' || isBreak c) then Decimal.decimalDigits step else []

/-- What the header of a literal block says about the end of the text: a minus sign if the last line
does not end, a plus sign if empty lines follow it. -/
def chompingMark (cs : List Char) : List Char :=
  match cs.reverse with
  | [] => ['-']
  | [c] => if isBreak c then ['+'] else ['-']
  | c :: d :: _ => if !isBreak c then ['-'] else if isBreak d then ['+'] else []

/-- A text as a literal block. -/
def literal (indent : Nat) (cs : List Char) : List Char :=
  '|' :: indentationMark cs ++ chompingMark cs ++ '\n' :: literalLines indent true cs

/-- A text in a style other than a literal block. -/
def flowText (indent : Nat) (style : TextStyle) (cs : List Char) : List Char :=
  match style with
  | .plain => cs
  | .singleQuoted => '\'' :: singleQuotedTail indent false cs
  | _ => doubleQuoted cs

/-- A text with the end of its last line. -/
def textLines (indent : Nat) (cs : List Char) : List Char :=
  match textStyle cs with
  | .literal => literal indent cs
  | style => flowText indent style cs ++ ['\n']

/-- A floating number in a YAML text has no sign before a positive exponent. -/
def floatSpelling : Decimal.Spelling := ⟨false⟩

/-- The text of a number. -/
def numberText : Number → List Char
  | .int i => intText i
  | .float d => d.layout floatSpelling
  | .nonFinite => ".nan".toList

/-! ## Containers -/

/-- A key that is written on the line of its value: it has one line and at most 128 bytes. -/
def isSimpleKey (k : String) : Bool := !k.toList.any isBreak && k.utf8ByteSize ≤ 128

/-- An entry of a mapping up to the colon, after the indentation of its first line. A key that is
not simple stands on lines of its own. -/
def keyChars (indent : Nat) (k : String) : List Char :=
  if isSimpleKey k then flowText indent (textStyle k.toList) k.toList ++ [':']
  else '?' :: ' ' :: textLines (indent + step) k.toList ++ pad indent ++ [':']

mutual

/-- What follows an indicator in a container that is indented by `indent`. A nonempty container
begins on the line of a dash (`compact`), but not on the line of a simple key. A sequence below a
simple key is not indented further. -/
def nodeChars (indent : Nat) (compact : Bool) : Json → List Char
  | .null => ' ' :: "null".toList ++ ['\n']
  | .bool true => ' ' :: "true".toList ++ ['\n']
  | .bool false => ' ' :: "false".toList ++ ['\n']
  | .num n => ' ' :: numberText n ++ ['\n']
  | .str s => ' ' :: textLines (indent + step) s.toList
  | .arr [] => [' ', '[', ']', '\n']
  | .arr (j :: js) =>
    let inner := if compact then indent + step else indent
    (if compact then [' '] else '\n' :: pad inner) ++ '-' :: nodeChars inner true j
      ++ itemsChars inner js
  | .obj [] => [' ', '{', '}', '\n']
  | .obj ((k, j) :: ms) =>
    let inner := indent + step
    (if compact then [' '] else '\n' :: pad inner) ++ keyChars inner k
      ++ nodeChars inner (!isSimpleKey k) j ++ membersChars inner ms

/-- The entries of a sequence after the first one. -/
def itemsChars (indent : Nat) : List Json → List Char
  | [] => []
  | j :: js => pad indent ++ '-' :: nodeChars indent true j ++ itemsChars indent js

/-- The entries of a mapping after the first one. -/
def membersChars (indent : Nat) : List (String × Json) → List Char
  | [] => []
  | (k, j) :: ms =>
    pad indent ++ keyChars indent k ++ nodeChars indent (!isSimpleKey k) j ++ membersChars indent ms

end

/-- The text of a tree. -/
def renderChars : Json → List Char
  | .str s => textLines step s.toList
  | .arr (j :: js) => itemsChars 0 (j :: js)
  | .obj (m :: ms) => membersChars 0 (m :: ms)
  | j => (nodeChars 0 true j).drop 1

/-- The text of a tree. -/
def render (j : Json) : String := String.ofList (renderChars j)

end Yaml

end RpcOpenApi
