/-!
# Characters of a YAML text

The classes of characters on which the reading and the writing of YAML texts depend, and the form in
which a text is read: its lines end with one character each (`Yaml.unifyBreaks`).
-/

namespace RpcOpenApi

namespace Yaml

/-- A character that ends a line. -/
def isBreak (c : Char) : Bool :=
  c = '\n' || c = '\r' || c = '\u0085' || c = '\u2028' || c = '\u2029'

/-- A blank within a line. -/
def isBlank (c : Char) : Bool := c = ' ' || c = '\t'

/-- A blank or the end of a line. -/
def isSpace (c : Char) : Bool := isBlank c || isBreak c

/-- Nothing follows, or a blank, or the end of a line. -/
def endsWord : List Char → Bool
  | [] => true
  | c :: _ => isSpace c

/-- A character that may stand in a text. -/
def isAllowed (c : Char) : Bool :=
  let n := c.toNat
  n = 0x09 || n = 0x0a || n = 0x0d || (0x20 ≤ n && n ≤ 0x7e) || n = 0x85
    || (0xa0 ≤ n && n ≤ 0xd7ff) || (0xe000 ≤ n && n ≤ 0xfffd) || 0x10000 ≤ n

/-- The mark that may stand before a line. -/
def byteOrderMark : Char := '\ufeff'

/-- A character that is written as itself. -/
def isPrintable (c : Char) : Bool :=
  isAllowed c && c ≠ '\t' && c ≠ '\r' && c ≠ '\u0085' && c ≠ byteOrderMark

/-- A character of a name: of an anchor, a directive or the handle of a tag. -/
def isNameChar (c : Char) : Bool := c.isAlphanum || c = '_' || c = '-'

/-- A text whose lines end with a line feed. The line and the paragraph separator end a line as
well, but stay what they are. -/
def unifyBreaks : List Char → List Char
  | '\r' :: '\n' :: cs => '\n' :: unifyBreaks cs
  | c :: cs => (if c = '\r' ∨ c = '\u0085' then '\n' else c) :: unifyBreaks cs
  | [] => []

end Yaml

end RpcOpenApi
