import RpcOpenApi.Json.Basic

/-!
# Writing JSON texts

A tree is written in one of two forms: on one line without blanks (`Json.compact`), or over several
lines with two blanks of indentation for each level (`Json.pretty`). Members are written as they
stand, repeated keys included.
-/

namespace RpcOpenApi

namespace Json

/-- A floating number in a JSON text has a sign before every exponent. -/
def floatSpelling : Decimal.Spelling := ⟨true⟩

/-- The text of a number. One without a spelling is written as `null`. -/
def numberText : Number → List Char
  | .int i => intText i
  | .float d => d.layout floatSpelling
  | .nonFinite => "null".toList

/-- A lower-case hexadecimal digit. -/
def hexChar (n : Nat) : Char := Nat.digitChar n

/-- A character inside quotes: quote and backslash, and the control characters below U+0020, are
escaped; everything else stands for itself. -/
def quotedChar (c : Char) : List Char :=
  match c with
  | '"' => ['\\', '"']
  | '\\' => ['\\', '\\']
  | '\x08' => ['\\', 'b']
  | '\x0c' => ['\\', 'f']
  | '\n' => ['\\', 'n']
  | '\r' => ['\\', 'r']
  | '\t' => ['\\', 't']
  | c =>
    if c.toNat < 0x20 then
      ['\\', 'u', '0', '0', hexChar (c.toNat / 16), hexChar (c.toNat % 16)]
    else [c]

/-- A string in quotes. -/
def quoted (s : String) : List Char := '"' :: s.toList.flatMap quotedChar ++ ['"']

mutual

/-- The text of a tree on one line. -/
def compactChars : Json → List Char
  | .null => "null".toList
  | .bool true => "true".toList
  | .bool false => "false".toList
  | .num n => numberText n
  | .str s => quoted s
  | .arr [] => ['[', ']']
  | .arr (j :: js) => '[' :: compactChars j ++ compactItems js
  | .obj [] => ['{', '}']
  | .obj ((k, j) :: ms) => '{' :: quoted k ++ ':' :: compactChars j ++ compactMembers ms

/-- The items after the first one, and the end of the array. -/
def compactItems : List Json → List Char
  | [] => [']']
  | j :: js => ',' :: compactChars j ++ compactItems js

/-- The members after the first one, and the end of the object. -/
def compactMembers : List (String × Json) → List Char
  | [] => ['}']
  | (k, j) :: ms => ',' :: quoted k ++ ':' :: compactChars j ++ compactMembers ms

end

/-- A new line at a level of nesting. -/
def newline (level : Nat) : List Char := '\n' :: List.replicate (2 * level) ' '

mutual

/-- The text of a tree over several lines, at a level of nesting. Empty containers stay on their
line. -/
def prettyChars (level : Nat) : Json → List Char
  | .null => "null".toList
  | .bool true => "true".toList
  | .bool false => "false".toList
  | .num n => numberText n
  | .str s => quoted s
  | .arr [] => ['[', ']']
  | .arr (j :: js) =>
    '[' :: newline (level + 1) ++ prettyChars (level + 1) j ++ prettyItems level js
  | .obj [] => ['{', '}']
  | .obj ((k, j) :: ms) =>
    '{' :: newline (level + 1) ++ quoted k ++ ':' :: ' ' :: prettyChars (level + 1) j
      ++ prettyMembers level ms

/-- The items after the first one, and the end of the array. -/
def prettyItems (level : Nat) : List Json → List Char
  | [] => newline level ++ [']']
  | j :: js => ',' :: newline (level + 1) ++ prettyChars (level + 1) j ++ prettyItems level js

/-- The members after the first one, and the end of the object. -/
def prettyMembers (level : Nat) : List (String × Json) → List Char
  | [] => newline level ++ ['}']
  | (k, j) :: ms =>
    ',' :: newline (level + 1) ++ quoted k ++ ':' :: ' ' :: prettyChars (level + 1) j
      ++ prettyMembers level ms

end

/-- The text of a tree on one line. -/
def compact (j : Json) : String := String.ofList j.compactChars

/-- The text of a tree over several lines, with a final newline. -/
def pretty (j : Json) : String := String.ofList (j.prettyChars 0 ++ ['\n'])

end Json

end RpcOpenApi
