import RpcOpenApi.Text.Printable

/-!
# Texts in error messages

A message quotes a text that was found so that it stays on one line and every character can be
told: quotes, backslashes and everything that has no picture of its own are escaped.
-/

namespace RpcOpenApi

namespace Text

/-- A character inside the quotes of a message. -/
def quotedChar (c : Char) : List Char :=
  match c with
  | '"' => ['\\', '"']
  | '\\' => ['\\', '\\']
  | '\x00' => ['\\', '0']
  | '\t' => ['\\', 't']
  | '\n' => ['\\', 'n']
  | '\r' => ['\\', 'r']
  | c =>
    if isPrintable c then [c]
    else ['\\', 'u', '{'] ++ Nat.toDigits 16 c.toNat ++ ['}']

/-- A text in quotes. -/
def quoted (s : String) : String := String.ofList ('"' :: s.toList.flatMap quotedChar ++ ['"'])

end Text

end RpcOpenApi
