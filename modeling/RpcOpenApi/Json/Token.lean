import RpcOpenApi.Json.Basic

/-!
# Tokens of a JSON text

A JSON text is a sequence of tokens with blanks between them. The tokens are found in one pass that
reads the text character by character and keeps what it has read of the current token
(`Json.Reading.step`). Numbers and strings are decoded here, so every fault inside a token is found
here: an unknown word, a malformed number, a control character or a broken escape in a string.

A token may be well-formed and have no value all the same: a string that escapes half of a pair of
code units, or a number out of range. Whether that is a fault depends on where it stands
(`Json.Draft`).
-/

namespace RpcOpenApi

namespace Json

/-- A token of a JSON text. -/
inductive Token where
  | openBracket
  | closeBracket
  | openBrace
  | closeBrace
  | comma
  | colon
  /-- A string, with its text if it has one. -/
  | text (value : Option String)
  /-- A number, `true`, `false` or `null`, with its value unless it is out of range. -/
  | scalar (value : Option Json)
  deriving Repr, BEq

/-! ## Numbers -/

/-- The value of a run of decimal digits. -/
def digitsValue (ds : List Char) : Nat := ds.foldl (fun n c => 10 * n + (c.toNat - 48)) 0

/-- The digits of a number that are used: as many as keep the value below `2 ^ 64`. Gives that
value and the digits that are left. -/
def takeSignificand : Nat → List Char → Nat × List Char
  | n, [] => (n, [])
  | n, c :: cs =>
    let n' := 10 * n + (c.toNat - 48)
    if n' < 2 ^ 64 then takeSignificand n' cs else (n, c :: cs)

/-- `x · 10 ^ exponent` by one rounded multiplication or division. A power below `10 ^ -308` is
reached by dividing by `10 ^ 308` first, at most `steps` times, after which the value is zero.
`none` stands for a value beyond the largest finite one. -/
def scaleByTen : Nat → Binary64 → Int → Option Binary64
  | steps, x, exponent =>
    if exponent.natAbs ≤ 308 then
      if exponent ≥ 0 then x.mul? (Binary64.powerOfTen exponent.natAbs)
      else x.div? (Binary64.powerOfTen exponent.natAbs)
    else if x.mantissa = 0 then some x
    else if exponent ≥ 0 then none
    else match steps with
      | 0 => some Binary64.zero
      | steps + 1 => do
        let smaller ← x.div? (Binary64.powerOfTen 308)
        scaleByTen steps smaller (exponent + 308)

/-- The parts of a number: sign, integral digits, digits after the point, and the exponent. A part
that is not written is `none`. -/
structure NumberParts where
  negative : Bool
  integral : List Char
  fraction : Option (List Char)
  exponent : Option Int

/-- A nonempty run of digits, and what follows it. -/
def takeDigits? (cs : List Char) : Option (List Char × List Char) :=
  let ds := cs.takeWhile Char.isDigit
  if ds.isEmpty then none else some (ds, cs.dropWhile Char.isDigit)

/-- The parts of a number, or `none` if the text is not one: a sign, digits without superfluous
leading zero, a point with digits, an exponent with digits. -/
def NumberParts.ofText? (cs : List Char) : Option NumberParts := do
  let (negative, cs) := match cs with
    | '-' :: rest => (true, rest)
    | _ => (false, cs)
  let (integral, cs) ← takeDigits? cs
  if integral.length > 1 ∧ integral.head? = some '0' then none
  let (fraction, cs) ← match cs with
    | '.' :: rest => do
      let (ds, rest) ← takeDigits? rest
      pure (some ds, rest)
    | _ => pure (none, cs)
  let exponent ← match cs with
    | [] => pure none
    | e :: rest =>
      if e = 'e' ∨ e = 'E' then do
        let (sign, rest) : Int × List Char := match rest with
          | '-' :: r => (-1, r)
          | '+' :: r => (1, r)
          | _ => (1, rest)
        let (ds, rest) ← takeDigits? rest
        if rest.isEmpty then pure (some (sign * digitsValue ds)) else none
      else none
  return { negative, integral, fraction, exponent }

/-- The floating value of a number: the digits that fit into 64 bits, scaled by the power of ten
that the point, the dropped digits and the exponent give. -/
def NumberParts.float? (p : NumberParts) : Option Number := do
  let fraction := p.fraction.getD []
  let (whole, dropped) := takeSignificand 0 p.integral
  let (significand, unused) := takeSignificand whole fraction
  let point : Int := (dropped.length : Int) + unused.length - fraction.length
  let x ← Binary64.ofDecimal? significand 0
  let scaled ← scaleByTen 3 x (point + p.exponent.getD 0)
  return .float (Decimal.ofBinary64 p.negative scaled)

/-- The value of a number. A number that is written as an integer and fits into 64 bits is one;
every other number, and minus zero, is a floating value. -/
def NumberParts.value? (p : NumberParts) : Option Number :=
  let whole : Int := digitsValue p.integral
  let i := if p.negative then -whole else whole
  if p.fraction.isNone ∧ p.exponent.isNone ∧ Number.minInt ≤ i ∧ i ≤ Number.maxInt
      ∧ ¬(p.negative ∧ whole = 0) then
    some (.int i)
  else p.float?

/-! ## Words and escapes -/

/-- The value of a word. -/
def word? (cs : List Char) : Option Json :=
  if cs = "true".toList then some (.bool true)
  else if cs = "false".toList then some (.bool false)
  else if cs = "null".toList then some .null
  else none

/-- The character of a one-letter escape. -/
def escaped? (c : Char) : Option Char :=
  match c with
  | '"' => some '"'
  | '\\' => some '\\'
  | '/' => some '/'
  | 'b' => some '\x08'
  | 'f' => some '\x0c'
  | 'n' => some '\n'
  | 'r' => some '\r'
  | 't' => some '\t'
  | _ => none

/-- The value of a hexadecimal digit. -/
def hexDigit? (c : Char) : Option Nat :=
  if '0' ≤ c ∧ c ≤ '9' then some (c.toNat - 48)
  else if 'a' ≤ c ∧ c ≤ 'f' then some (c.toNat - 87)
  else if 'A' ≤ c ∧ c ≤ 'F' then some (c.toNat - 55)
  else none

/-- A first half of a pair of code units. -/
def isHighHalf (n : Nat) : Bool := 0xd800 ≤ n ∧ n < 0xdc00

/-- A second half of a pair of code units. -/
def isLowHalf (n : Nat) : Bool := 0xdc00 ≤ n ∧ n < 0xe000

/-- The character of a pair of code units. -/
def pairChar (high low : Nat) : Char :=
  Char.ofNat (0x10000 + (high - 0xd800) * 0x400 + (low - 0xdc00))

/-! ## The pass over the text -/

/-- What has been read of a string, in reverse, as long as it is a text. -/
abbrev TextRun := Option (List Char)

/-- Adds a character to what has been read of a string. -/
def TextRun.add (run : TextRun) (c : Char) : TextRun := run.map (c :: ·)

/-- What has been read of the current token. Runs of characters are kept in reverse. -/
inductive Unfinished where
  | blank
  | word (run : List Char)
  | number (run : List Char)
  | string (run : TextRun)
  /-- In a string, after a backslash. -/
  | escape (run : TextRun)
  /-- In a string, after `\u` and some hexadecimal digits with the given value. A first half of a
  pair may have been read before. -/
  | unicode (run : TextRun) (high : Option Nat) (digits value : Nat)
  /-- In a string, after a first half of a pair. -/
  | half (run : TextRun) (high : Nat)
  /-- In a string, after a first half of a pair and a backslash. -/
  | halfEscape (run : TextRun) (high : Nat)

/-- The tokens that have been read, the last one first, and the current one. -/
structure Reading where
  done : List Token
  now : Unfinished

/-- A character that may stand in a number. -/
def isNumberChar (c : Char) : Bool :=
  c.isDigit || c = '-' || c = '+' || c = '.' || c = 'e' || c = 'E'

/-- The blank characters between tokens. -/
def isBlank (c : Char) : Bool := c = ' ' || c = '\n' || c = '\t' || c = '\r'

namespace Reading

/-- Reads a character that begins a token or separates two. -/
def start (done : List Token) (c : Char) : Option Reading :=
  if isBlank c then some ⟨done, .blank⟩
  else match c with
    | '[' => some ⟨.openBracket :: done, .blank⟩
    | ']' => some ⟨.closeBracket :: done, .blank⟩
    | '{' => some ⟨.openBrace :: done, .blank⟩
    | '}' => some ⟨.closeBrace :: done, .blank⟩
    | ',' => some ⟨.comma :: done, .blank⟩
    | ':' => some ⟨.colon :: done, .blank⟩
    | '"' => some ⟨done, .string (some [])⟩
    | _ =>
      if c = '-' || c.isDigit then some ⟨done, .number [c]⟩
      else if c.isLower then some ⟨done, .word [c]⟩
      else none

/-- Ends a word or a number, at a character that is not part of it or at the end of the text. -/
def finish (r : Reading) : Option (List Token) :=
  match r.now with
  | .blank => some r.done
  | .word run => do return .scalar (some (← word? run.reverse)) :: r.done
  | .number run => do
    return .scalar ((← NumberParts.ofText? run.reverse).value?.map .num) :: r.done
  | _ => none

/-- Reads a character of a string. -/
def inString (done : List Token) (run : TextRun) (c : Char) : Option Reading :=
  if c = '"' then some ⟨.text (run.map (fun cs => String.ofList cs.reverse)) :: done, .blank⟩
  else if c = '\\' then some ⟨done, .escape run⟩
  else if c.toNat < 0x20 then none
  else some ⟨done, .string (run.add c)⟩

/-- Reads a character after a backslash. -/
def afterBackslash (done : List Token) (run : TextRun) (c : Char) : Option Reading :=
  if c = 'u' then some ⟨done, .unicode run none 0 0⟩
  else do return ⟨done, .string (run.add (← escaped? c))⟩

/-- Ends an escape of a code unit. The two halves of a pair have to stand together. -/
def codeUnit (run : TextRun) (high : Option Nat) (value : Nat) : Unfinished :=
  match high with
  | some high => .string (if isLowHalf value then run.add (pairChar high value) else none)
  | none =>
    if isHighHalf value then .half run value
    else .string (if isLowHalf value then none else run.add (Char.ofNat value))

/-- Reads one character. -/
def step (r : Reading) (c : Char) : Option Reading :=
  match r.now with
  | .blank => start r.done c
  | .word run => if c.isLower then some ⟨r.done, .word (c :: run)⟩ else do start (← r.finish) c
  | .number run =>
    if isNumberChar c then some ⟨r.done, .number (c :: run)⟩ else do start (← r.finish) c
  | .string run => inString r.done run c
  | .escape run => afterBackslash r.done run c
  | .unicode run high digits value => do
    let value := 16 * value + (← hexDigit? c)
    if digits < 3 then return ⟨r.done, .unicode run high (digits + 1) value⟩
    else return ⟨r.done, codeUnit run high value⟩
  | .half run high =>
    if c = '\\' then some ⟨r.done, .halfEscape run high⟩ else inString r.done none c
  | .halfEscape run high =>
    if c = 'u' then some ⟨r.done, .unicode run (some high) 0 0⟩
    else afterBackslash r.done none c

end Reading

/-- The tokens of a text, or `none` if one of them is malformed. -/
def tokens? (text : List Char) : Option (List Token) := do
  let last ← text.foldlM Reading.step ⟨[], .blank⟩
  return (← last.finish).reverse

end Json

end RpcOpenApi
