import RpcOpenApi.Json.Basic
import RpcOpenApi.Yaml.Character

/-!
# What a plain scalar says

A scalar without quotes may be nothing, a boolean, a number or a text, depending on how it is
spelled (`Yaml.resolvePlain`). The writer uses the same rules to see which texts need quotes.
-/

namespace RpcOpenApi

namespace Yaml

/-- What a plain scalar says. -/
inductive Resolved where
  | null
  | bool (value : Bool)
  | int (value : Int)
  /-- An integer of more than 64 and at most 128 bits, which no place of a document can hold. -/
  | wideInt (value : Int)
  | float (value : Number)
  | text

/-- The words for nothing. -/
def isNullWord (cs : List Char) : Bool :=
  cs = "~".toList || cs = "null".toList || cs = "Null".toList || cs = "NULL".toList

/-- The words for the booleans. -/
def boolWord? (cs : List Char) : Option Bool :=
  if cs = "true".toList ∨ cs = "True".toList ∨ cs = "TRUE".toList then some true
  else if cs = "false".toList ∨ cs = "False".toList ∨ cs = "FALSE".toList then some false
  else none

/-- The value of a digit in a base up to sixteen. -/
def digit? (base : Nat) (c : Char) : Option Nat :=
  let value? :=
    if '0' ≤ c ∧ c ≤ '9' then some (c.toNat - 48)
    else if 'a' ≤ c ∧ c ≤ 'f' then some (c.toNat - 87)
    else if 'A' ≤ c ∧ c ≤ 'F' then some (c.toNat - 55)
    else none
  value?.filter (· < base)

/-- The natural number of a nonempty run of digits. -/
def nat? (base : Nat) : List Char → Option Nat
  | [] => none
  | cs => cs.foldlM (fun n c => do return base * n + (← digit? base c)) 0

/-- The text without one sign. -/
def dropSign : List Char → List Char
  | '+' :: cs => cs
  | '-' :: cs => cs
  | cs => cs

/-- Digits with a superfluous leading zero, possibly with a sign. They are a text. -/
def isPaddedDigits (cs : List Char) : Bool :=
  match dropSign cs with
  | '0' :: c :: cs => (c :: cs).all Char.isDigit
  | _ => false

/-- The natural number of a text without a sign, in base ten or with the mark of another base. -/
def unsigned? (cs : List Char) : Option Nat :=
  match cs with
  | '0' :: 'x' :: ds => nat? 16 ds
  | '0' :: 'o' :: ds => nat? 8 ds
  | '0' :: 'b' :: ds => nat? 2 ds
  | ds => if isPaddedDigits ds then none else nat? 10 ds

/-- The integer of a text. -/
def integer? : List Char → Option Int
  | '-' :: cs => do return -(← unsigned? cs : Nat)
  | '+' :: cs => do return (← unsigned? cs : Nat)
  | cs => do return (← unsigned? cs : Nat)

/-- Digits, a point and digits, with at least one digit on one side; an exponent may follow. Gives
the digits without the point and the power of ten of the last one. -/
def decimalParts? (cs : List Char) : Option (Nat × Int) := do
  let whole := cs.takeWhile Char.isDigit
  let (fraction, rest) := match cs.dropWhile Char.isDigit with
    | '.' :: rest => (rest.takeWhile Char.isDigit, rest.dropWhile Char.isDigit)
    | rest => ([], rest)
  let digits ← nat? 10 (whole ++ fraction)
  let exponent : Int ← match rest with
    | [] => pure 0
    | e :: rest =>
      if e = 'e' ∨ e = 'E' then do
        let n ← nat? 10 (dropSign rest)
        pure (if rest.head? = some '-' then -(n : Int) else n)
      else none
  return (digits, exponent - fraction.length)

/-- The finite floating number of a text with at most a minus sign. -/
def finite? (cs : List Char) : Option Number := do
  let (negative, cs) := match cs with
    | '-' :: cs => (true, cs)
    | cs => (false, cs)
  let (digits, exponent) ← decimalParts? cs
  let x ← Binary64.ofDecimal? digits exponent
  return .float (Decimal.ofBinary64 negative x)

/-- The words for an infinity without a sign. -/
def isInfinityWord (cs : List Char) : Bool :=
  cs = ".inf".toList || cs = ".Inf".toList || cs = ".INF".toList

/-- The words for an undefined number. -/
def isUndefinedWord (cs : List Char) : Bool :=
  cs = ".nan".toList || cs = ".NaN".toList || cs = ".NAN".toList

/-- The floating number of a text. -/
def float? (cs : List Char) : Option Number :=
  if isUndefinedWord cs ∨ isInfinityWord (dropSign cs) then some .nonFinite
  else match cs with
    | '+' :: '-' :: _ => none
    | '+' :: rest => finite? rest
    | cs => finite? cs

/-- An integer of at most 64 bits, one of at most 128 bits, or neither. -/
def sizedInt? (i : Int) : Option Resolved :=
  if Number.minInt ≤ i ∧ i ≤ Number.maxInt then some (.int i)
  else if -(Int.pow 2 127) ≤ i ∧ i < Int.pow 2 128 then some (.wideInt i)
  else none

/-- What a plain scalar says. An integer of more than 128 bits is read as a floating number. -/
def resolvePlain (cs : List Char) : Resolved :=
  if cs.isEmpty ∨ isNullWord cs then .null
  else match boolWord? cs with
    | some b => .bool b
    | none =>
      match (integer? cs).bind sizedInt? with
      | some r => r
      | none =>
        if isPaddedDigits cs then .text
        else match float? cs with
          | some n => .float n
          | none => .text

/-- A text that would not be read back as a text if it were written without quotes, or that is made
of digits with a superfluous leading zero. -/
def needsQuotes (cs : List Char) : Bool :=
  match resolvePlain cs with
  | .text => isPaddedDigits cs
  | _ => true

end Yaml

end RpcOpenApi
