import RpcOpenApi.Number.Shortest

/-!
# Numbers of a document

A number is an integer or a floating value. Integers keep all their digits as long as they fit into
64 bits. A floating value is stored as the shortest decimal of a binary64 value, so two floating
numbers are equal iff they are the same value with the same sign, and writing one needs no more
arithmetic (`Decimal.layout`).
-/

namespace RpcOpenApi

/-- A finite floating value: `digits · 10 ^ exponent` with a sign, which zero has as well. The
digits do not end in a zero unless they are zero. -/
structure Decimal where
  negative : Bool
  digits : Nat
  exponent : Int
  deriving DecidableEq, Repr

/-- A number of a document. -/
inductive Number where
  | int (value : Int)
  | float (value : Decimal)
  /-- An infinity or an undefined value, for which a JSON document has no spelling. -/
  | nonFinite
  deriving DecidableEq, Repr

/-- The least integer that is stored exactly. -/
def Number.minInt : Int := -(Int.pow 2 63)

/-- The greatest integer that is stored exactly. -/
def Number.maxInt : Int := Int.pow 2 64 - 1

namespace Decimal

/-- The shortest decimal of a binary64 value, with a sign. -/
def ofBinary64 (negative : Bool) (x : Binary64) : Decimal :=
  let s := x.shortest
  ⟨negative, s.1, s.2⟩

/-- The value of one is zero, whatever its sign. -/
def isZero (d : Decimal) : Bool := d.digits = 0

/-- How the exponent of a floating number is spelled. -/
structure Spelling where
  /-- A positive exponent has a plus sign. -/
  plusSign : Bool

/-- The digits of a natural number in base ten. -/
def decimalDigits (n : Nat) : List Char := Nat.toDigits 10 n

/-- The text of a number in exponent notation, the point after the first digit. -/
def scientific (s : Spelling) (ds : List Char) (exponent : Int) : List Char :=
  let sign := if exponent < 0 then ['-'] else if s.plusSign then ['+'] else []
  let fraction := if ds.length ≤ 1 then [] else '.' :: ds.drop 1
  ds.take 1 ++ fraction ++ 'e' :: sign ++ decimalDigits exponent.natAbs

/-- The text of a floating number. It is positional for magnitudes from `10 ^ -5` up to below
`10 ^ 16`, with `.0` after an integral value, and has an exponent outside of that range. -/
def layout (s : Spelling) (d : Decimal) : List Char :=
  let ds := decimalDigits d.digits
  let length : Int := ds.length
  let point := length + d.exponent
  let body :=
    if d.digits = 0 then ['0', '.', '0']
    else if 0 ≤ d.exponent ∧ point ≤ 16 then
      ds ++ List.replicate d.exponent.toNat '0' ++ ['.', '0']
    else if 0 < point ∧ point ≤ 16 then
      ds.take point.toNat ++ '.' :: ds.drop point.toNat
    else if -5 < point ∧ point ≤ 0 then
      '0' :: '.' :: List.replicate point.natAbs '0' ++ ds
    else scientific s ds (point - 1)
  if d.negative then '-' :: body else body

end Decimal

/-- The text of an integer in base ten. -/
def intText (i : Int) : List Char :=
  if i < 0 then '-' :: Decimal.decimalDigits i.natAbs else Decimal.decimalDigits i.natAbs

end RpcOpenApi
