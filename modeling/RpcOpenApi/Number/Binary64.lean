/-!
# Binary64 values by exact arithmetic

The numbers of a document that are not integers are binary64 values. A finite one without its sign
is `mantissa · 2 ^ exponent`; every operation here is exact on natural numbers and ends with one
rounding to the nearest value, an exact half going to the even mantissa (`Binary64.round?`).
-/

namespace RpcOpenApi

/-- A finite binary64 value without sign, `mantissa · 2 ^ exponent`, with `mantissa < 2 ^ 53` and
`exponent ≥ -1074`. The mantissa is at least `2 ^ 52` unless the exponent is `-1074`. -/
structure Binary64 where
  mantissa : Nat
  exponent : Int
  deriving DecidableEq, Repr

namespace Binary64

/-- The value zero. -/
def zero : Binary64 := ⟨0, -1074⟩

/-- The quotient of two naturals, rounded to the nearest natural; a half goes to the even one. -/
def divHalfEven (num den : Nat) : Nat :=
  let q := num / den
  let twice := 2 * (num % den)
  if twice > den ∨ (twice = den ∧ q % 2 = 1) then q + 1 else q

/-- The numerator and the denominator of `num / den / 2 ^ shift`. -/
def scale (num den : Nat) (shift : Int) : Nat × Nat :=
  if shift < 0 then (num * Nat.pow 2 shift.natAbs, den)
  else (num, den * Nat.pow 2 shift.toNat)

/-- The exponent of the last place of the value nearest to `num / den`: 53 binary digits, as far as
the format reaches down. -/
def lastPlace (num den : Nat) : Int :=
  let estimate : Int := (Nat.log2 num : Int) - Nat.log2 den
  let scaled := scale num den estimate
  let magnitude := if scaled.1 < scaled.2 then estimate - 1 else estimate
  max (magnitude - 52) (-1074)

/-- The value nearest to `num / den`, for a positive `den`, or `none` where that is beyond the
largest finite value. -/
def round? (num den : Nat) : Option Binary64 :=
  if num = 0 then some zero else
  let q := lastPlace num den
  let scaled := scale num den q
  let m := divHalfEven scaled.1 scaled.2
  let rounded : Binary64 := if m = Nat.pow 2 53 then ⟨Nat.pow 2 52, q + 1⟩ else ⟨m, q⟩
  if rounded.exponent > 971 then none else some rounded

/-- A value as an exact quotient. -/
def quotient (x : Binary64) : Nat × Nat := scale x.mantissa 1 (-x.exponent)

/-- The rounded product of two values. -/
def mul? (x y : Binary64) : Option Binary64 :=
  round? (x.quotient.1 * y.quotient.1) (x.quotient.2 * y.quotient.2)

/-- The rounded quotient of two values, the second one not zero. -/
def div? (x y : Binary64) : Option Binary64 :=
  round? (x.quotient.1 * y.quotient.2) (x.quotient.2 * y.quotient.1)

/-- The value nearest to `digits · 10 ^ exponent`. An exponent far outside the format's range is
decided without computing the power. -/
def ofDecimal? (digits : Nat) (exponent : Int) : Option Binary64 :=
  let length : Int := (Nat.toDigits 10 digits).length
  if digits = 0 ∨ exponent + length < -330 then some zero
  else if exponent + length > 310 then none
  else if exponent < 0 then round? digits (Nat.pow 10 exponent.natAbs)
  else round? (digits * Nat.pow 10 exponent.toNat) 1

/-- The value nearest to a power of ten within the format's range. -/
def powerOfTen (n : Nat) : Binary64 := (round? (Nat.pow 10 n) 1).getD zero

end Binary64

end RpcOpenApi
