import RpcOpenApi.Number.Binary64

/-!
# The fewest digits that name a binary64 value

Every real number of an interval around a binary64 value rounds to that value. The decimal that is
written for it is the one in the interval with the fewest digits, and of those the nearest to the
value (`Binary64.shortest`). The search goes through the decimal grids from coarse to fine and
tries on each grid the two neighbours of the value.
-/

namespace RpcOpenApi

namespace Binary64

/-- The reals that round to a value, on a decimal grid: the grid point `d` lies in the interval iff
`low ≤ d · unit ≤ high`, where an end belongs to the interval iff `closed`. -/
structure RoundingInterval where
  low : Nat
  value : Nat
  high : Nat
  unit : Nat
  closed : Bool

/-- The rounding interval of a positive value, on the grid of the multiples of `10 ^ grid`. Below
the least mantissa of a binade the gap is half as wide as above it. -/
def interval (x : Binary64) (grid : Int) : RoundingInterval :=
  let below := if x.mantissa = Nat.pow 2 52 ∧ x.exponent > -1074 then 1 else 2
  let two := scale 1 1 (-(x.exponent - 2))
  let ten : Nat × Nat := if grid < 0 then (1, Nat.pow 10 grid.natAbs)
    else (Nat.pow 10 grid.toNat, 1)
  let factor := two.1 * ten.2
  { low := (4 * x.mantissa - below) * factor
    value := 4 * x.mantissa * factor
    high := (4 * x.mantissa + 2) * factor
    unit := two.2 * ten.1
    closed := x.mantissa % 2 = 0 }

/-- The grid point lies in the interval. -/
def RoundingInterval.contains (i : RoundingInterval) (d : Nat) : Bool :=
  if i.closed then i.low ≤ d * i.unit ∧ d * i.unit ≤ i.high
  else i.low < d * i.unit ∧ d * i.unit < i.high

/-- The grid point of the interval that is nearest to the value; of two equally near ones the even
one. -/
def RoundingInterval.nearest? (i : RoundingInterval) : Option Nat :=
  let d := i.value / i.unit
  match i.contains d, i.contains (d + 1) with
  | false, false => none
  | true, false => some d
  | false, true => some (d + 1)
  | true, true =>
    let middle := (2 * d + 1) * i.unit
    if 2 * i.value < middle ∨ (2 * i.value = middle ∧ d % 2 = 0) then some d else some (d + 1)

/-- The first of `steps` grids, from `10 ^ grid` downwards, that has a point in the interval, with
that point. -/
def firstHit (x : Binary64) : Nat → Int → Option (Nat × Int)
  | 0, _ => none
  | steps + 1, grid =>
    match (x.interval grid).nearest? with
    | some d => some (d, grid)
    | none => firstHit x steps (grid - 1)

/-- Digits and power of ten of the shortest decimal that rounds to the value. Seventeen digits are
always enough, so the search of twenty grids ends with a hit. -/
def shortest (x : Binary64) : Nat × Int :=
  if x.mantissa = 0 then (0, 0) else
  let bits : Int := Nat.log2 x.mantissa + x.exponent + 1
  (firstHit x 24 (Int.fdiv (bits * 30103) 100000 + 1)).getD (0, 0)

end Binary64

end RpcOpenApi
