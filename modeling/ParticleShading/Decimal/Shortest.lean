import ParticleShading.Decimal.Binary

/-!
# Shortest decimals

The decimal with the fewest digits among those that round to a given single
precision number. The search walks decimal grids from coarse to fine and stops
at the first one with a point in the rounding interval; of two such points it
takes the nearer, and the upper one on a tie.
-/

namespace ParticleShading

/-- The decimal `digits * 10 ^ exponent`. -/
structure Decimal where
  digits : Nat
  exponent : Int
  deriving DecidableEq

/-- The reals from `low` to `high` quarter units around `center` quarter units,
one quarter unit being `2 ^ exponent`. The ends belong to it if `closed`. -/
structure RoundingInterval where
  low : Nat
  center : Nat
  high : Nat
  exponent : Int
  closed : Bool
  deriving DecidableEq

namespace RoundingInterval

/-- The reals that round to `mantissa * 2 ^ exponent`, ties going to the even
mantissa. Just below a power of two the numbers lie twice as dense. -/
def around (mantissa : Nat) (exponent : Int) : RoundingInterval :=
  let below := if mantissa = Binary.leadingBit ∧ Binary.minExponent < exponent then 1 else 2
  ⟨4 * mantissa - below, 4 * mantissa, 4 * mantissa + 2, exponent - 2, mantissa % 2 = 0⟩

/-- A quarter unit over the grid step `10 ^ grid`, as a fraction. -/
def ratio (i : RoundingInterval) (grid : Int) : Nat × Nat :=
  (Nat.pow 2 i.exponent.toNat * Nat.pow 10 (-grid).toNat,
    Nat.pow 2 (-i.exponent).toNat * Nat.pow 10 grid.toNat)

/-- Whether the grid point `d * 10 ^ grid` lies in the interval. -/
def holds (i : RoundingInterval) (grid : Int) (d : Nat) : Bool :=
  let (num, den) := i.ratio grid
  if i.closed then i.low * num ≤ d * den && d * den ≤ i.high * num
  else i.low * num < d * den && d * den < i.high * num

/-- The grid point of the interval next to its center: the nearer of two
neighbours, the upper one on a tie. -/
def onGrid? (i : RoundingInterval) (grid : Int) : Option Decimal :=
  let (num, den) := i.ratio grid
  let d := i.center * num / den
  match i.holds grid d, i.holds grid (d + 1) with
  | true, true =>
    if 2 * (i.center * num) < (2 * d + 1) * den then some ⟨d, grid⟩ else some ⟨d + 1, grid⟩
  | true, false => some ⟨d, grid⟩
  | false, true => some ⟨d + 1, grid⟩
  | false, false => none

/-- The finest grid that a single precision number needs. -/
def finestGrid : Int := -45

/-- The number of grids above the finest one, up to a power of ten that lies
above the interval. -/
def gridCount (i : RoundingInterval) : Nat :=
  let top := i.high * Nat.pow 2 i.exponent.toNat / Nat.pow 2 (-i.exponent).toNat
  45 + (Nat.toDigits 10 top).length

/-- The point on the coarsest of the grids `finestGrid + n`, …, `finestGrid`. -/
def coarsest? (i : RoundingInterval) : Nat → Option Decimal
  | 0 => i.onGrid? finestGrid
  | n + 1 => (i.onGrid? (finestGrid + (n + 1 : Nat))).or (i.coarsest? n)

end RoundingInterval

/-- The shortest decimal that rounds to a positive `mantissa * 2 ^ exponent`. -/
def Decimal.shortest (mantissa : Nat) (exponent : Int) : Decimal :=
  let interval := RoundingInterval.around mantissa exponent
  (interval.coarsest? interval.gridCount).getD ⟨0, 0⟩

end ParticleShading
