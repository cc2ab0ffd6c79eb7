import SqlSelect.Number.Binary

/-!
# The Shortest Decimal of a Binary Number

Every finite binary number stands for an interval of reals that round to it.  Its shortest decimal
is the point of that interval on the coarsest power-of-ten grid that meets the interval; of two such
points the nearer one to the number is taken, and of two equally near ones the larger.

All arithmetic is exact: an interval is measured in quarters of the last significand place, and
a grid point is compared with it after both are scaled to natural numbers.

## Main definitions

- `Decimal` — a natural number of digits times a power of ten
- `RoundingInterval` — the reals that round to one binary number
- `RoundingInterval.onGrid?` — the chosen point of one grid, if the grid has a point inside
- `Binary.shortest` — the shortest decimal of a magnitude
-/

namespace SqlSelect

/-- The number `digits * 10 ^ exponent`. -/
structure Decimal where
  digits : Nat
  exponent : Int
  deriving DecidableEq

/-! ## §1 Rounding intervals -/

/-- The reals between `low * 2 ^ scale` and `high * 2 ^ scale`, around the number
`centre * 2 ^ scale`; `closed` says whether the two ends belong to it. -/
structure RoundingInterval where
  low : Nat
  centre : Nat
  high : Nat
  scale : Int
  closed : Bool
  deriving DecidableEq

namespace RoundingInterval

/-- The factor of a point of the grid with spacing `10 ^ k`, once point and interval are scaled to
natural numbers: `d * 10 ^ k` lies below `c * 2 ^ scale` iff
`d * gridFactor k < c * intervalFactor k`. -/
def gridFactor (r : RoundingInterval) (k : Int) : Nat :=
  Nat.pow 10 k.toNat * Nat.pow 2 (-r.scale).toNat

/-- The factor of the interval's own measures in the same comparison. -/
def intervalFactor (r : RoundingInterval) (k : Int) : Nat :=
  Nat.pow 10 (-k).toNat * Nat.pow 2 r.scale.toNat

/-- Whether `d * 10 ^ k` lies in the interval. -/
def contains (r : RoundingInterval) (d : Nat) (k : Int) : Bool :=
  let point := d * r.gridFactor k
  let low := r.low * r.intervalFactor k
  let high := r.high * r.intervalFactor k
  if r.closed then low ≤ point && point ≤ high else low < point && point < high

/-- The last point of the grid with spacing `10 ^ k` that does not exceed the centre. -/
def below (r : RoundingInterval) (k : Int) : Nat :=
  r.centre * r.intervalFactor k / r.gridFactor k

/-- Whether the centre lies in the lower half of the grid cell that starts at `d * 10 ^ k`. -/
def isNearerBelow (r : RoundingInterval) (d : Nat) (k : Int) : Bool :=
  2 * (r.centre * r.intervalFactor k) < (2 * d + 1) * r.gridFactor k

/-- The point of the grid with spacing `10 ^ k` that stands for the interval, if one of the
centre's two neighbours on that grid lies inside. -/
def onGrid? (r : RoundingInterval) (k : Int) : Option Nat :=
  let d := r.below k
  match r.contains d k, r.contains (d + 1) k with
  | true, true => some (if r.isNearerBelow d k then d else d + 1)
  | true, false => some d
  | false, true => some (d + 1)
  | false, false => none

/-- The exponent of a power of ten above the whole interval: a number of `b` bits has at most
`b / 3 + 1` decimal digits. -/
def topExponent (r : RoundingInterval) : Nat :=
  (r.high * Nat.pow 2 r.scale.toNat).log2 / 3 + 1

/-- How many grids there are from `topExponent` down to one whose spacing is at most `2 ^ scale`,
which no interval can miss. -/
def gridCount (r : RoundingInterval) : Nat := r.topExponent + (-r.scale).toNat + 1

/-- The first grid with a point inside, trying `n` grids from spacing `10 ^ k` downwards. -/
def coarsest (r : RoundingInterval) : Nat → Int → Decimal
  | 0, k => ⟨r.below k, k⟩
  | n + 1, k =>
    match r.onGrid? k with
    | some d => ⟨d, k⟩
    | none => r.coarsest n (k - 1)

def shortest (r : RoundingInterval) : Decimal := r.coarsest r.gridCount r.topExponent

end RoundingInterval

/-! ## §2 Binary numbers -/

namespace Binary

variable {f : BinaryFormat}

/-- The reals that round to the magnitude of a finite number: half way to its neighbours on either
side.  A tie goes to the even significand, so only an even one owns the ends. -/
def roundingInterval (x : Binary f) : RoundingInterval :=
  let centre := 4 * x.significand
  { low := centre - (if x.isNarrowBelow then 1 else 2)
    centre := centre
    high := centre + 2
    scale := x.scale - 2
    closed := x.significand % 2 == 0 }

/-- The shortest decimal that reads back as the magnitude of a finite number. -/
def shortest (x : Binary f) : Decimal :=
  if x.isZero then ⟨0, 0⟩ else x.roundingInterval.shortest

end Binary

end SqlSelect
