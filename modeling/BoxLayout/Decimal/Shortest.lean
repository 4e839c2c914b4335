import BoxLayout.Decimal.BinaryFormat

/-!
# The shortest decimal that reads back

A magnitude of a binary format is the nearest one to every number of an interval around it. Among
the decimals of that interval `BinaryFormat.shortest` takes one with the fewest digits, and of
those the nearest to the magnitude; halfway between two, the larger.

The search runs over the decimal grids, from coarse to fine. If any point of a grid lies in the
interval, then so does one of the magnitude's two neighbours on that grid, so only these two are
tested, in exact arithmetic on naturals.
-/

namespace BoxLayout

/-- The numbers that a magnitude is nearest to, all four quantities over one denominator. -/
structure RoundingInterval where
  lower : Nat
  value : Nat
  upper : Nat
  denominator : Nat
  /-- Whether the two ends belong to it: a tie goes to an even significand. -/
  closed : Bool

namespace RoundingInterval

/-- Whether the multiple `k` of a unit of `unit / denominator` lies in the interval. -/
def contains (i : RoundingInterval) (unit k : Nat) : Bool :=
  if i.closed then
    decide (i.lower ≤ k * unit) && decide (k * unit ≤ i.upper)
  else
    decide (i.lower < k * unit) && decide (k * unit < i.upper)

/-- The interval's decimal on the grid of step `10 ^ exponent`, if there is one: of the value's two
neighbours the nearer that lies in the interval, the larger if they are equally near. -/
def onGrid? (i : RoundingInterval) (exponent : Int) : Option Decimal :=
  -- A step below one becomes whole by refining everything else.
  let finer := Nat.pow 10 (-exponent).toNat
  let i : RoundingInterval :=
    { i with lower := i.lower * finer, value := i.value * finer, upper := i.upper * finer }
  let unit := i.denominator * Nat.pow 10 exponent.toNat
  let below := i.value / unit
  let nearerBelow := decide (2 * (i.value % unit) < unit)
  let pick k := some (⟨k, exponent⟩ : Decimal)
  match i.contains unit below, i.contains unit (below + 1) with
  | true, true => if nearerBelow then pick below else pick (below + 1)
  | true, false => pick below
  | false, true => pick (below + 1)
  | false, false => none

/-- The first grid with a decimal of the interval, from step `10 ^ exponent` down, at most `grids`
of them. -/
def search (i : RoundingInterval) : Nat → Int → Option Decimal
  | 0, _ => none
  | grids + 1, exponent =>
    match i.onGrid? exponent with
    | some d => some d
    | none => i.search grids (exponent - 1)

end RoundingInterval

namespace BinaryFormat

/-- The rounding interval of a magnitude. Its ends lie halfway to the neighbours; the lower
neighbour of the least significand of full precision is only half as far away as the upper one. -/
def interval (f : BinaryFormat) (ordinal : Nat) : RoundingInterval :=
  let (m, exponent) := f.magnitude ordinal
  let half := if m = f.blockSize ∧ f.minExponent < exponent then 1 else 2
  -- In quarters of the significand's unit both ends are whole.
  let quarter := exponent - 2
  let whole := Nat.pow 2 quarter.toNat
  { lower := (4 * m - half) * whole
    value := 4 * m * whole
    upper := (4 * m + 2) * whole
    denominator := Nat.pow 2 (-quarter).toNat
    closed := m % 2 == 0 }

/-- An exponent whose power of ten is above the magnitude: `30103 / 100000` is just above the
decimal logarithm of two. -/
def coarsestGrid (f : BinaryFormat) (ordinal : Nat) : Int :=
  let (m, exponent) := f.magnitude ordinal
  (m.log2 + 1 + exponent) * 30103 / 100000 + 2

/-- The decimal with the fewest digits that reads back as the given magnitude. A full significand
never takes more decimal digits than bits, so the search finds one. -/
def shortest (f : BinaryFormat) (ordinal : Nat) : Decimal :=
  if ordinal = 0 then ⟨0, 0⟩
  else ((f.interval ordinal).search (f.precision + 4) (f.coarsestGrid ordinal)).getD ⟨0, 0⟩

end BinaryFormat

end BoxLayout
