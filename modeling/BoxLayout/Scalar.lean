/-!
# Scalars

Layout is written once, over any type of lengths, and read in two ways: with rounding, on 32-bit
floats (`BoxLayout.Scalar.Single`), and without, on extended rationals (`BoxLayout.Scalar.Exact`).

* `Scalar` — the operations a layout pass needs of a length, `infinity` and a test for NaN included.
* `Scalar.max`, `Scalar.min` — the larger and the smaller of two lengths, where a NaN operand
  yields to the other one.
* `Scalar.sum` — a sum from left to right, in the order of the list.
-/

namespace BoxLayout

/-- What a layout pass asks of its lengths. No law is assumed: rounding addition is not
associative, and a NaN is not equal to itself. -/
class Scalar (α : Type) extends Add α, Sub α, Mul α, Div α, Neg α, LT α, LE α, BEq α where
  /-- Comparison can be decided. -/
  decLT : DecidableLT α
  /-- Comparison can be decided. -/
  decLE : DecidableLE α
  /-- The length of nothing. -/
  zero : α
  /-- The unit, which is also the weight of a view that just stretches. -/
  one : α
  /-- A number of things, as a factor. -/
  ofCount : Nat → α
  /-- The bound that bounds nothing. -/
  infinity : α
  /-- True of the value that stands for no number. -/
  isNaN : α → Bool
  /-- True of the numbers: neither NaN nor an infinity. -/
  isFinite : α → Bool

namespace Scalar

variable {α : Type} [Scalar α]

instance (a b : α) : Decidable (a < b) := decLT a b

instance (a b : α) : Decidable (a ≤ b) := decLE a b

/-- Twice the unit, by which a middle is found. -/
def two : α := one + one

/-- The larger of two lengths; a NaN yields to the other operand. -/
def max (a b : α) : α :=
  if isNaN a then b else if isNaN b then a else if a < b then b else a

/-- The smaller of two lengths; a NaN yields to the other operand. -/
def min (a b : α) : α :=
  if isNaN a then b else if isNaN b then a else if b < a then b else a

/-- The sum from left to right. It starts from minus zero, the one value that leaves every addend
as it is under rounding addition. -/
def sum (xs : List α) : α := xs.foldl (· + ·) (-zero)

/-- True of the lengths a frame may have: numbers that are not negative. -/
def isExtent (a : α) : Bool := isFinite a && decide (zero ≤ a)

end Scalar

end BoxLayout
