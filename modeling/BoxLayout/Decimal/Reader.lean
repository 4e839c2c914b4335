import BoxLayout.Decimal.BinaryFormat

/-!
# Readers of numbers

Which 64-bit number a decimal is read as is the choice of whoever reads the text. Not every reader
takes the nearest one: a fast one computes with 64-bit numbers all the way.

* `BinaryFormat.mul`, `BinaryFormat.div` — products and quotients of magnitudes, rounded once.
* `NumberReader` — the magnitude that each decimal is read as. Whatever reads numbers has one as a
  parameter.
* `Decimal.quotient` — the reader of running programs: the digits are one 64-bit number, the power of
  ten is another, and a product or a quotient of the two is what is read.
-/

namespace BoxLayout

namespace BinaryFormat

/-- The magnitude with the given ordinal, as a quotient. -/
def fraction (f : BinaryFormat) (ordinal : Nat) : Nat × Nat :=
  scale 2 (f.magnitude ordinal).2 (f.magnitude ordinal).1 1

/-- The ordinal of the magnitude nearest to the product of two. -/
def mul (f : BinaryFormat) (a b : Nat) : Nat :=
  f.nearest ((f.fraction a).1 * (f.fraction b).1) ((f.fraction a).2 * (f.fraction b).2)

/-- The ordinal of the magnitude nearest to the quotient of two. -/
def div (f : BinaryFormat) (a b : Nat) : Nat :=
  f.nearest ((f.fraction a).1 * (f.fraction b).2) ((f.fraction a).2 * (f.fraction b).1)

end BinaryFormat

/-- A reader of numbers. -/
class NumberReader where
  /-- The ordinal of the 64-bit magnitude that a decimal is read as. -/
  double : Decimal → Nat

namespace Decimal

/-- A decimal without its last digits. -/
def dropDigits (d : Decimal) (count : Nat) : Decimal :=
  ⟨d.significand / Nat.pow 10 count, d.exponent + count⟩

/-- The leading digits, as many as a 64-bit integer holds. -/
def leadingDigits (d : Decimal) : Decimal :=
  if d.significand < Nat.pow 2 64 then d
  else
    -- The largest integers have twenty digits, but not every number of twenty digits is one.
    let twenty := d.dropDigits (d.digits.length - 20)
    if twenty.significand < Nat.pow 2 64 then twenty else d.dropDigits (d.digits.length - 19)

/-- The power of ten with a natural exponent as a 64-bit number. -/
def power (exponent : Nat) : Nat := BinaryFormat.double.nearest (Nat.pow 10 exponent) 1

/-- The digits as a 64-bit number, multiplied with a power of ten or divided by one. No power of ten
above `10 ^ 308` is a 64-bit number, so a larger one divides in two steps, and even two do not reach
further than `10 ^ -616`. -/
def quotient (d : Decimal) : Nat :=
  let d := d.leadingDigits
  let digits := BinaryFormat.double.nearest d.significand 1
  if 308 < d.exponent then
    if d.significand = 0 then 0 else BinaryFormat.double.infinityOrdinal
  else if 0 ≤ d.exponent then BinaryFormat.double.mul digits (power d.exponent.toNat)
  else if -308 ≤ d.exponent then BinaryFormat.double.div digits (power (-d.exponent).toNat)
  else if -616 ≤ d.exponent then
    BinaryFormat.double.div (BinaryFormat.double.div digits (power 308)) (power (-d.exponent - 308).toNat)
  else 0

end Decimal

instance : NumberReader := ⟨Decimal.quotient⟩

end BoxLayout
