import BoxLayout.Decimal

/-!
# Binary floating-point formats

The magnitudes of a binary format are numbered from zero upwards. The number of a magnitude is its
*ordinal*, which is also its bit pattern, because the standard encoding is increasing.

* `BinaryFormat` — the precision of a format, its smallest unit and the ordinal of its infinity;
  `single` and `double` are the two formats in use.
* `BinaryFormat.magnitude` — from an ordinal to `significand · 2 ^ exponent`.
* `BinaryFormat.nearest` — from a quotient to the nearest magnitude's ordinal, ties to even.
-/

namespace BoxLayout

/-- A binary floating-point format, seen from its magnitudes. -/
structure BinaryFormat where
  /-- The bits of a full significand. -/
  precision : Nat
  /-- The exponent of the smallest magnitude above zero. -/
  minExponent : Int
  /-- The ordinal of infinity, one past the largest number. -/
  infinityOrdinal : Nat

namespace BinaryFormat

def single : BinaryFormat := ⟨24, -149, 0x7F800000⟩

def double : BinaryFormat := ⟨53, -1074, 0x7FF0000000000000⟩

/-- The smallest significand of full precision; as many magnitudes share each exponent. -/
def blockSize (f : BinaryFormat) : Nat := Nat.pow 2 (f.precision - 1)

/-- The magnitude with the given ordinal, as a significand and a power of two. -/
def magnitude (f : BinaryFormat) (ordinal : Nat) : Nat × Int :=
  if ordinal < f.blockSize then
    (ordinal, f.minExponent)
  else
    (f.blockSize + ordinal % f.blockSize, f.minExponent + (ordinal / f.blockSize : Nat) - 1)

/-- The whole number nearest to a quotient; halfway between two, the even one. -/
def roundHalfEven (num den : Nat) : Nat :=
  let quotient := num / den
  let rest := 2 * (num % den)
  if rest < den then quotient
  else if den < rest then quotient + 1
  else quotient + quotient % 2

/-- A quotient multiplied by a power of `base`, as a quotient again. -/
def scale (base : Nat) (exponent : Int) (num den : Nat) : Nat × Nat :=
  (num * Nat.pow base exponent.toNat, den * Nat.pow base (-exponent).toNat)

/-- The power of two that a positive quotient reaches and does not double. -/
def log2 (num den : Nat) : Int :=
  let estimate : Int := (num.log2 : Int) - den.log2
  let (n, d) := scale 2 (-estimate) num den
  if n < d then estimate - 1 else estimate

/-- The ordinal of the magnitude nearest to `num / den`; halfway between two, the one with the even
significand. Beyond the largest number lies infinity. -/
def nearest (f : BinaryFormat) (num den : Nat) : Nat :=
  if num = 0 then 0
  else
    let exponent := max (log2 num den - (f.precision - 1 : Nat)) f.minExponent
    let (n, d) := scale 2 (-exponent) num den
    -- A significand rounded up to the next power of two carries into the next block of ordinals.
    min ((exponent - f.minExponent).toNat * f.blockSize + roundHalfEven n d) f.infinityOrdinal

end BinaryFormat

end BoxLayout
