import BoxLayout.Decimal.Shortest
import BoxLayout.Decimal.Reader

/-!
# 32-bit floats and decimals

A 32-bit float is a sign and an ordinal of the format `single`.

* `Single.ofDecimal`, `Single.ofInt` — reading a number. A decimal is read as a 64-bit number and
  only then rounded to 32 bits; an integer is rounded once.
* `Single.text` — the shortest digits in a given style, with the names of the values that are no
  numbers.
* `NumberStyle.plain`, `NumberStyle.pointed`, `NumberStyle.interchange` — the styles of messages,
  of logged rectangles and of interchange text.
-/

namespace BoxLayout

/-- Messages and descriptions never write an exponent, nor a fraction for a whole number. -/
def NumberStyle.plain : NumberStyle := ⟨none, "", ""⟩

/-- Logged rectangles mark whole numbers by `.0`, and write magnitudes below `10 ^ -4` or from
`10 ^ 16` on with an exponent. -/
def NumberStyle.pointed : NumberStyle := ⟨some (-4, 15), ".0", ""⟩

/-- Interchange text marks whole numbers by `.0`, writes magnitudes below `10 ^ -6` or from
`10 ^ 13` on with an exponent, and always signs the exponent. -/
def NumberStyle.interchange : NumberStyle := ⟨some (-6, 12), ".0", "+"⟩

/-- Interchange text of 64-bit numbers has a wider range without an exponent above, and a narrower
one below. -/
def NumberStyle.interchangeDouble : NumberStyle := ⟨some (-5, 15), ".0", "+"⟩

namespace Single

def ofOrdinal (negative : Bool) (ordinal : Nat) : Float32 :=
  Float32.ofBits (UInt32.ofNat ((if negative then 0x80000000 else 0) + ordinal))

/-- Whether the sign bit is set; minus zero has it too. -/
def isNegative (x : Float32) : Bool := decide (0x80000000 ≤ x.toBits.toNat)

def ordinal (x : Float32) : Nat := x.toBits.toNat % 0x80000000

/-- The ordinal of the float nearest to a 64-bit magnitude. -/
def narrow (wide : Nat) : Nat :=
  if wide = BinaryFormat.double.infinityOrdinal then BinaryFormat.single.infinityOrdinal
  else
    BinaryFormat.single.nearest (BinaryFormat.double.fraction wide).1 (BinaryFormat.double.fraction wide).2

/-- The float nearest to the 64-bit number that a decimal is read as. -/
def ofDecimal [NumberReader] (negative : Bool) (d : Decimal) : Float32 :=
  ofOrdinal negative (narrow (NumberReader.double d))

def ofInt (n : Int) : Float32 :=
  ofOrdinal (decide (n < 0)) (BinaryFormat.single.nearest n.natAbs 1)

/-- The text of a float: the shortest digits that read back, in the given style. -/
def text (style : NumberStyle) (x : Float32) : String :=
  let sign := if isNegative x then "-" else ""
  if x.isNaN then "NaN"
  else if x.isInf then sign ++ "inf"
  else sign ++ String.ofList ((BinaryFormat.single.shortest (ordinal x)).render style)

end Single

end BoxLayout
