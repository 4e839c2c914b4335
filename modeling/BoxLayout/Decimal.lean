/-!
# Decimals

Magnitudes in decimal notation, and the ways of writing them down.

* `Decimal` — a whole significand times a power of ten.
* `NumberStyle` — what a text format decides about a number: which magnitudes are written out in
  full, what follows a whole number, how an exponent is signed.
* `Decimal.render` — the text of a magnitude in a style.

The digits are chosen elsewhere (`BoxLayout.Decimal.Shortest`); here they are only laid out.
-/

namespace BoxLayout

/-- The magnitude `significand · 10 ^ exponent`. -/
structure Decimal where
  significand : Nat
  exponent : Int
  deriving DecidableEq

/-- The layout decisions of a number format. -/
structure NumberStyle where
  /-- The least and the greatest power of the leading digit that is written without an exponent;
  with no such limits, no exponent is ever written. -/
  positional : Option (Int × Int)
  /-- What follows a whole number written without an exponent. -/
  wholeMark : String
  /-- What stands before an exponent that is not negative. -/
  exponentMark : String

namespace Decimal

/-- The digits of the significand, most significant first. -/
def digits (d : Decimal) : List Char := Nat.toDigits 10 d.significand

/-- How many digits stand before the decimal point; not positive when the number starts with
`0.`. -/
def pointPosition (d : Decimal) : Int := d.digits.length + d.exponent

/-- The power of ten that the leading digit stands for. -/
def leadingPower (d : Decimal) : Int := d.pointPosition - 1

/-- The number written out in full, `wholeMark` standing for the fraction of a whole number. -/
def positional (wholeMark : String) (d : Decimal) : List Char :=
  if 0 ≤ d.exponent then
    d.digits ++ List.replicate d.exponent.toNat '0' ++ wholeMark.toList
  else if 0 < d.pointPosition then
    d.digits.take d.pointPosition.toNat ++ '.' :: d.digits.drop d.pointPosition.toNat
  else
    '0' :: '.' :: List.replicate (-d.pointPosition).toNat '0' ++ d.digits

/-- The number with one digit before the point and an exponent. -/
def scientific (exponentMark : String) (d : Decimal) : List Char :=
  let fraction := match d.digits.drop 1 with
    | [] => []
    | more => '.' :: more
  let mark := if d.leadingPower < 0 then ['-'] else exponentMark.toList
  d.digits.take 1 ++ fraction ++ 'e' :: mark ++ Nat.toDigits 10 d.leadingPower.natAbs

def render (style : NumberStyle) (d : Decimal) : List Char :=
  match style.positional with
  | none => d.positional style.wholeMark
  | some (least, greatest) =>
    if least ≤ d.leadingPower ∧ d.leadingPower ≤ greatest then
      d.positional style.wholeMark
    else
      d.scientific style.exponentMark

end Decimal

end BoxLayout
