import BoxLayout.Scalar

/-!
# Exact lengths

Lengths without rounding: the rationals, with two infinities and a NaN added so that every
operation of `Scalar` has a value. On rationals the operations are those of the field; an infinity
arises only from an infinity or from a division by zero, and a NaN only where the value of the
expression is undetermined.
-/

namespace BoxLayout

/-- A rational, an infinity, or no number. -/
inductive Exact where
  | nan
  | negInfinity
  | finite (value : Rat)
  | infinity
  deriving DecidableEq

namespace Exact

/-- The sum; opposite infinities have none. -/
def add : Exact → Exact → Exact
  | finite a, finite b => finite (a + b)
  | nan, _ => nan
  | _, nan => nan
  | infinity, negInfinity => nan
  | negInfinity, infinity => nan
  | infinity, _ => infinity
  | _, infinity => infinity
  | negInfinity, _ => negInfinity
  | _, negInfinity => negInfinity

def neg : Exact → Exact
  | nan => nan
  | negInfinity => infinity
  | finite a => finite (-a)
  | infinity => negInfinity

/-- The infinity of the sign of `a`, and no number for zero. -/
def signedInfinity (a : Rat) : Exact :=
  if 0 < a then infinity else if a < 0 then negInfinity else nan

/-- The product; zero times an infinity has none. -/
def mul : Exact → Exact → Exact
  | finite a, finite b => finite (a * b)
  | nan, _ => nan
  | _, nan => nan
  | finite a, infinity => signedInfinity a
  | finite a, negInfinity => signedInfinity (-a)
  | infinity, finite b => signedInfinity b
  | negInfinity, finite b => signedInfinity (-b)
  | infinity, infinity => infinity
  | negInfinity, negInfinity => infinity
  | infinity, negInfinity => negInfinity
  | negInfinity, infinity => negInfinity

/-- The quotient. A number over an infinity is zero, and a division by zero gives the infinity of
the dividend's sign; zero by zero and infinity by infinity have none. -/
def div : Exact → Exact → Exact
  | finite a, finite b => if b = 0 then signedInfinity a else finite (a / b)
  | nan, _ => nan
  | _, nan => nan
  | finite _, infinity => finite 0
  | finite _, negInfinity => finite 0
  | infinity, finite b => if b < 0 then negInfinity else infinity
  | negInfinity, finite b => if b < 0 then infinity else negInfinity
  | infinity, infinity => nan
  | infinity, negInfinity => nan
  | negInfinity, infinity => nan
  | negInfinity, negInfinity => nan

/-- Comparison; a NaN is on neither side of anything. -/
def ble : Exact → Exact → Bool
  | nan, _ => false
  | _, nan => false
  | negInfinity, _ => true
  | _, infinity => true
  | finite a, finite b => decide (a ≤ b)
  | _, _ => false

def blt : Exact → Exact → Bool
  | nan, _ => false
  | _, nan => false
  | a, b => !ble b a

/-- Equality of numbers; a NaN equals nothing. -/
def beq : Exact → Exact → Bool
  | nan, _ => false
  | a, b => decide (a = b)

def isFinite : Exact → Bool
  | finite _ => true
  | _ => false

end Exact

instance : Scalar Exact where
  add := Exact.add
  sub a b := Exact.add a (Exact.neg b)
  mul := Exact.mul
  div := Exact.div
  neg := Exact.neg
  lt a b := Exact.blt a b = true
  le a b := Exact.ble a b = true
  beq := Exact.beq
  decLT _ _ := inferInstanceAs (Decidable (_ = true))
  decLE _ _ := inferInstanceAs (Decidable (_ = true))
  zero := .finite 0
  one := .finite 1
  ofCount n := .finite n
  infinity := .infinity
  isNaN a := decide (a = .nan)
  isFinite := Exact.isFinite

end BoxLayout
