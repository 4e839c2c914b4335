import BoxLayout.Decimal.Single

/-!
# JSON values

* `Numeral` — a number as it is written: its sign, its decimal magnitude, and whether it is a whole
  numeral, that is written with neither a fraction nor an exponent.
* `Json` — the values, objects as lists of members in the order of the text.

A whole numeral that fits 64 bits stands for an integer; every other numeral stands for a float.
-/

namespace BoxLayout

/-- A number as it is written. -/
structure Numeral where
  negative : Bool
  magnitude : Decimal
  whole : Bool
  deriving DecidableEq

namespace Numeral

def ofNat (n : Nat) : Numeral := ⟨false, ⟨n, 0⟩, true⟩

def ofSingle (x : Float32) : Numeral :=
  ⟨Single.isNegative x, BinaryFormat.single.shortest (Single.ordinal x), false⟩

/-- The integer that a numeral stands for, if it stands for one: it is whole, is not minus zero,
and fits 64 bits. -/
def integer? (n : Numeral) : Option Int :=
  let value := n.magnitude.significand
  if !n.whole then none
  else if n.negative then
    if 0 < value ∧ value ≤ 0x8000000000000000 then some (-(value : Int)) else none
  else if value < 0x10000000000000000 then some value else none

/-- The float that a numeral is read as: an integer is rounded once, a float through 64 bits. -/
def toSingle [NumberReader] (n : Numeral) : Float32 :=
  match n.integer? with
  | some i => Single.ofInt i
  | none => Single.ofDecimal n.negative n.magnitude

/-- The text of a numeral that stands for a float, in the style of 64-bit floats. -/
def doubleText [NumberReader] (n : Numeral) : String :=
  let wide := BinaryFormat.double.shortest (NumberReader.double n.magnitude)
  (if n.negative then "-" else "") ++ String.ofList (wide.render .interchangeDouble)

/-- A numeral as it is written: a whole one by its digits, any other in the interchange style. -/
def render (n : Numeral) : List Char :=
  let digits := if n.whole then n.magnitude.positional "" else n.magnitude.render .interchange
  if n.negative then '-' :: digits else digits

end Numeral

/-- A JSON value. -/
inductive Json where
  | null
  | bool (b : Bool)
  | number (n : Numeral)
  | string (s : String)
  | array (items : List Json)
  | object (members : List (String × Json))

namespace Json

/-- A float as a value: `null` unless it is a number. -/
def ofSingle (x : Float32) : Json :=
  if x.isFinite then .number (.ofSingle x) else .null

/-- The value of the first member with the given name. -/
def member? (name : String) : List (String × Json) → Option Json
  | [] => none
  | (key, value) :: rest => if key = name then some value else member? name rest

end Json

end BoxLayout
