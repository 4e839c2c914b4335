import BoxLayout.Json
import BoxLayout.Text.Hex

/-!
# Reading JSON

A reader takes characters and returns what it read with the characters that are left.

* `numeral?`, `stringBody?` — the two sorts of token with an inner structure.
* `value?`, `items?`, `members?` — the three sorts of a value. They recurse on a bound for the
  nesting that `read?` derives from the length of the text.
* `read?` — a whole text that holds one value and blanks around it.
-/

namespace BoxLayout.Json

def isBlank (c : Char) : Bool := c == ' ' || c == '\t' || c == '\n' || c == '\r'

/-- The characters from the first that is no blank. -/
def skipBlanks (cs : List Char) : List Char := cs.dropWhile isBlank

/-! ## Numbers -/

def digits? (cs : List Char) : Option (List Char × List Char) :=
  match cs.takeWhile Char.isDigit with
  | [] => none
  | ds => some (ds, cs.dropWhile Char.isDigit)

/-- The digits before the point: no zero leads any other digit. -/
def wholePart? (cs : List Char) : Option (List Char × List Char) :=
  match cs with
  | '0' :: rest => some (['0'], rest)
  | _ => digits? cs

/-- The digits of a fraction, none if there is no point. -/
def fraction? (cs : List Char) : Option (List Char × List Char) :=
  match cs with
  | '.' :: rest => digits? rest
  | _ => some ([], cs)

def signedDigits? (cs : List Char) : Option (Int × List Char) :=
  match cs with
  | '-' :: rest => (digits? rest).map fun (ds, rest) => (-(Nat.ofDigitChars 10 ds 0 : Int), rest)
  | '+' :: rest => (digits? rest).map fun (ds, rest) => ((Nat.ofDigitChars 10 ds 0 : Int), rest)
  | _ => (digits? cs).map fun (ds, rest) => ((Nat.ofDigitChars 10 ds 0 : Int), rest)

/-- An exponent, `none` in the first place if there is no mark of one. -/
def exponent? (cs : List Char) : Option (Option Int × List Char) :=
  match cs with
  | 'e' :: rest => (signedDigits? rest).map fun (e, rest) => (some e, rest)
  | 'E' :: rest => (signedDigits? rest).map fun (e, rest) => (some e, rest)
  | _ => some (none, cs)

/-- A number without its sign. -/
def magnitude? (negative : Bool) (cs : List Char) : Option (Numeral × List Char) := do
  let (whole, rest) ← wholePart? cs
  let (fraction, rest) ← fraction? rest
  let (exponent, rest) ← exponent? rest
  let magnitude : Decimal :=
    { significand := Nat.ofDigitChars 10 (whole ++ fraction) 0
      exponent := exponent.getD 0 - fraction.length }
  return (⟨negative, magnitude, fraction.isEmpty && exponent.isNone⟩, rest)

def numeral? (cs : List Char) : Option (Numeral × List Char) :=
  match cs with
  | '-' :: rest => magnitude? true rest
  | _ => magnitude? false cs

/-! ## Strings -/

def hexUnit? (a b c d : Char) : Option Nat := do
  let a ← Text.hexDigit? a
  let b ← Text.hexDigit? b
  let c ← Text.hexDigit? c
  let d ← Text.hexDigit? d
  return ((a * 16 + b) * 16 + c) * 16 + d

/-- The character after a backslash that stands for one character. -/
def simpleEscape? (c : Char) : Option Char :=
  match c with
  | '"' => some '"'
  | '\\' => some '\\'
  | '/' => some '/'
  | 'b' => some '\x08'
  | 'f' => some '\x0c'
  | 'n' => some '\n'
  | 'r' => some '\r'
  | 't' => some '\t'
  | _ => none

/-- The codes of a string's characters, from behind its opening quote to its closing one. An escape
by number gives one 16-bit unit. -/
def codes? : List Char → Option (List Nat × List Char)
  | [] => none
  | '"' :: rest => some ([], rest)
  | '\\' :: 'u' :: a :: b :: c :: d :: rest => do
    let unit ← hexUnit? a b c d
    let (codes, rest) ← codes? rest
    return (unit :: codes, rest)
  | '\\' :: c :: rest => do
    let escaped ← simpleEscape? c
    let (codes, rest) ← codes? rest
    return (escaped.toNat :: codes, rest)
  | c :: rest =>
    if c.toNat < 0x20 then none
    else do
      let (codes, rest) ← codes? rest
      return (c.toNat :: codes, rest)

/-- The characters with the given codes. Two units of a surrogate pair are one character above
`FFFF`; no unit of a pair stands alone. -/
def joinPairs? : List Nat → Option (List Char)
  | [] => some []
  | code :: rest =>
    if 0xD800 ≤ code ∧ code < 0xDC00 then
      match rest with
      | [] => none
      | low :: rest =>
        if 0xDC00 ≤ low ∧ low < 0xE000 then
          let c := Char.ofNat (0x10000 + (code - 0xD800) * 0x400 + (low - 0xDC00))
          (joinPairs? rest).map (c :: ·)
        else none
    else if 0xDC00 ≤ code ∧ code < 0xE000 then none
    else (joinPairs? rest).map (Char.ofNat code :: ·)

def stringBody? (cs : List Char) : Option (String × List Char) := do
  let (codes, rest) ← codes? cs
  let body ← joinPairs? codes
  return (String.ofList body, rest)

/-! ## Values -/

mutual

/-- A value, blanks before it skipped. -/
def value? : Nat → List Char → Option (Json × List Char)
  | 0, _ => none
  | depth + 1, cs =>
    match skipBlanks cs with
    | 'n' :: 'u' :: 'l' :: 'l' :: rest => some (.null, rest)
    | 't' :: 'r' :: 'u' :: 'e' :: rest => some (.bool true, rest)
    | 'f' :: 'a' :: 'l' :: 's' :: 'e' :: rest => some (.bool false, rest)
    | '"' :: rest => do
      let (body, rest) ← stringBody? rest
      return (.string body, rest)
    | '[' :: rest =>
      match skipBlanks rest with
      | ']' :: rest => some (.array [], rest)
      | _ => do
        let (items, rest) ← items? depth rest
        return (.array items, rest)
    | '\x7b' :: rest =>
      match skipBlanks rest with
      | '\x7d' :: rest => some (.object [], rest)
      | _ => do
        let (members, rest) ← members? depth rest
        return (.object members, rest)
    | cs => do
      let (n, rest) ← numeral? cs
      return (.number n, rest)

/-- The items of an array to its closing bracket, at least one. -/
def items? : Nat → List Char → Option (List Json × List Char)
  | 0, _ => none
  | depth + 1, cs => do
    let (item, rest) ← value? depth cs
    match skipBlanks rest with
    | ',' :: rest =>
      let (items, rest) ← items? depth rest
      return (item :: items, rest)
    | ']' :: rest => return ([item], rest)
    | _ => none

/-- The members of an object to its closing brace, at least one. -/
def members? : Nat → List Char → Option (List (String × Json) × List Char)
  | 0, _ => none
  | depth + 1, cs =>
    match skipBlanks cs with
    | '"' :: rest => do
      let (key, rest) ← stringBody? rest
      match skipBlanks rest with
      | ':' :: rest =>
        let (item, rest) ← value? depth rest
        match skipBlanks rest with
        | ',' :: rest =>
          let (members, rest) ← members? depth rest
          return ((key, item) :: members, rest)
        | '\x7d' :: rest => return ([(key, item)], rest)
        | _ => none
      | _ => none
    | _ => none

end

/-- The value that a text holds. Each step down takes a character at least every second time, so
twice the length bounds the nesting. -/
def read? (text : String) : Option Json :=
  let cs := text.toList
  match value? (2 * cs.length + 2) cs with
  | some (v, rest) => if (skipBlanks rest).isEmpty then some v else none
  | none => none

end BoxLayout.Json
