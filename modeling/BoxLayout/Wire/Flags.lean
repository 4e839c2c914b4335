import BoxLayout.Wire
import BoxLayout.DebugFlags
import BoxLayout.Text.Blank
import BoxLayout.Text.Hex

/-!
# Diagnostics switches as data

A set of switches is a text: the names of its members between bars, with any bits that have no name
as one hexadecimal number at the end.
-/

namespace BoxLayout.DebugFlags

def unnamed (flags : DebugFlags) : DebugFlags := flags.diff (layout.union minSize)

def text (flags : DebugFlags) : String :=
  let names := (named.filter fun (_, flag) => flags.contains flag).map Prod.fst
  let rest := flags.unnamed.bits.toNat
  let hex := if rest = 0 then [] else ["0x" ++ String.ofList (Text.hex rest)]
  " | ".intercalate (names ++ hex)

/-- The eight-bit number with the given hexadecimal digits, at least one; a plus may stand before
them. -/
def hexByte? (cs : List Char) : Option UInt8 := do
  let digits := match cs with
    | '+' :: rest => rest
    | _ => cs
  if digits.isEmpty then none
  else
    let values ← digits.mapM Text.hexDigit?
    let n := values.foldl (fun n digit => 16 * n + digit) 0
    if n < 256 then some (UInt8.ofNat n) else none

def ofPiece (piece : List Char) : Except WireError DebugFlags :=
  match Text.trim piece with
  | [] => .error .emptyFlag
  | '0' :: 'x' :: digits =>
    match hexByte? digits with
    | some bits => .ok ⟨bits⟩
    | none => .error .invalidHexFlag
  | name =>
    match named.find? fun (other, _) => other.toList == name with
    | some (_, flag) => .ok flag
    | none => .error .unknownFlag

/-- A set of switches from its text. A blank text is the empty set. -/
def ofText (s : String) : Except WireError DebugFlags :=
  let cs := s.toList
  if (Text.trim cs).isEmpty then .ok off
  else
    (Text.splitAt '|' cs).foldlM (fun flags piece => return flags.union (← ofPiece piece)) off

def toJson (flags : DebugFlags) : Json := .string flags.text

def ofJson : Json → Except WireError DebugFlags
  | .string s => ofText s
  | v => .error (.wrongType v .flags)

end BoxLayout.DebugFlags
