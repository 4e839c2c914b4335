import BoxLayout.Text.Hex
import BoxLayout.Text.Printable

/-!
# Quoted text

Two ways of writing a text between quotes: with the escapes of JSON, and with those of messages
that show a text to a person. JSON leaves all but control characters as they are, and messages every
printable character.
-/

namespace BoxLayout.Text

/-- A JSON escape: quotes, backslashes and control characters, the rest raw. -/
def escapeJson (c : Char) : List Char :=
  match c with
  | '"' => ['\\', '"']
  | '\\' => ['\\', '\\']
  | '\n' => ['\\', 'n']
  | '\r' => ['\\', 'r']
  | '\t' => ['\\', 't']
  | '\x08' => ['\\', 'b']
  | '\x0c' => ['\\', 'f']
  | c =>
    if c.toNat < 0x20 then
      ['\\', 'u', '0', '0', Nat.digitChar (c.toNat / 16), Nat.digitChar (c.toNat % 16)]
    else [c]

def quoteJson (cs : List Char) : List Char := '"' :: cs.flatMap escapeJson ++ ['"']

/-- A message's escape: what is not printable by its number in braces. -/
def escapeShown (c : Char) : List Char :=
  match c with
  | '"' => ['\\', '"']
  | '\\' => ['\\', '\\']
  | '\n' => ['\\', 'n']
  | '\r' => ['\\', 'r']
  | '\t' => ['\\', 't']
  | '\x00' => ['\\', '0']
  | c => if isPrintable c then [c] else ['\\', 'u', '\x7b'] ++ hex c.toNat ++ ['\x7d']

def quoteShown (s : String) : String :=
  String.ofList ('"' :: s.toList.flatMap escapeShown ++ ['"'])

end BoxLayout.Text
