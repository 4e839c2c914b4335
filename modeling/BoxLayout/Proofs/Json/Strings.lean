import Mathlib
import BoxLayout.Json.Printer
import BoxLayout.Json.Reader

/-!
# Strings in interchange text

A string is read as it was written. Every character stands for itself or behind one escape, and none of
them needs a pair of 16-bit units.

## The architecture

* **`codes?_escapeJson`** — one character: its code, and whatever follows.
* **`codes?_flatMap`** — so the codes of a whole string, by induction.
* **`joinPairs?_toNat`** — the code of a character is no unit of a pair.
* **`stringBody?_escape`** — the result.
-/

namespace BoxLayout.Json

variable {c : Char} {rest : List Char}

/-- Reading goes on behind one character. -/
def prepend (code : ℕ) (read : Option (List ℕ × List Char)) : Option (List ℕ × List Char) :=
  read.map fun (codes, rest) => (code :: codes, rest)

theorem codes?_simple {escape : Char} (hu : escape ≠ 'u') (h : simpleEscape? escape = some c) :
    codes? ('\\' :: escape :: rest) = prepend c.toNat (codes? rest) := by
  rw [codes?]
  · rw [h]
    cases codes? rest <;> rfl
  · exact fun _ _ _ _ _ heq => absurd heq hu

theorem codes?_raw (hquote : c ≠ '"') (hbackslash : c ≠ '\\') (hcontrol : ¬ c.toNat < 0x20) :
    codes? (c :: rest) = prepend c.toNat (codes? rest) := by
  rw [codes?]
  · rw [if_neg hcontrol]
    cases codes? rest <;> rfl
  · exact hquote
  · exact fun _ _ _ _ _ heq => absurd heq hbackslash
  · exact fun _ _ heq => absurd heq hbackslash

/-- A control character by its number, in two hexadecimal digits behind two zeros. -/
theorem codes?_control (h : c.toNat < 0x20) :
    codes? (['\\', 'u', '0', '0', Nat.digitChar (c.toNat / 16), Nat.digitChar (c.toNat % 16)] ++ rest) =
      prepend c.toNat (codes? rest) := by
  have hall : ∀ n < 0x20, hexUnit? '0' '0' (Nat.digitChar (n / 16)) (Nat.digitChar (n % 16)) = some n := by
    decide
  show codes? ('\\' :: 'u' :: '0' :: '0' :: _ :: _ :: rest) = _
  rw [codes?, hall _ h]
  cases codes? rest <;> rfl

/-- **A character is read from its escape**, with whatever follows it. -/
theorem codes?_escapeJson (c : Char) (rest : List Char) :
    codes? (Text.escapeJson c ++ rest) = prepend c.toNat (codes? rest) := by
  unfold Text.escapeJson
  split
  case h_8 hquote hbackslash _ _ _ _ _ =>
    split_ifs with hcontrol
    · exact codes?_control hcontrol
    · exact codes?_raw hquote hbackslash hcontrol
  -- the characters with an escape of their own
  all_goals exact codes?_simple (by decide) rfl

theorem codes?_flatMap (cs rest : List Char) :
    codes? (cs.flatMap Text.escapeJson ++ '"' :: rest) = some (cs.map Char.toNat, rest) := by
  induction cs with
  | nil => rfl
  | cons c cs ih =>
    rw [List.flatMap_cons, List.append_assoc, codes?_escapeJson, ih]
    rfl

/-- The code of a character is no unit of a pair. -/
theorem joinPairs?_toNat (cs : List Char) : joinPairs? (cs.map Char.toNat) = some cs := by
  induction cs with
  | nil => rfl
  | cons c cs ih =>
    have hvalid : c.toNat < 0xD800 ∨ 0xDFFF < c.toNat ∧ c.toNat < 0x110000 := c.valid
    rw [List.map_cons]
    unfold joinPairs?
    rw [if_neg (by omega), if_neg (by omega), ih, Char.ofNat_toNat]
    rfl

/-- **A string is read as it was written.** -/
theorem stringBody?_escape (s : String) (rest : List Char) :
    stringBody? (s.toList.flatMap Text.escapeJson ++ '"' :: rest) = some (s, rest) := by
  unfold stringBody?
  rw [codes?_flatMap]
  simp only [Option.bind_eq_bind, Option.bind_some, joinPairs?_toNat, String.ofList_toList]
  rfl

end BoxLayout.Json
