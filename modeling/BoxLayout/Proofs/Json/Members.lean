import Mathlib
import BoxLayout.Proofs.Json.Numerals
import BoxLayout.Proofs.Json.Strings

/-!
# Objects in interchange text

An object of plain values is read from its text member by member. What is read differs from what was
written at most in the digits of its numbers.

## The architecture

* **`Plain`** — the values considered: no arrays, no objects, and only numbers that stand for floats or
  for counts.
* **`respelled`** — what is read of such a value.
* **`value?_plain`** — one value, with what stands behind it.
* **`members?_plain`** — the members of an object, by induction; **`read?_object`** — the whole text.
-/

namespace BoxLayout.Json

variable {cs rest : List Char} {c : Char}

/-- A value without inner structure, the number of a float or a count if it is one. -/
inductive Plain : Json → Prop
  | null : Plain .null
  | bool (b : Bool) : Plain (.bool b)
  | string (s : String) : Plain (.string s)
  | count (n : ℕ) : Plain (.number (.ofNat n))
  | number {n : Numeral} (hwhole : n.whole = false)
      (hmagnitude : 0 < n.magnitude.significand ∨ n.magnitude = ⟨0, 0⟩) : Plain (.number n)

/-- What is read of a plain value: the value itself, but for the digits of a float's number. -/
def respelled : Json → Json
  | number n => number n.respelled
  | v => v

def respelledMember (member : String × Json) : String × Json := (member.1, member.2.respelled)

/-! ## One value -/

theorem skipBlanks_cons (h : isBlank c = false) : skipBlanks (c :: cs) = c :: cs :=
  List.dropWhile_cons_of_neg (by simp [h])

/-- A sign or a digit is no blank. -/
theorem isBlank_of_sign_or_digit (h : c = '-' ∨ c.isDigit = true) : isBlank c = false := by
  rcases h with rfl | hdigit
  · rfl
  · rw [← Bool.not_eq_true]
    intro hblank
    simp only [isBlank, Bool.or_eq_true, beq_iff_eq] at hblank
    rcases hblank with ((rfl | rfl) | rfl) | rfl <;> nomatch hdigit

theorem value?_of_numeral? {n : Numeral} (h : numeral? cs = some (n, rest)) (depth : ℕ) :
    value? (depth + 1) cs = some (.number n, rest) := by
  obtain ⟨c, others, rfl, hc⟩ := head?_of_numeral? h
  have hother {d : Char} {more : List Char} (heq : c :: others = d :: more)
      (hd : d ≠ '-' ∧ d.isDigit = false) : False := by
    obtain rfl := (List.cons.inj heq).1
    rcases hc with hsign | hdigit
    · exact hd.1 hsign
    · exact Bool.false_ne_true (hd.2.symm.trans hdigit)
  rw [value?, skipBlanks_cons (isBlank_of_sign_or_digit hc)]
  split
  case h_7 => rw [h]; rfl
  -- no other value starts so
  all_goals exact (hother (by assumption) (by decide)).elim

/-- **A plain value is read from its text.** -/
theorem value?_plain {v : Json} (hv : Plain v) (hrest : Closes rest) (depth : ℕ) :
    value? (depth + 1) (v.chars ++ rest) = some (v.respelled, rest) := by
  cases hv with
  | null => rfl
  | bool b => cases b <;> rfl
  | string s =>
    have htext : (Json.string s).chars ++ rest =
        '"' :: (s.toList.flatMap Text.escapeJson ++ '"' :: rest) := by
      simp [chars, Text.quoteJson]
    rw [htext, value?, skipBlanks_cons rfl]
    simp only [stringBody?_escape, Option.bind_eq_bind, Option.bind_some]
    rfl
  | count n => exact value?_of_numeral? (numeral?_ofNat n hrest) depth
  | number hwhole hmagnitude => exact value?_of_numeral? (numeral?_render hwhole hmagnitude hrest) depth

/-! ## Members -/

theorem closes_membersChars (members : List (String × Json)) (rest : List Char) :
    Closes (membersChars members ++ '\x7d' :: rest) := by
  cases members with
  | nil =>
    intro c hc
    exact Or.inr (Or.inr (Option.some.inj hc).symm)
  | cons member members =>
    intro c hc
    exact Or.inl (Option.some.inj hc).symm

/-- One member, and whatever the text goes on with behind its value. -/
theorem members?_member (key : String) {v read : Json} {depth : ℕ} {more : List Char}
    (hread : value? depth (v.chars ++ more) = some (read, more)) :
    members? (depth + 1) (Text.quoteJson key.toList ++ ':' :: (v.chars ++ more)) =
      match skipBlanks more with
      | ',' :: rest => do
        let (members, rest) ← members? depth rest
        return ((key, read) :: members, rest)
      | '\x7d' :: rest => some ([(key, read)], rest)
      | _ => none := by
  have htext : Text.quoteJson key.toList ++ ':' :: (v.chars ++ more) =
      '"' :: (key.toList.flatMap Text.escapeJson ++ '"' :: ':' :: (v.chars ++ more)) := by
    simp [Text.quoteJson]
  rw [htext, members?, skipBlanks_cons rfl]
  simp only [stringBody?_escape, skipBlanks_cons (show isBlank ':' = false from rfl), hread,
    Option.bind_eq_bind, Option.bind_some]
  rfl

/-- **The members of an object are read up to its closing brace**, if the bound for the nesting allows for
one step for each of them. The induction is on the members after the first. -/
theorem members?_plain (members : List (String × Json)) (rest : List Char) (key : String) {v : Json}
    (hv : Plain v) (hplain : ∀ m ∈ members, Plain m.2) {depth : ℕ} (hdepth : members.length + 2 ≤ depth) :
    members? depth (Text.quoteJson key.toList ++ ':' :: (v.chars ++
      (membersChars members ++ '\x7d' :: rest))) =
        some (((key, v) :: members).map respelledMember, rest) := by
  induction members generalizing key v depth with
  | nil =>
    obtain ⟨depth, rfl⟩ := Nat.exists_eq_add_of_le' hdepth
    exact (members?_member key (value?_plain hv (closes_membersChars [] rest) depth)).trans rfl
  | cons member members ih =>
    obtain ⟨depth, rfl⟩ := Nat.exists_eq_add_of_le' (show 2 ≤ depth by omega)
    obtain ⟨hmember, hmembers⟩ := List.forall_mem_cons.mp hplain
    have hvalue := value?_plain hv (closes_membersChars (member :: members) rest) depth
    have hothers := ih member.1 hmember hmembers (Nat.le_of_succ_le_succ hdepth)
    -- after the first value stand a comma and the text of the other members
    have htext : membersChars (member :: members) ++ '\x7d' :: rest =
        ',' :: (Text.quoteJson member.1.toList ++ ':' :: (member.2.chars ++
          (membersChars members ++ '\x7d' :: rest))) := by
      simp [membersChars]
    rw [members?_member key hvalue, htext, skipBlanks_cons rfl]
    simp only [hothers, Option.bind_eq_bind, Option.bind_some]
    rfl

/-! ## A whole text -/

theorem length_membersChars (members : List (String × Json)) :
    members.length ≤ (membersChars members).length := by
  induction members with
  | nil => exact Nat.zero_le _
  | cons member members ih =>
    obtain ⟨key, v⟩ := member
    rw [membersChars, List.length_cons, List.cons_append, List.cons_append, List.length_cons, List.length_append]
    omega

theorem value?_of_members? {key : String} {members : List (String × Json)} {depth : ℕ}
    (h : members? depth (Text.quoteJson key.toList ++ cs) = some (members, rest)) :
    value? (depth + 1) ('\x7b' :: (Text.quoteJson key.toList ++ cs)) = some (.object members, rest) := by
  have hquote : Text.quoteJson key.toList ++ cs =
      '"' :: (key.toList.flatMap Text.escapeJson ++ '"' :: cs) := by
    simp [Text.quoteJson]
  rw [hquote] at h ⊢
  rw [value?, skipBlanks_cons rfl]
  simp only [skipBlanks_cons (show isBlank '"' = false from rfl), h, Option.bind_eq_bind, Option.bind_some]
  rfl

/-- **An object of plain values is read from its text**, member by member. -/
theorem read?_object {members : List (String × Json)} (hplain : ∀ m ∈ members, Plain m.2) :
    read? (object members).text = some (.object (members.map respelledMember)) := by
  cases members with
  | nil => rfl
  | cons member members =>
    obtain ⟨key, v⟩ := member
    obtain ⟨hv, hmembers⟩ := List.forall_mem_cons.mp hplain
    set cs := (object ((key, v) :: members)).chars with hcs
    have htext : cs = '\x7b' :: (Text.quoteJson key.toList ++
        ':' :: (v.chars ++ (membersChars members ++ '\x7d' :: []))) := by
      simp [hcs, chars]
    -- the depth is set by the length of the text, which every member adds to
    have hdepth : members.length + 2 ≤ 2 * cs.length + 1 := by
      have hlength := length_membersChars members
      rw [htext]
      simp only [List.length_cons, List.length_append]
      omega
    have hvalue := value?_of_members? (members?_plain members [] key hv hmembers hdepth)
    rw [← htext] at hvalue
    simp only [read?, text, String.toList_ofList, ← hcs, hvalue]
    rfl

end BoxLayout.Json
