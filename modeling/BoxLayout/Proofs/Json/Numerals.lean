import Mathlib
import BoxLayout.Json.Printer
import BoxLayout.Json.Reader
import BoxLayout.Proofs.Decimal.Nearest

/-!
# Numbers in interchange text

What is written of a number is read as a number of the same value. The digits need not be the same ones,
for a whole number is written with a zero behind its point, and zeros may stand before that.

## The architecture

* **`digits?_append`**, **`wholePart?_append`**, **`fraction?_point`**, **`exponent?_mark`** — the parts of
  a number, each with what follows it; **`magnitude?_eq`** — their sum.
* **`Closes`** — what can stand behind a value. None of it goes on with a number.
* **`respelled`** — the decimal with the digits that are written.
* **`magnitude?_whole`**, **`magnitude?_fraction`**, **`magnitude?_below_one`**, **`magnitude?_scientific`** —
  the ways of writing a number, by where its point falls.
* **`numeral?_render`** — so a float is read with the digits that were written; **`numeral?_ofNat`** — and
  a count is read as it was.
-/

namespace BoxLayout

/-- Whether a decimal is written out in full, as a whole number. -/
def Decimal.WrittenWhole (d : Decimal) : Prop :=
  0 ≤ d.exponent ∧ -6 ≤ d.leadingPower ∧ d.leadingPower ≤ 12

instance (d : Decimal) : Decidable d.WrittenWhole := inferInstanceAs (Decidable (_ ∧ _ ∧ _))

/-- A decimal with the digits that are written of it: a whole number has all its zeros, and one behind the
point. -/
def Decimal.respelled (d : Decimal) : Decimal :=
  if d.WrittenWhole then ⟨d.significand * 10 ^ d.exponent.toNat * 10, -1⟩ else d

/-- A numeral with the digits that are written of it. Those of a count are its own. -/
def Numeral.respelled (n : Numeral) : Numeral :=
  if n.whole then n else ⟨n.negative, n.magnitude.respelled, false⟩

namespace Json

variable {ds cs rest : List Char}

/-! ## Digits -/

/-- A text goes on with no digit. -/
def StopsDigits (rest : List Char) : Prop := ∀ c ∈ rest.head?, c.isDigit = false

theorem takeWhile_of_stops (h : StopsDigits rest) :
    rest.takeWhile Char.isDigit = [] ∧ rest.dropWhile Char.isDigit = rest := by
  cases rest with
  | nil => exact ⟨rfl, rfl⟩
  | cons c rest =>
    have hc : c.isDigit = false := h c rfl
    constructor
    · rw [List.takeWhile_cons, hc]
      rfl
    · rw [List.dropWhile_cons, hc]
      rfl

theorem digits?_append (hds : ∀ c ∈ ds, c.isDigit = true) (hne : ds ≠ []) (hrest : StopsDigits rest) :
    digits? (ds ++ rest) = some (ds, rest) := by
  unfold digits?
  rw [List.takeWhile_append_of_pos hds, List.dropWhile_append_of_pos hds, (takeWhile_of_stops hrest).1,
    (takeWhile_of_stops hrest).2, List.append_nil]
  cases ds with
  | nil => exact absurd rfl hne
  | cons d ds => rfl

theorem wholePart?_append (hds : ∀ c ∈ ds, c.isDigit = true) (hne : ds ≠ [])
    (hlead : ds.head? ≠ some '0') (hrest : StopsDigits rest) :
    wholePart? (ds ++ rest) = some (ds, rest) := by
  unfold wholePart?
  split
  case h_1 more heq =>
    cases ds with
    | nil => exact absurd rfl hne
    | cons d ds => exact absurd (congrArg some (List.cons.inj heq).1) hlead
  case h_2 => exact digits?_append hds hne hrest

theorem isDigit_of_mem_toDigits {n : ℕ} {c : Char} (h : c ∈ Nat.toDigits 10 n) : c.isDigit = true :=
  Nat.isDigit_of_mem_toDigits (by norm_num) (by norm_num) h

/-- The digits of a number above zero start with another digit than zero. -/
theorem head?_toDigits {n : ℕ} (h : 0 < n) : (Nat.toDigits 10 n).head? ≠ some '0' := by
  induction n using Nat.strong_induction_on with
  | _ n ih =>
    rcases lt_or_ge n 10 with hlt | hge
    · rw [Nat.toDigits_of_lt_base hlt]
      intro hzero
      exact h.ne' (Nat.digitChar_eq_zero.mp (Option.some.inj hzero))
    · rw [Nat.toDigits_of_base_le (by norm_num) hge, List.head?_append_of_ne_nil _ Nat.toDigits_ne_nil]
      exact ih (n / 10) (Nat.div_lt_self h (by norm_num)) (Nat.div_pos hge (by norm_num))

theorem magnitude?_eq {negative : Bool} {whole fraction more others : List Char} {exponent : Option ℤ}
    (hwhole : wholePart? cs = some (whole, more)) (hfraction : fraction? more = some (fraction, others))
    (hexponent : exponent? others = some (exponent, rest)) :
    magnitude? negative cs = some (⟨negative, ⟨Nat.ofDigitChars 10 (whole ++ fraction) 0,
      exponent.getD 0 - fraction.length⟩, fraction.isEmpty && exponent.isNone⟩, rest) := by
  unfold magnitude?
  rw [hwhole]
  dsimp only [Option.bind_eq_bind, Option.bind_some]
  rw [hfraction]
  dsimp only [Option.bind_some]
  rw [hexponent]
  rfl

/-! ## What stands behind a number -/

/-- Behind a value a text ends, or goes on with a separator or a closing bracket. -/
def Closes (rest : List Char) : Prop := ∀ c ∈ rest.head?, c = ',' ∨ c = ']' ∨ c = '\x7d'

theorem Closes.stopsDigits (h : Closes rest) : StopsDigits rest := by
  intro c hc
  rcases h c hc with rfl | rfl | rfl <;> rfl

theorem stopsDigits_cons {c : Char} (h : c.isDigit = false) : StopsDigits (c :: rest) := by
  intro d hd
  cases hd
  exact h

theorem Closes.fraction? (h : Closes rest) : fraction? rest = some ([], rest) := by
  cases rest with
  | nil => rfl
  | cons c rest => rcases h c rfl with rfl | rfl | rfl <;> rfl

theorem Closes.exponent? (h : Closes rest) : exponent? rest = some (none, rest) := by
  cases rest with
  | nil => rfl
  | cons c rest => rcases h c rfl with rfl | rfl | rfl <;> rfl

theorem fraction?_point (hds : ∀ c ∈ ds, c.isDigit = true) (hne : ds ≠ []) (hrest : StopsDigits rest) :
    fraction? ('.' :: (ds ++ rest)) = some (ds, rest) :=
  digits?_append hds hne hrest

theorem digits?_toDigits (n : ℕ) (hrest : StopsDigits rest) :
    digits? (Nat.toDigits 10 n ++ rest) = some (Nat.toDigits 10 n, rest) :=
  digits?_append (fun _ => isDigit_of_mem_toDigits) Nat.toDigits_ne_nil hrest

/-- An exponent is always signed. -/
theorem exponent?_mark (power : ℤ) (hrest : StopsDigits rest) :
    exponent? ('e' :: (if power < 0 then '-' else '+') :: (Nat.toDigits 10 power.natAbs ++ rest)) =
      some (some power, rest) := by
  have hdigits := digits?_toDigits power.natAbs hrest
  rcases lt_or_ge power 0 with hneg | hpos
  · rw [if_pos hneg]
    simp only [Json.exponent?, signedDigits?, hdigits, Option.map_some, Nat.ofDigitChars_ten_toDigits]
    rw [Int.ofNat_natAbs_of_nonpos hneg.le, neg_neg]
  · rw [if_neg hpos.not_gt]
    simp only [Json.exponent?, signedDigits?, hdigits, Option.map_some, Nat.ofDigitChars_ten_toDigits]
    rw [Int.natAbs_of_nonneg hpos]

/-! ## Numbers -/

variable {d : Decimal} {negative : Bool}

/-- The digits of a number are read back as the number. -/
theorem ofDigitChars_digits (d : Decimal) : Nat.ofDigitChars 10 d.digits 0 = d.significand :=
  Nat.ofDigitChars_ten_toDigits

theorem isDigit_of_mem_digits {c : Char} (h : c ∈ d.digits) : c.isDigit = true :=
  isDigit_of_mem_toDigits h

theorem digits_ne_nil (d : Decimal) : d.digits ≠ [] := Nat.toDigits_ne_nil

theorem head?_digits (h : 0 < d.significand) : d.digits.head? ≠ some '0' := head?_toDigits h

theorem isDigit_of_mem_replicate {n : ℕ} {c : Char} (h : c ∈ List.replicate n '0') :
    c.isDigit = true := by
  rw [List.eq_of_mem_replicate h]
  rfl

/-- A whole number, written with its zeros and a zero behind the point. -/
theorem magnitude?_whole (hpos : 0 < d.significand) (hexponent : 0 ≤ d.exponent) (hrest : Closes rest) :
    magnitude? negative (d.positional ".0" ++ rest) =
      some (⟨negative, ⟨d.significand * 10 ^ d.exponent.toNat * 10, -1⟩, false⟩, rest) := by
  -- all digits stand before the point, with zeros behind them and one zero behind the point
  set zeros := List.replicate d.exponent.toNat '0' with hzeros
  have htext : d.positional ".0" ++ rest = (d.digits ++ zeros) ++ '.' :: (['0'] ++ rest) := by
    rw [Decimal.positional, if_pos hexponent]
    simp [hzeros]
  have hdigits : ∀ c ∈ d.digits ++ zeros, c.isDigit = true :=
    List.forall_mem_append.mpr ⟨fun _ => isDigit_of_mem_digits, fun _ => isDigit_of_mem_replicate⟩
  have hne : d.digits ++ zeros ≠ [] := fun h => (digits_ne_nil d) (List.append_eq_nil_iff.mp h).1
  have hhead : (d.digits ++ zeros).head? ≠ some '0' := by
    rw [List.head?_append_of_ne_nil _ (digits_ne_nil d)]
    exact head?_digits hpos
  have hpoint : ∀ c ∈ ['0'], c.isDigit = true := by simp
  rw [htext, magnitude?_eq (wholePart?_append hdigits hne hhead (stopsDigits_cons rfl))
    (fraction?_point hpoint (by simp) hrest.stopsDigits) hrest.exponent?]
  have hsignificand : Nat.ofDigitChars 10 (d.digits ++ zeros ++ ['0']) 0 =
      d.significand * 10 ^ d.exponent.toNat * 10 := by
    rw [Nat.ofDigitChars_append, Nat.ofDigitChars_append, ofDigitChars_digits, hzeros,
      Nat.ofDigitChars_replicate_zero]
    simp [Nat.ofDigitChars_cons]
    ring
  rw [hsignificand]
  rfl

/-- A number with digits on both sides of the point. -/
theorem magnitude?_fraction (hpos : 0 < d.significand) (hexponent : d.exponent < 0)
    (hpoint : 0 < d.pointPosition) (hrest : Closes rest) :
    magnitude? negative (d.positional ".0" ++ rest) = some (⟨negative, d, false⟩, rest) := by
  -- the point stands inside the digits, behind the first `count` of them
  obtain ⟨count, hcount⟩ := Int.eq_ofNat_of_zero_le hpoint.le
  have hlength : d.digits.length + d.exponent = count := hcount
  have htext : d.positional ".0" ++ rest =
      d.digits.take count ++ '.' :: (d.digits.drop count ++ rest) := by
    rw [Decimal.positional, if_neg hexponent.not_ge, if_pos hpoint, hcount, Int.toNat_natCast,
      List.append_assoc, List.cons_append]
  have hwhole : d.digits.take count ≠ [] := by
    rw [ne_eq, List.take_eq_nil_iff, not_or]
    exact ⟨by omega, digits_ne_nil d⟩
  have hhead : (d.digits.take count).head? ≠ some '0' := by
    rw [List.head?_take, if_neg (by omega)]
    exact head?_digits hpos
  have hmore : d.digits.drop count ≠ [] := by
    rw [ne_eq, List.drop_eq_nil_iff]
    omega
  rw [htext, magnitude?_eq (wholePart?_append (fun c hc => isDigit_of_mem_digits (List.mem_of_mem_take hc))
      hwhole hhead (stopsDigits_cons rfl))
    (fraction?_point (fun c hc => isDigit_of_mem_digits (List.mem_of_mem_drop hc)) hmore
      hrest.stopsDigits) hrest.exponent?]
  have hexponents : (none : Option ℤ).getD 0 - (d.digits.drop count).length = d.exponent := by
    rw [Option.getD_none, List.length_drop]
    omega
  rw [List.take_append_drop, ofDigitChars_digits, hexponents, List.isEmpty_eq_false_iff.mpr hmore]
  rfl

/-- A number below one, with its zeros behind the point. -/
theorem magnitude?_below_one (hexponent : d.exponent < 0) (hpoint : d.pointPosition ≤ 0)
    (hrest : Closes rest) :
    magnitude? negative (d.positional ".0" ++ rest) = some (⟨negative, d, false⟩, rest) := by
  -- all digits stand behind the point, with zeros in front of them
  set zeros := List.replicate (-d.pointPosition).toNat '0' with hzeros
  have hlength : d.digits.length + d.exponent = d.pointPosition := rfl
  have htext : d.positional ".0" ++ rest = '0' :: '.' :: ((zeros ++ d.digits) ++ rest) := by
    rw [Decimal.positional, if_neg hexponent.not_ge, if_neg hpoint.not_gt]
    rfl
  have hdigits : ∀ c ∈ zeros ++ d.digits, c.isDigit = true :=
    List.forall_mem_append.mpr ⟨fun _ => isDigit_of_mem_replicate, fun _ => isDigit_of_mem_digits⟩
  have hne : zeros ++ d.digits ≠ [] := fun h => digits_ne_nil d (List.append_eq_nil_iff.mp h).2
  rw [htext, magnitude?_eq rfl (fraction?_point hdigits hne hrest.stopsDigits) hrest.exponent?]
  have hexponents : (none : Option ℤ).getD 0 - (zeros ++ d.digits).length = d.exponent := by
    rw [Option.getD_none, List.length_append, hzeros, List.length_replicate]
    omega
  have hsignificand : Nat.ofDigitChars 10 (['0'] ++ (zeros ++ d.digits)) 0 = d.significand := by
    rw [Nat.ofDigitChars_append, Nat.ofDigitChars_append, hzeros, Nat.ofDigitChars_replicate_zero]
    exact ofDigitChars_digits d
  rw [hsignificand, hexponents, List.isEmpty_eq_false_iff.mpr hne]
  rfl

/-- A number with one digit before the point and an exponent. -/
theorem magnitude?_scientific (hpos : 0 < d.significand) (hrest : Closes rest) :
    magnitude? negative (d.scientific "+" ++ rest) = some (⟨negative, d, false⟩, rest) := by
  set exponent := 'e' :: (if d.leadingPower < 0 then '-' else '+') ::
    (Nat.toDigits 10 d.leadingPower.natAbs ++ rest) with hexponent
  have hread : exponent? exponent = some (some d.leadingPower, rest) :=
    exponent?_mark d.leadingPower hrest.stopsDigits
  have hpower : d.leadingPower = d.digits.length + d.exponent - 1 := rfl
  have hsignificand := ofDigitChars_digits d
  have hall (c : Char) (hc : c ∈ d.digits) : c.isDigit = true := isDigit_of_mem_digits hc
  have hhead := head?_digits hpos
  cases hdigits : d.digits with
  | nil => exact absurd hdigits (digits_ne_nil d)
  | cons first more =>
    rw [hdigits] at hpower hsignificand hall hhead
    obtain ⟨hfirst, hmore⟩ := List.forall_mem_cons.mp hall
    have hfirst : ∀ c ∈ [first], c.isDigit = true := List.forall_mem_singleton.mpr hfirst
    cases more with
    | nil =>
      -- a single digit has no point behind it
      have hwhole : wholePart? ([first] ++ exponent) = some ([first], exponent) :=
        wholePart?_append hfirst (by simp) hhead (stopsDigits_cons rfl)
      have hexponents : (some d.leadingPower).getD 0 - (([] : List Char).length : ℤ) = d.exponent := by
        rw [hpower]
        simp
      have htext : d.scientific "+" ++ rest = [first] ++ exponent := by
        simp only [Decimal.scientific, hdigits, hexponent]
        split_ifs <;> simp
      rw [htext]
      refine (magnitude?_eq hwhole rfl hread).trans ?_
      rw [List.append_nil, hsignificand, hexponents]
      rfl
    | cons second more =>
      have hwhole : wholePart? ([first] ++ '.' :: (second :: more ++ exponent)) =
          some ([first], '.' :: (second :: more ++ exponent)) :=
        wholePart?_append hfirst (by simp) hhead (stopsDigits_cons rfl)
      have hexponents : (some d.leadingPower).getD 0 - ((second :: more).length : ℤ) = d.exponent := by
        rw [hpower]
        push_cast [List.length_cons, Option.getD_some]
        ring
      have htext : d.scientific "+" ++ rest = [first] ++ '.' :: (second :: more ++ exponent) := by
        simp only [Decimal.scientific, hdigits, hexponent]
        split_ifs <;> simp
      rw [htext]
      refine (magnitude?_eq hwhole (fraction?_point hmore (by simp) (stopsDigits_cons rfl)) hread).trans ?_
      rw [List.singleton_append, hsignificand, hexponents]
      rfl

/-- **A number that is not whole in interchange text is read with the digits that were written.** -/
theorem magnitude?_render (hpos : 0 < d.significand) (hrest : Closes rest) :
    magnitude? negative (d.render .interchange ++ rest) =
      some (⟨negative, d.respelled, false⟩, rest) := by
  unfold Decimal.render NumberStyle.interchange
  dsimp only
  by_cases hwhole : d.WrittenWhole
  · rw [Decimal.respelled, if_pos hwhole, if_pos hwhole.2]
    exact magnitude?_whole hpos hwhole.1 hrest
  · rw [Decimal.respelled, if_neg hwhole]
    split_ifs with hrange
    · have hexponent : d.exponent < 0 := not_le.mp fun h => hwhole ⟨h, hrange⟩
      rcases lt_or_ge 0 d.pointPosition with hpoint | hpoint
      · exact magnitude?_fraction hpos hexponent hpoint hrest
      · exact magnitude?_below_one hexponent hpoint hrest
    · exact magnitude?_scientific hpos hrest

theorem magnitude?_zero (hrest : Closes rest) :
    magnitude? negative ((⟨0, 0⟩ : Decimal).render .interchange ++ rest) =
      some (⟨negative, (⟨0, 0⟩ : Decimal).respelled, false⟩, rest) := by
  have hwhole : wholePart? ((⟨0, 0⟩ : Decimal).render .interchange ++ rest) =
      some (['0'], '.' :: (['0'] ++ rest)) := rfl
  have hfraction : fraction? ('.' :: (['0'] ++ rest)) = some (['0'], rest) :=
    fraction?_point (by simp) (by simp) hrest.stopsDigits
  exact magnitude?_eq hwhole hfraction hrest.exponent?

theorem numeral?_of_magnitude? {n : Numeral} (h : magnitude? false cs = some (n, rest)) :
    numeral? cs = some (n, rest) := by
  unfold numeral?
  split
  case h_1 others =>
    -- a sign is no digit, so there would be no whole part
    nomatch h
  case h_2 => exact h

/-- **The numeral of a float is read with its sign and the digits that were written.** -/
theorem numeral?_render {n : Numeral} (hwhole : n.whole = false)
    (hmagnitude : 0 < n.magnitude.significand ∨ n.magnitude = ⟨0, 0⟩) (hrest : Closes rest) :
    numeral? (n.render ++ rest) = some (n.respelled, rest) := by
  have hread (negative : Bool) : magnitude? negative (n.magnitude.render .interchange ++ rest) =
      some (⟨negative, n.magnitude.respelled, false⟩, rest) := by
    rcases hmagnitude with hpos | hzero
    · exact magnitude?_render hpos hrest
    · rw [hzero]
      exact magnitude?_zero hrest
  unfold Numeral.render Numeral.respelled
  rw [hwhole]
  cases n.negative with
  | true => exact hread true
  | false => exact numeral?_of_magnitude? (hread false)

/-- No zero leads the digits of a number, except for zero itself. -/
theorem wholePart?_toDigits (n : ℕ) (hrest : StopsDigits rest) :
    wholePart? (Nat.toDigits 10 n ++ rest) = some (Nat.toDigits 10 n, rest) := by
  rcases Nat.eq_zero_or_pos n with rfl | hpos
  · rfl
  · exact wholePart?_append (fun _ => isDigit_of_mem_toDigits) Nat.toDigits_ne_nil (head?_toDigits hpos)
      hrest

/-- **The numeral of a count is read as it was written.** -/
theorem numeral?_ofNat (n : ℕ) (hrest : Closes rest) :
    numeral? ((Numeral.ofNat n).render ++ rest) = some (.ofNat n, rest) := by
  have htext : (Numeral.ofNat n).render ++ rest = Nat.toDigits 10 n ++ rest := by
    show Nat.toDigits 10 n ++ [] ++ [] ++ rest = _
    rw [List.append_nil, List.append_nil]
  rw [htext]
  refine numeral?_of_magnitude? ?_
  rw [magnitude?_eq (wholePart?_toDigits n hrest.stopsDigits) hrest.fraction? hrest.exponent?,
    List.append_nil, Nat.ofDigitChars_ten_toDigits]
  rfl

theorem wholePart?_of_not_isDigit {c : Char} (h : c.isDigit = false) :
    wholePart? (c :: rest) = none := by
  unfold wholePart?
  split
  case h_1 others heq =>
    rw [(List.cons.inj heq).1] at h
    nomatch h
  case h_2 =>
    unfold digits?
    rw [List.takeWhile_cons, h]
    rfl

/-- A number starts with a sign or a digit. -/
theorem head?_of_numeral? {n : Numeral} (h : numeral? cs = some (n, rest)) :
    ∃ c others, cs = c :: others ∧ (c = '-' ∨ c.isDigit = true) := by
  cases cs with
  | nil => nomatch h
  | cons c others =>
    refine ⟨c, others, rfl, or_iff_not_imp_left.mpr fun hsign => ?_⟩
    rw [← Bool.not_eq_false]
    intro hdigit
    unfold numeral? at h
    split at h
    case h_1 heq => exact hsign (List.cons.inj heq).1
    case h_2 =>
      rw [magnitude?, wholePart?_of_not_isDigit hdigit] at h
      nomatch h

end Json

end BoxLayout
