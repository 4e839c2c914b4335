import Mathlib
import BoxLayout.Proofs.Scalar.Exact

/-!
# Rounded lengths

The lengths of a pass stand for exact ones, and every operation on them is the exact operation
followed by one rounding. `Scalar.Rounded` says just that, and asks of the rounding only that it
keeps the order and leaves a length that is one already as it is. All that layout needs of its
lengths follows, so a fact proved here holds with rounding and without.

## The architecture

* **`Rounded`** — the exact value of a length, the rounding, and one equation for each operation.
  Exact lengths are an instance, with a rounding that does nothing.
* **`le_trans`, `le_of_not_lt`, …** — the order of `Exact`, carried over.
* **`le_add_of_nonneg`, `sub_le_of_nonneg`, `mul_nonneg`, `div_nonneg`** — the sign and the
  direction of a rounded result. None of them is an equation: only the order survives rounding.
* **`infinity_le_add`, `infinity_le_sub`, …** — infinity absorbs the numbers it meets.
* **`clamp_mem`, `clamp_eq_self`** — bringing a length within two bounds, as constraints do.
-/

namespace BoxLayout.Scalar

/-- Lengths that stand for exact ones and round every result. A quotient by zero is left open, for
there are lengths with two zeros. -/
class Rounded (α : Type) [Scalar α] where
  /-- What a length stands for. -/
  value : α → Exact
  /-- The exact value that a result is rounded to. -/
  round : Exact → Exact
  round_mono : ∀ {x y : Exact}, x ≤ y → round x ≤ round y
  round_nan : round .nan = .nan
  round_value : ∀ a : α, round (value a) = value a
  le_iff : ∀ {a b : α}, a ≤ b ↔ value a ≤ value b
  lt_iff : ∀ {a b : α}, a < b ↔ value a < value b
  isNaN_iff : ∀ {a : α}, isNaN a = true ↔ value a = .nan
  isFinite_iff : ∀ {a : α}, isFinite a = true ↔ ∃ q, value a = .finite q
  value_zero : value (zero : α) = .finite 0
  value_one : value (one : α) = .finite 1
  value_infinity : value (infinity : α) = .infinity
  value_neg : ∀ a : α, value (-a) = -value a
  value_add : ∀ a b : α, value (a + b) = round (value a + value b)
  value_sub : ∀ a b : α, value (a - b) = round (value a - value b)
  value_mul : ∀ a b : α, value (a * b) = round (value a * value b)
  value_div : ∀ a b : α, value b ≠ .finite 0 → value (a / b) = round (value a / value b)

instance : Rounded Exact where
  value := id
  round := id
  round_mono := id
  round_nan := rfl
  round_value _ := rfl
  le_iff := Iff.rfl
  lt_iff := Iff.rfl
  isNaN_iff := Exact.isNaN_iff
  isFinite_iff := Exact.isFinite_iff
  value_zero := rfl
  value_one := rfl
  value_infinity := rfl
  value_neg _ := rfl
  value_add _ _ := rfl
  value_sub _ _ := rfl
  value_mul _ _ := rfl
  value_div _ _ _ := rfl

open Rounded

variable {α : Type} [Scalar α]

theorem isExtent_iff {a : α} : isExtent a = true ↔ isFinite a = true ∧ zero ≤ a := by
  rw [isExtent, Bool.and_eq_true, decide_eq_true_iff]

/-- The larger of two lengths is one of them, to the last bit. -/
theorem max_eq_or (a b : α) : Scalar.max a b = a ∨ Scalar.max a b = b := by
  unfold Scalar.max
  split_ifs <;> simp

theorem min_eq_or (a b : α) : Scalar.min a b = a ∨ Scalar.min a b = b := by
  unfold Scalar.min
  split_ifs <;> simp

variable [Rounded α] {a b c : α}

/-! ## NaN -/

theorem isNaN_eq_false_iff : isNaN a = false ↔ value a ≠ .nan := by
  rw [← Bool.not_eq_true, isNaN_iff]

/-- Rounding makes no NaN of a number, so the operands of a number are numbers. -/
theorem ne_nan_of_round {x : Exact} (h : Rounded.round α x ≠ .nan) : x ≠ .nan := by
  rintro rfl
  exact h round_nan

/-- Nor does rounding make a NaN of anything else. -/
theorem round_ne_nan {x : Exact} (h : x ≠ .nan) : Rounded.round α x ≠ .nan :=
  (Exact.ne_nan_of_le (round_mono (α := α) (Exact.le_refl h))).1

theorem isNaN_of_isFinite (h : isFinite a = true) : isNaN a = false := by
  obtain ⟨q, hq⟩ := isFinite_iff.mp h
  rw [isNaN_eq_false_iff, hq]
  nofun

/-! ## The order -/

/-- What can be compared is a number. -/
theorem not_isNaN_of_le (h : a ≤ b) : isNaN a = false ∧ isNaN b = false := by
  rw [isNaN_eq_false_iff, isNaN_eq_false_iff]
  exact Exact.ne_nan_of_le (le_iff.mp h)

protected theorem le_refl (ha : isNaN a = false) : a ≤ a :=
  le_iff.mpr (Exact.le_refl (isNaN_eq_false_iff.mp ha))

protected theorem le_trans (hab : a ≤ b) (hbc : b ≤ c) : a ≤ c :=
  le_iff.mpr (Exact.le_trans (le_iff.mp hab) (le_iff.mp hbc))

/-- Between numbers, the two comparisons decide each other. -/
protected theorem lt_iff_not_le (ha : isNaN a = false) (hb : isNaN b = false) :
    a < b ↔ ¬ b ≤ a := by
  rw [lt_iff, le_iff]
  exact Exact.lt_iff_not_le (isNaN_eq_false_iff.mp ha) (isNaN_eq_false_iff.mp hb)

protected theorem le_of_lt (h : a < b) : a ≤ b :=
  le_iff.mpr (Exact.le_of_lt (lt_iff.mp h))

protected theorem le_of_not_lt (ha : isNaN a = false) (hb : isNaN b = false) (h : ¬ b < a) :
    a ≤ b := by
  rw [Scalar.lt_iff_not_le hb ha, not_not] at h
  exact h

protected theorem le_of_not_le (ha : isNaN a = false) (hb : isNaN b = false) (h : ¬ b ≤ a) :
    a ≤ b :=
  Scalar.le_of_lt ((Scalar.lt_iff_not_le ha hb).mpr h)

protected theorem not_lt_of_le (h : a ≤ b) : ¬ b < a := by
  have hn := not_isNaN_of_le h
  rw [Scalar.lt_iff_not_le hn.2 hn.1, not_not]
  exact h

protected theorem lt_of_lt_of_le (hab : a < b) (hbc : b ≤ c) : a < c := by
  have hn := not_isNaN_of_le (Scalar.le_of_lt hab)
  rw [Scalar.lt_iff_not_le hn.1 (not_isNaN_of_le hbc).2]
  rw [Scalar.lt_iff_not_le hn.1 hn.2] at hab
  exact fun h => hab (Scalar.le_trans hbc h)

theorem not_isNaN_of_lt (h : a < b) : isNaN a = false ∧ isNaN b = false :=
  not_isNaN_of_le (Scalar.le_of_lt h)

theorem zero_isNaN : isNaN (zero : α) = false := by
  rw [isNaN_eq_false_iff, value_zero]
  nofun

/-- Nothing is a length, and so is every bound that bounds nothing. -/
theorem zero_le_infinity : (zero : α) ≤ infinity := by
  rw [le_iff, value_zero, value_infinity]
  rfl

theorem zero_isExtent : isExtent (zero : α) = true := by
  exact isExtent_iff.mpr ⟨isFinite_iff.mpr ⟨0, value_zero⟩, Scalar.le_refl zero_isNaN⟩

/-- A length is finite just if it stands for a rational from zero upwards. -/
theorem isExtent_iff_value : isExtent a = true ↔ ∃ q : Rat, 0 ≤ q ∧ value a = .finite q := by
  rw [isExtent_iff, isFinite_iff, le_iff, value_zero]
  constructor
  · rintro ⟨⟨q, hq⟩, hle⟩
    rw [hq] at hle
    exact ⟨q, Exact.finite_le_finite.mp hle, hq⟩
  · rintro ⟨q, hq, heq⟩
    exact ⟨⟨q, heq⟩, heq ▸ Exact.finite_le_finite.mpr hq⟩

theorem lt_infinity_of_le (hab : a ≤ b) (hb : isFinite b = true) : a < infinity := by
  obtain ⟨q, hq⟩ := isFinite_iff.mp hb
  rw [le_iff, hq] at hab
  rw [lt_iff, value_infinity]
  exact Exact.lt_infinity_of_le hab

/-- A length that lies below a finite one is finite. -/
theorem isExtent_of_le (ha : zero ≤ a) (hab : a ≤ b) (hb : isFinite b = true) :
    isExtent a = true := by
  refine isExtent_iff.mpr ⟨?_, ha⟩
  rw [le_iff, value_zero] at ha
  rw [le_iff] at hab
  obtain ⟨q, hq⟩ := isFinite_iff.mp hb
  rw [hq] at hab
  rw [isFinite_iff]
  -- of the four kinds of exact lengths only the rationals lie between two rationals
  change Exact.ble _ _ = true at ha hab
  cases hv : value a with
  | finite p => exact ⟨p, rfl⟩
  | nan | negInfinity | infinity => simp [hv, Exact.ble] at ha hab

/-! ## Rounded results

A sum, a difference, a product and a quotient of lengths, each with the case left out in which the
result is no number. -/

/-- Adding a length makes nothing smaller. This survives rounding, for what is exceeded is a rounded
length itself. -/
protected theorem le_add_of_nonneg (ha : isNaN a = false) (hb : zero ≤ b)
    (hab : isNaN (a + b) = false) : a ≤ a + b := by
  rw [isNaN_eq_false_iff] at ha hab
  rw [le_iff, value_zero] at hb
  rw [value_add] at hab
  have h : value a ≤ value a + value b := Exact.le_add_of_nonneg ha hb (ne_nan_of_round hab)
  -- rounding leaves `a` as it is, so the order is kept
  have hr : Rounded.round α (value a) ≤ Rounded.round α (value a + value b) := round_mono h
  rw [le_iff, value_add]
  rwa [round_value] at hr

/-- Taking a length away makes nothing larger. -/
protected theorem sub_le_of_nonneg (ha : isNaN a = false) (hb : zero ≤ b)
    (hab : isNaN (a - b) = false) : a - b ≤ a := by
  rw [isNaN_eq_false_iff] at ha hab
  rw [le_iff, value_zero] at hb
  rw [value_sub] at hab
  have h : value a - value b ≤ value a := Exact.sub_le_of_nonneg ha hb (ne_nan_of_round hab)
  have hr : Rounded.round α (value a - value b) ≤ Rounded.round α (value a) := round_mono h
  rw [le_iff, value_sub]
  rwa [round_value] at hr

/-- Rounding does not carry anything across zero, which is a rounded length. -/
theorem zero_le_round {x : Exact} (h : Exact.finite 0 ≤ x) :
    Exact.finite 0 ≤ Rounded.round α x := by
  have hr : Rounded.round α (value (zero : α)) ≤ Rounded.round α x := by
    rw [value_zero]
    exact round_mono h
  rwa [round_value, value_zero] at hr

theorem round_le_zero {x : Exact} (h : x ≤ Exact.finite 0) :
    Rounded.round α x ≤ Exact.finite 0 := by
  have hr : Rounded.round α x ≤ Rounded.round α (value (zero : α)) := by
    rw [value_zero]
    exact round_mono h
  rwa [round_value, value_zero] at hr

/-- Adding on the left keeps the order of lengths, infinity included. -/
protected theorem add_le_add_left (ha : zero ≤ a) (hb : zero ≤ b) (hbc : b ≤ c) :
    a + b ≤ a + c := by
  rw [le_iff, value_zero] at ha hb
  rw [le_iff] at hbc
  rw [le_iff, value_add, value_add]
  exact round_mono (Exact.add_le_add_left ha hb hbc)

/-- A sum of lengths is one, or infinite; it is always a number. -/
protected theorem add_nonneg (ha : zero ≤ a) (hb : zero ≤ b) : zero ≤ a + b := by
  have hle := Scalar.add_le_add_left ha hb (Scalar.le_refl (not_isNaN_of_le hb).2)
  rw [le_iff, value_zero] at ha hb
  rw [le_iff, value_zero, value_add]
  refine zero_le_round (Exact.le_trans ha (Exact.le_add_of_nonneg (Exact.ne_nan_of_le ha).2 hb ?_))
  -- that it is a number is read off the order, which a NaN would not keep
  rw [le_iff, value_add] at hle
  exact ne_nan_of_round (Exact.ne_nan_of_le hle).1

/-- A sum of lengths is no less than either of them. -/
protected theorem le_add_right (ha : zero ≤ a) (hb : zero ≤ b) : a ≤ a + b :=
  Scalar.le_add_of_nonneg (not_isNaN_of_le ha).2 hb (not_isNaN_of_le (Scalar.add_nonneg ha hb)).2

protected theorem le_add_left (ha : zero ≤ a) (hb : zero ≤ b) : b ≤ a + b := by
  have hle := Scalar.le_add_right hb ha
  rw [le_iff, value_add] at hle ⊢
  rwa [Exact.add_comm]

/-- A sum of lengths grows with both of its parts. -/
protected theorem add_le_add (ha : zero ≤ a) (hab : a ≤ b) (hc : zero ≤ c) (hcd : c ≤ d) :
    a + c ≤ b + d := by
  have hcomm (x y : α) : value (x + y) = value (y + x) := by
    rw [value_add, value_add, Exact.add_comm]
  -- first the second part grows, then the first one
  refine Scalar.le_trans (Scalar.add_le_add_left ha hc hcd) ?_
  rw [le_iff, hcomm a, hcomm b, ← le_iff]
  exact Scalar.add_le_add_left (Scalar.le_trans hc hcd) ha hab

/-- Less a smaller one, a length leaves a length. -/
protected theorem sub_nonneg_of_le (h : b ≤ a) (hab : isNaN (a - b) = false) : zero ≤ a - b := by
  rw [isNaN_eq_false_iff, value_sub] at hab
  rw [le_iff] at h
  rw [le_iff, value_zero, value_sub]
  exact zero_le_round (Exact.sub_nonneg_of_le h (ne_nan_of_round hab))

protected theorem sub_nonpos_of_le (h : a ≤ b) (hab : isNaN (a - b) = false) : a - b ≤ zero := by
  rw [isNaN_eq_false_iff, value_sub] at hab
  rw [le_iff] at h
  rw [le_iff, value_zero, value_sub]
  exact round_le_zero (Exact.sub_nonpos_of_le h (ne_nan_of_round hab))

protected theorem mul_nonneg (ha : zero ≤ a) (hb : zero ≤ b) (hab : isNaN (a * b) = false) :
    zero ≤ a * b := by
  rw [isNaN_eq_false_iff, value_mul] at hab
  rw [le_iff, value_zero] at ha hb
  rw [le_iff, value_zero, value_mul]
  exact zero_le_round (Exact.mul_nonneg ha hb (ne_nan_of_round hab))

protected theorem div_nonneg (ha : zero ≤ a) (hb : zero < b) (hab : isNaN (a / b) = false) :
    zero ≤ a / b := by
  rw [lt_iff, value_zero] at hb
  -- the quotient is that of the exact values only if the divisor is not zero
  have hne : value b ≠ .finite 0 := by
    intro h
    rw [h] at hb
    exact lt_irrefl 0 (Exact.finite_lt_finite.mp hb)
  rw [isNaN_eq_false_iff, value_div a b hne] at hab
  rw [le_iff, value_zero] at ha
  rw [le_iff, value_zero, value_div a b hne]
  exact zero_le_round (Exact.div_nonneg ha hb (ne_nan_of_round hab))

/-- Half a length is one, or infinite; it is always a number. -/
theorem half_nonneg (htwo : isFinite (two : α) = true) (ha : zero ≤ a) : zero ≤ a / two := by
  obtain ⟨q, hq⟩ := isFinite_iff.mp htwo
  have hone : (zero : α) ≤ one := by
    rw [le_iff, value_zero, value_one, Exact.finite_le_finite]
    exact zero_le_one
  -- two is one and one, so it is no less than one and can be divided by
  have hle : value (one : α) ≤ value (two : α) := le_iff.mp (Scalar.le_add_right hone hone)
  rw [hq, value_one, Exact.finite_le_finite] at hle
  have hpos : 0 < q := zero_lt_one.trans_le hle
  have hne : value (two : α) ≠ .finite 0 := fun h => hpos.ne' (Exact.finite.inj (hq.symm.trans h))
  rw [le_iff, value_zero] at ha
  rw [le_iff, value_zero, value_div a two hne, hq]
  refine zero_le_round (Exact.div_nonneg ha (Exact.finite_lt_finite.mpr hpos) ?_)
  cases hv : value a with
  -- a rational has a half, and so has an infinity
  | finite p => simp [Exact.finite_div p hpos.ne']
  | infinity => exact ne_of_eq_of_ne (if_neg hpos.not_gt) nofun
  | nan | negInfinity => simp [hv, LE.le, Exact.ble] at ha

/-! A number has numbers for operands; for a quotient, whose divisor may be zero, this is said only
of a divisor above zero. -/

theorem not_isNaN_of_add (h : isNaN (a + b) = false) : isNaN a = false ∧ isNaN b = false := by
  simp only [isNaN_eq_false_iff, value_add] at h ⊢
  have hn := ne_nan_of_round h
  exact ⟨fun ha => hn (by rw [ha, Exact.nan_add]), fun hb => hn (by rw [hb, Exact.add_nan])⟩

theorem not_isNaN_of_neg (h : isNaN (-a) = false) : isNaN a = false := by
  rw [isNaN_eq_false_iff, value_neg] at h
  rw [isNaN_eq_false_iff]
  rintro ha
  exact h (by rw [ha]; rfl)

theorem not_isNaN_of_sub (h : isNaN (a - b) = false) : isNaN a = false ∧ isNaN b = false := by
  simp only [isNaN_eq_false_iff, value_sub] at h ⊢
  have hn := ne_nan_of_round h
  exact ⟨fun ha => hn (by rw [ha, Exact.nan_sub]), fun hb => hn (by rw [hb, Exact.sub_nan])⟩

theorem not_isNaN_of_mul (h : isNaN (a * b) = false) : isNaN a = false ∧ isNaN b = false := by
  simp only [isNaN_eq_false_iff, value_mul] at h ⊢
  have hn := ne_nan_of_round h
  exact ⟨fun ha => hn (by rw [ha, Exact.nan_mul]), fun hb => hn (by rw [hb, Exact.mul_nan])⟩

theorem not_isNaN_of_div (h : isNaN (a / b) = false) (hb : value b ≠ .finite 0) :
    isNaN a = false ∧ isNaN b = false := by
  simp only [isNaN_eq_false_iff, value_div a b hb] at h ⊢
  have hn := ne_nan_of_round h
  exact ⟨fun ha => hn (by rw [ha, Exact.nan_div]), fun hb => hn (by rw [hb, Exact.div_nan])⟩

/-! Lengths that are not too large leave no result open. -/

/-- A length keeps the order as a factor. -/
protected theorem mul_le_mul_right (ha : isExtent a = true) (hb : isExtent b = true) (hab : a ≤ b)
    (hc : isExtent c = true) : a * c ≤ b * c := by
  obtain ⟨p, -, hp⟩ := isExtent_iff_value.mp ha
  obtain ⟨q, -, hq⟩ := isExtent_iff_value.mp hb
  obtain ⟨r, hr, hr'⟩ := isExtent_iff_value.mp hc
  rw [le_iff, hp, hq, Exact.finite_le_finite] at hab
  rw [le_iff, value_mul, value_mul, hp, hq, hr', Exact.finite_mul, Exact.finite_mul]
  exact round_mono (Exact.finite_le_finite.mpr (mul_le_mul_of_nonneg_right hab hr))

/-- A length times or over a number above zero is a number, or infinite. -/
theorem isNaN_mul (ha : zero ≤ a) (hb : isExtent b = true) (hpos : zero < b) :
    isNaN (a * b) = false := by
  obtain ⟨q, -, hq⟩ := isExtent_iff_value.mp hb
  rw [lt_iff, value_zero, hq, Exact.finite_lt_finite] at hpos
  rw [le_iff, value_zero] at ha
  rw [isNaN_eq_false_iff, value_mul, hq]
  exact round_ne_nan (Exact.mul_finite_ne_nan ha hpos)

theorem isNaN_div (ha : zero ≤ a) (hb : isExtent b = true) (hpos : zero < b) :
    isNaN (a / b) = false := by
  obtain ⟨q, -, hq⟩ := isExtent_iff_value.mp hb
  rw [lt_iff, value_zero, hq, Exact.finite_lt_finite] at hpos
  rw [le_iff, value_zero] at ha
  have hne : value b ≠ .finite 0 := fun h => hpos.ne' (Exact.finite.inj (hq.symm.trans h))
  rw [isNaN_eq_false_iff, value_div a b hne, hq]
  exact round_ne_nan (Exact.div_finite_ne_nan ha hpos)

/-- Infinity is a length, so rounding keeps it. -/
theorem round_infinity : Rounded.round α .infinity = .infinity := by
  have h := round_value (infinity : α)
  rwa [value_infinity] at h

/-! Infinity absorbs what is added to it, taken from it, and multiplied or divided by. -/

/-- Nothing is above infinity but infinity itself. -/
theorem infinity_le_iff : infinity ≤ a ↔ value a = .infinity := by
  rw [le_iff, value_infinity]
  cases value a <;> simp [LE.le, Exact.ble]

theorem le_infinity (h : isNaN a = false) : a ≤ infinity := by
  rw [isNaN_eq_false_iff] at h
  rw [le_iff, value_infinity]
  cases hv : value a <;> simp_all [LE.le, Exact.ble]

theorem infinity_le_add (ha : zero ≤ a) (hb : infinity ≤ b) : infinity ≤ a + b :=
  Scalar.le_trans hb (Scalar.le_add_left ha (Scalar.le_trans zero_le_infinity hb))

/-- What is finite can be taken from an infinity without a trace. -/
theorem infinity_le_sub (ha : infinity ≤ a) (hb : isFinite b = true) : infinity ≤ a - b := by
  obtain ⟨q, hq⟩ := isFinite_iff.mp hb
  rw [infinity_le_iff] at ha ⊢
  rw [value_sub, ha, hq]
  exact round_infinity

/-- An infinity stays one times or over a number above zero. -/
theorem infinity_le_mul (ha : infinity ≤ a) (hb : isExtent b = true) (hpos : zero < b) :
    infinity ≤ a * b := by
  obtain ⟨q, -, hq⟩ := isExtent_iff_value.mp hb
  rw [lt_iff, value_zero, hq, Exact.finite_lt_finite] at hpos
  have hproduct : (Exact.infinity * .finite q : Exact) = .infinity := if_pos hpos
  rw [infinity_le_iff] at ha ⊢
  rw [value_mul, ha, hq, hproduct, round_infinity]

theorem infinity_le_div (ha : infinity ≤ a) (hb : isExtent b = true) (hpos : zero < b) :
    infinity ≤ a / b := by
  obtain ⟨q, -, hq⟩ := isExtent_iff_value.mp hb
  rw [lt_iff, value_zero, hq, Exact.finite_lt_finite] at hpos
  have hne : value b ≠ .finite 0 := fun h => hpos.ne' (Exact.finite.inj (hq.symm.trans h))
  have hquotient : (Exact.infinity / .finite q : Exact) = .infinity := if_neg hpos.not_gt
  rw [infinity_le_iff] at ha ⊢
  rw [value_div a b hne, ha, hq, hquotient, round_infinity]

/-- What a number above zero divides into a finite length is finite. -/
theorem isExtent_of_div (ha : zero ≤ a) (hb : isExtent b = true) (hpos : zero < b)
    (h : isFinite (a / b) = true) : isExtent a = true := by
  refine isExtent_iff.mpr ⟨isFinite_iff.mpr ?_, ha⟩
  rw [le_iff, value_zero] at ha
  cases hv : value a with
  | finite r => exact ⟨r, rfl⟩
  -- an infinite dividend would make the quotient infinite
  | infinity =>
    obtain ⟨p, hp⟩ := isFinite_iff.mp h
    have hquotient := infinity_le_iff.mp (infinity_le_div (infinity_le_iff.mpr hv) hb hpos)
    exact nomatch hp.symm.trans hquotient
  | nan | negInfinity => simp [hv, LE.le, Exact.ble] at ha

/-- A length and anything below infinity have a difference, taken either way. -/
theorem isNaN_sub (ha : a < infinity) (hb : zero ≤ b) :
    isNaN (a - b) = false ∧ isNaN (b - a) = false := by
  rw [lt_iff, value_infinity] at ha
  rw [le_iff, value_zero] at hb
  rw [isNaN_eq_false_iff, isNaN_eq_false_iff, value_sub, value_sub]
  have hne := Exact.sub_ne_nan ha hb
  exact ⟨round_ne_nan hne.1, round_ne_nan hne.2⟩

/-- More shared among fewer gives more. -/
protected theorem div_le_div (ha : isExtent a = true) (hb : isExtent b = true) (hab : a ≤ b)
    (hc : isExtent c = true) (hpos : zero < c) (hcd : c ≤ d) : a / d ≤ b / c := by
  obtain ⟨p, hp0, hp⟩ := isExtent_iff_value.mp ha
  obtain ⟨q, -, hq⟩ := isExtent_iff_value.mp hb
  obtain ⟨r, -, hr⟩ := isExtent_iff_value.mp hc
  rw [le_iff, hp, hq, Exact.finite_le_finite] at hab
  rw [lt_iff, value_zero, hr, Exact.finite_lt_finite] at hpos
  rw [le_iff, hr] at hcd
  have hcne : value c ≠ .finite 0 := fun h => hpos.ne' (Exact.finite.inj (hr.symm.trans h))
  -- the larger divisor is not zero either
  have hdne : value d ≠ .finite 0 := fun h => by
    rw [h, Exact.finite_le_finite] at hcd
    exact absurd hcd hpos.not_ge
  rw [le_iff, value_div a d hdne, value_div b c hcne, hp, hq, hr]
  exact round_mono (Exact.finite_div_le_div hp0 hab hpos hcd)

/-! ## Sums of lengths -/

/-- Sums start from minus zero, which is no less than nothing. -/
theorem zero_le_neg_zero : zero ≤ (-zero : α) := by
  rw [le_iff, value_neg, value_zero]
  exact Exact.finite_le_finite.mpr neg_zero.ge

/-- A sum grows with its parts, and with more parts. -/
theorem sum_filter_map_le {β : Type} {p : β → Bool} {f g : β → α} {xs : List β}
    (h : ∀ x ∈ xs, zero ≤ g x ∧ (p x = true → zero ≤ f x ∧ f x ≤ g x)) :
    zero ≤ Scalar.sum ((xs.filter p).map f) ∧
      Scalar.sum ((xs.filter p).map f) ≤ Scalar.sum (xs.map g) := by
  -- the induction is on the list, for any two sums so far that are in order
  have hall (a b : α) (ha : zero ≤ a) (hab : a ≤ b) :
      zero ≤ ((xs.filter p).map f).foldl (· + ·) a ∧
        ((xs.filter p).map f).foldl (· + ·) a ≤ (xs.map g).foldl (· + ·) b := by
    induction xs generalizing a b with
    | nil => exact ⟨ha, hab⟩
    | cons x xs ih =>
      obtain ⟨⟨hg, hx⟩, hxs⟩ := List.forall_mem_cons.mp h
      cases hp : p x with
      | true =>
        -- a part of both sums
        obtain ⟨hf, hfg⟩ := hx hp
        rw [List.filter_cons_of_pos hp]
        exact ih hxs _ _ (Scalar.add_nonneg ha hf) (Scalar.add_le_add ha hab hf hfg)
      | false =>
        -- a part of the second sum only
        rw [List.filter_cons_of_neg (by rw [hp]; exact Bool.false_ne_true)]
        exact ih hxs _ _ ha (Scalar.le_trans hab (Scalar.le_add_right (Scalar.le_trans ha hab) hg))
  exact hall _ _ zero_le_neg_zero (Scalar.le_refl (not_isNaN_of_le zero_le_neg_zero).2)

/-- A sum of lengths grows with each of its parts. -/
theorem sum_map_le {β : Type} {f g : β → α} {xs : List β}
    (h : ∀ x ∈ xs, zero ≤ f x ∧ f x ≤ g x) :
    zero ≤ Scalar.sum (xs.map f) ∧ Scalar.sum (xs.map f) ≤ Scalar.sum (xs.map g) := by
  have hle := sum_filter_map_le (p := fun _ => true) (f := f) (g := g) fun x hx =>
    ⟨Scalar.le_trans (h x hx).1 (h x hx).2, fun _ => h x hx⟩
  rwa [List.filter_true] at hle

theorem sum_map_nonneg {β : Type} {f : β → α} {xs : List β} (h : ∀ x ∈ xs, zero ≤ f x) :
    zero ≤ Scalar.sum (xs.map f) :=
  (sum_map_le fun x hx => ⟨h x hx, Scalar.le_refl (not_isNaN_of_le (h x hx)).2⟩).1

/-- Every part is at most the sum. -/
theorem le_sum_map {β : Type} {f : β → α} {xs : List β} (h : ∀ x ∈ xs, zero ≤ f x) {x : β}
    (hx : x ∈ xs) : f x ≤ Scalar.sum (xs.map f) := by
  -- a sum never falls below what it starts from
  have hgrow (ys : List β) (hys : ∀ y ∈ ys, zero ≤ f y) (a : α) (ha : zero ≤ a) :
      a ≤ (ys.map f).foldl (· + ·) a := by
    induction ys generalizing a with
    | nil => exact Scalar.le_refl (not_isNaN_of_le ha).2
    | cons y ys ih =>
      obtain ⟨hy, hys⟩ := List.forall_mem_cons.mp hys
      exact Scalar.le_trans (Scalar.le_add_right ha hy) (ih hys _ (Scalar.add_nonneg ha hy))
  -- the part itself, between those before it and those after it
  obtain ⟨before, after, rfl⟩ := List.append_of_mem hx
  rw [List.forall_mem_append, List.forall_mem_cons] at h
  obtain ⟨hbefore, hx, hafter⟩ := h
  have hstart := hgrow before hbefore _ zero_le_neg_zero
  rw [Scalar.sum, List.map_append, List.foldl_append, List.map_cons, List.foldl_cons]
  refine Scalar.le_trans (Scalar.le_add_left ?_ hx) (hgrow after hafter _ (Scalar.add_nonneg ?_ hx)) <;>
    exact Scalar.le_trans zero_le_neg_zero hstart

/-! ## Two bounds

A length brought below `M` and then above `m`. Neither step computes anything, so both hold to the
last bit, and a NaN is replaced by the bound it meets first. -/

variable {m M v : α}

theorem min_le_right (hM : isNaN M = false) : Scalar.min v M ≤ M := by
  unfold Scalar.min
  cases hv : isNaN v with
  -- a NaN gives way to the bound
  | true => exact Scalar.le_refl hM
  | false =>
    simp only [hM, Bool.false_eq_true, if_false]
    split
    case isTrue => exact Scalar.le_refl hM
    case isFalse h => exact Scalar.le_of_not_lt hv hM h

theorem min_le_left (hv : isNaN v = false) : Scalar.min v M ≤ v := by
  unfold Scalar.min
  cases hM : isNaN M with
  | true => simpa [hv] using Scalar.le_refl hv
  | false =>
    simp only [hv, Bool.false_eq_true, if_false]
    split
    case isTrue h => exact Scalar.le_of_lt h
    case isFalse => exact Scalar.le_refl hv

theorem min_eq_left (h : v ≤ M) : Scalar.min v M = v := by
  unfold Scalar.min
  rw [(not_isNaN_of_le h).1, (not_isNaN_of_le h).2]
  exact if_neg (Scalar.not_lt_of_le h)

theorem not_isNaN_min (hM : isNaN M = false) : isNaN (Scalar.min v M) = false :=
  (not_isNaN_of_le (min_le_right hM)).1

theorem le_max_right (hv : isNaN v = false) (hm : isNaN m = false) : m ≤ Scalar.max v m := by
  unfold Scalar.max
  simp only [hv, hm, Bool.false_eq_true, if_false]
  split
  case isTrue => exact Scalar.le_refl hm
  case isFalse h => exact Scalar.le_of_not_lt hm hv h

/-- Whatever is brought within two bounds in order lies within them; a NaN does too. -/
theorem clamp_mem (h : m ≤ M) :
    m ≤ Scalar.max (Scalar.min v M) m ∧ Scalar.max (Scalar.min v M) m ≤ M := by
  have hn := not_isNaN_of_le h
  -- the minimum has the last word, and it is below the maximum
  refine ⟨le_max_right (not_isNaN_min hn.2) hn.1, ?_⟩
  rcases max_eq_or (Scalar.min v M) m with heq | heq <;> rw [heq]
  · exact min_le_right hn.2
  · exact h

/-- What lies within the bounds is left as it is. -/
theorem clamp_eq_self (hm : m ≤ v) (hM : v ≤ M) : Scalar.max (Scalar.min v M) m = v := by
  rw [min_eq_left hM]
  unfold Scalar.max
  rw [(not_isNaN_of_le hm).1, (not_isNaN_of_le hm).2]
  exact if_neg (Scalar.not_lt_of_le hm)

end BoxLayout.Scalar
