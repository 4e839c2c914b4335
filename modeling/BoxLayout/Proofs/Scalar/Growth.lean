import Mathlib
import BoxLayout.Proofs.Scalar.Rounded

/-!
# Lengths that grow

Of two runs the second works on lengths that are no less. Sums and maxima keep that to the last bit,
for rounding keeps the order. A product may be left open on the way, where a count is infinite; but
what is left open in the second run is brought down to a bound there, so that the first one cannot
exceed it.

* **`Grows`** — a length and one that is no less; kept by `add`, `sum`, `max`.
* **`GrowsBeyond`** — the same, or the second is infinite or no number; kept by `add`, `mul_count`.
* **`GrowsBeyond.clamp`** — brought within bounds that grow themselves, the order is back.
-/

namespace BoxLayout.Scalar

open Rounded

open scoped Relator

variable {α : Type} [Scalar α]

/-- A length and one that is no less. -/
structure Grows (a b : α) : Prop where
  nonneg : zero ≤ a
  le : a ≤ b

variable {a b c d : α}

theorem grows_of_isExtent (ha : isExtent a = true) (hab : a ≤ b) : Grows a b :=
  ⟨(isExtent_iff.mp ha).2, hab⟩

/-- What is below two lengths is below the smaller one, which is one of them. -/
theorem le_min (hab : a ≤ b) (hac : a ≤ c) : a ≤ Scalar.min b c := by
  rcases min_eq_or b c with heq | heq <;> rw [heq] <;> assumption

variable [Rounded α]

theorem grows_self (ha : zero ≤ a) : Grows a a := ⟨ha, Scalar.le_refl (not_isNaN_of_le ha).2⟩

theorem Grows.nonneg_right (h : Grows a b) : zero ≤ b := Scalar.le_trans h.nonneg h.le

/-- Sums keep it. -/
theorem Grows.add (hab : Grows a b) (hcd : Grows c d) : Grows (a + c) (b + d) :=
  ⟨Scalar.add_nonneg hab.nonneg hcd.nonneg,
    Scalar.add_le_add hab.nonneg hab.le hcd.nonneg hcd.le⟩

/-- Sums grow with their parts. -/
theorem grows_sum {xs ys : List α} (h : List.Forall₂ Grows xs ys) :
    Grows (Scalar.sum xs) (Scalar.sum ys) := by
  have hadd : (Grows ⇒ Grows ⇒ Grows) (fun a b : α => a + b) fun a b => a + b :=
    fun _ _ hab _ _ hcd => hab.add hcd
  exact List.rel_foldl hadd (grows_self zero_le_neg_zero) h

/-! ## Larger and smaller lengths -/

/-- The larger of two numbers is no less than the first. -/
theorem le_max_left (ha : isNaN a = false) (hb : isNaN b = false) : a ≤ Scalar.max a b := by
  unfold Scalar.max
  simp only [ha, hb, Bool.false_eq_true, if_false]
  split
  case isTrue h => exact Scalar.le_of_lt h
  case isFalse => exact Scalar.le_refl ha

/-- The larger of two lengths grows with both. -/
theorem max_le_max (hab : a ≤ b) (hcd : c ≤ d) : Scalar.max a c ≤ Scalar.max b d := by
  have hb := (not_isNaN_of_le hab).2
  have hd := (not_isNaN_of_le hcd).2
  rcases max_eq_or a c with heq | heq <;> rw [heq]
  · exact Scalar.le_trans hab (le_max_left hb hd)
  · exact Scalar.le_trans hcd (le_max_right hb hd)

/-- So does the smaller one. -/
theorem min_le_min (hab : a ≤ b) (hcd : c ≤ d) : Scalar.min a c ≤ Scalar.min b d :=
  le_min (Scalar.le_trans (min_le_left (not_isNaN_of_le hab).1) hab)
    (Scalar.le_trans (min_le_right (not_isNaN_of_le hcd).1) hcd)

/-- The largest of a length and some numbers grows with them, also where these are negative. -/
theorem grows_foldl_max {xs ys : List α} (h : List.Forall₂ (· ≤ ·) xs ys) (hab : Grows a b) :
    Grows (xs.foldl Scalar.max a) (ys.foldl Scalar.max b) := by
  have hmax : (Grows ⇒ (· ≤ ·) ⇒ Grows) (Scalar.max : α → α → α) Scalar.max := by
    intro a b hab c d hcd
    have hle : a ≤ Scalar.max a c :=
      le_max_left (not_isNaN_of_le hab.le).1 (not_isNaN_of_le hcd).1
    exact ⟨Scalar.le_trans hab.nonneg hle, max_le_max hab.le hcd⟩
  exact List.rel_foldl hmax hab h

/-- Numbers of either sign keep the order of what is added to them. -/
theorem add_le_add_of_isFinite (ha : isFinite a = true) (hb : isFinite b = true) (hab : a ≤ b)
    (hcd : c ≤ d) : a + c ≤ b + d := by
  obtain ⟨p, hp⟩ := isFinite_iff.mp ha
  obtain ⟨q, hq⟩ := isFinite_iff.mp hb
  rw [le_iff, hp, hq, Exact.finite_le_finite] at hab
  rw [le_iff] at hcd
  rw [le_iff, value_add, value_add, hp, hq]
  exact round_mono (Exact.finite_add_le_finite_add hab hcd)

/-! ## Results that are left open -/

/-- Above all numbers, or no number: what an upper bound takes the place of. -/
def Boundless (a : α) : Prop := value a = .nan ∨ value a = .infinity

/-- A length and one that is no less, or boundless. -/
def GrowsBeyond (a b : α) : Prop := Grows a b ∨ Boundless b

/-- From zero upwards, what is no rational is boundless. -/
theorem boundless_of_not_isFinite (ha : zero ≤ a) (h : isFinite a = false) : Boundless a := by
  rw [le_iff, value_zero] at ha
  rw [← Bool.not_eq_true, isFinite_iff, not_exists] at h
  cases hv : value a with
  | finite q => exact absurd hv (h q)
  | infinity => exact Or.inr hv
  | nan | negInfinity => simp [hv, LE.le, Exact.ble] at ha

theorem Boundless.add (ha : Boundless a) (hb : Boundless b ∨ zero ≤ b) : Boundless (a + b) := by
  have hsum : value a + value b = .nan ∨ value a + value b = .infinity := by
    rcases ha with ha | ha
    · exact Or.inl (by rw [ha, Exact.nan_add])
    · rw [ha]
      -- only a NaN or a negative infinity could take the infinity back
      rcases hb with (hb | hb) | hb
      · exact Or.inl (by rw [hb, Exact.add_nan])
      · exact Or.inr (by rw [hb]; rfl)
      · rw [le_iff, value_zero] at hb
        exact Or.inr (Exact.infinity_add_of_nonneg hb)
  rw [Boundless, value_add]
  rcases hsum with heq | heq <;> rw [heq]
  · exact Or.inl round_nan
  · exact Or.inr round_infinity

theorem boundless_add_comm (h : Boundless (a + b)) : Boundless (b + a) := by
  rw [Boundless, value_add] at h ⊢
  rwa [Exact.add_comm]

/-- A boundless length stays boundless under any factor: nothing times it is left open. -/
theorem Boundless.mul (ha : Boundless a) (hb : zero ≤ b) : Boundless (a * b) := by
  rw [le_iff, value_zero] at hb
  rw [Boundless, value_mul]
  rcases ha with ha | ha <;> rw [ha]
  · exact Or.inl (by rw [Exact.nan_mul, round_nan])
  · rcases Exact.infinity_mul_of_nonneg hb with heq | heq <;> rw [heq]
    · exact Or.inl round_nan
    · exact Or.inr round_infinity

/-- Sums keep this as well. -/
theorem GrowsBeyond.add (hab : GrowsBeyond a b) (hcd : GrowsBeyond c d) :
    GrowsBeyond (a + c) (b + d) := by
  rcases hab with hab | hb
  · rcases hcd with hcd | hd
    · exact Or.inl (hab.add hcd)
    · exact Or.inr (boundless_add_comm (hd.add (Or.inr hab.nonneg_right)))
  · exact Or.inr (hb.add (hcd.symm.imp_right Grows.nonneg_right))

/-- A number of lengths. The number itself may be too large to be one. -/
theorem Grows.mul_count (hcount : zero ≤ c) (ha : isExtent a = true) (hb : isExtent b = true)
    (hab : a ≤ b) : GrowsBeyond (c * a) (c * b) := by
  cases hfinite : isFinite c with
  -- a count too large to be a number makes the second product boundless
  | false => exact Or.inr ((boundless_of_not_isFinite hcount hfinite).mul (isExtent_iff.mp hb).2)
  | true =>
    obtain ⟨p, hp0, hp⟩ := isExtent_iff_value.mp ha
    obtain ⟨q, -, hq⟩ := isExtent_iff_value.mp hb
    obtain ⟨n, hn0, hn⟩ := isExtent_iff_value.mp (isExtent_iff.mpr ⟨hfinite, hcount⟩)
    rw [le_iff, hp, hq, Exact.finite_le_finite] at hab
    refine Or.inl ⟨?_, ?_⟩
    · rw [le_iff, value_zero, value_mul, hn, hp]
      exact zero_le_round (Exact.finite_le_finite.mpr (mul_nonneg hn0 hp0))
    · rw [le_iff, value_mul, value_mul, hn, hp, hq]
      exact round_mono (Exact.finite_le_finite.mpr (mul_le_mul_of_nonneg_left hab hn0))

/-- Brought below a bound, what is boundless ends at the bound. -/
theorem Boundless.le_min (hb : Boundless b) (hM : isNaN M = false) : M ≤ Scalar.min b M := by
  rcases hb with hb | hb
  · rw [Scalar.min, if_pos (isNaN_iff.mpr hb)]
    exact Scalar.le_refl hM
  · exact Scalar.le_min (Scalar.le_trans (le_infinity hM) (infinity_le_iff.mpr hb))
      (Scalar.le_refl hM)

/-- **Brought within bounds that grow, lengths grow**, whatever was left open before: where the second
one is boundless, it ends at its upper bound, and the first one cannot be above its own. -/
theorem GrowsBeyond.clamp {m m' M M' : α} (hab : GrowsBeyond a b) (hm : m ≤ m') (hM : M ≤ M')
    (hmM : m ≤ M) : Scalar.max (Scalar.min a M) m ≤ Scalar.max (Scalar.min b M') m' := by
  rcases hab with hab | hb
  · exact max_le_max (min_le_min hab.le hM) hm
  · have hM' := (not_isNaN_of_le hM).2
    have hle := hb.le_min hM'
    -- the first length is at most its own upper bound, and the second one at least at its
    have hfirst : Scalar.max (Scalar.min a M) m ≤ M' := Scalar.le_trans (clamp_mem hmM).2 hM
    have hsecond : M' ≤ Scalar.max (Scalar.min b M') m' := Scalar.le_trans hle
      (le_max_left (not_isNaN_of_le hle).2 (not_isNaN_of_le hm).2)
    exact Scalar.le_trans hfirst hsecond

end BoxLayout.Scalar
