import Mathlib
import BoxLayout.Proofs.Decimal.Nearest

/-!
# Decimals near midpoints

A decimal with few digits may come close to the midpoint of two neighbouring floats. If it comes closer
than the 64-bit numbers lie, computing it in 64 bits may yield the midpoint or a number beyond it. There
are decimals that come that close: this module finds all of them, one binary exponent after another.

How close multiples of `10 ^ k` come to multiples of `2 ^ e` is told by the continued fraction of their
quotient. Where one of its fractions stands out, everything that comes close is a multiple of it.

## The architecture

* **`convergents`** — the candidates.
* **`Isolates`**, **`Isolates.exists_multiple`** — a fraction that stands out.
* **`halfUnitGrid`**, **`Settles`**, **`exists_settles`** — the grid for an exponent, and a candidate that
  settles it; found by evaluation for each exponent there is.
* **`isCritical_of_near`** — so no decimal comes too close to a midpoint, but to three of them.
-/

namespace BoxLayout.Single

/-! ## Approximations -/

/-- The fractions that a continued fraction gives for `n / d`, from the two that come before. -/
def convergents : ℕ → ℕ → ℕ → ℕ × ℕ → ℕ × ℕ → List (ℕ × ℕ)
  | 0, _, _, _, _ => []
  | _ + 1, _, 0, _, _ => []
  | steps + 1, n, d + 1, before, last =>
    let next := (n / (d + 1) * last.1 + before.1, n / (d + 1) * last.2 + before.2)
    next :: convergents steps (d + 1) (n % (d + 1)) last next

/-- A fraction that is so close to `n / d` that no other one with a numerator below `2 ^ 25` is as
close as `33 * 2 ^ -32` allows. -/
def Isolates (n d p q : ℕ) : Prop :=
  p.Coprime q ∧ 2 ^ 57 * |(p * d - q * n : ℤ)| + 33 * q * n < n * 2 ^ 32

/-- Two different fractions differ by one over the product of their denominators at least, so they cannot
both be close to a third one. -/
theorem den_le_of_mul_ne {n d p q k b : ℕ} (h : k * p ≠ b * q) :
    (d : ℤ) ≤ k * |(p * d - q * n : ℤ)| + q * |(k * n - b * d : ℤ)| := by
  have hone : 1 ≤ |(k * p - b * q : ℤ)| := Int.one_le_abs (sub_ne_zero.mpr (by exact_mod_cast h))
  calc (d : ℤ) ≤ |(k * p - b * q : ℤ)| * d := le_mul_of_one_le_left d.cast_nonneg hone
    _ = |(k * (p * d - q * n) + q * (k * n - b * d) : ℤ)| := by
        rw [← Nat.abs_cast d, ← abs_mul, Nat.abs_cast]
        congr 1
        ring
    _ ≤ |(k * (p * d - q * n) : ℤ)| + |(q * (k * n - b * d) : ℤ)| := abs_add_le _ _
    _ = k * |(p * d - q * n : ℤ)| + q * |(k * n - b * d : ℤ)| := by
        rw [abs_mul, abs_mul, Nat.abs_cast, Nat.abs_cast]

/-- **What is close to `n / d` is a multiple of the isolated fraction.** -/
theorem Isolates.exists_multiple {n d p q k b : ℕ} (h : Isolates n d p q) (hd : 0 < d)
    (hb : b < 2 ^ 25) (hnear : |(k * n - b * d : ℤ)| * 2 ^ 32 ≤ 33 * d) :
    ∃ j, k = j * q ∧ b = j * p := by
  obtain ⟨hcoprime, hisolated⟩ := h
  have hd' : (0 : ℤ) < d := by exact_mod_cast hd
  have hqn : (0 : ℤ) ≤ q * n := by positivity
  have hr := abs_nonneg (p * d - q * n : ℤ)
  have hn : (0 : ℤ) < n := by linarith
  have hkn : (k * n : ℤ) ≤ 2 ^ 25 * d := by
    have hle : (k * n - b * d : ℤ) ≤ d := by
      have := le_abs_self (k * n - b * d : ℤ)
      have := abs_nonneg (k * n - b * d : ℤ)
      linarith
    have hbd : (b * d : ℤ) ≤ (2 ^ 25 - 1) * d := by
      have hb' : (b : ℤ) ≤ 2 ^ 25 - 1 := Int.le_sub_one_of_lt (by exact_mod_cast hb)
      gcongr
    linarith
  -- both fractions are close to `n / d`, so they are the same
  have hproducts : k * p = b * q := by
    by_contra hne
    have hbound : (d : ℤ) ≤ k * |(p * d - q * n : ℤ)| + q * |(k * n - b * d : ℤ)| :=
      den_le_of_mul_ne hne
    have hfirst := mul_le_mul_of_nonneg_right hkn hr
    have hsecond := mul_le_mul_of_nonneg_left hnear hqn
    have hscaled := mul_le_mul_of_nonneg_right hbound hn.le
    have hless := mul_lt_mul_of_pos_left hisolated hd'
    linarith
  obtain ⟨j, rfl⟩ : p ∣ b := hcoprime.dvd_of_dvd_mul_right (Dvd.intro_left k hproducts)
  refine ⟨j, ?_, mul_comm p j⟩
  have hp : 0 < p := Nat.pos_of_ne_zero fun hzero => by
    rw [hzero, Nat.cast_zero, zero_mul, zero_sub, abs_neg, abs_of_nonneg hqn] at hisolated
    have hq : q = 1 := by rwa [hzero, Nat.coprime_zero_left] at hcoprime
    rw [hq, Nat.cast_one, one_mul] at hisolated
    linarith
  refine Nat.eq_of_mul_eq_mul_right hp ?_
  rw [hproducts]
  ring

/-! ## Grids -/

/-- The finest decimal grid with steps of half a unit of `2 ^ e` at least, as a power of ten. -/
def halfUnitGrid (e : ℤ) : ℤ := ((e - 1) * 30103 + 99999) / 100000

/-- A step of this grid is `stepNum / stepDen` halves of the unit. -/
def stepNum (e : ℤ) : ℕ := 10 ^ (halfUnitGrid e).toNat * 2 ^ (-(e - 1)).toNat

def stepDen (e : ℤ) : ℕ := 10 ^ (-halfUnitGrid e).toNat * 2 ^ (e - 1).toNat

/-- The midpoints that a decimal comes too close to, as numerators over halves of the unit: the decimals
`7.038531e-26`, `1.4077062e-25` and `2.5645849e-8` do. -/
def IsCritical (e : ℤ) (b : ℕ) : Prop :=
  b = 22841339 ∧ (e = -107 ∨ e = -106) ∨ b = 28874659 ∧ e = -49

/-- The fraction `p / q` shows that decimals of the grid lie far from all midpoints but critical ones:
it is the step itself, or its multiples leave the step behind before they come to the magnitudes with
unit `2 ^ e`, or there is but one multiple among them, which is even or critical. -/
def Settles (e : ℤ) (p q : ℕ) : Prop :=
  Isolates (stepNum e) (stepDen e) p q ∧
    (p * stepDen e = q * stepNum e ∨
      33 * stepDen e < (if e = -149 then 1 else (2 ^ 24 + p - 1) / p : ℕ) *
        |(p * stepDen e - q * stepNum e : ℤ)| * 2 ^ 32 ∨
      2 ^ 25 ≤ 2 * p ∧ (p % 2 = 0 ∨ IsCritical e p))

instance (n d p q : ℕ) : Decidable (Isolates n d p q) := inferInstanceAs (Decidable (_ ∧ _))

instance (e : ℤ) (b : ℕ) : Decidable (IsCritical e b) := inferInstanceAs (Decidable (_ ∨ _))

instance (e : ℤ) (p q : ℕ) : Decidable (Settles e p q) := inferInstanceAs (Decidable (_ ∧ (_ ∨ _ ∨ _)))

theorem stepDen_pos (e : ℤ) : 0 < stepDen e := by
  unfold stepDen
  positivity

/-- The grid and its steps, for every unit there is. -/
theorem exists_settles {e : ℤ} (hlower : -149 ≤ e) (hupper : e ≤ 104) :
    stepNum e < 10 * stepDen e ∧ ∃ p q, Settles e p q := by
  have hall : ∀ n : ℕ, n < 254 → stepNum (n - 149) < 10 * stepDen (n - 149) ∧
      ∃ c ∈ convergents 64 (stepNum (n - 149)) (stepDen (n - 149)) (0, 1) (1, 0),
        Settles (n - 149) c.1 c.2 := by decide +kernel
  obtain ⟨n, hn⟩ := Int.eq_ofNat_of_zero_le (show 0 ≤ e + 149 by omega)
  obtain rfl : e = n - 149 := by omega
  obtain ⟨hstep, c, -, hsettles⟩ := hall n (by omega)
  exact ⟨hstep, c.1, c.2, hsettles⟩

/-- A step of the grid, as a number. -/
theorem ten_zpow_halfUnitGrid (e : ℤ) :
    (10 : ℚ) ^ halfUnitGrid e = stepNum e / stepDen e * 2 ^ (e - 1) := by
  have hten := BinaryFormat.zpow_eq_div (show 0 < 10 by norm_num) (halfUnitGrid e)
  have htwo := BinaryFormat.zpow_eq_div (show 0 < 2 by norm_num) (e - 1)
  push_cast at hten htwo
  rw [hten, htwo, stepNum, stepDen]
  push_cast
  field_simp

/-- A decimal whose step is half a unit at least lies on the grid. -/
theorem exists_value_eq {e : ℤ} (hstep : stepNum e < 10 * stepDen e) {d : Decimal}
    (hcoarse : (2 : ℚ) ^ (e - 1) ≤ 10 ^ d.exponent) :
    ∃ k : ℕ, d.value = k * 10 ^ halfUnitGrid e := by
  have hden : (0 : ℚ) < stepDen e := by exact_mod_cast stepDen_pos e
  have hfiner : (10 : ℚ) ^ (halfUnitGrid e - 1) < 2 ^ (e - 1) := by
    have hlt : (stepNum e : ℚ) < 10 * stepDen e := by exact_mod_cast hstep
    rw [zpow_sub_one₀ (by norm_num), ten_zpow_halfUnitGrid, ← div_eq_mul_inv, div_mul_eq_mul_div,
      div_div, div_lt_iff₀ (by positivity)]
    nlinarith [two_zpow_pos (e - 1)]
  have hle : halfUnitGrid e - 1 < d.exponent :=
    (zpow_lt_zpow_iff_right₀ (by norm_num)).mp (hfiner.trans_le hcoarse)
  obtain ⟨n, hn⟩ := Int.eq_ofNat_of_zero_le (show 0 ≤ d.exponent - halfUnitGrid e by omega)
  refine ⟨d.significand * 10 ^ n, ?_⟩
  have hexponent : d.exponent = n + halfUnitGrid e := by omega
  rw [Decimal.value, hexponent, zpow_add₀ (by norm_num), zpow_natCast]
  push_cast
  ring

/-- How far a number of the grid is from a midpoint. -/
theorem grid_sub_midpoint (e : ℤ) (k b : ℕ) : (k * 10 ^ halfUnitGrid e - b * 2 ^ (e - 1) : ℚ) =
    ((k * stepNum e - b * stepDen e : ℤ) : ℚ) / stepDen e * 2 ^ (e - 1) := by
  have hden : (stepDen e : ℚ) ≠ 0 := by exact_mod_cast (stepDen_pos e).ne'
  rw [ten_zpow_halfUnitGrid]
  push_cast
  field_simp

/-- The distance in whole numbers, with the unit and the step divided out. -/
theorem abs_grid_sub_midpoint_le {e : ℤ} {k b : ℕ}
    (h : |(k * 10 ^ halfUnitGrid e - b * 2 ^ (e - 1) : ℚ)| ≤ 33 * 2 ^ (e - 33)) :
    |(k * stepNum e - b * stepDen e : ℤ)| * 2 ^ 32 ≤ 33 * stepDen e := by
  have hden : (0 : ℚ) < stepDen e := by exact_mod_cast stepDen_pos e
  have hscale : (2 : ℚ) ^ (e - 1) = 2 ^ 32 * 2 ^ (e - 33) := two_zpow_eq (by omega)
  rw [grid_sub_midpoint, abs_mul, abs_div, abs_of_pos (two_zpow_pos _), abs_of_pos hden, hscale,
    ← mul_assoc, mul_le_mul_iff_of_pos_right (two_zpow_pos _), div_mul_eq_mul_div,
    div_le_iff₀ hden] at h
  exact_mod_cast h

/-- **Decimals keep away from midpoints.** A decimal whose step is half a unit at least does not come
closer to a midpoint than two units of 64 bits and a little more, unless it is the midpoint or that is
critical. -/
theorem isCritical_of_near {e : ℤ} (hlower : -149 ≤ e) (hupper : e ≤ 104) {b : ℕ} (hodd : b % 2 = 1)
    (hb : b < 2 ^ 25) (hfull : e = -149 ∨ 2 ^ 24 ≤ b) {d : Decimal}
    (hcoarse : (2 : ℚ) ^ (e - 1) ≤ 10 ^ d.exponent) (hne : d.value ≠ b * 2 ^ (e - 1))
    (hnear : |d.value - b * 2 ^ (e - 1)| ≤ 33 * 2 ^ (e - 33)) : IsCritical e b := by
  obtain ⟨hstep, p, q, hisolates, hsettles⟩ := exists_settles hlower hupper
  obtain ⟨k, hk⟩ := exists_value_eq hstep hcoarse
  rw [hk] at hne hnear
  have hclose := abs_grid_sub_midpoint_le hnear
  -- so close to a midpoint, the decimal is a multiple of the one convergent that comes close at all
  obtain ⟨j, rfl, rfl⟩ := hisolates.exists_multiple (stepDen_pos e) hb hclose
  have hj : 0 < j := Nat.pos_of_ne_zero fun hzero => by
    rw [hzero, zero_mul] at hodd
    omega
  have hmultiple : (((j * q : ℕ) : ℤ) * stepNum e - (j * p : ℕ) * stepDen e : ℤ) =
      -(j * (p * stepDen e - q * stepNum e)) := by
    push_cast
    ring
  rcases hsettles with hexact | hfar | ⟨hlarge, hcritical⟩
  · -- the decimal is the midpoint
    refine absurd (sub_eq_zero.mp ?_) hne
    have hzero : (p * stepDen e - q * stepNum e : ℤ) = 0 := sub_eq_zero.mpr (by exact_mod_cast hexact)
    rw [grid_sub_midpoint, hmultiple, hzero]
    simp
  · -- so large a multiple is too far off
    rw [hmultiple, abs_neg, abs_mul, Nat.abs_cast] at hclose
    refine absurd (hfar.trans_le (le_trans ?_ hclose)) (lt_irrefl _)
    gcongr
    split_ifs with hfinest
    · exact hj
    · have hp : 0 < p := Nat.pos_of_ne_zero fun hzero => by
        rw [hzero, mul_zero] at hodd
        omega
      have hfull := hfull.resolve_left hfinest
      refine Nat.le_of_lt_succ ((Nat.div_lt_iff_lt_mul hp).mpr ?_)
      rw [Nat.succ_mul]
      omega
  · -- the convergent is so large that only its first multiple lies in the block
    obtain rfl : j = 1 := by nlinarith
    rw [one_mul] at hodd ⊢
    exact hcritical.resolve_left (by omega)

end BoxLayout.Single
