import Mathlib
import BoxLayout.Decimal.Single
import BoxLayout.Proofs.Decimal.Grids
import BoxLayout.Proofs.Decimal.Reader
import BoxLayout.Proofs.Decimal.Shortest

/-!
# Shortest digits that are read in 64 bits

The shortest digits of a float are computed in 64 bits, and the result is rounded to 32 bits. The result is
not exact, but the digits lie so far from the ends of the float's rounding interval that it stays inside.

## The architecture

* **`nearestTo_of_mem_interval`** — the numbers of its rounding interval are rounded to a magnitude;
  **`narrow_of_mem`** — so are those that have 64 bits.
* **`moderate_shortest`** — shortest digits are few enough for the bounds of the reader.
* **`far_of_fine`**, **`far_of_coarse`** — they are not too near to an end that they do not lie on, but for
  six floats; **`exponent_of_dyadic`** — and where they do lie on an end they are read exactly.
* **`narrow_quotient_shortest`** — so all floats come back; **`narrow_quotient_whole`** — also where a whole
  number is written with a zero behind its point.
-/

namespace BoxLayout

open Single

/-! ## Reading a number of a rounding interval -/

namespace BinaryFormat

variable {f : BinaryFormat} {ordinal : ℕ} {x : ℚ}

theorem half_unit_le (hpos : 0 < ordinal) (hmem : (f.interval ordinal).Mem x) :
    2 ^ (f.magnitude ordinal).2 / 2 ≤ x := by
  have hsignificand : (1 : ℚ) ≤ (f.magnitude ordinal).1 := by exact_mod_cast f.significand_pos hpos
  have hunit := two_zpow_pos (f.magnitude ordinal).2
  have hlow := f.low_interval (f.significand_pos hpos)
  refine le_trans ?_ hmem.bounds.1
  rw [hlow, value]
  split_ifs <;> nlinarith

theorem pos_of_mem_interval (hpos : 0 < ordinal) (hmem : (f.interval ordinal).Mem x) : 0 < x :=
  (half_pos (two_zpow_pos _)).trans_le (half_unit_le hpos hmem)

theorem nearestTo_eq_of_unit {n : ℕ} {unit : ℤ} (hlt : ordinal < f.infinityOrdinal)
    (hunit : f.unitExponent x = unit) (hcount : halfEven (x / 2 ^ unit) = n)
    (hordinal : f.ordinalOf n unit = ordinal) : f.nearestTo x = ordinal := by
  rw [nearestTo, hunit, hcount, hordinal]
  exact min_eq_left hlt.le

/-- Within its block a number is rounded in the unit of the magnitude. -/
theorem nearestTo_of_block (hpos : 0 < ordinal) (hlt : ordinal < f.infinityOrdinal)
    (hmem : (f.interval ordinal).Mem x)
    (hfull : (f.magnitude ordinal).2 = f.minExponent ∨
      f.blockSize * 2 ^ (f.magnitude ordinal).2 ≤ x) : f.nearestTo x = ordinal := by
  have hx := pos_of_mem_interval hpos hmem
  have hcanonical := f.canonical_magnitude ordinal
  have hordinal := f.ordinalOf_magnitude ordinal
  have hhigh := f.high_interval ordinal
  have hlow := f.low_interval (f.significand_pos hpos)
  have hclosed := f.closed_interval ordinal
  rw [value] at hhigh hlow
  generalize (f.magnitude ordinal).1 = m at *
  generalize (f.magnitude ordinal).2 = e at *
  have hunit := two_zpow_pos e
  have hm : (m : ℚ) + 1 ≤ 2 * f.blockSize := by exact_mod_cast hcanonical.lt
  obtain ⟨-, hle⟩ := hmem.bounds
  rw [hhigh] at hle
  refine nearestTo_eq_of_unit hlt (unitExponent_eq hx (by nlinarith) hcanonical.finest hfull)
    (halfEven_div_eq hunit ?_) hordinal
  have hlower : (m : ℚ) * 2 ^ e - 2 ^ e / 2 ≤ (f.interval ordinal).low := by
    rw [hlow]
    split_ifs <;> linarith
  unfold RoundingInterval.Mem at hmem
  rw [hhigh] at hmem
  -- the interval has its ends just when the significand is even, which is how ties are broken
  split_ifs at hmem with heven
  · rw [hclosed, beq_iff_eq] at heven
    exact Or.inr ⟨heven, abs_le.mpr ⟨by linarith, by linarith⟩⟩
  · exact Or.inl (abs_lt.mpr ⟨by linarith, by linarith⟩)

/-- Below a power of two the unit is half as large. A number there that belongs to the power of two is
rounded up to it. -/
theorem nearestTo_below_block (hpos : 0 < ordinal) (hlt : ordinal < f.infinityOrdinal)
    (hmem : (f.interval ordinal).Mem x) (hfinest : (f.magnitude ordinal).2 ≠ f.minExponent)
    (hless : x < f.blockSize * 2 ^ (f.magnitude ordinal).2) : f.nearestTo x = ordinal := by
  have hx := pos_of_mem_interval hpos hmem
  have hcanonical := f.canonical_magnitude ordinal
  have hordinal := f.ordinalOf_magnitude ordinal
  have hlow := f.low_interval (f.significand_pos hpos)
  rw [value] at hlow
  generalize (f.magnitude ordinal).1 = m at *
  generalize (f.magnitude ordinal).2 = e at *
  obtain ⟨hge, -⟩ := hmem.bounds
  have hbelow : f.minExponent < e := lt_of_le_of_ne hcanonical.finest (Ne.symm hfinest)
  have hblock := hcanonical.full.resolve_left hfinest
  have hunit := two_zpow_pos e
  -- the magnitude is the power of two itself
  obtain rfl : m = f.blockSize := by
    refine le_antisymm (not_lt.mp fun hgt => ?_) hblock
    have hgt : (f.blockSize : ℚ) + 1 ≤ m := by exact_mod_cast hgt
    rw [if_neg (fun h => hgt.not_gt (by rw [h.1]; linarith))] at hlow
    nlinarith
  rw [if_pos ⟨rfl, hbelow⟩] at hlow
  have hhalved : (2 : ℚ) ^ e = 2 * 2 ^ (e - 1) := by
    rw [zpow_sub₀ (by norm_num)]
    ring
  have hunit' := two_zpow_pos (e - 1)
  have hone : (1 : ℚ) ≤ f.blockSize := by exact_mod_cast f.blockSize_pos
  rw [hlow, hhalved] at hge
  rw [hhalved] at hless
  have hexponent : f.unitExponent x = e - 1 :=
    unitExponent_eq hx (by linarith) (by omega) (Or.inr (by nlinarith))
  have hcount : halfEven (x / 2 ^ (e - 1)) = 2 * f.blockSize := by
    refine halfEven_div_eq hunit' (Or.inr ⟨Nat.mul_mod_right 2 _, abs_le.mpr ?_⟩)
    push_cast
    constructor <;> linarith
  refine nearestTo_eq_of_unit hlt hexponent hcount ?_
  rw [ordinalOf_carry (by omega), sub_add_cancel]
  exact hordinal

/-- **The numbers of its rounding interval are rounded to a magnitude.** -/
theorem nearestTo_of_mem_interval (hpos : 0 < ordinal) (hlt : ordinal < f.infinityOrdinal)
    (hmem : (f.interval ordinal).Mem x) : f.nearestTo x = ordinal := by
  by_cases hfull : (f.magnitude ordinal).2 = f.minExponent ∨
      f.blockSize * 2 ^ (f.magnitude ordinal).2 ≤ x
  · exact nearestTo_of_block hpos hlt hmem hfull
  · rw [not_or, not_le] at hfull
    exact nearestTo_below_block hpos hlt hmem hfull.1 hfull.2

end BinaryFormat

/-! ## Reading in 64 bits -/

namespace Single

open BinaryFormat

variable {ordinal : ℕ} {x : ℚ}

theorem lt_of_mem_interval (hmem : (single.interval ordinal).Mem x) :
    x < 2 ^ (24 + (single.magnitude ordinal).2) := by
  have hcanonical := single.canonical_magnitude ordinal
  have hm : ((single.magnitude ordinal).1 : ℚ) + 1 ≤ 2 ^ 24 := by exact_mod_cast hcanonical.lt
  have hunit := two_zpow_pos (single.magnitude ordinal).2
  have hle := hmem.bounds.2
  rw [single.high_interval, BinaryFormat.value] at hle
  rw [zpow_add₀ (by norm_num)]
  norm_num at hm ⊢
  nlinarith

/-- A 64-bit number of the rounding interval is rounded to the magnitude. -/
theorem narrow_of_mem {wide : ℕ} (hpos : 0 < ordinal) (hlt : ordinal < single.infinityOrdinal)
    (hwide : wide < double.infinityOrdinal) (hmem : (single.interval ordinal).Mem (double.value wide)) :
    narrow wide = ordinal := by
  have hnum := fraction_num_pos (pos_of_mem_interval hpos hmem)
  rw [narrow, if_neg hwide.ne, BinaryFormat.nearest_eq hnum (double.fraction_den_pos wide), fraction_eq]
  exact nearestTo_of_mem_interval hpos hlt hmem

/-- Shortest digits are few, and their power of ten is not far from one. -/
theorem moderate_shortest (hpos : 0 < ordinal) (hlt : ordinal < single.infinityOrdinal) :
    (single.shortest ordinal).Moderate := by
  obtain ⟨hmem, hcoarse, -⟩ := shortest_spec hpos hlt
  have hless := lt_of_mem_interval hmem
  have hvalue := pos_of_mem_interval hpos hmem
  have hfinest : -149 ≤ (single.magnitude ordinal).2 := (single.canonical_magnitude ordinal).finest
  have hexponent := exponent_le hlt
  rw [Decimal.value] at hless hvalue
  generalize (single.magnitude ordinal).2 = e at *
  have hstep : (0 : ℚ) < 10 ^ (single.shortest ordinal).exponent := by positivity
  have hdigits : (0 : ℚ) < (single.shortest ordinal).significand := pos_of_mul_pos_left hvalue hstep.le
  have hone : (1 : ℚ) ≤ (single.shortest ordinal).significand := by
    exact_mod_cast Nat.cast_pos.mp hdigits
  refine ⟨Nat.cast_pos.mp hdigits, ?_, ?_, ?_⟩
  · -- the steps are a fortieth of the unit at least, so the digits are few
    rw [zpow_add_one₀ (by norm_num)] at hcoarse
    rw [zpow_add₀ (by norm_num)] at hless
    have hunit := two_zpow_pos e
    have hbits : ((single.shortest ordinal).significand : ℚ) < 2 ^ 53 := by
      refine lt_of_mul_lt_mul_right ?_ hstep.le
      norm_num at hless ⊢
      linarith
    exact_mod_cast hbits
  · refine not_lt.mp fun hbelow => hcoarse.not_gt ?_
    calc (10 : ℚ) ^ ((single.shortest ordinal).exponent + 1) ≤ 10 ^ (-50 : ℤ) :=
          zpow_le_zpow_right₀ (by norm_num) (by omega)
      _ < 2 ^ (-149 : ℤ) / 4 := by norm_num
      _ ≤ 2 ^ e / 4 := by
          gcongr
          norm_num
  · refine not_lt.mp fun habove => hless.not_gt ?_
    calc (2 : ℚ) ^ (24 + e) ≤ 2 ^ (128 : ℤ) := zpow_le_zpow_right₀ (by norm_num) (by omega)
      _ < 1 * 10 ^ (51 : ℤ) := by norm_num
      _ ≤ (single.shortest ordinal).significand * 10 ^ (single.shortest ordinal).exponent := by
          gcongr
          · norm_num
          · omega

/-! ## The ends of an interval -/

/-- The ends of an interval are midpoints, but for the lower end of the interval of a power of two. -/
theorem ends_eq (hpos : 0 < ordinal) (hblock : ¬ ((single.magnitude ordinal).1 = single.blockSize ∧
      single.minExponent < (single.magnitude ordinal).2)) :
    (single.interval ordinal).low =
        (2 * (single.magnitude ordinal).1 - 1 : ℕ) * 2 ^ ((single.magnitude ordinal).2 - 1) ∧
      (single.interval ordinal).high =
        (2 * (single.magnitude ordinal).1 + 1 : ℕ) * 2 ^ ((single.magnitude ordinal).2 - 1) := by
  have hmpos := single.significand_pos hpos
  have hlow := single.low_interval hmpos
  have hhigh := single.high_interval ordinal
  rw [if_neg hblock] at hlow
  rw [hlow, hhigh, BinaryFormat.value, Nat.cast_sub (by omega), zpow_sub_one₀ (by norm_num)]
  push_cast
  constructor <;> ring

/-- A power of five that divides one of two equal products divides a factor of it that is no power of
two. -/
theorem five_pow_le {s n a b k : ℕ} (hn : 0 < n) (hk : 23 ≤ k) (h : s * 10 ^ k * 2 ^ a = n * 2 ^ b) :
    5 ^ 23 ≤ n := by
  have hten : 5 ^ 23 ∣ 10 ^ k := (pow_dvd_pow 5 hk).trans (pow_dvd_pow_of_dvd (by norm_num) k)
  have hdvd : 5 ^ 23 ∣ n * 2 ^ b := by
    rw [← h]
    exact ((hten.mul_left s).mul_right (2 ^ a))
  have hcoprime : Nat.Coprime (5 ^ 23) (2 ^ b) := Nat.Coprime.pow _ _ (by norm_num)
  exact Nat.le_of_dvd hn (hcoprime.dvd_of_dvd_mul_right hdvd)

/-- **What few digits and few bits can write has a small power of ten**, for a larger one is divisible by
too large a power of five. -/
theorem exponent_of_dyadic {d : Decimal} (hd : d.Moderate) {n : ℕ} {e : ℤ} (hn : n < 2 ^ 25)
    (hvalue : d.value = n * 2 ^ e) : -22 ≤ d.exponent ∧ d.exponent ≤ 22 := by
  have htwo := BinaryFormat.zpow_eq_div (show 0 < 2 by norm_num) e
  have hten := BinaryFormat.zpow_eq_div (show 0 < 10 by norm_num) d.exponent
  have hbits := hd.bits
  have hdigits := hd.pos
  have hscaled : d.significand * 10 ^ d.exponent.toNat * 2 ^ (-e).toNat =
      n * 10 ^ (-d.exponent).toNat * 2 ^ e.toNat := by
    rw [Decimal.value] at hvalue
    push_cast at htwo hten
    rw [htwo, hten, ← mul_div_assoc, ← mul_div_assoc,
      div_eq_div_iff (by positivity) (by positivity)] at hvalue
    have hcross : (d.significand * 10 ^ d.exponent.toNat * 2 ^ (-e).toNat : ℚ) =
        n * 10 ^ (-d.exponent).toNat * 2 ^ e.toNat := by
      linarith
    exact_mod_cast hcross
  have hnpos : 0 < n := Nat.pos_of_ne_zero fun hzero => by
    rw [hzero, zero_mul, zero_mul] at hscaled
    have : 0 < d.significand * 10 ^ d.exponent.toNat * 2 ^ (-e).toNat := by positivity
    omega
  constructor
  · refine not_lt.mp fun hbelow => ?_
    have hzero : d.exponent.toNat = 0 := by omega
    rw [hzero, pow_zero, mul_one] at hscaled
    have := five_pow_le hdigits (show 23 ≤ (-d.exponent).toNat by omega) hscaled.symm
    norm_num at this
    omega
  · refine not_lt.mp fun habove => ?_
    have hzero : (-d.exponent).toNat = 0 := by omega
    rw [hzero, pow_zero, mul_one] at hscaled
    have := five_pow_le hnpos (show 23 ≤ d.exponent.toNat by omega) hscaled
    norm_num at this
    omega

/-- On a grid finer than half a unit the shortest decimal lies near the middle. -/
theorem far_of_fine {d : Decimal} {m : ℕ} {e : ℤ} (hm : 0 < m)
    (hfine : (10 : ℚ) ^ d.exponent < 2 ^ (e - 1))
    (hnear : |d.value - m * 2 ^ e| ≤ 10 ^ d.exponent / 2) :
    33 * 2 ^ (e - 33) < d.value - (2 * m - 1 : ℕ) * 2 ^ (e - 1) ∧
      33 * 2 ^ (e - 33) < (2 * m + 1 : ℕ) * 2 ^ (e - 1) - d.value := by
  have hunit : (2 : ℚ) ^ e = 2 * 2 ^ (e - 1) := by
    rw [zpow_sub_one₀ (by norm_num)]
    ring
  have hsmall : (2 : ℚ) ^ (e - 1) = 2 ^ 32 * 2 ^ (e - 33) := two_zpow_eq (by omega)
  have hpositive := two_zpow_pos (e - 33)
  have hclose := abs_le.mp hnear
  rw [hunit] at hclose
  rw [Nat.cast_sub (by omega)]
  push_cast
  constructor <;> linarith

/-- On a coarser grid nothing comes near to an end that it does not lie on, unless that is critical. -/
theorem far_of_coarse {d : Decimal} {m : ℕ} {e : ℤ} (hm : 0 < m) (hcanonical : single.Canonical m e)
    (hblock : ¬ (m = single.blockSize ∧ single.minExponent < e)) (hexponent : e ≤ 104)
    (hcoarse : (2 : ℚ) ^ (e - 1) ≤ 10 ^ d.exponent)
    (hlow : (2 * m - 1 : ℕ) * 2 ^ (e - 1) < d.value) (hhigh : d.value < (2 * m + 1 : ℕ) * 2 ^ (e - 1))
    (hrare : ¬ (IsCritical e (2 * m - 1) ∨ IsCritical e (2 * m + 1))) :
    33 * 2 ^ (e - 33) < d.value - (2 * m - 1 : ℕ) * 2 ^ (e - 1) ∧
      33 * 2 ^ (e - 33) < (2 * m + 1 : ℕ) * 2 ^ (e - 1) - d.value := by
  have hsize : single.blockSize = 2 ^ 23 := rfl
  have hmin : single.minExponent = -149 := rfl
  have hlt : m < 2 ^ 24 := hcanonical.lt
  have hfinest : -149 ≤ e := hcanonical.finest
  have hfull : e = -149 ∨ 2 ^ 23 < m := by
    have := hcanonical.full
    omega
  have hfar {b : ℕ} (hodd : b % 2 = 1) (hb : b < 2 ^ 25) (hb' : 2 ^ 23 < m → 2 ^ 24 ≤ b)
      (hne : d.value ≠ b * 2 ^ (e - 1)) (hrare : ¬ IsCritical e b) :
      33 * 2 ^ (e - 33) < |d.value - b * 2 ^ (e - 1)| :=
    lt_of_not_ge fun hle => hrare (isCritical_of_near hfinest hexponent hodd hb (hfull.imp_right hb')
      hcoarse hne hle)
  rw [not_or] at hrare
  have hbelow := hfar (by omega) (by omega) (by omega) hlow.ne' hrare.1
  have habove := hfar (by omega) (by omega) (by omega) hhigh.ne hrare.2
  rw [abs_of_pos (sub_pos.mpr hlow)] at hbelow
  rw [abs_sub_comm, abs_of_pos (sub_pos.mpr hhigh)] at habove
  exact ⟨hbelow, habove⟩

/-! ## All floats -/

/-- The magnitudes beside the critical midpoints. -/
def besideCritical : List ℕ :=
  [0x15AE43FD, 0x15AE43FE, 0x162E43FD, 0x162E43FE, 0x32DC4BD1, 0x32DC4BD2]

theorem mem_besideCritical {m : ℕ} {e : ℤ} (hordinal : single.ordinalOf m e = ordinal)
    (h : IsCritical e (2 * m - 1) ∨ IsCritical e (2 * m + 1)) : ordinal ∈ besideCritical := by
  have hcases : (m = 11420669 ∨ m = 11420670) ∧ (e = -107 ∨ e = -106) ∨
      (m = 14437329 ∨ m = 14437330) ∧ e = -49 := by
    unfold IsCritical at h
    omega
  subst hordinal
  rcases hcases with ⟨rfl | rfl, rfl | rfl⟩ | ⟨rfl | rfl, rfl⟩ <;> decide

/-- The few magnitudes that the general argument leaves out are read back one by one: those beside a
critical midpoint, the powers of two, and zero. -/
theorem narrow_quotient_exceptional (h : ordinal ∈ besideCritical ∨ ∃ k < 255, ordinal = k * 2 ^ 23) :
    narrow (single.shortest ordinal).quotient = ordinal := by
  have hcritical : ∀ ordinal ∈ besideCritical, narrow (single.shortest ordinal).quotient = ordinal := by
    decide +kernel
  have hpowers : ∀ k < 255, narrow (single.shortest (k * 2 ^ 23)).quotient = k * 2 ^ 23 := by
    decide +kernel
  rcases h with h | ⟨k, hk, rfl⟩
  · exact hcritical ordinal h
  · exact hpowers k hk

section Shortest

variable (hpos : 0 < ordinal) (hlt : ordinal < single.infinityOrdinal)

include hpos hlt

/-- A decimal at an end of the interval is read exactly. -/
theorem mem_quotient_of_end {n : ℕ} (hn : n < 2 ^ 25)
    (hvalue : (single.shortest ordinal).value = n * 2 ^ ((single.magnitude ordinal).2 - 1)) :
    (single.interval ordinal).Mem (double.value (single.shortest ordinal).quotient) := by
  have hmoderate := moderate_shortest hpos hlt
  obtain ⟨hlower, hupper⟩ := exponent_of_dyadic hmoderate hn hvalue
  rw [hmoderate.value_quotient_of_dyadic hlower hupper (hn.trans (by norm_num)) hvalue]
  exact (shortest_spec hpos hlt).1

variable (hblock : ¬ ((single.magnitude ordinal).1 = single.blockSize ∧
  single.minExponent < (single.magnitude ordinal).2))

include hblock

/-- Any other shortest decimal is farther from both ends than the reader errs. -/
theorem far_shortest (hrare : ordinal ∉ besideCritical)
    (hlow : (single.interval ordinal).low < (single.shortest ordinal).value)
    (hhigh : (single.shortest ordinal).value < (single.interval ordinal).high) :
    33 * 2 ^ ((single.magnitude ordinal).2 - 33) <
        (single.shortest ordinal).value - (single.interval ordinal).low ∧
      33 * 2 ^ ((single.magnitude ordinal).2 - 33) <
        (single.interval ordinal).high - (single.shortest ordinal).value := by
  obtain ⟨-, -, hnear⟩ := shortest_spec hpos hlt
  obtain ⟨hlowEnd, hhighEnd⟩ := ends_eq hpos hblock
  have hm := single.significand_pos hpos
  rw [hlowEnd] at hlow ⊢
  rw [hhighEnd] at hhigh ⊢
  rcases lt_or_ge ((10 : ℚ) ^ (single.shortest ordinal).exponent)
    (2 ^ ((single.magnitude ordinal).2 - 1)) with hfine | hcoarse
  · refine far_of_fine hm hfine (hnear ⟨?_, ?_⟩)
    · rw [single.mid_interval, hlowEnd, BinaryFormat.value, zpow_sub_one₀ (by norm_num)] at *
      rw [Nat.cast_sub (by omega)]
      push_cast
      linarith
    · rw [single.mid_interval, hhighEnd, BinaryFormat.value, zpow_sub_one₀ (by norm_num)] at *
      push_cast
      linarith
  · exact far_of_coarse hm (single.canonical_magnitude ordinal) hblock (exponent_le hlt) hcoarse hlow
      hhigh fun h => hrare (mem_besideCritical (single.ordinalOf_magnitude ordinal) h)

/-- **What is read of the shortest digits stays in the rounding interval.** -/
theorem mem_quotient_shortest (hrare : ordinal ∉ besideCritical) :
    (single.interval ordinal).Mem (double.value (single.shortest ordinal).quotient) := by
  have hmem := (shortest_spec hpos hlt).1
  obtain ⟨hlow, hhigh⟩ := ends_eq hpos hblock
  have hsignificand : (single.magnitude ordinal).1 < 2 ^ 24 := (single.canonical_magnitude ordinal).lt
  by_cases hatLow : (single.shortest ordinal).value = (single.interval ordinal).low
  · exact mem_quotient_of_end hpos hlt (by omega) (hatLow.trans hlow)
  by_cases hatHigh : (single.shortest ordinal).value = (single.interval ordinal).high
  · exact mem_quotient_of_end hpos hlt (by omega) (hatHigh.trans hhigh)
  obtain ⟨hbelow, habove⟩ := far_shortest hpos hlt hblock hrare
    (lt_of_le_of_ne hmem.bounds.1 (Ne.symm hatLow)) (lt_of_le_of_ne hmem.bounds.2 hatHigh)
  have hless := lt_of_mem_interval hmem
  have hscale : (2 : ℚ) ^ (24 + (single.magnitude ordinal).2) =
      2 ^ 57 * 2 ^ ((single.magnitude ordinal).2 - 33) := two_zpow_eq (by omega)
  rw [hscale] at hless
  -- the error is a part of the number, which lies below the end of the block
  obtain ⟨hlower, hupper⟩ := abs_le.mp (moderate_shortest hpos hlt).abs_quotient_sub_le
  exact RoundingInterval.mem_of_lt (by linarith) (by linarith)

end Shortest

/-- **The shortest digits of a magnitude are read as the magnitude.** -/
theorem narrow_quotient_shortest (hlt : ordinal < single.infinityOrdinal) :
    narrow (single.shortest ordinal).quotient = ordinal := by
  by_cases hrare : ordinal ∈ besideCritical
  · exact narrow_quotient_exceptional (Or.inl hrare)
  have hinfinity : ordinal < 255 * 2 ^ 23 := hlt
  have hsize : single.blockSize = 2 ^ 23 := rfl
  by_cases hblock : ordinal % 2 ^ 23 = 0
  · exact narrow_quotient_exceptional (Or.inr ⟨ordinal / 2 ^ 23, by omega, by omega⟩)
  have hpos : 0 < ordinal := Nat.pos_of_ne_zero fun h => hblock (by simp [h])
  refine narrow_of_mem hpos hlt (moderate_shortest hpos hlt).quotient_lt
    (mem_quotient_shortest hpos hlt (fun h => hblock ?_) hrare)
  -- the significand of a magnitude that is no power of two is not the least of its block
  have hordinal := single.ordinalOf_magnitude ordinal
  rw [ordinalOf, h.1, hsize] at hordinal
  omega

/-- **A whole number that is written with a zero behind its point** is read exactly. -/
theorem narrow_quotient_whole {n : ℕ} (hpos : 0 < ordinal) (hlt : ordinal < single.infinityOrdinal)
    (hn : n * 10 < 2 ^ 53) (hmem : (single.interval ordinal).Mem n) :
    narrow (⟨n * 10, -1⟩ : Decimal).quotient = ordinal := by
  have hnpos : 0 < n := by exact_mod_cast pos_of_mem_interval hpos hmem
  have hmoderate : (⟨n * 10, -1⟩ : Decimal).Moderate :=
    ⟨Nat.mul_pos hnpos (by norm_num), hn, by norm_num, by norm_num⟩
  have hvalue : (⟨n * 10, -1⟩ : Decimal).value = n := by
    rw [Decimal.value, zpow_neg_one]
    push_cast
    ring
  have hdyadic : (⟨n * 10, -1⟩ : Decimal).value = n * 2 ^ (0 : ℤ) := by
    rw [hvalue, zpow_zero, mul_one]
  refine narrow_of_mem hpos hlt hmoderate.quotient_lt ?_
  rwa [hmoderate.value_quotient_of_dyadic (by norm_num) (by norm_num) (show n < 2 ^ 53 by omega) hdyadic,
    hvalue]

end Single

end BoxLayout
