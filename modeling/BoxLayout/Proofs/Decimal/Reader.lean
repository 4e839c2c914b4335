import Mathlib
import BoxLayout.Decimal.Reader
import BoxLayout.Proofs.Decimal.Nearest

/-!
# Decimals computed in 64 bits

The reader of running programs takes the digits of a decimal and a power of ten as 64-bit numbers, and
multiplies or divides them. Every step is rounded, so what is read need not be the nearest 64-bit number.
It is near, though, and for numbers of few bits it is exact.

## The architecture

* **`fraction_eq`**, **`mul_eq`**, **`div_eq`** — products and quotients of magnitudes are those of their
  values, rounded.
* **`rounded`**, **`InRange`** — the magnitude nearest to a number, and the numbers far from both ends of
  the 64-bit range.
* **`rounded_dyadic`** — what has few bits is not changed; **`abs_rounded_sub_le`** — and nothing is
  changed by more than its `2 ^ 53`rd part.
* **`scaled`**, **`quotient_eq`** — so what is read is one number, rounded: the digits times or divided
  by a power of ten.
* **`value_quotient_of_dyadic`**, **`abs_quotient_sub_le`** — exact for small powers and few bits, and
  nearly exact for all the powers that 32-bit numbers need.
-/

namespace BoxLayout

open Single

/-- Half a unit is the most that rounding takes or adds. -/
theorem Single.abs_halfEven_sub_le {x : ℚ} (hx : 0 ≤ x) : |halfEven x - x| ≤ 1 / 2 := by
  have hfloor := Nat.floor_le hx
  have hnext := Nat.lt_floor_add_one x
  unfold halfEven
  split_ifs with hless hmore
  · exact abs_le.mpr ⟨by linarith, by linarith⟩
  · push_cast
    exact abs_le.mpr ⟨by linarith, by linarith⟩
  · -- halfway between two whole numbers either of them will do
    have htie : x - ⌊x⌋₊ = 1 / 2 := le_antisymm (not_lt.mp hmore) (not_lt.mp hless)
    have hparity : ((⌊x⌋₊ % 2 : ℕ) : ℚ) = 0 ∨ ((⌊x⌋₊ % 2 : ℕ) : ℚ) = 1 := by
      rcases Nat.mod_two_eq_zero_or_one ⌊x⌋₊ with h | h <;> simp [h]
    push_cast at hparity ⊢
    rcases hparity with h | h
    · rw [h]
      exact abs_le.mpr ⟨by linarith, by linarith⟩
    · rw [h]
      exact abs_le.mpr ⟨by linarith, by linarith⟩

namespace BinaryFormat

/-! ## Products and quotients -/

section Arithmetic

variable {f : BinaryFormat} {a b : ℕ}

/-- Numerator and denominator are those of the number. -/
theorem fraction_eq (f : BinaryFormat) (ordinal : ℕ) :
    ((f.fraction ordinal).1 : ℚ) / (f.fraction ordinal).2 = f.value ordinal := by
  have hscale := scale_eq (show 0 < 2 by norm_num) (f.magnitude ordinal).2 (f.magnitude ordinal).1 1
  rwa [Nat.cast_one, div_one, Nat.cast_ofNat] at hscale

theorem fraction_den_pos (f : BinaryFormat) (ordinal : ℕ) : 0 < (f.fraction ordinal).2 :=
  scale_pos (by norm_num) _ _ Nat.one_pos

theorem fraction_num_pos (h : 0 < f.value a) : 0 < (f.fraction a).1 := by
  refine Nat.pos_of_ne_zero fun hzero => h.ne' ?_
  rw [← fraction_eq, hzero, Nat.cast_zero, zero_div]

/-- A product is the number nearest to the exact product. -/
theorem mul_eq (ha : 0 < f.value a) (hb : 0 < f.value b) :
    f.mul a b = f.nearestTo (f.value a * f.value b) := by
  rw [mul, nearest_eq (Nat.mul_pos (fraction_num_pos ha) (fraction_num_pos hb))
    (Nat.mul_pos (f.fraction_den_pos a) (f.fraction_den_pos b)), ← fraction_eq, ← fraction_eq]
  push_cast
  rw [div_mul_div_comm]

/-- A quotient is the number nearest to the exact quotient. -/
theorem div_eq (ha : 0 < f.value a) (hb : 0 < f.value b) :
    f.div a b = f.nearestTo (f.value a / f.value b) := by
  rw [div, nearest_eq (Nat.mul_pos (fraction_num_pos ha) (f.fraction_den_pos b))
    (Nat.mul_pos (f.fraction_den_pos a) (fraction_num_pos hb)), ← fraction_eq, ← fraction_eq]
  push_cast
  rw [div_div_div_eq]

end Arithmetic

/-! ## One rounding -/

/-- The 64-bit number nearest to a number. -/
def rounded (x : ℚ) : ℚ := double.value (double.nearestTo x)

/-- Numbers that are neither too large nor too small for 64 bits, by a wide margin. -/
def InRange (x : ℚ) : Prop := 2 ^ (-250 : ℤ) ≤ x ∧ x ≤ 2 ^ (250 : ℤ)

variable {x : ℚ}

theorem InRange.pos (h : InRange x) : 0 < x := (two_zpow_pos _).trans_le h.1

theorem InRange.log_mem (h : InRange x) : -250 ≤ Int.log 2 x ∧ Int.log 2 x ≤ 250 := by
  have hupper : x < 2 ^ (251 : ℤ) := h.2.trans_lt (zpow_lt_zpow_right₀ (by norm_num) (by norm_num))
  have hlog : Int.log 2 x < 251 :=
    (Int.lt_zpow_iff_log_lt (by norm_num) h.pos).mp (by exact_mod_cast hupper)
  exact ⟨(Int.zpow_le_iff_le_log (by norm_num) h.pos).mp (by exact_mod_cast h.1), by omega⟩

/-- In the range nothing is subnormal. -/
theorem InRange.unitExponent_eq (h : InRange x) : double.unitExponent x = Int.log 2 x - 52 := by
  have hlog := h.log_mem
  show max (Int.log 2 x - 52) (-1074) = _
  omega

/-- In the range nothing is rounded to infinity. -/
theorem InRange.nearestTo_lt (h : InRange x) : double.nearestTo x < double.infinityOrdinal := by
  have hlog := h.log_mem
  have hunit := h.unitExponent_eq
  have hcount : halfEven (x / 2 ^ double.unitExponent x) ≤ 2 * double.blockSize :=
    halfEven_le (by exact_mod_cast (double.div_unit_lt x).le)
  have hblock : double.blockSize = 0x10000000000000 := rfl
  have hinfinity : double.infinityOrdinal = 0x7FF0000000000000 := rfl
  have hmin : double.minExponent = -1074 := rfl
  refine (min_le_left _ _).trans_lt ?_
  rw [ordinalOf, hblock, hinfinity, hmin]
  rw [hblock] at hcount
  -- infinity comes after two thousand blocks, and the number within the first 1275
  have hblocks : (double.unitExponent x - -1074).toNat ≤ 1272 := by omega
  omega

theorem InRange.rounded_eq (h : InRange x) :
    rounded x = halfEven (x / 2 ^ double.unitExponent x) * 2 ^ double.unitExponent x :=
  value_nearestTo h.pos h.nearestTo_lt

/-- **Numbers of few bits are 64-bit numbers.** -/
theorem rounded_dyadic {n : ℕ} {e : ℤ} (hn : n < 2 ^ 53) (h : InRange (n * 2 ^ e)) :
    rounded (n * 2 ^ e) = n * 2 ^ e := by
  have hn : (n : ℚ) < 2 ^ 53 := by exact_mod_cast hn
  have hlog : Int.log 2 ((n : ℚ) * 2 ^ e) < 53 + e := by
    refine (Int.lt_zpow_iff_log_lt (by norm_num) h.pos).mp ?_
    rw [Nat.cast_ofNat, zpow_add₀ (by norm_num)]
    exact mul_lt_mul_of_pos_right (by exact_mod_cast hn) (two_zpow_pos e)
  obtain ⟨k, hk⟩ := Int.eq_ofNat_of_zero_le (show 0 ≤ e - double.unitExponent (n * 2 ^ e) by
    rw [h.unitExponent_eq]
    omega)
  have hwhole : (n : ℚ) * 2 ^ e = (n * 2 ^ k : ℕ) * 2 ^ double.unitExponent (n * 2 ^ e) := by
    have he : e = k + double.unitExponent (n * 2 ^ e) := by omega
    generalize double.unitExponent (n * 2 ^ e) = unit at *
    rw [he, zpow_add₀ (by norm_num), zpow_natCast]
    push_cast
    ring
  have hunit := two_zpow_pos (double.unitExponent (n * 2 ^ e))
  -- it is a whole number of units, so rounding to units leaves it alone
  rw [h.rounded_eq, (div_eq_iff hunit.ne').mpr hwhole, halfEven_natCast]
  exact hwhole.symm

/-- **Rounding changes a number by a small part of it.** -/
theorem abs_rounded_sub_le (h : InRange x) : |rounded x - x| ≤ x / 2 ^ 53 := by
  have hunit := two_zpow_pos (double.unitExponent x)
  have hhalf := abs_halfEven_sub_le (div_nonneg h.pos.le hunit.le)
  have hdistance : rounded x - x =
      (halfEven (x / 2 ^ double.unitExponent x) - x / 2 ^ double.unitExponent x) *
        2 ^ double.unitExponent x := by
    rw [h.rounded_eq, sub_mul, div_mul_cancel₀ _ hunit.ne']
  -- a unit is at most the `2 ^ 52`nd part of the number, and half a unit is rounded off
  have hle : (2 : ℚ) ^ double.unitExponent x ≤ x / 2 ^ 52 := by
    rw [h.unitExponent_eq, zpow_sub₀ (by norm_num)]
    have hlog : ((2 : ℕ) : ℚ) ^ Int.log 2 x ≤ x := Int.zpow_log_le_self (by norm_num) h.pos
    have hpower : (2 : ℚ) ^ (52 : ℤ) = 2 ^ 52 := by norm_num
    rw [hpower]
    gcongr
    exact hlog
  rw [hdistance, abs_mul, abs_of_pos hunit]
  calc |(halfEven (x / 2 ^ double.unitExponent x) : ℚ) - x / 2 ^ double.unitExponent x| *
        2 ^ double.unitExponent x
      ≤ 1 / 2 * (x / 2 ^ 52) := by gcongr
    _ = x / 2 ^ 53 := by ring

/-- What is rounded keeps more than half of its size. -/
theorem InRange.half_lt_rounded (h : InRange x) : x / 2 < rounded x := by
  have := (abs_le.mp (abs_rounded_sub_le h)).1
  linarith [h.pos]

theorem InRange.rounded_lt_two_mul (h : InRange x) : rounded x < 2 * x := by
  have := (abs_le.mp (abs_rounded_sub_le h)).2
  linarith [h.pos]

theorem InRange.rounded_pos (h : InRange x) : 0 < rounded x := (half_pos h.pos).trans h.half_lt_rounded

end BinaryFormat

/-! ## Digits and a power of ten -/

namespace Decimal

open BinaryFormat

variable {d : Decimal}

/-- The digits times or divided by a power of ten that has been rounded. -/
def scaled (d : Decimal) : ℚ :=
  if 0 ≤ d.exponent then d.significand * rounded (10 ^ d.exponent)
  else d.significand / rounded (10 ^ (-d.exponent))

/-- A decimal with few enough digits, and with a power of ten as 32-bit numbers need them. -/
structure Moderate (d : Decimal) : Prop where
  pos : 0 < d.significand
  bits : d.significand < 2 ^ 53
  lower : -50 ≤ d.exponent
  upper : d.exponent ≤ 50

theorem inRange_ten_zpow {k : ℤ} (hlower : 0 ≤ k) (hupper : k ≤ 50) : InRange (10 ^ k) := by
  constructor
  · calc (2 : ℚ) ^ (-250 : ℤ) ≤ 1 := by norm_num
      _ ≤ 10 ^ k := one_le_zpow₀ (by norm_num) hlower
  · calc (10 : ℚ) ^ k ≤ 10 ^ (50 : ℤ) := zpow_le_zpow_right₀ (by norm_num) hupper
      _ ≤ 2 ^ (250 : ℤ) := by norm_num

/-- The powers of ten of the table are rounded. -/
theorem value_power (k : ℕ) : double.value (power k) = rounded (10 ^ (k : ℤ)) := by
  have hpower : power k = double.nearest (10 ^ k) 1 := rfl
  rw [hpower, nearest_eq (by positivity) Nat.one_pos, Nat.cast_one, div_one, rounded, zpow_natCast]
  push_cast
  rfl

/-- A divisor that is changed by a small part changes the quotient by little more. -/
theorem abs_div_sub_div_le {s p r : ℚ} (hs : 0 < s) (hp : 0 < p) (hr : 0 < r)
    (hnear : |r - p| ≤ p / 2 ^ 53) : |s / r - s / p| ≤ s / p / (2 ^ 53 - 1) := by
  -- the error in the quotient is that of the divisor, relative to the divisor that was used
  have hquotient : s / r - s / p = s / p * ((p - r) / r) := by
    field_simp
  have hpart : |(p - r) / r| ≤ 1 / (2 ^ 53 - 1) := by
    rw [abs_div, abs_of_pos hr, abs_sub_comm, div_le_div_iff₀ hr (by norm_num)]
    linarith [(abs_le.mp (le_refl |r - p|)).1]
  rw [hquotient, abs_mul, abs_of_pos (div_pos hs hp), div_eq_mul_one_div (s / p)]
  gcongr

namespace Moderate

theorem one_le (h : d.Moderate) : (1 : ℚ) ≤ d.significand := by exact_mod_cast h.pos

theorem lt (h : d.Moderate) : (d.significand : ℚ) < 2 ^ 53 := by exact_mod_cast h.bits

/-- The digits are few enough to be taken over exactly. -/
theorem value_digits (h : d.Moderate) : double.value (double.nearest d.significand 1) = d.significand := by
  have hdyadic : rounded ((d.significand : ℚ) * 2 ^ (0 : ℤ)) = d.significand * 2 ^ (0 : ℤ) := by
    refine rounded_dyadic h.bits ⟨?_, ?_⟩
    · rw [zpow_zero, mul_one]
      exact le_trans (by norm_num) h.one_le
    · rw [zpow_zero, mul_one]
      exact h.lt.le.trans (by norm_num)
  rw [zpow_zero, mul_one] at hdyadic
  rwa [nearest_eq h.pos Nat.one_pos, Nat.cast_one, div_one]

/-- **What is read is one number, rounded.** -/
theorem quotient_eq (h : d.Moderate) : d.quotient = double.nearestTo d.scaled := by
  have hlower := h.lower
  have hupper := h.upper
  have hdigits := h.value_digits
  have hpos : 0 < double.value (double.nearest d.significand 1) := by
    rw [hdigits]
    exact one_pos.trans_le h.one_le
  have hleading : d.leadingDigits = d := if_pos (h.bits.trans (by norm_num))
  unfold quotient scaled
  simp only [hleading]
  rw [if_neg (show ¬ 308 < d.exponent by omega), if_pos (show -308 ≤ d.exponent by omega)]
  -- a product for powers upwards, a quotient for powers downwards
  split_ifs with hsign
  · have hpower : double.value (power d.exponent.toNat) = rounded (10 ^ d.exponent) := by
      rw [value_power, Int.toNat_of_nonneg hsign]
    rw [mul_eq hpos (hpower ▸ (inRange_ten_zpow hsign (by omega)).rounded_pos), hdigits, hpower]
  · have hpower : double.value (power (-d.exponent).toNat) = rounded (10 ^ (-d.exponent)) := by
      rw [value_power, Int.toNat_of_nonneg (by omega)]
    have hrange := inRange_ten_zpow (show 0 ≤ -d.exponent by omega) (by omega)
    rw [div_eq hpos (hpower ▸ hrange.rounded_pos), hdigits, hpower]

theorem value_quotient (h : d.Moderate) : double.value d.quotient = rounded d.scaled :=
  congrArg double.value h.quotient_eq

/-- The one rounding of the power of ten changes the number by a small part of it. -/
theorem abs_scaled_sub_le (h : d.Moderate) : |d.scaled - d.value| ≤ d.value / (2 ^ 53 - 1) := by
  have hs := h.one_le
  have hlower := h.lower
  have hupper := h.upper
  unfold scaled value
  split_ifs with hsign
  · have hrange := inRange_ten_zpow hsign (by omega)
    have hpos := hrange.pos
    rw [← mul_sub, abs_mul, abs_of_pos (by linarith), mul_div_assoc]
    gcongr
    refine (abs_rounded_sub_le hrange).trans ?_
    gcongr
    norm_num
  · have hrange := inRange_ten_zpow (show 0 ≤ -d.exponent by omega) (by omega)
    have hvalue : (d.significand : ℚ) * 10 ^ d.exponent = d.significand / 10 ^ (-d.exponent) := by
      rw [zpow_neg, div_inv_eq_mul]
    rw [hvalue]
    exact abs_div_sub_div_le (by linarith) hrange.pos hrange.rounded_pos (abs_rounded_sub_le hrange)

/-- The number that is rounded is in the range, with a power of ten that has been rounded before. -/
theorem inRange_scaled (h : d.Moderate) : InRange d.scaled := by
  have hone := h.one_le
  have hlt := h.lt
  have hlower := h.lower
  have hupper := h.upper
  -- the power of ten is at least one and at most `10 ^ 50`, and rounding at most halves or doubles it
  have hpower {k : ℤ} (hk : 0 ≤ k) (hk' : k ≤ 50) :
      (1 : ℚ) / 2 < rounded (10 ^ k) ∧ rounded (10 ^ k) < 2 * 10 ^ 50 := by
    have hrange := inRange_ten_zpow hk hk'
    have hlow : (1 : ℚ) ≤ 10 ^ k := one_le_zpow₀ (by norm_num) hk
    have hhigh : (10 : ℚ) ^ k ≤ 10 ^ (50 : ℤ) := zpow_le_zpow_right₀ (by norm_num) hk'
    have hfifty : (10 : ℚ) ^ (50 : ℤ) = 10 ^ 50 := by norm_num
    exact ⟨by linarith [hrange.half_lt_rounded], by linarith [hrange.rounded_lt_two_mul]⟩
  unfold scaled
  split_ifs with hsign
  · obtain ⟨hlow, hhigh⟩ := hpower hsign hupper
    constructor
    · calc (2 : ℚ) ^ (-250 : ℤ) ≤ 1 * (1 / 2) := by norm_num
        _ ≤ d.significand * rounded (10 ^ d.exponent) := by gcongr
    · calc d.significand * rounded (10 ^ d.exponent) ≤ 2 ^ 53 * (2 * 10 ^ 50) := by gcongr
        _ ≤ 2 ^ (250 : ℤ) := by norm_num
  · obtain ⟨hlow, hhigh⟩ := hpower (show 0 ≤ -d.exponent by omega) (by omega)
    constructor
    · calc (2 : ℚ) ^ (-250 : ℤ) ≤ 1 / (2 * 10 ^ 50) := by norm_num
        _ ≤ d.significand / rounded (10 ^ (-d.exponent)) := by gcongr
    · calc d.significand / rounded (10 ^ (-d.exponent)) ≤ 2 ^ 53 / (1 / 2) := by gcongr
        _ ≤ 2 ^ (250 : ℤ) := by norm_num

theorem quotient_lt (h : d.Moderate) : d.quotient < double.infinityOrdinal := by
  rw [h.quotient_eq]
  exact h.inRange_scaled.nearestTo_lt

/-- **What is read is nearly exact.** -/
theorem abs_quotient_sub_le (h : d.Moderate) :
    |double.value d.quotient - d.value| ≤ 33 * d.value / 2 ^ 57 := by
  have hrounded := abs_rounded_sub_le h.inRange_scaled
  have hscaled := h.abs_scaled_sub_le
  rw [← h.value_quotient] at hrounded
  -- two roundings, each of about the `2 ^ 53`rd part, make up less than `33 / 2 ^ 57`
  rw [abs_le] at *
  constructor <;> linarith

end Moderate

/-- Small powers of ten are 64-bit numbers. -/
theorem rounded_ten_zpow {k : ℤ} (hlower : 0 ≤ k) (hupper : k ≤ 22) : rounded (10 ^ k) = 10 ^ k := by
  have hrange := inRange_ten_zpow hlower (by omega)
  obtain ⟨n, rfl⟩ := Int.eq_ofNat_of_zero_le hlower
  -- without its factors of two the power has 53 bits at most
  have hpower : (10 : ℚ) ^ (n : ℤ) = (5 ^ n : ℕ) * 2 ^ (n : ℤ) := by
    rw [zpow_natCast, zpow_natCast]
    push_cast
    rw [← mul_pow]
    norm_num
  rw [hpower] at hrange ⊢
  refine rounded_dyadic ?_ hrange
  calc 5 ^ n ≤ 5 ^ 22 := Nat.pow_le_pow_right (by norm_num) (by omega)
    _ < 2 ^ 53 := by norm_num

/-- **What is read is exact** if the power of ten is small and the number has few bits. -/
theorem Moderate.value_quotient_of_dyadic (h : d.Moderate) (hlower : -22 ≤ d.exponent)
    (hupper : d.exponent ≤ 22) {n : ℕ} {e : ℤ} (hn : n < 2 ^ 53) (hvalue : d.value = n * 2 ^ e) :
    double.value d.quotient = d.value := by
  have hscaled : d.scaled = d.value := by
    unfold scaled value
    split_ifs with hsign
    · rw [rounded_ten_zpow hsign hupper]
    · rw [rounded_ten_zpow (by omega) (by omega), zpow_neg, div_inv_eq_mul]
  have hrange := h.inRange_scaled
  rw [h.value_quotient, hscaled, hvalue]
  rw [hscaled, hvalue] at hrange
  exact rounded_dyadic hn hrange

end Decimal

end BoxLayout
