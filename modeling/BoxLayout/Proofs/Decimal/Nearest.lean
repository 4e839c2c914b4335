import Mathlib
import BoxLayout.Decimal.Single
import BoxLayout.Proofs.Scalar.Nearest

/-!
# Nearest magnitudes

Reading a decimal is arithmetic on naturals: numerators and denominators are scaled, and a quotient is
rounded. This module says in rationals what comes out.

## The architecture

* **`halfEven_eq`** — which whole number a rational is rounded to.
* **`roundHalfEven_eq`**, **`log2_eq`** — the steps on naturals are rounding and the binary logarithm.
* **`Canonical`**, **`ordinalOf`** — a magnitude by its significand and exponent, and its ordinal; the two
  ways between them are inverse to each other.
* **`nearestTo`**, **`nearest_eq`** — the nearest ordinal as a function of a rational.
* **`Decimal.value`** — the rational that a decimal stands for.
-/

namespace BoxLayout

open Single

/-! ## Whole numbers -/

/-- What lies less than half a unit from a whole number is rounded to it, and half a unit if it is
even. -/
theorem Single.halfEven_eq {x : ℚ} {n : ℕ}
    (h : |x - n| < 1 / 2 ∨ n % 2 = 0 ∧ |x - n| ≤ 1 / 2) : halfEven x = n := by
  have hle : |x - n| ≤ 1 / 2 := h.elim le_of_lt And.right
  obtain ⟨hlower, hupper⟩ := abs_le.mp hle
  -- from above, the whole number is the floor, and from below, the one after the floor
  rcases le_or_gt (n : ℚ) x with hge | hlt
  · have hfloor : ⌊x⌋₊ = n := (Nat.floor_eq_iff (n.cast_nonneg.trans hge)).mpr ⟨hge, by linarith⟩
    unfold halfEven
    rw [hfloor]
    split_ifs with hless hmore
    · rfl
    · linarith
    · have htie : x - n = 1 / 2 := le_antisymm (not_lt.mp hmore) (not_lt.mp hless)
      rw [htie, abs_of_pos (by norm_num)] at h
      rw [(h.resolve_left (lt_irrefl _)).1, add_zero]
  · cases n with
    | zero =>
      rw [Nat.cast_zero] at hlt
      have hfloor : ⌊x⌋₊ = 0 := Nat.floor_of_nonpos hlt.le
      unfold halfEven
      rw [hfloor, if_pos (by push_cast; linarith)]
    | succ k =>
      push_cast at hlt hlower
      have hk : (0 : ℚ) ≤ k := k.cast_nonneg
      have hfloor : ⌊x⌋₊ = k := (Nat.floor_eq_iff (by linarith)).mpr ⟨by linarith, hlt⟩
      unfold halfEven
      rw [hfloor]
      split_ifs with hless hmore
      · linarith
      · rfl
      · -- the number below is odd, since the one above is even
        have htie : x - k = 1 / 2 := le_antisymm (not_lt.mp hmore) (not_lt.mp hless)
        have hhalf : x - (k + 1 : ℕ) = -(1 / 2) := by push_cast; linarith
        rw [hhalf, abs_neg, abs_of_pos (by norm_num)] at h
        have heven := (h.resolve_left (lt_irrefl _)).1
        omega

/-- The same in units. -/
theorem Single.halfEven_div_eq {x unit : ℚ} {n : ℕ} (hunit : 0 < unit)
    (h : |x - n * unit| < unit / 2 ∨ n % 2 = 0 ∧ |x - n * unit| ≤ unit / 2) :
    halfEven (x / unit) = n := by
  have hscaled : |x / unit - n| = |x - n * unit| / unit := by
    rw [← abs_of_pos hunit, ← abs_div, abs_of_pos hunit, sub_div, mul_div_cancel_right₀ _ hunit.ne']
  refine halfEven_eq ?_
  rw [hscaled, div_lt_iff₀ hunit, div_le_iff₀ hunit, one_div_mul_eq_div]
  exact h

/-- Powers of two whose exponents differ by a natural number. -/
theorem Single.two_zpow_eq {e e' : ℤ} {n : ℕ} (h : e = n + e') : (2 : ℚ) ^ e = 2 ^ n * 2 ^ e' := by
  rw [h, zpow_add₀ (by norm_num), zpow_natCast]

namespace BinaryFormat

/-- A quotient of whole numbers exceeds the whole quotient by the rest. -/
theorem div_sub_floor (num : ℕ) {den : ℕ} (h : 0 < den) :
    (num / den : ℚ) - (num / den : ℕ) = (num % den : ℕ) / den := by
  have hden : (0 : ℚ) < den := by exact_mod_cast h
  have hsplit : (num : ℚ) = den * (num / den : ℕ) + (num % den : ℕ) := by
    exact_mod_cast (Nat.div_add_mod num den).symm
  rw [eq_div_iff hden.ne', sub_mul, div_mul_cancel₀ _ hden.ne']
  linarith

/-- The whole quotient is the floor of the quotient. -/
theorem floor_div_eq (num den : ℕ) : ⌊(num / den : ℚ)⌋₊ = num / den := by
  exact_mod_cast Nat.floor_div_natCast (num : ℚ) den

/-- The rest of a division is compared with half of the divisor without a quotient. -/
theorem rest_lt_half_iff (num : ℕ) {den : ℕ} (h : 0 < den) :
    ((num % den : ℕ) / den : ℚ) < 1 / 2 ↔ 2 * (num % den) < den := by
  rw [div_lt_div_iff₀ (by exact_mod_cast h) (by norm_num), one_mul, mul_comm]
  exact_mod_cast Iff.rfl

/-- Rounding a quotient of naturals by its rest is rounding the rational. -/
theorem roundHalfEven_eq (num : ℕ) {den : ℕ} (h : 0 < den) :
    roundHalfEven num den = halfEven (num / den) := by
  have hmore : (1 / 2 : ℚ) < (num % den : ℕ) / den ↔ den < 2 * (num % den) := by
    rw [div_lt_div_iff₀ (by norm_num) (by exact_mod_cast h), one_mul, mul_comm]
    exact_mod_cast Iff.rfl
  unfold roundHalfEven halfEven
  rw [floor_div_eq, div_sub_floor num h]
  simp only [rest_lt_half_iff num h, hmore]

/-- A power with a whole exponent, as one of two natural powers over the other. -/
theorem zpow_eq_div {base : ℕ} (h : 0 < base) (e : ℤ) :
    (base : ℚ) ^ e = (base : ℚ) ^ e.toNat / (base : ℚ) ^ (-e).toNat := by
  have hbase : (base : ℚ) ≠ 0 := by exact_mod_cast h.ne'
  rw [← zpow_natCast, ← zpow_natCast, ← zpow_sub₀ hbase]
  congr 1
  omega

theorem scale_pos {base : ℕ} (h : 0 < base) (e : ℤ) (num : ℕ) {den : ℕ} (hden : 0 < den) :
    0 < (scale base e num den).2 := Nat.mul_pos hden (Nat.pow_pos h)

/-- A scaled quotient, as a number. -/
theorem scale_eq {base : ℕ} (h : 0 < base) (e : ℤ) (num den : ℕ) :
    ((scale base e num den).1 : ℚ) / (scale base e num den).2 = num / den * (base : ℚ) ^ e := by
  show ((num * base ^ e.toNat : ℕ) : ℚ) / (den * base ^ (-e).toNat : ℕ) = _
  rw [zpow_eq_div h]
  push_cast
  exact mul_div_mul_comm _ _ _ _

/-- Where the powers around a number are known, so is its logarithm. -/
theorem log_eq_of_le_of_lt {base : ℕ} (hbase : 1 < base) {x : ℚ} {e : ℤ} (hle : (base : ℚ) ^ e ≤ x)
    (hlt : x < base ^ (e + 1)) : Int.log base x = e := by
  have hpos : (0 : ℚ) < base := by exact_mod_cast hbase.trans' Nat.one_pos
  have hx : 0 < x := (zpow_pos hpos e).trans_le hle
  have hlower : e ≤ Int.log base x := (Int.zpow_le_iff_le_log hbase hx).mp hle
  have hupper : Int.log base x < e + 1 := (Int.lt_zpow_iff_log_lt hbase hx).mp hlt
  omega

/-- The lengths of numerator and denominator give the logarithm or one more. -/
theorem log2_eq {num den : ℕ} (hnum : 0 < num) (hden : 0 < den) :
    log2 num den = Int.log 2 (num / den : ℚ) := by
  have hn : (0 : ℚ) < num := by exact_mod_cast hnum
  have hd : (0 : ℚ) < den := by exact_mod_cast hden
  obtain ⟨hnl, hnu⟩ := (Nat.log2_eq_iff hnum.ne').mp (rfl : num.log2 = num.log2)
  obtain ⟨hdl, hdu⟩ := (Nat.log2_eq_iff hden.ne').mp (rfl : den.log2 = den.log2)
  -- the lengths leave two powers to choose from, and the comparison of the definition chooses
  set e : ℤ := (num.log2 : ℤ) - den.log2 with he
  have hlower : (2 : ℚ) ^ (e - 1) ≤ num / den := by
    rw [le_div_iff₀ hd]
    calc (2 : ℚ) ^ (e - 1) * den ≤ 2 ^ (e - 1) * 2 ^ (den.log2 + 1) := by
          gcongr
          exact_mod_cast hdu.le
      _ = 2 ^ num.log2 := by
          rw [← zpow_natCast, ← zpow_natCast, ← zpow_add₀ (by norm_num)]
          congr 1
          push_cast
          omega
      _ ≤ num := by exact_mod_cast hnl
  have hupper : (num / den : ℚ) < 2 ^ (e + 1) := by
    rw [div_lt_iff₀ hd]
    calc (num : ℚ) < 2 ^ (num.log2 + 1) := by exact_mod_cast hnu
      _ = 2 ^ (e + 1) * 2 ^ den.log2 := by
          rw [← zpow_natCast, ← zpow_natCast, ← zpow_add₀ (by norm_num)]
          congr 1
          push_cast
          omega
      _ ≤ 2 ^ (e + 1) * den := by
          gcongr
          exact_mod_cast hdl
  have hscaled : (scale 2 (-e) num den).1 < (scale 2 (-e) num den).2 ↔ (num / den : ℚ) < 2 ^ e := by
    have hpos : (0 : ℚ) < (scale 2 (-e) num den).2 := by exact_mod_cast scale_pos (by norm_num) _ _ hden
    have hquotient := scale_eq (show 0 < 2 by norm_num) (-e) num den
    rw [Nat.cast_ofNat, zpow_neg, ← div_eq_mul_inv] at hquotient
    rw [← div_lt_one (two_zpow_pos e), ← hquotient, div_lt_one hpos]
    exact_mod_cast Iff.rfl
  show (if _ then e - 1 else e) = _
  -- the comparison is that of the quotient with the power in question
  split_ifs with hless
  · refine (log_eq_of_le_of_lt (by norm_num) (by exact_mod_cast hlower) ?_).symm
    rw [sub_add_cancel]
    exact_mod_cast hscaled.mp hless
  · refine (log_eq_of_le_of_lt (by norm_num) ?_ (by exact_mod_cast hupper)).symm
    exact_mod_cast not_lt.mp fun h => hless (hscaled.mpr h)

/-! ## Ordinals -/

variable {f : BinaryFormat}

theorem blockSize_pos (f : BinaryFormat) : 0 < f.blockSize := Nat.pow_pos (by norm_num)

/-- `m` units of `2 ^ e`, written as the format writes them. -/
structure Canonical (f : BinaryFormat) (m : ℕ) (e : ℤ) : Prop where
  lt : m < 2 * f.blockSize
  finest : f.minExponent ≤ e
  full : e = f.minExponent ∨ f.blockSize ≤ m

/-- The number of a magnitude in canonical form, or with a significand one too large for that. -/
def ordinalOf (f : BinaryFormat) (m : ℕ) (e : ℤ) : ℕ :=
  (e - f.minExponent).toNat * f.blockSize + m

/-- The number of a magnitude in canonical form stands for that magnitude. -/
theorem magnitude_ordinalOf {m : ℕ} {e : ℤ} (h : f.Canonical m e) :
    f.magnitude (f.ordinalOf m e) = (m, e) := by
  have hpos := f.blockSize_pos
  have hfinest := h.finest
  have hlt := h.lt
  unfold ordinalOf magnitude
  rcases lt_or_ge m f.blockSize with hless | hge
  · obtain rfl : e = f.minExponent := h.full.resolve_right (not_le.mpr hless)
    rw [sub_self, Int.toNat_zero, zero_mul, zero_add, if_pos hless]
  · obtain ⟨rest, rfl⟩ := Nat.exists_eq_add_of_le hge
    have hrest : rest < f.blockSize := by omega
    -- with the leading bit in, the blocks are counted from the second one
    have hsplit : (e - f.minExponent).toNat * f.blockSize + (f.blockSize + rest) =
        rest + ((e - f.minExponent).toNat + 1) * f.blockSize := by ring
    rw [hsplit, if_neg (by nlinarith), Nat.add_mul_mod_self_right, Nat.mod_eq_of_lt hrest,
      Nat.add_mul_div_right _ _ hpos, Nat.div_eq_of_lt hrest]
    congr 1
    push_cast
    omega

/-- Every ordinal stands for a magnitude in canonical form. -/
theorem canonical_magnitude (f : BinaryFormat) (ordinal : ℕ) :
    f.Canonical (f.magnitude ordinal).1 (f.magnitude ordinal).2 := by
  have hpos := f.blockSize_pos
  unfold magnitude
  split_ifs with hless
  · exact ⟨by dsimp only; omega, le_rfl, Or.inl rfl⟩
  · have hrest := Nat.mod_lt ordinal hpos
    have hblock : 1 ≤ ordinal / f.blockSize := (Nat.one_le_div_iff hpos).mpr (not_lt.mp hless)
    exact ⟨by dsimp only; omega, by dsimp only; omega, Or.inr (Nat.le_add_right _ _)⟩

/-- And the number of that magnitude is the ordinal. -/
theorem ordinalOf_magnitude (f : BinaryFormat) (ordinal : ℕ) :
    f.ordinalOf (f.magnitude ordinal).1 (f.magnitude ordinal).2 = ordinal := by
  have hpos := f.blockSize_pos
  unfold ordinalOf magnitude
  split_ifs with hless
  · dsimp only
    rw [sub_self, Int.toNat_zero, zero_mul, zero_add]
  · have hblock : 1 ≤ ordinal / f.blockSize := (Nat.one_le_div_iff hpos).mpr (not_lt.mp hless)
    obtain ⟨k, hk⟩ := Nat.exists_eq_add_of_le hblock
    have hexponent : (f.minExponent + (ordinal / f.blockSize : ℕ) - 1 - f.minExponent).toNat = k := by
      omega
    dsimp only
    rw [hexponent]
    calc k * f.blockSize + (f.blockSize + ordinal % f.blockSize)
        = f.blockSize * (1 + k) + ordinal % f.blockSize := by ring
      _ = ordinal := by rw [← hk, Nat.div_add_mod]

/-- The number that an ordinal stands for. -/
def value (f : BinaryFormat) (ordinal : ℕ) : ℚ :=
  (f.magnitude ordinal).1 * 2 ^ (f.magnitude ordinal).2

/-- A significand that rounding has taken to the next power of two is written in the next unit. -/
theorem ordinalOf_carry {e : ℤ} (hfinest : f.minExponent ≤ e) :
    f.ordinalOf (2 * f.blockSize) e = f.ordinalOf f.blockSize (e + 1) := by
  have hexponent : (e + 1 - f.minExponent).toNat = (e - f.minExponent).toNat + 1 := by omega
  unfold ordinalOf
  rw [hexponent]
  ring

/-- What an ordinal stands for, where rounding may have taken the significand to the next power of two. -/
theorem value_ordinalOf {m : ℕ} {e : ℤ} (hle : m ≤ 2 * f.blockSize) (hfinest : f.minExponent ≤ e)
    (hfull : e = f.minExponent ∨ f.blockSize ≤ m) : f.value (f.ordinalOf m e) = m * 2 ^ e := by
  rcases hle.lt_or_eq with hlt | rfl
  · rw [value, magnitude_ordinalOf ⟨hlt, hfinest, hfull⟩]
  · -- the next power of two is the first magnitude of the next block
    have hpos := f.blockSize_pos
    have hcanonical : f.Canonical f.blockSize (e + 1) := ⟨by omega, by omega, Or.inr le_rfl⟩
    rw [ordinalOf_carry hfinest, value, magnitude_ordinalOf hcanonical, zpow_add₀ (by norm_num)]
    push_cast
    ring

/-! ## The nearest ordinal -/

/-- The power of two in whose multiples a number is written. -/
def unitExponent (f : BinaryFormat) (x : ℚ) : ℤ :=
  max (Int.log 2 x - (f.precision - 1 : ℕ)) f.minExponent

/-- The ordinal of the magnitude nearest to a positive number. -/
def nearestTo (f : BinaryFormat) (x : ℚ) : ℕ :=
  min (f.ordinalOf (halfEven (x / 2 ^ f.unitExponent x)) (f.unitExponent x)) f.infinityOrdinal

/-- The nearest ordinal to a quotient of naturals is the nearest one to the rational. -/
theorem nearest_eq {num den : ℕ} (hnum : 0 < num) (hden : 0 < den) :
    f.nearest num den = f.nearestTo (num / den) := by
  set e := max (log2 num den - (f.precision - 1 : ℕ)) f.minExponent with he
  have hexponent : f.unitExponent (num / den) = e := by rw [unitExponent, ← log2_eq hnum hden]
  have hquotient := scale_eq (show 0 < 2 by norm_num) (-e) num den
  rw [Nat.cast_ofNat, zpow_neg, ← div_eq_mul_inv] at hquotient
  unfold nearest
  rw [if_neg hnum.ne']
  dsimp only
  rw [← he, roundHalfEven_eq _ (scale_pos (by norm_num) _ _ hden), hquotient, nearestTo, hexponent]
  rfl

theorem minExponent_le_unitExponent (f : BinaryFormat) (x : ℚ) :
    f.minExponent ≤ f.unitExponent x := le_max_right _ _

theorem cast_blockSize (f : BinaryFormat) :
    (f.blockSize : ℚ) = 2 ^ ((f.precision - 1 : ℕ) : ℤ) := by
  rw [zpow_natCast]
  exact_mod_cast rfl

/-- The unit of a number that lies within a block, or below the first one. -/
theorem unitExponent_eq {x : ℚ} {e : ℤ} (hx : 0 < x) (hlt : x < 2 * f.blockSize * 2 ^ e)
    (hfinest : f.minExponent ≤ e) (hfull : e = f.minExponent ∨ f.blockSize * 2 ^ e ≤ x) :
    f.unitExponent x = e := by
  have hupper : Int.log 2 x < (f.precision - 1 : ℕ) + (e + 1) := by
    refine (Int.lt_zpow_iff_log_lt (by norm_num) hx).mp (hlt.trans_eq ?_)
    rw [cast_blockSize, Nat.cast_ofNat, zpow_add₀ (by norm_num), zpow_add₀ (by norm_num)]
    ring
  unfold unitExponent
  rcases hfull with rfl | hfull
  · exact max_eq_right (by omega)
  · have hlower : (f.precision - 1 : ℕ) + e ≤ Int.log 2 x := by
      refine (Int.zpow_le_iff_le_log (by norm_num) hx).mp (le_of_eq_of_le ?_ hfull)
      rw [cast_blockSize, Nat.cast_ofNat, zpow_add₀ (by norm_num)]
    omega

/-- In its unit a number is smaller than two blocks. -/
theorem div_unit_lt (f : BinaryFormat) (x : ℚ) :
    x / 2 ^ f.unitExponent x < 2 * f.blockSize := by
  rw [div_lt_iff₀ (two_zpow_pos _)]
  have hlog : Int.log 2 x + 1 ≤ (f.precision - 1 : ℕ) + (f.unitExponent x + 1) := by
    have := le_max_left (Int.log 2 x - (f.precision - 1 : ℕ)) f.minExponent
    unfold unitExponent
    omega
  calc x < (2 : ℚ) ^ (Int.log 2 x + 1) := by
        exact_mod_cast Int.lt_zpow_succ_log_self (by norm_num : 1 < 2) x
    _ ≤ (2 : ℚ) ^ ((f.precision - 1 : ℕ) + (f.unitExponent x + 1) : ℤ) :=
        zpow_le_zpow_right₀ (by norm_num) hlog
    _ = 2 * f.blockSize * 2 ^ f.unitExponent x := by
        rw [cast_blockSize, zpow_add₀ (by norm_num), zpow_add₀ (by norm_num)]
        ring

/-- In its unit a number is at least a block, unless the unit is the finest one. -/
theorem le_div_unit {x : ℚ} (hx : 0 < x) (he : f.minExponent < f.unitExponent x) :
    (f.blockSize : ℚ) ≤ x / 2 ^ f.unitExponent x := by
  rw [le_div_iff₀ (two_zpow_pos _), cast_blockSize, ← zpow_add₀ (by norm_num)]
  have hlog : ((f.precision - 1 : ℕ) : ℤ) + f.unitExponent x = Int.log 2 x := by
    unfold unitExponent at he ⊢
    omega
  rw [hlog]
  exact_mod_cast Int.zpow_log_le_self (by norm_num : 1 < 2) hx

/-- What a number is rounded to, as long as the format has it. -/
theorem value_nearestTo {x : ℚ} (hx : 0 < x) (hfits : f.nearestTo x < f.infinityOrdinal) :
    f.value (f.nearestTo x) = halfEven (x / 2 ^ f.unitExponent x) * 2 ^ f.unitExponent x := by
  have hmin : f.nearestTo x =
      f.ordinalOf (halfEven (x / 2 ^ f.unitExponent x)) (f.unitExponent x) :=
    min_eq_left (le_of_not_ge fun h => hfits.ne (min_eq_right h))
  rw [hmin]
  refine value_ordinalOf (halfEven_le ?_) (f.minExponent_le_unitExponent x) ?_
  · exact_mod_cast (f.div_unit_lt x).le
  · rcases (f.minExponent_le_unitExponent x).eq_or_lt with heq | hlt
    · exact Or.inl heq.symm
    · exact Or.inr (le_halfEven (le_div_unit hx hlt))

end BinaryFormat

/-! ## Decimals -/

namespace Decimal

/-- The number that a decimal stands for. -/
def value (d : Decimal) : ℚ := d.significand * 10 ^ d.exponent

end Decimal

end BoxLayout
