import Mathlib
import BoxLayout.Proofs.Scalar.Nearest

/-!
# Rounding by residual bits

A float operation computes as many bits of its result as it needs and two more: whether the rest
reaches a half, and whether anything is left beyond that. This module shows that these two bits are
enough: rounding by them is rounding to the nearest.

* **`Denotes`** — what a mantissa with its two bits says about a number. Dropping a bit of the
  mantissa halves the number (`Denotes.shiftRightOne`), and rounding takes the nearest whole
  number (`Denotes.roundedMantissa`).
* **`targetExponent_eq`** — the exponent that the format asks for is the unit of the number.
* **`roundWithAccuracy_rounds`** — both together: the rounded float stands for the nearest magnitude,
  and it is canonical.
-/

namespace BoxLayout.Single

open Float.Model Float.Model.UnpackedFloat

/-! ## Residual bits -/

/-- A number has the mantissa for its whole part, a half more if the round bit is set, and a rest
below a half, which is something just if the sticky bit is set. -/
def Denotes (em : ExtendedMantissa) (x : ℚ) : Prop :=
  ∃ rest : ℚ, x = em.mantissa + (if em.roundBit = true then 1 / 2 else 0) + rest ∧
    0 ≤ rest ∧ rest < 1 / 2 ∧ (em.stickyBit = true ↔ 0 < rest)

theorem denotes_exact (m : ℕ) : Denotes (.ofMantissaAndAccuracy m .exact) m :=
  ⟨0, by simp [ExtendedMantissa.ofMantissaAndAccuracy], le_rfl, by norm_num, by
    simp [ExtendedMantissa.ofMantissaAndAccuracy]⟩

/-- The remainder of a division says all that the two bits need. -/
theorem denotes_fraction (m : ℕ) {num den : ℕ} (h : num < den) :
    Denotes (.ofMantissaAndAccuracy m (accuracyOfFraction num den)) (m + num / den) := by
  have hden : (0 : ℚ) < den := by exact_mod_cast (Nat.zero_le num).trans_lt h
  have hlt : (num : ℚ) < den := by exact_mod_cast h
  unfold accuracyOfFraction
  split_ifs with hzero
  · subst hzero
    simpa using denotes_exact m
  have hnum : (0 : ℚ) < num := by exact_mod_cast Nat.pos_of_ne_zero hzero
  -- the round bit says on which side of a half the remainder lies, the sticky bit whether it lies off
  rcases lt_trichotomy (2 * num) den with hcmp | hcmp | hcmp
  · have hcmp' : 2 * (num : ℚ) < den := by exact_mod_cast hcmp
    -- below a half: all of it is rest
    refine ⟨num / den, ?_⟩
    simp only [compare_lt_iff_lt.mpr hcmp, ExtendedMantissa.ofMantissaAndAccuracy]
    refine ⟨by simp, by positivity, ?_, by simp; positivity⟩
    rw [div_lt_div_iff₀ hden (by norm_num)]
    linarith
  · have hcmp' : 2 * (num : ℚ) = den := by exact_mod_cast hcmp
    -- just a half: nothing is left beyond the round bit
    refine ⟨0, ?_⟩
    simp only [compare_eq_iff_eq.mpr hcmp, ExtendedMantissa.ofMantissaAndAccuracy]
    refine ⟨?_, le_rfl, by norm_num, by simp⟩
    have hhalf : (num : ℚ) / den = 1 / 2 := by
      rw [div_eq_div_iff hden.ne' (by norm_num)]
      linarith
    rw [hhalf, if_pos trivial, add_zero]
  · have hcmp' : (den : ℚ) < 2 * num := by exact_mod_cast hcmp
    -- above a half: what exceeds it is the rest
    have hbeyond : 1 / 2 < (num : ℚ) / den := by
      rw [div_lt_div_iff₀ (by norm_num) hden]
      linarith
    have hone : (num : ℚ) / den < 1 := (div_lt_one hden).mpr hlt
    refine ⟨num / den - 1 / 2, ?_⟩
    simp only [compare_gt_iff_gt.mpr hcmp, ExtendedMantissa.ofMantissaAndAccuracy]
    refine ⟨?_, by linarith, by linarith, ?_⟩
    · rw [if_pos trivial]
      ring
    · simp only [true_iff]
      linarith

namespace Denotes

variable {em : ExtendedMantissa} {x : ℚ}

/-- The mantissa is the whole part of the number. -/
theorem floor_eq (h : Denotes em x) : ⌊x⌋₊ = em.mantissa := by
  obtain ⟨rest, rfl, hnonneg, hlt, -⟩ := h
  rw [Nat.floor_eq_iff (by positivity)]
  constructor <;> split_ifs <;> linarith

/-- Rounding by the two bits takes the nearest whole number, and the even one halfway. -/
theorem roundedMantissa (h : Denotes em x) : em.roundedMantissa = halfEven x := by
  have hfloor := h.floor_eq
  obtain ⟨rest, rfl, hnonneg, hlt, hsticky⟩ := h
  unfold halfEven
  rw [hfloor]
  obtain ⟨m, roundBit, stickyBit⟩ := em
  cases roundBit <;> cases stickyBit <;> simp at hsticky <;>
    simp [ExtendedMantissa.roundedMantissa, ExtendedMantissa.accuracy,
      Accuracy.roundToNearestEven]
  case false.false => rw [le_antisymm hsticky hnonneg]; norm_num
  case false.true => intro h; linarith
  case true.false => rw [le_antisymm hsticky hnonneg]; norm_num
  case true.true =>
    rw [if_neg (by linarith), if_pos (by linarith)]

/-- The bit that leaves the mantissa is the new round bit, and the old one sticks. -/
theorem shiftRightOne (h : Denotes em x) : Denotes em.shiftRightOne (x / 2) := by
  obtain ⟨rest, rfl, hnonneg, hlt, hsticky⟩ := h
  obtain ⟨m, roundBit, stickyBit⟩ := em
  refine ⟨(if roundBit = true then 1 / 4 else 0) + rest / 2, ?_, ?_, ?_, ?_⟩
  · -- the mantissa is twice its half and the bit that leaves
    have hm : (m : ℚ) = 2 * (m / 2 : ℕ) + (m % 2 : ℕ) := by exact_mod_cast (Nat.div_add_mod m 2).symm
    rcases Nat.mod_two_eq_zero_or_one m with hmod | hmod <;>
      simp [ExtendedMantissa.shiftRightOne, hmod] at hm ⊢ <;> rw [hm] <;> split_ifs <;> ring
  · split_ifs <;> linarith
  · split_ifs <;> linarith
  · cases roundBit <;> simp [ExtendedMantissa.shiftRightOne, hsticky]
    linarith

/-- Any number of bits may leave. -/
theorem shiftRight (h : Denotes em x) (n : ℕ) : Denotes (em >>> n) (x / 2 ^ n) := by
  induction n with
  | zero =>
    rw [pow_zero, div_one]
    exact h
  | succ n ih =>
    have heq : x / 2 ^ (n + 1) = x / 2 ^ n / 2 := by rw [pow_succ, div_div]
    rw [heq]
    exact ih.shiftRightOne

end Denotes

/-! ## The unit of a number

The format asks for an exponent by the length of the mantissa in bits. For the whole part of a
number this is the unit of the number. -/

theorem mantissa_ofMantissaAndAccuracy (m : ℕ) (acc : Accuracy) :
    (ExtendedMantissa.ofMantissaAndAccuracy m acc).mantissa = m := by
  rcases acc with _ | _ | _ | _ <;> rfl

theorem log_mul_zpow {x : ℚ} (hx : 0 < x) (e : ℤ) : Int.log 2 (x * 2 ^ e) = Int.log 2 x + e := by
  have hpos : 0 < x * 2 ^ e := mul_pos hx (two_zpow_pos e)
  apply le_antisymm
  · rw [← Int.lt_add_one_iff, ← Int.lt_zpow_iff_log_lt (by norm_num) hpos]
    have h := Int.lt_zpow_succ_log_self (by norm_num : 1 < 2) x
    calc x * 2 ^ e < ((2 : ℕ) : ℚ) ^ (Int.log 2 x + 1) * 2 ^ e := by gcongr
      _ = ((2 : ℕ) : ℚ) ^ (Int.log 2 x + e + 1) := by
          rw [Nat.cast_ofNat, ← zpow_add₀ (by norm_num)]
          ring_nf
  · rw [← Int.zpow_le_iff_le_log (by norm_num) hpos]
    have h := Int.zpow_log_le_self (by norm_num : 1 < 2) hx
    calc ((2 : ℕ) : ℚ) ^ (Int.log 2 x + e) = ((2 : ℕ) : ℚ) ^ Int.log 2 x * 2 ^ e := by
          rw [Nat.cast_ofNat, ← zpow_add₀ (by norm_num)]
      _ ≤ x * 2 ^ e := by gcongr

theorem targetExponent_eq (m : ℕ) (e : ℤ) :
    Format.binary32.targetExponent (totalExponent m e) = max (Nat.log 2 m + e - 23) (-149) := by
  have hmin : Format.binary32.minExponent = -149 := by decide
  have hbits : Format.binary32.mantissaBits = 24 := by decide
  rw [Format.targetExponent, totalExponent, hmin, hbits, Nat.log2_eq_log_two]
  congr 1
  push_cast
  ring

/-- For a whole mantissa, the exponent asked for is the unit of the number. -/
theorem targetExponent_of_pos {m : ℕ} (hm : 0 < m) (e : ℤ) :
    Format.binary32.targetExponent (totalExponent m e) = unitExponent (m * 2 ^ e) := by
  rw [targetExponent_eq, unitExponent, log_mul_zpow (by exact_mod_cast hm), Int.log_natCast]

/-- The same for a number that is not whole, if the exponent is no coarser than its unit. -/
theorem targetExponent_floor {x : ℚ} {e : ℤ} (hx : 0 < x) (he : e ≤ unitExponent (x * 2 ^ e)) :
    Format.binary32.targetExponent (totalExponent ⌊x⌋₊ e) = unitExponent (x * 2 ^ e) := by
  rw [targetExponent_eq]
  rw [unitExponent, log_mul_zpow hx] at he ⊢
  rcases le_or_gt 1 x with hone | hone
  · rw [Int.log_of_one_le_right 2 hone]
  · -- below one there is no bit, so the unit must be the finest one
    have hfloor : ⌊x⌋₊ = 0 := Nat.floor_eq_zero.mpr hone
    have hlog : Int.log 2 x < 0 := by
      rw [← Int.lt_zpow_iff_log_lt (by norm_num) hx, zpow_zero]
      exact hone
    rw [hfloor, Nat.log_zero_right]
    omega

theorem shiftToTargetExponent_eq {m : ℕ} {e u : ℤ} {n : ℕ} (acc : Accuracy)
    (hu : Format.binary32.targetExponent (totalExponent m e) = u) (hn : (u - e).toNat = n) :
    shiftToTargetExponent Format.binary32 m e acc =
      (ExtendedMantissa.ofMantissaAndAccuracy m acc >>> n, e + n) := by
  subst hu hn
  rfl

/-- Shifting a mantissa to the exponent that the format asks for divides the number by its unit. -/
theorem shiftToTargetExponent_spec {m : ℕ} {acc : Accuracy} {x : ℚ} {e : ℤ}
    (h : Denotes (.ofMantissaAndAccuracy m acc) x) (hx : 0 < x)
    (he : e ≤ unitExponent (x * 2 ^ e)) :
    (shiftToTargetExponent Format.binary32 m e acc).2 = unitExponent (x * 2 ^ e) ∧
      Denotes (shiftToTargetExponent Format.binary32 m e acc).1
        (x * 2 ^ e / 2 ^ unitExponent (x * 2 ^ e)) := by
  have hfloor : ⌊x⌋₊ = m := h.floor_eq.trans (mantissa_ofMantissaAndAccuracy m acc)
  have hunit := targetExponent_floor hx he
  rw [hfloor] at hunit
  set u := unitExponent (x * 2 ^ e)
  -- the mantissa is shifted by as many bits as the exponent is below the unit
  obtain ⟨n, hn⟩ := Int.le.dest he
  rw [shiftToTargetExponent_eq acc hunit (by omega : (u - e).toNat = n)]
  refine ⟨hn, ?_⟩
  have heq : x * 2 ^ e / 2 ^ u = x / 2 ^ n := by
    rw [← hn, zpow_add₀ (by norm_num), zpow_natCast]
    field_simp
  rw [heq]
  exact h.shiftRight n

/-- A rounded mantissa fits its 24 bits or is `2 ^ 24`, which is half as many units of the next
size. So the shift after rounding loses nothing. -/
theorem shiftToTargetExponent_rounded {n : ℕ} {e : ℤ} (hn : n ≤ 2 ^ 24) (he : -149 ≤ e) :
    (n < 2 ^ 24 ∧ shiftToTargetExponent Format.binary32 n e .exact = (⟨n, false, false⟩, e)) ∨
      (n = 2 ^ 24 ∧
        shiftToTargetExponent Format.binary32 n e .exact = (⟨2 ^ 23, false, false⟩, e + 1)) := by
  have hunit := targetExponent_eq n e
  rcases hn.lt_or_eq with hlt | rfl
  · -- no bit too many, so nothing is shifted
    have hlog : Nat.log 2 n ≤ 23 := by
      have : Nat.log 2 n < 24 := Nat.log_lt_of_lt_pow' (by norm_num) hlt
      omega
    rw [shiftToTargetExponent_eq .exact hunit (by omega : _ = 0), Nat.cast_zero, add_zero]
    exact Or.inl ⟨hlt, rfl⟩
  · -- the carry: one bit more, and a shift by one that drops a zero
    have hlog : Nat.log 2 (2 ^ 24) = 24 := Nat.log_pow (by norm_num) 24
    rw [shiftToTargetExponent_eq .exact hunit (by omega : _ = 1)]
    exact Or.inr ⟨rfl, rfl⟩

/-! ## Rounded floats -/

/-- A sign as a factor. -/
def signFactor : Sign → ℚ
  | .negative => -1
  | .positive => 1

/-- What an unpacked float stands for. -/
def unpackedValue : UnpackedFloat → Exact
  | .notANumber => .nan
  | .infinity .negative => .negInfinity
  | .infinity .positive => .infinity
  | .zero _ => .finite 0
  | .finite s m e _ => .finite (signFactor s * (m * 2 ^ e))

/-- An unpacked float is written in the unit that its value calls for. -/
def IsCanonical : UnpackedFloat → Prop
  | .finite _ m e _ => Canonical m e
  | _ => True

/-- An unpacked float stands for an exact result, and for the nearest number to it if that is a
number. -/
def Rounds (u : UnpackedFloat) : Exact → Prop
  | .finite q => unpackedValue u = .finite (nearest q) ∧ IsCanonical u
  | x => unpackedValue u = x

/-- Rounding does not depend on the sign. -/
theorem nearest_signFactor_mul (s : Sign) {x : ℚ} (hx : 0 ≤ x) :
    nearest (signFactor s * x) = signFactor s * magnitude x := by
  cases s with
  | positive => rw [signFactor, one_mul, one_mul, nearest_of_nonneg hx]
  | negative => rw [signFactor, neg_one_mul, neg_one_mul, nearest_neg, nearest_of_nonneg hx]

/-- **A mantissa with residual bits is rounded to the nearest number**, in a form that is canonical. -/
theorem roundWithAccuracy_rounds (s : Sign) {m : ℕ} {acc : Accuracy} {x : ℚ} {e : ℤ}
    (h : Denotes (.ofMantissaAndAccuracy m acc) x) (hx : 0 < x)
    (he : e ≤ unitExponent (x * 2 ^ e)) :
    Rounds (roundWithAccuracy Format.binary32 s m e acc)
      (.finite (signFactor s * (x * 2 ^ e))) := by
  have hpos : 0 < x * 2 ^ e := mul_pos hx (two_zpow_pos e)
  have hvalue := nearest_signFactor_mul s hpos.le
  obtain ⟨hexp, hden⟩ := shiftToTargetExponent_spec h hx he
  rcases hfirst : shiftToTargetExponent Format.binary32 m e acc with ⟨em, u⟩
  rw [hfirst] at hexp hden
  have hmant : em.roundedMantissa = halfEven (x * 2 ^ e / 2 ^ unitExponent (x * 2 ^ e)) :=
    hden.roundedMantissa
  obtain rfl : u = unitExponent (x * 2 ^ e) := hexp
  -- rounding up can carry into one bit more, which a second shift takes back
  have hcarry := shiftToTargetExponent_rounded (halfEven_unit_le (x * 2 ^ e))
    (neg_le_unitExponent (x * 2 ^ e))
  unfold roundWithAccuracy
  simp only [hfirst, hmant]
  rcases hcarry with ⟨hlt, hsecond⟩ | ⟨heq, hsecond⟩
  · simp only [hsecond]
    split_ifs with hzero
    · -- everything was rounded away
      refine ⟨?_, trivial⟩
      rw [hvalue, magnitude, hzero, Nat.cast_zero, zero_mul, mul_zero]
      rfl
    · exact ⟨by rw [hvalue]; rfl, Canonical.of_halfEven hpos (Nat.pos_of_ne_zero hzero) hlt⟩
  · simp only [hsecond]
    -- the carry: half as many units of the next size, which fill the bits
    refine ⟨?_, by norm_num, by norm_num, ?_, Or.inr le_rfl⟩
    · rw [magnitude, heq] at hvalue
      rw [hvalue]
      show Exact.finite _ = Exact.finite _
      rw [zpow_add₀ (by norm_num)]
      push_cast
      ring_nf
    · have := neg_le_unitExponent (x * 2 ^ e)
      omega

end BoxLayout.Single
