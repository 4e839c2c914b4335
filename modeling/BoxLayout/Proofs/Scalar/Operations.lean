import Mathlib
import BoxLayout.Proofs.Scalar.Residue
import BoxLayout.Proofs.Scalar.Rounded
import BoxLayout.Scalar.Single

/-!
# Operations on unpacked floats

Every float operation unpacks its operands, computes the exact result with residual bits, rounds it
and packs it again. This module follows a result up to the packing, one operation after another.

* **`round_rounds`** — a mantissa in any unit, brought into the unit that it calls for, is the nearest
  number.
* **`add_rounds`, `sub_rounds`, `mul_rounds`, `div_rounds`** — an operation on unpacked floats is
  the exact operation, rounded to the nearest number.
-/

namespace BoxLayout.Single

open Float.Model Float.Model.UnpackedFloat

/-! ## Signs -/

@[simp] theorem signFactor_mul (s₁ s₂ : Sign) :
    signFactor (s₁ * s₂) = signFactor s₁ * signFactor s₂ := by
  cases s₁ <;> cases s₂ <;> simp [signFactor]

@[simp] theorem signFactor_div (s₁ s₂ : Sign) :
    signFactor (s₁ / s₂) = signFactor s₁ / signFactor s₂ := by
  cases s₁ <;> cases s₂ <;> simp [signFactor] <;> rfl

@[simp] theorem signFactor_neg (s : Sign) : signFactor (-s) = -signFactor s := by
  cases s <;> simp [signFactor]

/-- Signed mantissas as rationals. -/
theorem apply_eq (s : Sign) (m : ℕ) : ((s.apply m : ℤ) : ℚ) = signFactor s * m := by
  cases s <;> simp [signFactor, Sign.apply]

theorem signFactor_ne_zero (s : Sign) : signFactor s ≠ 0 := by
  cases s <;> simp [signFactor]

theorem signedInfinity_signFactor_mul (s : Sign) {q : ℚ} (hq : 0 < q) :
    Exact.signedInfinity (signFactor s * q) = unpackedValue (.infinity s) := by
  cases s with
  | positive =>
    rw [signFactor, one_mul]
    exact if_pos hq
  | negative =>
    rw [signFactor, neg_one_mul, Exact.signedInfinity, if_neg (by linarith), if_pos (by linarith)]
    rfl

theorem unpackedValue_finite (s : Sign) (m : ℕ) (e : ℤ) (hm : 0 < m) :
    unpackedValue (.finite s m e hm) = .finite (signFactor s * (m * 2 ^ e)) := rfl

/-- An infinity times a number has the product of the two signs. -/
theorem infinity_mul (s₁ s₂ : Sign) {q : ℚ} (hq : 0 < q) :
    unpackedValue (.infinity s₁) * .finite (signFactor s₂ * q) =
      unpackedValue (.infinity (s₁ * s₂)) := by
  have h := signedInfinity_signFactor_mul (s₁ * s₂) hq
  rw [← h, signFactor_mul]
  cases s₁ with
  | negative =>
    rw [signFactor, neg_one_mul, neg_mul]
    rfl
  | positive =>
    rw [signFactor, one_mul]
    rfl

theorem mul_infinity (s₁ s₂ : Sign) {q : ℚ} (hq : 0 < q) :
    Exact.finite (signFactor s₁ * q) * unpackedValue (.infinity s₂) =
      unpackedValue (.infinity (s₁ * s₂)) := by
  have hcomm : s₁ * s₂ = s₂ * s₁ := by cases s₁ <;> cases s₂ <;> rfl
  rw [hcomm, ← infinity_mul s₂ s₁ hq]
  cases s₂ <;> rfl

theorem infinity_div (s₁ s₂ : Sign) {q : ℚ} (hq : 0 < q) :
    unpackedValue (.infinity s₁) / .finite (signFactor s₂ * q) =
      unpackedValue (.infinity (s₁ / s₂)) := by
  have hneg : (signFactor .negative * q < 0) := by
    rw [signFactor]
    linarith
  have hpos : ¬ (signFactor .positive * q < 0) := by
    rw [signFactor]
    linarith
  cases s₁ <;> cases s₂ <;> first | exact if_pos hneg | exact if_neg hpos

/-- Negation is exact. -/
theorem unpackedValue_neg (u : UnpackedFloat) : unpackedValue u.neg = -unpackedValue u := by
  cases u with
  | notANumber => rfl
  | infinity s => cases s <;> rfl
  | zero s => exact congrArg Exact.finite neg_zero.symm
  | finite s m e hm =>
    show Exact.finite _ = Exact.finite _
    rw [signFactor_neg, neg_mul]

theorem isCanonical_neg {u : UnpackedFloat} (h : IsCanonical u) : IsCanonical u.neg := by
  cases u <;> exact h

/-! ## Operations -/

/-- A number in canonical form is its own nearest number. -/
theorem rounds_self {u : UnpackedFloat} (h : IsCanonical u) : Rounds u (unpackedValue u) := by
  cases u with
  | notANumber => rfl
  | infinity s => cases s <;> rfl
  | zero s => exact ⟨congrArg Exact.finite nearest_zero.symm, trivial⟩
  | finite s m e hm =>
    refine ⟨congrArg Exact.finite ?_, h⟩
    rw [nearest_signFactor_mul s (Canonical.value_pos h).le, Canonical.magnitude_eq h]

theorem rounds_infinity (s : Sign) : Rounds (.infinity s) (unpackedValue (.infinity s)) :=
  rounds_self (u := .infinity s) trivial

theorem rounds_zero (s : Sign) : Rounds (.zero s) (.finite 0) := rounds_self (u := .zero s) trivial

/-- Writing a number in a finer unit does not change it. -/
theorem decreaseExponent_eq (m : ℕ) (e t : ℤ) :
    (decreaseExponent m e t).2 = min e t ∧
      ((decreaseExponent m e t).1 : ℚ) * 2 ^ (decreaseExponent m e t).2 = m * 2 ^ e := by
  unfold decreaseExponent
  refine ⟨by dsimp only; omega, ?_⟩
  dsimp only
  rw [Nat.shiftLeft_eq]
  push_cast
  rw [mul_assoc, ← zpow_natCast, ← zpow_add₀ (by norm_num)]
  congr 2
  omega

/-- A number in any unit is rounded to the nearest one: it is first written in a unit that is fine enough.
-/
theorem round_rounds (s : Sign) {m : ℕ} (hm : 0 < m) (e : ℤ) :
    Rounds (UnpackedFloat.round Format.binary32 s m e) (.finite (signFactor s * (m * 2 ^ e))) := by
  obtain ⟨hexp, hval⟩ := decreaseExponent_eq m e (unitExponent (m * 2 ^ e))
  rcases hd : decreaseExponent m e (unitExponent (m * 2 ^ e)) with ⟨m', e'⟩
  rw [hd] at hexp hval
  simp only [UnpackedFloat.round, targetExponent_of_pos hm, hd]
  -- the mantissa may now be cut to the unit that it calls for
  have hle : e' ≤ unitExponent (m * 2 ^ e) := hexp.trans_le (min_le_right _ _)
  have hpos : (0 : ℚ) < m * 2 ^ e := mul_pos (by exact_mod_cast hm) (two_zpow_pos e)
  rw [← hval] at hle hpos ⊢
  exact roundWithAccuracy_rounds s (denotes_exact m')
    ((mul_pos_iff_of_pos_right (two_zpow_pos e')).mp hpos) hle

/-- The same for a signed mantissa, as sums have it. -/
theorem normalize_rounds (m e : ℤ) (s : Sign) :
    Rounds (UnpackedFloat.normalize Format.binary32 m e s) (.finite (m * 2 ^ e)) := by
  unfold UnpackedFloat.normalize
  rcases lt_trichotomy m 0 with hm | rfl | hm
  · simp only [compare_lt_iff_lt.mpr hm]
    have h := round_rounds .negative (m := (-m).toNat) (by omega) e
    have hcast : (((-m).toNat : ℕ) : ℚ) = -m := by exact_mod_cast Int.toNat_of_nonneg (by omega)
    rwa [hcast, signFactor, neg_one_mul, neg_mul, neg_neg] at h
  · -- what cancels out is a zero of the given sign
    rw [Int.cast_zero, zero_mul]
    exact rounds_zero s
  · simp only [compare_gt_iff_gt.mpr hm]
    have h := round_rounds .positive (m := m.toNat) (by omega) e
    have hcast : ((m.toNat : ℕ) : ℚ) = m := by exact_mod_cast Int.toNat_of_nonneg hm.le
    rwa [hcast, signFactor, one_mul] at h

/-- A sum is the exact sum, rounded. -/
theorem add_rounds {u v : UnpackedFloat} (hu : IsCanonical u) (hv : IsCanonical v) :
    Rounds (UnpackedFloat.add Format.binary32 u v) (unpackedValue u + unpackedValue v) := by
  cases u with
  | notANumber =>
    show Rounds _ (Exact.nan + _)
    rw [Exact.nan_add]
    rfl
  | infinity s₁ =>
    cases v with
    | notANumber => cases s₁ <;> rfl
    | infinity s₂ => cases s₁ <;> cases s₂ <;> rfl
    | zero s₂ | finite s₂ m₂ e₂ hm₂ => cases s₁ <;> rfl
  | zero s₁ =>
    cases v with
    | notANumber => rfl
    | infinity s₂ => cases s₂ <;> rfl
    | zero s₂ =>
      show Rounds _ (.finite (0 + 0))
      rw [add_zero]
      -- the sign of a zero does not show in its value
      cases s₁ <;> cases s₂ <;> exact rounds_zero _
    | finite s₂ m₂ e₂ hm₂ =>
      show Rounds _ (.finite (0 + _))
      rw [zero_add]
      exact rounds_self hv
  | finite s₁ m₁ e₁ hm₁ =>
    cases v with
    | notANumber => rfl
    | infinity s₂ => cases s₂ <;> rfl
    | zero s₂ =>
      show Rounds _ (.finite (_ + 0))
      rw [add_zero]
      exact rounds_self hu
    | finite s₂ m₂ e₂ hm₂ =>
      obtain ⟨hexp₁, hval₁⟩ := decreaseExponent_eq m₁ e₁ (min e₁ e₂)
      obtain ⟨hexp₂, hval₂⟩ := decreaseExponent_eq m₂ e₂ (min e₁ e₂)
      rw [min_eq_right (min_le_left _ _)] at hexp₁
      rw [min_eq_right (min_le_right _ _)] at hexp₂
      rw [hexp₁] at hval₁
      rw [hexp₂] at hval₂
      -- both mantissas in the finer of the two units
      have h := normalize_rounds (s₁.apply (decreaseExponent m₁ e₁ (min e₁ e₂)).1 +
        s₂.apply (decreaseExponent m₂ e₂ (min e₁ e₂)).1) (min e₁ e₂) .positive
      rwa [Int.cast_add, apply_eq, apply_eq, add_mul, mul_assoc, mul_assoc, hval₁, hval₂] at h

/-- A difference is a sum with the second operand negated. -/
theorem sub_eq_add_neg (u v : UnpackedFloat) :
    UnpackedFloat.sub Format.binary32 u v = UnpackedFloat.add Format.binary32 u v.neg := by
  have happly (s : Sign) (n : ℤ) : (-s).apply n = -s.apply n := by
    cases s
    · exact (neg_neg n).symm
    · rfl
  cases u <;> cases v <;> try rfl
  simp only [UnpackedFloat.sub, UnpackedFloat.add, UnpackedFloat.neg, happly, Int.sub_eq_add_neg]

theorem sub_rounds {u v : UnpackedFloat} (hu : IsCanonical u) (hv : IsCanonical v) :
    Rounds (UnpackedFloat.sub Format.binary32 u v) (unpackedValue u - unpackedValue v) := by
  have h := add_rounds hu (isCanonical_neg hv)
  rw [unpackedValue_neg, ← sub_eq_add_neg] at h
  exact h

/-- The product of canonical numbers has no coarser exponent than it calls for: either one of the
two fills its bits, or both are written in the finest unit. -/
theorem exponent_mul_le {m₁ m₂ : ℕ} {e₁ e₂ : ℤ} (h₁ : Canonical m₁ e₁) (h₂ : Canonical m₂ e₂) :
    e₁ + e₂ ≤ unitExponent ((m₁ * m₂ : ℕ) * 2 ^ (e₁ + e₂)) := by
  have hpos : 0 < m₁ * m₂ := Nat.mul_pos h₁.pos h₂.pos
  rw [← targetExponent_of_pos hpos, targetExponent_eq]
  by_cases hfull : 2 ^ 23 ≤ m₁ * m₂
  · have hlog : 23 ≤ Nat.log 2 (m₁ * m₂) := Nat.le_log_of_pow_le (by norm_num) hfull
    omega
  · -- neither fills its bits, so both are in the finest unit
    have hm₁ : ¬ 2 ^ 23 ≤ m₁ := fun h => hfull (h.trans (Nat.le_mul_of_pos_right _ h₂.pos))
    have hm₂ : ¬ 2 ^ 23 ≤ m₂ := fun h => hfull (h.trans (Nat.le_mul_of_pos_left _ h₁.pos))
    have he₁ := h₁.full.resolve_right hm₁
    have he₂ := h₂.full.resolve_right hm₂
    omega

/-- A product is the exact product, rounded. -/
theorem mul_rounds {u v : UnpackedFloat} (hu : IsCanonical u) (hv : IsCanonical v) :
    Rounds (UnpackedFloat.mul Format.binary32 u v) (unpackedValue u * unpackedValue v) := by
  cases u with
  | notANumber =>
    show Rounds _ (Exact.nan * _)
    rw [Exact.nan_mul]
    rfl
  | infinity s₁ =>
    cases v with
    | notANumber => cases s₁ <;> rfl
    | infinity s₂ => cases s₁ <;> cases s₂ <;> rfl
    | zero s₂ => cases s₁ <;> rfl
    | finite s₂ m₂ e₂ hm₂ =>
      rw [unpackedValue_finite, infinity_mul s₁ s₂ (Canonical.value_pos hv)]
      exact rounds_infinity _
  | zero s₁ =>
    cases v with
    | notANumber => rfl
    | infinity s₂ => cases s₂ <;> rfl
    -- nothing times a number is nothing
    | zero s₂ | finite s₂ m₂ e₂ hm₂ =>
      show Rounds _ (.finite (0 * _))
      rw [zero_mul]
      exact rounds_zero _
  | finite s₁ m₁ e₁ hm₁ =>
    cases v with
    | notANumber => rfl
    | infinity s₂ =>
      rw [unpackedValue_finite, mul_infinity s₁ s₂ (Canonical.value_pos hu)]
      exact rounds_infinity _
    | zero s₂ =>
      show Rounds _ (.finite (_ * 0))
      rw [mul_zero]
      exact rounds_zero _
    | finite s₂ m₂ e₂ hm₂ =>
      -- the product of the mantissas is exact, and in a unit no coarser than it calls for
      have h := roundWithAccuracy_rounds (s₁ * s₂) (denotes_exact (m₁ * m₂))
        (by exact_mod_cast Nat.mul_pos hm₁ hm₂) (exponent_mul_le hu hv)
      have heq : signFactor (s₁ * s₂) * (((m₁ * m₂ : ℕ) : ℚ) * 2 ^ (e₁ + e₂)) =
          signFactor s₁ * (m₁ * 2 ^ e₁) * (signFactor s₂ * (m₂ * 2 ^ e₂)) := by
        rw [signFactor_mul, zpow_add₀ (by norm_num)]
        push_cast
        ring
      rwa [heq] at h

/-- The quotient has no coarser exponent than it calls for, because its first bit stands where the
operands' first bits say, or one place below. -/
theorem exponent_div_le {m₁ m₂ : ℕ} (hm₁ : 0 < m₁) (hm₂ : 0 < m₂) (e₁ e₂ : ℤ) :
    Format.binary32.targetExponent (totalExponent m₁ e₁ - totalExponent m₂ e₂) ≤
      unitExponent (m₁ * 2 ^ e₁ / (m₂ * 2 ^ e₂)) := by
  have hq₁ : (0 : ℚ) < m₁ := by exact_mod_cast hm₁
  have hq₂ : (0 : ℚ) < m₂ := by exact_mod_cast hm₂
  -- a quotient is at least the power below the dividend over the power above the divisor
  have hlower : (2 : ℚ) ^ (Nat.log 2 m₁ : ℤ) ≤ m₁ := by
    exact_mod_cast Nat.pow_log_le_self 2 hm₁.ne'
  have hupper : (m₂ : ℚ) < 2 ^ ((Nat.log 2 m₂ : ℤ) + 1) := by
    exact_mod_cast Nat.lt_pow_succ_log_self (by norm_num) m₂
  -- so the logarithm of the quotient is at least the difference of theirs, less one
  have hlog : Nat.log 2 m₁ + e₁ - (Nat.log 2 m₂ + 1 + e₂) ≤
      Int.log 2 ((m₁ : ℚ) * 2 ^ e₁ / (m₂ * 2 ^ e₂)) := by
    rw [← Int.zpow_le_iff_le_log (by norm_num) (by positivity), le_div_iff₀ (by positivity)]
    calc ((2 : ℕ) : ℚ) ^ (Nat.log 2 m₁ + e₁ - (Nat.log 2 m₂ + 1 + e₂)) * (m₂ * 2 ^ e₂)
        ≤ ((2 : ℕ) : ℚ) ^ (Nat.log 2 m₁ + e₁ - (Nat.log 2 m₂ + 1 + e₂)) *
            (2 ^ ((Nat.log 2 m₂ : ℤ) + 1) * 2 ^ e₂) := by gcongr
      _ = 2 ^ (Nat.log 2 m₁ : ℤ) * 2 ^ e₁ := by
          rw [Nat.cast_ofNat, ← zpow_add₀ (by norm_num), ← zpow_add₀ (by norm_num),
            ← zpow_add₀ (by norm_num)]
          ring_nf
      _ ≤ m₁ * 2 ^ e₁ := by gcongr
  have hmin : Format.binary32.minExponent = -149 := by decide
  have hbits : Format.binary32.mantissaBits = 24 := by decide
  rw [Format.targetExponent, totalExponent, totalExponent, hmin, hbits, Nat.log2_eq_log_two,
    Nat.log2_eq_log_two, unitExponent]
  omega

/-- The quotient is taken in an exponent fine enough, with its remainder for residual bits. -/
theorem divCore_rounds (s : Sign) {m₁ m₂ : ℕ} (hm₁ : 0 < m₁) (hm₂ : 0 < m₂) (e₁ e₂ : ℤ) :
    Rounds
      (let (m, e, acc) := divCore Format.binary32 m₁ e₁ m₂ e₂
       roundWithAccuracy Format.binary32 s m e acc)
      (.finite (signFactor s * (m₁ * 2 ^ e₁ / (m₂ * 2 ^ e₂)))) := by
  have hq₁ : (0 : ℚ) < m₁ := by exact_mod_cast hm₁
  have hq₂ : (0 : ℚ) < m₂ := by exact_mod_cast hm₂
  have hle := exponent_div_le hm₁ hm₂ e₁ e₂
  unfold divCore
  dsimp only
  set t := min (e₁ - e₂)
    (Format.binary32.targetExponent (totalExponent m₁ e₁ - totalExponent m₂ e₂)) with ht
  set m := m₁ <<< (e₁ - e₂ - t).toNat with hm
  -- the residual bits say where the remainder lies
  have hden := denotes_fraction (m / m₂) (Nat.mod_lt m hm₂)
  have hsum : ((m / m₂ : ℕ) : ℚ) + (m % m₂ : ℕ) / m₂ = m / m₂ := by
    have h : (m : ℚ) = m₂ * (m / m₂ : ℕ) + (m % m₂ : ℕ) := by
      exact_mod_cast (Nat.div_add_mod m m₂).symm
    rw [eq_div_iff hq₂.ne', add_mul, div_mul_cancel₀ _ hq₂.ne', h]
    ring
  rw [hsum] at hden
  -- the shift of the dividend makes up for the exponent of the quotient
  have hval : (m : ℚ) / m₂ * 2 ^ t = m₁ * 2 ^ e₁ / (m₂ * 2 ^ e₂) := by
    have hexp : (2 : ℚ) ^ (e₁ - e₂ - t).toNat * 2 ^ t * 2 ^ e₂ = 2 ^ e₁ := by
      rw [← zpow_natCast, ← zpow_add₀ (by norm_num), ← zpow_add₀ (by norm_num)]
      congr 1
      omega
    rw [hm, Nat.shiftLeft_eq, eq_div_iff (by positivity), ← hexp]
    push_cast
    field_simp
  have hpos : (0 : ℚ) < m / m₂ * 2 ^ t := by
    rw [hval]
    positivity
  rw [← hval] at hle ⊢
  exact roundWithAccuracy_rounds s hden ((mul_pos_iff_of_pos_right (two_zpow_pos t)).mp hpos)
    ((min_le_right _ _).trans hle)

/-- A quotient is the exact quotient, rounded, if nothing is divided by zero. -/
theorem div_rounds {u v : UnpackedFloat} (hv : IsCanonical v) (hne : unpackedValue v ≠ .finite 0) :
    Rounds (UnpackedFloat.div Format.binary32 u v) (unpackedValue u / unpackedValue v) := by
  cases u with
  | notANumber =>
    show Rounds _ (Exact.nan / _)
    rw [Exact.nan_div]
    rfl
  | infinity s₁ =>
    cases v with
    | notANumber => cases s₁ <;> rfl
    | infinity s₂ => cases s₁ <;> cases s₂ <;> rfl
    | zero s₂ => exact absurd rfl hne
    | finite s₂ m₂ e₂ hm₂ =>
      rw [unpackedValue_finite, infinity_div s₁ s₂ (Canonical.value_pos hv)]
      exact rounds_infinity _
  | zero s₁ =>
    cases v with
    | notANumber => rfl
    | infinity s₂ => cases s₂ <;> exact rounds_zero _
    | zero s₂ => exact absurd rfl hne
    | finite s₂ m₂ e₂ hm₂ =>
      have hq := mul_ne_zero (signFactor_ne_zero s₂) (Canonical.value_pos hv).ne'
      show Rounds _ (Exact.finite 0 / Exact.finite _)
      rw [Exact.finite_div 0 hq, zero_div]
      exact rounds_zero _
  | finite s₁ m₁ e₁ hm₁ =>
    cases v with
    | notANumber => rfl
    -- what is divided by an infinity is nothing
    | infinity s₂ => cases s₂ <;> exact rounds_zero _
    | zero s₂ => exact absurd rfl hne
    | finite s₂ m₂ e₂ hm₂ =>
      -- the divisor is a number, so `Exact` divides as the field does
      have hq := mul_ne_zero (signFactor_ne_zero s₂) (Canonical.value_pos hv).ne'
      rw [unpackedValue_finite, unpackedValue_finite, Exact.finite_div _ hq]
      have heq : signFactor s₁ * (m₁ * 2 ^ e₁) / (signFactor s₂ * (m₂ * 2 ^ e₂)) =
          signFactor (s₁ / s₂) * (m₁ * 2 ^ e₁ / (m₂ * 2 ^ e₂)) := by
        rw [signFactor_div, mul_div_mul_comm]
      rw [heq]
      exact divCore_rounds (s₁ / s₂) hm₁ hm₂ e₁ e₂

end BoxLayout.Single
