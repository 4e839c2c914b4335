import Mathlib
import BoxLayout.Proofs.Scalar.Exact

/-!
# The nearest 32-bit magnitude

A 32-bit float is a whole number below `2 ^ 24` times a power of two that is not below `2 ^ -149`.
Rounding a rational to such a number takes the unit that its size calls for and then the nearest
whole number of units, the even one if two are equally near.

* **`halfEven`** — the nearest whole number. It keeps the order and fixes whole numbers, and no
  later proof needs to know more about it.
* **`unitExponent`** — the unit, as a power of two: 24 bits below the leading one, but never finer
  than the unit of the smallest magnitudes.
* **`magnitude_mono`** — rounding a magnitude keeps the order, also where the unit changes: what is
  rounded in the finer unit stays at or below the power of two at which the coarser one begins.
* **`Single.round`** — the same with signs, and with the infinities beyond the largest magnitude.
-/

namespace BoxLayout.Single

/-! ## Whole numbers -/

/-- The whole number nearest to a magnitude; halfway between two, the even one. -/
def halfEven (x : ℚ) : ℕ :=
  if x - ⌊x⌋₊ < 1 / 2 then ⌊x⌋₊
  else if 1 / 2 < x - ⌊x⌋₊ then ⌊x⌋₊ + 1
  else ⌊x⌋₊ + ⌊x⌋₊ % 2

/-- The nearest whole number is one of the two around. -/
theorem floor_le_halfEven (x : ℚ) : ⌊x⌋₊ ≤ halfEven x := by
  unfold halfEven
  split_ifs <;> omega

theorem halfEven_le_floor_add_one (x : ℚ) : halfEven x ≤ ⌊x⌋₊ + 1 := by
  unfold halfEven
  split_ifs <;> omega

@[simp] theorem halfEven_natCast (n : ℕ) : halfEven n = n := by
  unfold halfEven
  rw [Nat.floor_natCast, sub_self, if_pos (by norm_num)]

/-- Rounding to whole numbers keeps the order. -/
theorem halfEven_mono {x y : ℚ} (h : x ≤ y) : halfEven x ≤ halfEven y := by
  rcases (Nat.floor_mono h).lt_or_eq with hlt | heq
  · -- a whole number lies between the two
    have hx := halfEven_le_floor_add_one x
    have hy := floor_le_halfEven y
    omega
  · -- both lie above the same whole number, so their fractions compare as they do
    have hf : x - ⌊x⌋₊ ≤ y - ⌊y⌋₊ := by rw [heq]; linarith
    unfold halfEven
    rw [heq] at hf ⊢
    split_ifs <;> first | omega | linarith

theorem halfEven_le {x : ℚ} {n : ℕ} (h : x ≤ n) : halfEven x ≤ n :=
  (halfEven_mono h).trans_eq (halfEven_natCast n)

theorem le_halfEven {x : ℚ} {n : ℕ} (h : (n : ℚ) ≤ x) : n ≤ halfEven x :=
  (halfEven_natCast n).symm.trans_le (halfEven_mono h)

/-! ## Units -/

/-- The power of two in whose multiples a magnitude is written. -/
def unitExponent (x : ℚ) : ℤ := max (Int.log 2 x - 23) (-149)

theorem neg_le_unitExponent (x : ℚ) : -149 ≤ unitExponent x := le_max_right _ _

theorem unitExponent_mono {x y : ℚ} (hx : 0 < x) (h : x ≤ y) : unitExponent x ≤ unitExponent y :=
  max_le_max_right _ (sub_le_sub_right (Int.log_mono_right hx h) _)

theorem two_zpow_pos (e : ℤ) : (0 : ℚ) < 2 ^ e := by positivity

/-- A magnitude has less than `2 ^ 24` of its units. -/
theorem div_unit_lt (x : ℚ) : x / 2 ^ unitExponent x < 2 ^ 24 := by
  rw [div_lt_iff₀ (two_zpow_pos _)]
  -- the unit is at least `2 ^ 23` times below the leading bit
  have hlog : Int.log 2 x + 1 ≤ 24 + unitExponent x := by
    have := le_max_left (Int.log 2 x - 23) (-149)
    unfold unitExponent
    omega
  calc x < (2 : ℚ) ^ (Int.log 2 x + 1) := by
        exact_mod_cast Int.lt_zpow_succ_log_self (by norm_num : 1 < 2) x
    _ ≤ (2 : ℚ) ^ (24 + unitExponent x) := zpow_le_zpow_right₀ (by norm_num) hlog
    _ = 2 ^ 24 * 2 ^ unitExponent x := by
        rw [zpow_add₀ (by norm_num)]
        norm_num

/-- Where the unit is not the finest one, a magnitude has at least `2 ^ 23` units. -/
theorem le_div_unit {x : ℚ} (hx : 0 < x) (he : -149 < unitExponent x) :
    2 ^ 23 ≤ x / 2 ^ unitExponent x := by
  rw [le_div_iff₀ (two_zpow_pos _)]
  have hlog : 23 + unitExponent x = Int.log 2 x := by
    unfold unitExponent at he ⊢
    omega
  calc (2 : ℚ) ^ 23 * 2 ^ unitExponent x = 2 ^ (23 + unitExponent x) := by
        rw [zpow_add₀ (by norm_num)]
        norm_num
    _ = (2 : ℚ) ^ Int.log 2 x := by rw [hlog]
    _ ≤ x := by exact_mod_cast Int.zpow_log_le_self (by norm_num : 1 < 2) hx

/-! ## Magnitudes -/

/-- The 32-bit magnitude nearest to a magnitude, without a largest one. -/
def magnitude (x : ℚ) : ℚ := halfEven (x / 2 ^ unitExponent x) * 2 ^ unitExponent x

@[simp] theorem magnitude_zero : magnitude 0 = 0 := by
  have h : halfEven 0 = 0 := by exact_mod_cast halfEven_natCast 0
  rw [magnitude, zero_div, h, Nat.cast_zero, zero_mul]

theorem magnitude_nonneg (x : ℚ) : 0 ≤ magnitude x := by
  unfold magnitude
  positivity

theorem halfEven_unit_le (x : ℚ) : halfEven (x / 2 ^ unitExponent x) ≤ 2 ^ 24 :=
  halfEven_le (by exact_mod_cast (div_unit_lt x).le)

theorem le_halfEven_unit {x : ℚ} (hx : 0 < x) (he : -149 < unitExponent x) :
    2 ^ 23 ≤ halfEven (x / 2 ^ unitExponent x) :=
  le_halfEven (by exact_mod_cast le_div_unit hx he)

/-- Rounding magnitudes keeps the order. -/
theorem magnitude_mono {x y : ℚ} (hx : 0 ≤ x) (h : x ≤ y) : magnitude x ≤ magnitude y := by
  rcases hx.eq_or_lt with rfl | hx
  · rw [magnitude_zero]
    exact magnitude_nonneg y
  rcases (unitExponent_mono hx h).eq_or_lt with heq | hlt
  · -- in the same unit only the number of units counts
    unfold magnitude
    rw [heq]
    have hd : x / 2 ^ unitExponent y ≤ y / 2 ^ unitExponent y := by gcongr
    have hn : (halfEven (x / 2 ^ unitExponent y) : ℚ) ≤ halfEven (y / 2 ^ unitExponent y) := by
      exact_mod_cast halfEven_mono hd
    gcongr
  · -- the power of two at which the coarser unit begins lies between the two
    have hux : (halfEven (x / 2 ^ unitExponent x) : ℚ) ≤ 2 ^ 24 := by
      exact_mod_cast halfEven_unit_le x
    have huy : (2 ^ 23 : ℚ) ≤ halfEven (y / 2 ^ unitExponent y) := by
      exact_mod_cast le_halfEven_unit (hx.trans_le h) ((neg_le_unitExponent x).trans_lt hlt)
    calc magnitude x ≤ 2 ^ 24 * 2 ^ unitExponent x := by unfold magnitude; gcongr
      _ = 2 ^ 23 * 2 ^ (unitExponent x + 1) := by
          rw [zpow_add₀ (by norm_num)]
          ring
      _ ≤ 2 ^ 23 * 2 ^ unitExponent y := by
          gcongr
          · norm_num
          · omega
      _ ≤ magnitude y := by unfold magnitude; gcongr

theorem unitExponent_natCast_nonpos {n : ℕ} (h : n < 2 ^ 24) : unitExponent n ≤ 0 := by
  have hlog : Int.log 2 (n : ℚ) < 24 := by
    rcases Nat.eq_zero_or_pos n with rfl | hpos
    · simp
    · have hn : (n : ℚ) < (2 : ℕ) ^ (24 : ℤ) := by exact_mod_cast h
      exact (Int.lt_zpow_iff_log_lt (by norm_num) (by exact_mod_cast hpos)).mp hn
  unfold unitExponent
  omega

/-- Whole numbers of 24 bits are 32-bit numbers: their unit is a fraction of one. -/
theorem magnitude_natCast {n : ℕ} (h : n < 2 ^ 24) : magnitude n = n := by
  obtain ⟨k, hk⟩ := Int.eq_ofNat_of_zero_le (neg_nonneg.mpr (unitExponent_natCast_nonpos h))
  have hunit : unitExponent n = -(k : ℤ) := by omega
  -- it has a whole number of units, so nothing is rounded
  have hunits : (n : ℚ) / 2 ^ unitExponent n = (n * 2 ^ k : ℕ) := by
    rw [hunit, zpow_neg, div_inv_eq_mul, zpow_natCast]
    push_cast
    rfl
  have hmul := div_mul_cancel₀ (n : ℚ) (two_zpow_pos (unitExponent n)).ne'
  rw [magnitude, hunits, halfEven_natCast, ← hunits, hmul]

/-! ## Canonical numbers

A whole number of units is written in one way only, if it fills its 24 bits or is written in the
finest unit. -/

/-- `m` units of `2 ^ e`, written in the unit that the number calls for. -/
structure Canonical (m : ℕ) (e : ℤ) : Prop where
  pos : 0 < m
  lt : m < 2 ^ 24
  finest : -149 ≤ e
  full : e = -149 ∨ 2 ^ 23 ≤ m

namespace Canonical

variable {m m' : ℕ} {e e' : ℤ}

theorem value_pos (h : Canonical m e) : (0 : ℚ) < m * 2 ^ e := by
  have hm : (0 : ℚ) < m := by exact_mod_cast h.pos
  positivity

/-- The unit of a canonical number is the one that its size calls for. -/
theorem unitExponent_eq (h : Canonical m e) : unitExponent (m * 2 ^ e) = e := by
  have hpos := h.value_pos
  have hm : (m : ℚ) < 2 ^ 24 := by exact_mod_cast h.lt
  -- 24 bits at most
  have hupper : Int.log 2 ((m : ℚ) * 2 ^ e) < 24 + e := by
    rw [← Int.lt_zpow_iff_log_lt (by norm_num) hpos, zpow_add₀ (by norm_num)]
    have : (m : ℚ) * 2 ^ e < 2 ^ 24 * 2 ^ e := by gcongr
    exact_mod_cast this
  have hfinest := h.finest
  unfold unitExponent
  rcases h.full with rfl | hfull
  · omega
  · -- and if the unit is not the finest one, 24 bits at least
    have hlower : 23 + e ≤ Int.log 2 ((m : ℚ) * 2 ^ e) := by
      rw [← Int.zpow_le_iff_le_log (by norm_num) hpos, zpow_add₀ (by norm_num)]
      have hm : (2 : ℚ) ^ 23 ≤ m := by exact_mod_cast hfull
      have : (2 : ℚ) ^ 23 * 2 ^ e ≤ m * 2 ^ e := by gcongr
      exact_mod_cast this
    omega

/-- A canonical number is not rounded. -/
theorem magnitude_eq (h : Canonical m e) : magnitude (m * 2 ^ e) = m * 2 ^ e := by
  rw [magnitude, h.unitExponent_eq, mul_div_cancel_right₀ _ (two_zpow_pos e).ne',
    halfEven_natCast]

/-- Among canonical numbers a coarser unit belongs to a larger number. -/
theorem lt_of_exponent_lt (h : Canonical m e) (h' : Canonical m' e') (he : e < e') :
    (m : ℚ) * 2 ^ e < m' * 2 ^ e' := by
  have hm : (m : ℚ) < 2 ^ 24 := by exact_mod_cast h.lt
  have hm' : (2 : ℚ) ^ 23 ≤ m' := by
    have := h.finest
    exact_mod_cast h'.full.resolve_left (by omega)
  calc (m : ℚ) * 2 ^ e < 2 ^ 24 * 2 ^ e := by gcongr
    _ = 2 ^ 23 * 2 ^ (e + 1) := by
        rw [zpow_add₀ (by norm_num)]
        ring
    _ ≤ 2 ^ 23 * 2 ^ e' := by
        gcongr
        · norm_num
        · omega
    _ ≤ m' * 2 ^ e' := by gcongr

/-- Every rounded magnitude has a canonical form: the rounded number of units, or half of it in the
next coarser unit if rounding has reached `2 ^ 24`. -/
theorem of_halfEven {x : ℚ} (hx : 0 < x) (h : 0 < halfEven (x / 2 ^ unitExponent x))
    (hlt : halfEven (x / 2 ^ unitExponent x) < 2 ^ 24) :
    Canonical (halfEven (x / 2 ^ unitExponent x)) (unitExponent x) where
  pos := h
  lt := hlt
  finest := neg_le_unitExponent x
  full := by
    rcases (neg_le_unitExponent x).eq_or_lt with heq | hlt
    · exact Or.inl heq.symm
    · exact Or.inr (le_halfEven_unit hx hlt)

end Canonical

/-! ## Signs and overflow -/

/-- The nearest 32-bit number without a largest one. -/
def nearest (q : ℚ) : ℚ := if 0 ≤ q then magnitude q else -magnitude (-q)

/-- Rounding keeps the order, across zero too. -/
theorem nearest_mono {p q : ℚ} (h : p ≤ q) : nearest p ≤ nearest q := by
  unfold nearest
  split_ifs with hp hq hq
  · exact magnitude_mono hp h
  · exact absurd (hp.trans h) hq
  · -- the one is not above zero, the other not below
    have := magnitude_nonneg (-p)
    have := magnitude_nonneg q
    linarith
  · exact neg_le_neg (magnitude_mono (by linarith) (neg_le_neg h))

@[simp] theorem nearest_zero : nearest 0 = 0 := by
  rw [nearest, if_pos le_rfl, magnitude_zero]

theorem nearest_neg (q : ℚ) : nearest (-q) = -nearest q := by
  rcases lt_trichotomy q 0 with hq | rfl | hq
  · rw [nearest, nearest, if_pos (by linarith), if_neg (by linarith), neg_neg]
  · simp
  · rw [nearest, nearest, if_neg (by linarith), if_pos hq.le, neg_neg]

theorem nearest_of_nonneg {q : ℚ} (h : 0 ≤ q) : nearest q = magnitude q := if_pos h

/-- A number that is no 32-bit one because it is too large counts as infinite. -/
def saturate (q : ℚ) : Exact :=
  if 2 ^ 128 ≤ q then .infinity else if q ≤ -2 ^ 128 then .negInfinity else .finite q

theorem saturate_mono {p q : ℚ} (h : p ≤ q) : saturate p ≤ saturate q := by
  show Exact.ble (saturate p) (saturate q) = true
  unfold saturate
  split_ifs <;> simp only [Exact.ble, decide_eq_true_eq] <;> linarith

theorem saturate_of_lt {q : ℚ} (h : -2 ^ 128 < q) (h' : q < 2 ^ 128) : saturate q = .finite q := by
  rw [saturate, if_neg h'.not_ge, if_neg h.not_ge]

/-- The exact value of the 32-bit length that an exact result is rounded to. -/
def round : Exact → Exact
  | .finite q => saturate (nearest q)
  | x => x

/-- Rounding keeps the order of all exact lengths, infinities included. -/
theorem round_mono {x y : Exact} (h : x ≤ y) : round x ≤ round y := by
  change Exact.ble x y = true at h
  cases x <;> cases y <;> simp only [Exact.ble, Bool.false_eq_true, decide_eq_true_eq] at h
  case finite.finite => exact saturate_mono (nearest_mono h)
  -- whatever a number saturates to lies between the infinities
  case negInfinity.finite q =>
    show Exact.ble .negInfinity (saturate (nearest q)) = true
    unfold saturate
    split_ifs <;> rfl
  case finite.infinity q =>
    show Exact.ble (saturate (nearest q)) .infinity = true
    unfold saturate
    split_ifs <;> rfl
  all_goals rfl

/-- Whole numbers of 24 bits are not rounded. -/
theorem round_intCast {z : ℤ} (h : |z| < 2 ^ 24) : round (.finite z) = .finite z := by
  -- the sign is set apart first
  have hnearest : nearest z = z := by
    obtain ⟨n, rfl | rfl⟩ := Int.eq_nat_or_neg z
    · rw [abs_of_nonneg (by positivity)] at h
      have hn : magnitude n = n := magnitude_natCast (by exact_mod_cast h)
      rw [Int.cast_natCast, nearest_of_nonneg n.cast_nonneg, hn]
    · rw [abs_neg, abs_of_nonneg (by positivity)] at h
      have hn : magnitude n = n := magnitude_natCast (by exact_mod_cast h)
      rw [Int.cast_neg, Int.cast_natCast, nearest_neg, nearest_of_nonneg n.cast_nonneg, hn]
  have hbounds := abs_lt.mp h
  have hlow : (-2 ^ 24 : ℚ) < z := by exact_mod_cast hbounds.1
  have hhigh : (z : ℚ) < 2 ^ 24 := by exact_mod_cast hbounds.2
  show saturate (nearest z) = _
  rw [hnearest, saturate_of_lt (by linarith) (by linarith)]

end BoxLayout.Single
