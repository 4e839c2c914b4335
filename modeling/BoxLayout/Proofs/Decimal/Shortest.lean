import Mathlib
import BoxLayout.Proofs.Decimal.Nearest

/-!
# Shortest decimals

The digits that are written of a float come from a search through decimal grids, from coarse to fine. It
ends at the first grid with a decimal of the float's rounding interval, and never later than at one whose
step is shorter than the interval.

## The architecture

* **`Mem`** — the numbers of an interval, its ends where they belong to it.
* **`onGrid?_cases`** — one grid: a neighbour of the middle, or none.
* **`Fine`** — a grid whose steps are shorter than the interval; **`search_spec`** — the search, by
  induction on the grids that are left.
* **`low_interval`**, **`mid_interval`**, **`high_interval`** — the interval of a magnitude.
* **`shortest_spec`** — what is written lies in the interval, and near the middle on a fine grid.
-/

namespace BoxLayout

namespace RoundingInterval

/-! ## Grids -/

def low (i : RoundingInterval) : ℚ := i.lower / i.denominator

def mid (i : RoundingInterval) : ℚ := i.value / i.denominator

def high (i : RoundingInterval) : ℚ := i.upper / i.denominator

/-- A number lies in an interval, at an end only if the interval has its ends. -/
def Mem (i : RoundingInterval) (x : ℚ) : Prop :=
  if i.closed then i.low ≤ x ∧ x ≤ i.high else i.low < x ∧ x < i.high

variable {i : RoundingInterval}

theorem Mem.bounds {x : ℚ} (h : i.Mem x) : i.low ≤ x ∧ x ≤ i.high := by
  unfold Mem at h
  split_ifs at h
  · exact h
  · exact ⟨h.1.le, h.2.le⟩

theorem mem_of_lt {x : ℚ} (hlow : i.low < x) (hhigh : x < i.high) : i.Mem x := by
  unfold Mem
  split_ifs
  · exact ⟨hlow.le, hhigh.le⟩
  · exact ⟨hlow, hhigh⟩

/-- Every quantity is made finer and the step coarser by as much as makes them whole. -/
def refined (i : RoundingInterval) (exponent : ℤ) : RoundingInterval :=
  let finer := Nat.pow 10 (-exponent).toNat
  { i with lower := i.lower * finer, value := i.value * finer, upper := i.upper * finer }

theorem contains_refined (h : 0 < i.denominator) (exponent : ℤ) (k : ℕ) :
    (i.refined exponent).contains (i.denominator * Nat.pow 10 exponent.toNat) k = true ↔
      i.Mem (k * 10 ^ exponent) := by
  have hden : (0 : ℚ) < i.denominator := by exact_mod_cast h
  have hfiner : (0 : ℚ) < 10 ^ (-exponent).toNat := by positivity
  have hpower := BinaryFormat.zpow_eq_div (show 0 < 10 by norm_num) exponent
  rw [Nat.cast_ofNat] at hpower
  -- both sides over the common denominator, where they are compared as naturals
  have hscale (n : ℕ) : (k : ℚ) * 10 ^ exponent - n / i.denominator =
      ((k * (i.denominator * 10 ^ exponent.toNat) : ℕ) - (n * 10 ^ (-exponent).toNat : ℕ)) /
        (i.denominator * 10 ^ (-exponent).toNat) := by
    rw [hpower]
    push_cast
    field_simp
  have hle (n : ℕ) : (n : ℚ) / i.denominator ≤ k * 10 ^ exponent ↔
      n * 10 ^ (-exponent).toNat ≤ k * (i.denominator * 10 ^ exponent.toNat) := by
    rw [← sub_nonneg, hscale, le_div_iff₀ (by positivity), zero_mul, sub_nonneg]
    exact Nat.cast_le
  have hge (n : ℕ) : (k : ℚ) * 10 ^ exponent ≤ n / i.denominator ↔
      k * (i.denominator * 10 ^ exponent.toNat) ≤ n * 10 ^ (-exponent).toNat := by
    rw [← sub_nonpos, hscale, div_le_iff₀ (by positivity), zero_mul, sub_nonpos]
    exact Nat.cast_le
  unfold contains refined Mem low high
  cases i.closed with
  | true =>
    simp only [if_true, Bool.and_eq_true, decide_eq_true_eq, hle, hge]
    rfl
  | false =>
    simp only [Bool.false_eq_true, if_false, Bool.and_eq_true, decide_eq_true_eq, ← not_le, hle, hge]
    rfl

/-- The neighbours of the middle on a grid, and how far it is from the lower one. -/
theorem mid_div_eq (h : 0 < i.denominator) (exponent : ℤ) :
    i.mid / 10 ^ exponent = ((i.refined exponent).value : ℚ) /
      (i.denominator * Nat.pow 10 exponent.toNat : ℕ) := by
  have hden : (0 : ℚ) < i.denominator := by exact_mod_cast h
  have hpower := BinaryFormat.zpow_eq_div (show 0 < 10 by norm_num) exponent
  rw [Nat.cast_ofNat] at hpower
  show i.mid / 10 ^ exponent = ((i.value * 10 ^ (-exponent).toNat : ℕ) : ℚ) /
    (i.denominator * 10 ^ exponent.toNat : ℕ)
  rw [hpower, mid]
  push_cast
  field_simp

/-- **A decimal on a grid** is one of the two neighbours of the middle. It lies in the interval; if
both do, it is a nearest one. -/
theorem onGrid?_cases (h : 0 < i.denominator) (exponent : ℤ) :
    i.onGrid? exponent = none ∧ ¬ i.Mem (⌊i.mid / 10 ^ exponent⌋₊ * 10 ^ exponent) ∨
      ∃ k : ℕ, i.onGrid? exponent = some ⟨k, exponent⟩ ∧ i.Mem (k * 10 ^ exponent) ∧
        (i.Mem (⌊i.mid / 10 ^ exponent⌋₊ * 10 ^ exponent) →
          i.Mem ((⌊i.mid / 10 ^ exponent⌋₊ + 1 : ℕ) * 10 ^ exponent) →
            |k * 10 ^ exponent - i.mid| ≤ 10 ^ exponent / 2) := by
  have hunit : 0 < i.denominator * Nat.pow 10 exponent.toNat := Nat.mul_pos h (Nat.pow_pos (by norm_num))
  have hmid := mid_div_eq h exponent
  have hfloor : ⌊i.mid / 10 ^ exponent⌋₊ =
      (i.refined exponent).value / (i.denominator * Nat.pow 10 exponent.toNat) := by
    rw [hmid, BinaryFormat.floor_div_eq]
  have hrest := BinaryFormat.div_sub_floor (i.refined exponent).value hunit
  rw [← hmid, ← hfloor] at hrest
  have hhalf := BinaryFormat.rest_lt_half_iff (i.refined exponent).value hunit
  rw [← hrest] at hhalf
  have hlow := contains_refined h exponent ⌊i.mid / 10 ^ exponent⌋₊
  have hhigh := contains_refined h exponent (⌊i.mid / 10 ^ exponent⌋₊ + 1)
  have hstep : (0 : ℚ) < 10 ^ exponent := by positivity
  -- the middle as its lower neighbour and a fraction of a step
  obtain ⟨hmul, hnonneg, hless⟩ : i.mid =
      (⌊i.mid / 10 ^ exponent⌋₊ + (i.mid / 10 ^ exponent - ⌊i.mid / 10 ^ exponent⌋₊)) * 10 ^ exponent ∧
        0 ≤ i.mid / 10 ^ exponent - ⌊i.mid / 10 ^ exponent⌋₊ ∧
          i.mid / 10 ^ exponent - ⌊i.mid / 10 ^ exponent⌋₊ < 1 := by
    refine ⟨?_, hrest ▸ by positivity, by linarith [Nat.lt_floor_add_one (i.mid / 10 ^ exponent)]⟩
    rw [add_sub_cancel, div_mul_cancel₀ _ hstep.ne']
  generalize i.mid / 10 ^ exponent - ⌊i.mid / 10 ^ exponent⌋₊ = fraction at *
  have hnear (hhalf : fraction < 1 / 2) :
      |(⌊i.mid / 10 ^ exponent⌋₊ : ℚ) * 10 ^ exponent - i.mid| ≤ 10 ^ exponent / 2 :=
    abs_le.mpr ⟨by nlinarith, by nlinarith⟩
  have hfar (hhalf : 1 / 2 ≤ fraction) :
      |((⌊i.mid / 10 ^ exponent⌋₊ + 1 : ℕ) : ℚ) * 10 ^ exponent - i.mid| ≤ 10 ^ exponent / 2 := by
    push_cast
    exact abs_le.mpr ⟨by nlinarith, by nlinarith⟩
  unfold onGrid?
  dsimp only
  rw [hfloor] at hlow hhigh hnear hfar ⊢
  split
  case h_1 hbelow habove =>
    right
    split_ifs with hnearer
    · exact ⟨_, rfl, hlow.mp hbelow, fun _ _ => hnear (hhalf.mpr (of_decide_eq_true hnearer))⟩
    · exact ⟨_, rfl, hhigh.mp habove, fun _ _ =>
        hfar (le_of_not_gt fun hlt => hnearer (decide_eq_true (hhalf.mp hlt)))⟩
  case h_2 hbelow habove =>
    exact Or.inr ⟨_, rfl, hlow.mp hbelow, fun _ hmem =>
      absurd (habove.symm.trans (hhigh.mpr hmem)) Bool.false_ne_true⟩
  case h_3 hbelow habove =>
    exact Or.inr ⟨_, rfl, hhigh.mp habove, fun hmem =>
      absurd (hbelow.symm.trans (hlow.mpr hmem)) Bool.false_ne_true⟩
  case h_4 hbelow habove =>
    exact Or.inl ⟨rfl, fun hmem => absurd (hbelow.symm.trans (hlow.mpr hmem)) Bool.false_ne_true⟩

/-- Whether the steps of a grid are shorter than the interval on either side of the middle. -/
def Fine (i : RoundingInterval) (exponent : ℤ) : Prop :=
  10 ^ exponent < i.mid - i.low ∧ 10 ^ exponent < i.high - i.mid

/-- On a grid finer than the interval both neighbours of the middle lie in it. -/
theorem Fine.mem {exponent : ℤ} (h : i.Fine exponent) (hmid : 0 ≤ i.mid) :
    i.Mem (⌊i.mid / 10 ^ exponent⌋₊ * 10 ^ exponent) ∧
      i.Mem ((⌊i.mid / 10 ^ exponent⌋₊ + 1 : ℕ) * 10 ^ exponent) := by
  obtain ⟨hlow, hhigh⟩ := h
  have hstep : (0 : ℚ) < 10 ^ exponent := by positivity
  have hbelow : (⌊i.mid / 10 ^ exponent⌋₊ : ℚ) * 10 ^ exponent ≤ i.mid :=
    (le_div_iff₀ hstep).mp (Nat.floor_le (div_nonneg hmid hstep.le))
  have habove : i.mid < (⌊i.mid / 10 ^ exponent⌋₊ + 1 : ℕ) * 10 ^ exponent := by
    push_cast
    exact (div_lt_iff₀ hstep).mp (Nat.lt_floor_add_one _)
  have hnext : ((⌊i.mid / 10 ^ exponent⌋₊ + 1 : ℕ) : ℚ) * 10 ^ exponent =
      ⌊i.mid / 10 ^ exponent⌋₊ * 10 ^ exponent + 10 ^ exponent := by
    push_cast
    ring
  exact ⟨mem_of_lt (by linarith) (by linarith), mem_of_lt (by linarith) (by linarith)⟩

/-- **What a search finds**: a decimal of the interval, on the first grid or on one whose predecessor was
not fine, and on a fine grid one near the middle. It finds one if it comes to a fine grid. -/
theorem search_spec (h : 0 < i.denominator) (hmid : 0 ≤ i.mid) {grids : ℕ} {exponent : ℤ}
    (hfine : ∃ k < grids, i.Fine (exponent - k)) :
    ∃ d, i.search grids exponent = some d ∧ i.Mem d.value ∧
      (d.exponent = exponent ∨ ¬ i.Fine (d.exponent + 1)) ∧
      (i.Fine d.exponent → |d.value - i.mid| ≤ 10 ^ d.exponent / 2) := by
  induction grids generalizing exponent with
  | zero =>
    obtain ⟨k, hk, -⟩ := hfine
    exact absurd hk k.not_lt_zero
  | succ grids ih =>
    unfold search
    rcases onGrid?_cases h exponent with ⟨hnone, hmem⟩ | ⟨n, hsome, hmem, hnear⟩
    · rw [hnone]
      -- this grid has no decimal in the interval, so it is not the fine one
      have hcoarse : ¬ i.Fine exponent := fun hfine => hmem (hfine.mem hmid).1
      obtain ⟨k, hk, hfine⟩ := hfine
      cases k with
      | zero =>
        rw [Nat.cast_zero, sub_zero] at hfine
        exact absurd hfine hcoarse
      | succ k =>
        have hnext : exponent - (k + 1 : ℕ) = exponent - 1 - k := by push_cast; ring
        rw [hnext] at hfine
        obtain ⟨d, hd, hmem, hfirst, hnear⟩ := ih ⟨k, Nat.lt_of_succ_lt_succ hk, hfine⟩
        refine ⟨d, hd, hmem, Or.inr (hfirst.elim (fun heq => ?_) id), hnear⟩
        rwa [heq, sub_add_cancel]
    · rw [hsome]
      exact ⟨_, rfl, hmem, Or.inl rfl, fun hfine => hnear (hfine.mem hmid).1 (hfine.mem hmid).2⟩

end RoundingInterval

/-! ## The interval of a magnitude -/

namespace BinaryFormat

theorem denominator_interval_pos (f : BinaryFormat) (ordinal : ℕ) :
    0 < (f.interval ordinal).denominator := Nat.pow_pos (by norm_num)

theorem closed_interval (f : BinaryFormat) (ordinal : ℕ) :
    (f.interval ordinal).closed = ((f.magnitude ordinal).1 % 2 == 0) := rfl

/-- Quarters of a unit, as they are written over the common denominator. -/
theorem quarters_eq (n : ℕ) (e : ℤ) :
    ((n * Nat.pow 2 (e - 2).toNat : ℕ) : ℚ) / (Nat.pow 2 (-(e - 2)).toNat : ℕ) = n / 4 * 2 ^ e := by
  have hpower := zpow_eq_div (show 0 < 2 by norm_num) (e - 2)
  have hquarter : (2 : ℚ) ^ (e - 2) = 2 ^ e / 4 := by
    rw [zpow_sub₀ (by norm_num)]
    norm_num
  rw [Nat.cast_ofNat, hquarter] at hpower
  show ((n * 2 ^ (e - 2).toNat : ℕ) : ℚ) / (2 ^ (-(e - 2)).toNat : ℕ) = n / 4 * 2 ^ e
  push_cast
  rw [mul_div_assoc, ← hpower]
  ring

theorem mid_interval (f : BinaryFormat) (ordinal : ℕ) : (f.interval ordinal).mid = f.value ordinal := by
  refine (quarters_eq (4 * (f.magnitude ordinal).1) (f.magnitude ordinal).2).trans ?_
  rw [value]
  push_cast
  ring

theorem high_interval (f : BinaryFormat) (ordinal : ℕ) :
    (f.interval ordinal).high = f.value ordinal + 2 ^ (f.magnitude ordinal).2 / 2 := by
  refine (quarters_eq (4 * (f.magnitude ordinal).1 + 2) (f.magnitude ordinal).2).trans ?_
  rw [value]
  push_cast
  ring

/-- Only the least significand of full precision has a lower neighbour that is nearer. -/
theorem low_interval (f : BinaryFormat) {ordinal : ℕ} (h : 0 < (f.magnitude ordinal).1) :
    (f.interval ordinal).low = f.value ordinal -
      2 ^ (f.magnitude ordinal).2 / if (f.magnitude ordinal).1 = f.blockSize ∧
        f.minExponent < (f.magnitude ordinal).2 then 4 else 2 := by
  refine (quarters_eq (4 * (f.magnitude ordinal).1 - if (f.magnitude ordinal).1 = f.blockSize ∧
    f.minExponent < (f.magnitude ordinal).2 then 1 else 2) (f.magnitude ordinal).2).trans ?_
  rw [value]
  split_ifs
  · rw [Nat.cast_sub (by omega)]
    push_cast
    ring
  · rw [Nat.cast_sub (by omega)]
    push_cast
    ring

theorem significand_pos (f : BinaryFormat) {ordinal : ℕ} (h : 0 < ordinal) :
    0 < (f.magnitude ordinal).1 := by
  unfold magnitude
  split_ifs
  · exact h
  · exact Nat.add_pos_left f.blockSize_pos _

theorem value_pos (f : BinaryFormat) {ordinal : ℕ} (h : 0 < ordinal) : 0 < f.value ordinal := by
  have hsignificand : (0 : ℚ) < (f.magnitude ordinal).1 := by exact_mod_cast f.significand_pos h
  exact mul_pos hsignificand (Single.two_zpow_pos _)

end BinaryFormat

/-! ## Shortest decimals -/

namespace Single

open BinaryFormat

/-- Ten powers of two exceed three powers of ten. -/
theorem ten_zpow_lt_two_zpow {k j : ℤ} (hpos : 0 ≤ k → 10 * k < 3 * j) (hneg : k < 0 → 3 * k ≤ j) :
    (10 : ℚ) ^ k < 2 ^ j := by
  rcases le_or_gt 0 k with hk | hk
  · refine lt_of_pow_lt_pow_left₀ 3 (two_zpow_pos j).le ?_
    calc ((10 : ℚ) ^ k) ^ 3 = ((10 : ℚ) ^ 3) ^ k := by rw [← zpow_natCast, ← zpow_natCast, zpow_comm]
      _ ≤ ((2 : ℚ) ^ 10) ^ k := zpow_le_zpow_left₀ hk (by norm_num) (by norm_num)
      _ = 2 ^ (10 * k) := by rw [← zpow_natCast, ← zpow_mul]; norm_num
      _ < 2 ^ (3 * j) := zpow_lt_zpow_right₀ (by norm_num) (hpos hk)
      _ = ((2 : ℚ) ^ j) ^ 3 := by rw [← zpow_natCast, ← zpow_mul, mul_comm]; norm_num
  · obtain ⟨n, rfl⟩ : ∃ n : ℕ, k = -(n + 1 : ℕ) := ⟨(-k - 1).toNat, by omega⟩
    calc (10 : ℚ) ^ (-(n + 1 : ℕ) : ℤ) < 8 ^ (-(n + 1 : ℕ) : ℤ) := by
          rw [zpow_neg, zpow_neg, zpow_natCast, zpow_natCast]
          gcongr
          norm_num
      _ = 2 ^ (3 * -(n + 1 : ℕ) : ℤ) := by rw [zpow_mul]; norm_num
      _ ≤ 2 ^ j := zpow_le_zpow_right₀ (by norm_num) (hneg hk)

/-- Thirteen powers of two stay below four powers of ten, and ten of them exceed three. -/
theorem two_zpow_lt_ten_zpow {j k : ℤ} (hpos : 0 ≤ j → 4 * j < 13 * k) (hneg : j < 0 → 3 * j < 10 * k) :
    (2 : ℚ) ^ j < 10 ^ k := by
  have hten := zpow_pos (show (0 : ℚ) < 10 by norm_num) k
  rcases le_or_gt 0 j with hj | hj
  · refine lt_of_pow_lt_pow_left₀ 13 hten.le ?_
    calc ((2 : ℚ) ^ j) ^ 13 = ((2 : ℚ) ^ 13) ^ j := by rw [← zpow_natCast, ← zpow_natCast, zpow_comm]
      _ ≤ ((10 : ℚ) ^ 4) ^ j := zpow_le_zpow_left₀ hj (by norm_num) (by norm_num)
      _ = 10 ^ (4 * j) := by rw [← zpow_natCast, ← zpow_mul]; norm_num
      _ < 10 ^ (13 * k) := zpow_lt_zpow_right₀ (by norm_num) (hpos hj)
      _ = ((10 : ℚ) ^ k) ^ 13 := by rw [← zpow_natCast, ← zpow_mul, mul_comm]; norm_num
  · obtain ⟨n, rfl⟩ : ∃ n : ℕ, j = -n := ⟨(-j).toNat, by omega⟩
    refine lt_of_pow_lt_pow_left₀ 10 hten.le ?_
    calc ((2 : ℚ) ^ (-n : ℤ)) ^ 10 = ((2 : ℚ) ^ 10) ^ (-n : ℤ) := by
          rw [← zpow_natCast, ← zpow_natCast, zpow_comm]
      _ ≤ ((10 : ℚ) ^ 3) ^ (-n : ℤ) := by
          rw [zpow_neg, zpow_neg, zpow_natCast, zpow_natCast]
          gcongr
          norm_num
      _ = 10 ^ (3 * -n : ℤ) := by rw [← zpow_natCast, ← zpow_mul]; norm_num
      _ < 10 ^ (10 * k) := zpow_lt_zpow_right₀ (by norm_num) (hneg hj)
      _ = ((10 : ℚ) ^ k) ^ 10 := by rw [← zpow_natCast, ← zpow_mul, mul_comm]; norm_num

theorem exponent_le {ordinal : ℕ} (h : ordinal < single.infinityOrdinal) :
    (single.magnitude ordinal).2 ≤ 104 := by
  have hlt : ordinal < 0x7F800000 := h
  unfold BinaryFormat.magnitude
  split_ifs
  · show (-149 : ℤ) ≤ 104
    norm_num
  · show (-149 : ℤ) + (ordinal / 2 ^ 23 : ℕ) - 1 ≤ 104
    omega

/-- The last grid of the search has steps below a quarter of the unit. -/
theorem ten_zpow_lastGrid_lt {ordinal : ℕ} (hpos : 0 < ordinal) (hlt : ordinal < single.infinityOrdinal) :
    (10 : ℚ) ^ (single.coarsestGrid ordinal - (27 : ℕ)) < 2 ^ (single.magnitude ordinal).2 / 4 := by
  have hcanonical := single.canonical_magnitude ordinal
  have hfinest : -149 ≤ (single.magnitude ordinal).2 := hcanonical.finest
  have hexponent := exponent_le hlt
  have hlog : (single.magnitude ordinal).1.log2 ≤ 23 :=
    Nat.lt_succ_iff.mp ((Nat.log2_lt (single.significand_pos hpos).ne').mpr hcanonical.lt)
  have hgrid : single.coarsestGrid ordinal = ((single.magnitude ordinal).1.log2 + 1 +
      (single.magnitude ordinal).2) * 30103 / 100000 + 2 := rfl
  refine (ten_zpow_lt_two_zpow (j := (single.magnitude ordinal).2 - 2) ?_ ?_).trans_eq ?_
  · rw [hgrid]
    omega
  · rw [hgrid]
    omega
  · rw [zpow_sub₀ (by norm_num)]
    norm_num

/-- The first grid of the search has steps above the unit. -/
theorem two_zpow_lt_firstGrid {ordinal : ℕ} (hlt : ordinal < single.infinityOrdinal) :
    (2 : ℚ) ^ (single.magnitude ordinal).2 < 10 ^ single.coarsestGrid ordinal := by
  have hfinest : -149 ≤ (single.magnitude ordinal).2 := (single.canonical_magnitude ordinal).finest
  have hexponent := exponent_le hlt
  have hgrid : single.coarsestGrid ordinal = ((single.magnitude ordinal).1.log2 + 1 +
      (single.magnitude ordinal).2) * 30103 / 100000 + 2 := rfl
  rw [hgrid]
  exact two_zpow_lt_ten_zpow (by omega) (by omega)

/-- **The shortest decimal** of a magnitude lies in its rounding interval, on no finer grid than needed,
and where the grid is finer than the interval, near the magnitude. -/
theorem shortest_spec {ordinal : ℕ} (hpos : 0 < ordinal) (hlt : ordinal < single.infinityOrdinal) :
    (single.interval ordinal).Mem (single.shortest ordinal).value ∧
      2 ^ (single.magnitude ordinal).2 / 4 ≤ (10 : ℚ) ^ ((single.shortest ordinal).exponent + 1) ∧
      ((single.interval ordinal).Fine (single.shortest ordinal).exponent →
        |(single.shortest ordinal).value - single.value ordinal| ≤
          10 ^ (single.shortest ordinal).exponent / 2) := by
  have hlow := single.low_interval (single.significand_pos hpos)
  have hhigh := single.high_interval ordinal
  have hmid := single.mid_interval ordinal
  have hunit := two_zpow_pos (single.magnitude ordinal).2
  -- any grid with steps below a quarter of the unit is fine enough on either side
  have hfine {exponent : ℤ} (hstep : (10 : ℚ) ^ exponent < 2 ^ (single.magnitude ordinal).2 / 4) :
      (single.interval ordinal).Fine exponent := by
    constructor
    · rw [hmid, hlow]
      split_ifs <;> linarith
    · rw [hmid, hhigh]
      linarith
  have hlast : ∃ k < single.precision + 4,
      (single.interval ordinal).Fine (single.coarsestGrid ordinal - k) :=
    ⟨27, by decide, hfine (ten_zpow_lastGrid_lt hpos hlt)⟩
  obtain ⟨d, hd, hmem, hfirst, hnear⟩ := RoundingInterval.search_spec
    (single.denominator_interval_pos ordinal) (hmid ▸ (single.value_pos hpos).le) hlast
  have hshortest : single.shortest ordinal = d := by
    unfold shortest
    rw [if_neg hpos.ne']
    exact congrArg (Option.getD · ⟨0, 0⟩) hd
  rw [hshortest]
  rw [hmid] at hnear
  refine ⟨hmem, ?_, hnear⟩
  rcases hfirst with hfirst | hcoarse
  · have hgrid := two_zpow_lt_firstGrid hlt
    rw [← hfirst] at hgrid
    rw [zpow_add_one₀ (by norm_num)]
    linarith
  · exact not_lt.mp fun hstep => hcoarse (hfine hstep)

end Single

end BoxLayout
