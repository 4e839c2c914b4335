import Mathlib
import BoxLayout.Proofs.Distribution.Totals

/-!
# Surplus fills items to a level

Without rounding, growing is like filling vessels with water: there is one level for all items, and
every item has the extent at which it is filled to that level, or its maximum if that comes first. A
pass that closes items raises the level for the others, so what was closed before stays closed
rightly, and a pass that stops early leaves all open items at the level of the pass before it.

## The architecture

* **`Item.rise`**, **`Item.atLevel`** — the extent of an item at a level, without its maximum and with
  it.
* **`Share.AtLevel`** — the three ways in which a share can be at a level.
* **`Share.AtLevel.offer`** — an offer at a higher level puts a share at that level.
* **`Leveled`** — all shares are at one level and use no more than is available.
* **`nextLevel`**, **`Leveled.pass`** — a pass raises the level, and the second half of the invariant
  is what makes it rise.
* **`Leveled.run`**, **`used_up_run`** — where the passes end.
* **`filled_distribute`** — the result.
-/

namespace BoxLayout

/-! ## Items -/

namespace Item

/-- The extent of an item at a level, if it had no maximum. -/
def rise (item : Item Exact) (level : Rat) : Exact := item.natural + .finite level * item.weight

/-- The extent of an item at a level. -/
def atLevel (item : Item Exact) (level : Rat) : Exact := Scalar.min item.max (item.rise level)

variable {item : Item Exact}

theorem Regular.rise_eq (h : item.Regular) (level : Rat) :
    item.rise level = .finite (item.natural.toRat + level * item.weight.toRat) := by
  rw [rise, h.natural_eq, h.weight_eq]
  rfl

theorem Regular.rise_mono (h : item.Regular) {low high : Rat} (hle : low ≤ high) :
    item.rise low ≤ item.rise high := by
  rw [h.rise_eq, h.rise_eq, Exact.finite_le_finite]
  have := mul_le_mul_of_nonneg_right hle h.zero_le_toRat_weight
  linarith

theorem Regular.rise_zero (h : item.Regular) : item.rise 0 = item.natural := by
  rw [h.rise_eq, zero_mul, add_zero, ← h.natural_eq]

/-- An offer is the extent at the level that the pass divides out. -/
theorem Regular.target_grow (h : item.Regular) {amount total : Rat} (htotal : total ≠ 0) :
    Direction.grow.target (.finite amount) (.finite total) item = item.rise (amount / total) := by
  rw [h.rise_eq, Direction.target, h.natural_eq, h.weight_eq, Exact.finite_mul,
    Exact.finite_div _ htotal, Exact.finite_add]
  congr 2
  simp only [Exact.toRat]
  ring

theorem atLevel_of_max_le {level : Rat} (h : item.max ≤ item.rise level) :
    item.atLevel level = item.max :=
  Scalar.min_eq_left h

theorem atLevel_of_rise_le {level : Rat} (h : item.rise level ≤ item.max) :
    item.atLevel level = item.rise level := by
  have hn := Exact.ne_nan_of_le h
  by_cases hle : item.max ≤ item.rise level
  · rw [atLevel_of_max_le hle]
    exact Exact.le_antisymm hle h
  · unfold atLevel Scalar.min
    rw [Scalar.isNaN_eq_false_iff.mpr hn.2, Scalar.isNaN_eq_false_iff.mpr hn.1]
    exact if_pos ((Exact.lt_iff_not_le hn.1 hn.2).mpr hle)

theorem Regular.rise_of_weightless (h : item.Regular) (hweight : item.weight = .finite 0)
    (level : Rat) : item.rise level = item.natural := by
  rw [h.rise_eq, hweight, Exact.toRat, mul_zero, add_zero, ← h.natural_eq]

theorem Regular.atLevel_of_weightless (h : item.Regular) (hweight : item.weight = .finite 0)
    (level : Rat) : item.atLevel level = item.natural := by
  have hrise := h.rise_of_weightless hweight level
  rw [atLevel_of_rise_le (hrise.symm ▸ h.natural_le_max), hrise]

theorem Regular.atLevel_sub_natural (h : item.Regular) {level : Rat}
    (hlt : item.atLevel level < item.max) :
    item.atLevel level - item.natural = .finite (level * item.weight.toRat) := by
  have hn := Exact.ne_nan_of_lt hlt
  by_cases hle : item.max ≤ item.rise level
  · rw [atLevel_of_max_le hle] at hlt
    exact absurd (Exact.le_refl hn.2) ((Exact.lt_iff_not_le hn.2 hn.2).mp hlt)
  · have hrise : item.rise level ≠ .nan := by
      rw [h.rise_eq]
      exact Exact.noConfusion
    rw [atLevel_of_rise_le ((Exact.le_total hrise hn.2).resolve_right hle), h.rise_eq]
    conv_lhs => rw [h.natural_eq]
    rw [Exact.finite_sub, Exact.toRat, add_sub_cancel_left]

/-- Items below their maxima have grown in proportion to their weights. -/
theorem Regular.proportional (h : item.Regular) {other : Item Exact} (hother : other.Regular)
    {level : Rat} (hlt : item.atLevel level < item.max)
    (hltother : other.atLevel level < other.max) :
    (item.atLevel level - item.natural) * other.weight =
      (other.atLevel level - other.natural) * item.weight := by
  rw [h.atLevel_sub_natural hlt, hother.atLevel_sub_natural hltother, h.weight_eq,
    hother.weight_eq, Exact.finite_mul, Exact.finite_mul]
  congr 1
  simp only [Exact.toRat]
  ring

end Item

/-! ## Shares -/

namespace Share

/-- The ways in which a share can be at a level: without a weight, at its maximum, which the level
reaches, or open and filled up to the level. -/
inductive AtLevel (level : Rat) : Share Exact → Prop
  | weightless {item : Item Exact} : item.weight = .finite 0 →
      AtLevel level ⟨item, item.natural, true⟩
  | full {item : Item Exact} : item.max ≤ item.rise level → AtLevel level ⟨item, item.max, true⟩
  | rising {item : Item Exact} : 0 < item.weight.toRat → item.rise level < item.max →
      AtLevel level ⟨item, item.rise level, false⟩

variable {s : Share Exact} {level : Rat}

theorem AtLevel.size_eq (h : s.AtLevel level) (hitem : s.item.Regular) :
    s.size = s.item.atLevel level := by
  cases h with
  | weightless hweight => exact (hitem.atLevel_of_weightless hweight level).symm
  | full hmax => exact (Item.atLevel_of_max_le hmax).symm
  | rising _ hlt => exact (Item.atLevel_of_rise_le (Exact.le_of_lt hlt)).symm

theorem AtLevel.size_isFinite (h : s.AtLevel level) (hitem : s.item.Regular) :
    Scalar.isFinite s.size = true := by
  cases h with
  | weightless => exact hitem.natural_isFinite
  | @full item hmax =>
    have hzero := Exact.le_trans (Exact.le_trans hitem.zero_le_min hitem.min_le_natural)
      hitem.natural_le_max
    rw [hitem.rise_eq] at hmax
    exact (Scalar.isExtent_iff.mp (Scalar.isExtent_of_le hzero hmax rfl)).1
  | rising =>
    rw [hitem.rise_eq]
    rfl

/-- A share is what it was before the pass, and what its claim adds at the level. -/
theorem AtLevel.toRat_size (h : s.AtLevel level) (hitem : s.item.Regular) :
    s.size.toRat = s.rest + level * s.openClaim .grow := by
  cases h with
  | weightless | full => simp [rest, openClaim]
  | rising => simp [rest, openClaim, hitem.rise_eq, Direction.claim, Exact.toRat]

theorem AtLevel.zero_lt_openClaim (h : s.AtLevel level) (hopen : s.closed = false) :
    0 < s.openClaim .grow := by
  cases h with
  | weightless | full => contradiction
  | rising hweight => exact hweight

theorem AtLevel.size_of_closed (h : s.AtLevel level) (hclosed : s.closed = true)
    (hweight : Scalar.zero < s.item.weight) : s.size = s.item.max := by
  cases h with
  | weightless hzero =>
    rw [hzero] at hweight
    exact absurd hweight (by simp)
  | full => rfl
  | rising => contradiction

/-- What is closed at a level is closed rightly at all higher ones. -/
theorem AtLevel.mono (h : s.AtLevel level) (hitem : s.item.Regular) (hclosed : s.closed = true)
    {high : Rat} (hle : level ≤ high) : s.AtLevel high := by
  cases h with
  | weightless hweight => exact .weightless hweight
  | full hmax => exact .full (Exact.le_trans hmax (hitem.rise_mono hle))
  | rising => contradiction

/-- **An offer at a higher level puts a share at that level.** -/
theorem AtLevel.offer (h : s.AtLevel level) (hitem : s.item.Regular) {amount total : Rat}
    (htotal : total ≠ 0) (hle : level ≤ amount / total) :
    (Direction.grow.offer (.finite amount) (.finite total) s).AtLevel (amount / total) := by
  by_cases hclosed : s.closed = true
  · rw [Direction.offer, if_pos hclosed]
    exact h.mono hitem hclosed hle
  · rw [Direction.offer, if_neg hclosed, hitem.target_grow htotal]
    -- an open item rises to the new level, unless its maximum lies below it
    cases h with
    | weightless | full => contradiction
    | @rising item hweight hlt =>
      have hn := Exact.ne_nan_of_lt hlt
      by_cases hmax : item.max ≤ item.rise (amount / total)
      · have hreaches : Direction.grow.reaches item (item.rise (amount / total)) = true :=
          decide_eq_true hmax
        dsimp only
        rw [if_pos hreaches]
        exact .full hmax
      · have hreaches : ¬ Direction.grow.reaches item (item.rise (amount / total)) = true :=
          fun h => hmax (of_decide_eq_true h)
        dsimp only
        rw [if_neg hreaches]
        refine .rising hweight ((Exact.lt_iff_not_le ?_ hn.2).mpr hmax)
        rw [hitem.rise_eq]
        exact Exact.noConfusion

/-- An offer at a higher level adds at most what the claim takes there. -/
theorem AtLevel.toRat_size_offer_le (h : s.AtLevel level) (hitem : s.item.Regular)
    {amount total : Rat} (htotal : total ≠ 0) (hle : level ≤ amount / total) :
    (Direction.grow.offer (.finite amount) (.finite total) s).size.toRat ≤
      s.rest + amount / total * s.openClaim .grow := by
  have hoffered := h.offer hitem htotal hle
  by_cases hclosed : s.closed = true
  · rw [Direction.offer, if_pos hclosed, h.toRat_size hitem]
    simp [openClaim, hclosed]
  · have hitem' := Direction.item_offer .grow (.finite amount) (.finite total) s
    set offered := Direction.grow.offer (.finite amount) (.finite total) s
    have hfinite := Exact.eq_finite_toRat (hoffered.size_isFinite (hitem' ▸ hitem))
    have hsize : offered.size = s.item.atLevel (amount / total) := by
      rw [hoffered.size_eq (hitem' ▸ hitem), hitem']
    have hrise : s.item.atLevel (amount / total) ≤ s.item.rise (amount / total) := by
      refine Scalar.min_le_right (Scalar.isNaN_eq_false_iff.mpr ?_)
      rw [hitem.rise_eq]
      exact Exact.noConfusion
    rw [← hsize, hfinite, hitem.rise_eq, Exact.finite_le_finite] at hrise
    simpa [rest, openClaim, hclosed, Direction.claim] using hrise

theorem toRat_size_offer_eq (hitem : s.item.Regular) {amount total : Rat} (htotal : total ≠ 0)
    (hcloses : Direction.grow.closes (.finite amount) (.finite total) s = false) :
    (Direction.grow.offer (.finite amount) (.finite total) s).size.toRat =
      s.rest + amount / total * s.openClaim .grow := by
  unfold Direction.offer
  by_cases hclosed : s.closed = true
  · rw [if_pos hclosed]
    simp [rest, openClaim, hclosed]
  · have hreaches : ¬ Direction.grow.reaches s.item (s.item.rise (amount / total)) = true := by
      simpa [Direction.closes, hclosed, hitem.target_grow htotal] using hcloses
    rw [if_neg hclosed, hitem.target_grow htotal]
    dsimp only
    rw [if_neg hreaches]
    simp [rest, openClaim, hclosed, hitem.rise_eq, Direction.claim, Exact.toRat]

end Share

/-! ## All shares -/

section

variable {shares after : List (Share Exact)} {report : PassReport Exact}

/-- Shares of regular items, all at one level, that use no more than is available. -/
structure Leveled (available level : Rat) (shares : List (Share Exact)) : Prop where
  zero_le : 0 ≤ level
  regular : ∀ s ∈ shares, s.item.Regular
  atLevel : ∀ s ∈ shares, s.AtLevel level
  sum_le : (shares.map fun s => s.size.toRat).sum ≤ available

/-- The level of a pass: what is left over for the open items, by their claims. -/
def nextLevel (available : Rat) (shares : List (Share Exact)) : Rat :=
  (available - (shares.map Share.rest).sum) / (shares.map (Share.openClaim .grow)).sum

variable {available level : Rat}

/-- If every open item took its whole claim, just what is available would be used. -/
theorem sum_nextLevel (htotal : (shares.map (Share.openClaim .grow)).sum ≠ 0) :
    (shares.map fun s => s.rest + nextLevel available shares * s.openClaim .grow).sum =
      available := by
  rw [List.sum_map_add, List.sum_map_mul_left, nextLevel, div_mul_cancel₀ _ htotal,
    add_sub_cancel]

namespace Leveled

theorem used_eq (h : Leveled available level shares) :
    Direction.used shares = .finite (shares.map Share.rest).sum :=
  Direction.used_eq fun s hs => ⟨(h.atLevel s hs).size_isFinite (h.regular s hs),
    (h.regular s hs).natural_isFinite⟩

theorem totalClaim_eq (h : Leveled available level shares) :
    Direction.grow.totalClaim shares = .finite (shares.map (Share.openClaim .grow)).sum :=
  Direction.totalClaim_eq fun s hs => (h.regular s hs).weight_isFinite

theorem sum_eq (h : Leveled available level shares) :
    (shares.map fun s => s.size.toRat).sum =
      (shares.map Share.rest).sum + level * (shares.map (Share.openClaim .grow)).sum := by
  rw [← List.sum_map_mul_left, ← List.sum_map_add]
  refine congrArg List.sum (List.map_congr_left fun s hs => ?_)
  exact (h.atLevel s hs).toRat_size (h.regular s hs)

theorem sum_sizes (h : Leveled available level shares) :
    Scalar.sum (shares.map Share.size) = .finite (shares.map fun s => s.size.toRat).sum := by
  have hfinite : ∀ x ∈ shares.map Share.size, Scalar.isFinite x = true := by
    intro x hx
    obtain ⟨s, hs, rfl⟩ := List.mem_map.mp hx
    exact (h.atLevel s hs).size_isFinite (h.regular s hs)
  rw [Exact.sum_eq_finite hfinite, List.map_map]
  rfl

theorem amount_eq (h : Leveled available level shares) :
    Direction.grow.amount (.finite available) (Direction.used shares) =
      .finite (available - (shares.map Share.rest).sum) := by
  rw [h.used_eq, Direction.amount, Exact.finite_sub]

/-- What is available covers the level so far, so the next one is no lower. -/
theorem le_nextLevel (h : Leveled available level shares)
    (htotal : 0 < (shares.map (Share.openClaim .grow)).sum) :
    level ≤ nextLevel available shares := by
  have hsum := h.sum_eq
  have hsum_le := h.sum_le
  rw [nextLevel, le_div_iff₀ htotal]
  linarith

/-- Offers at the next level leave all shares there, and what they use was available. -/
theorem offer (h : Leveled available level shares)
    (htotal : 0 < (shares.map (Share.openClaim .grow)).sum) :
    Leveled available (nextLevel available shares) (shares.map
      (Direction.grow.offer (.finite (available - (shares.map Share.rest).sum))
        (.finite (shares.map (Share.openClaim .grow)).sum))) := by
  have hle := h.le_nextLevel htotal
  refine ⟨h.zero_le.trans hle, ?_, ?_, ?_⟩
  · intro offered hmem
    obtain ⟨s, hs, rfl⟩ := List.mem_map.mp hmem
    exact (Direction.item_offer .grow _ _ s).symm ▸ h.regular s hs
  · intro offered hmem
    obtain ⟨s, hs, rfl⟩ := List.mem_map.mp hmem
    exact (h.atLevel s hs).offer (h.regular s hs) htotal.ne' hle
  · rw [List.map_map]
    refine le_of_le_of_eq (List.sum_le_sum fun s hs => ?_) (sum_nextLevel htotal.ne')
    exact (h.atLevel s hs).toRat_size_offer_le (h.regular s hs) htotal.ne' hle

/-- **A pass raises the level.** One that closes no item uses up all that is available, and any other
leaves fewer items open. -/
theorem pass (h : Leveled available level shares) {epsilon : Exact}
    (hpass : Direction.grow.pass epsilon (.finite available) shares = some (report, after)) :
    ∃ high, Leveled available high after ∧
      (report.clamped = false → (after.map fun s => s.size.toRat).sum = available) ∧
      (report.clamped = true →
        after.countP (fun s => !s.closed) < shares.countP fun s => !s.closed) := by
  obtain ⟨htotal, -, rfl, rfl⟩ := Direction.pass_eq_some_iff.mp hpass
  rw [h.totalClaim_eq, Exact.zero_eq, Exact.finite_le_finite, not_le] at htotal
  rw [h.amount_eq, h.totalClaim_eq]
  refine ⟨nextLevel available shares, h.offer htotal, fun hclamped => ?_, fun hclamped => ?_⟩
  · rw [List.map_map]
    refine Eq.trans (congrArg List.sum (List.map_congr_left fun s hs => ?_))
      (sum_nextLevel htotal.ne')
    have hcloses := List.any_eq_false.mp hclamped s hs
    exact Share.toRat_size_offer_eq (h.regular s hs) htotal.ne' (by simpa using hcloses)
  · exact Direction.countP_offer_lt hclamped

/-- **All passes end at a level.** -/
theorem run (h : Leveled available level shares) (epsilon : Exact) (limit : ℕ) :
    ∃ high, Leveled available high
      (Direction.grow.run epsilon (.finite available) limit shares).shares := by
  refine Direction.run_induction (P := fun shares => ∃ high, Leveled available high shares)
    ⟨level, h⟩ ?_
  rintro shares after report ⟨level, h⟩ hpass
  obtain ⟨high, hhigh, -⟩ := h.pass hpass
  exact ⟨high, hhigh⟩

/-- No pass is made when no item is open or next to nothing is left. -/
theorem used_up_of_pass_eq_none (h : Leveled available level shares) {epsilon : Exact}
    (hpass : Direction.grow.pass epsilon (.finite available) shares = none) :
    (∀ s ∈ shares, s.closed = true) ∨
      .finite (available - (shares.map fun s => s.size.toRat).sum) ≤ epsilon := by
  have hclaims : ∀ claim ∈ shares.map (Share.openClaim .grow), 0 ≤ claim := by
    intro claim hmem
    obtain ⟨s, hs, rfl⟩ := List.mem_map.mp hmem
    exact Share.zero_le_openClaim (h.regular s hs)
  rcases Direction.pass_eq_none_iff.mp hpass with htotal | hamount
  · rw [h.totalClaim_eq, Exact.zero_eq, Exact.finite_le_finite] at htotal
    refine Or.inl fun s hs => ?_
    -- an open item has a weight, and so would the sum
    by_contra hopen
    have hle := List.single_le_sum hclaims _ (List.mem_map_of_mem hs)
    have hpos := (h.atLevel s hs).zero_lt_openClaim (by simpa using hopen)
    linarith
  · rw [h.amount_eq] at hamount
    refine Or.inr (Exact.le_trans (Exact.finite_le_finite.mpr ?_) hamount)
    -- the extents in use are at least those that the pass counts
    rw [h.sum_eq]
    have := mul_nonneg h.zero_le (List.sum_nonneg hclaims)
    linarith

/-- **With a pass for every open item, the passes end with all items closed or nothing left over.**
Induction on the passes: each that is followed by another one closes an item. -/
theorem used_up_run (h : ∃ level, Leveled available level shares) {epsilon : Exact}
    (hepsilon : Scalar.zero ≤ epsilon) {limit : ℕ}
    (hlimit : shares.countP (fun s => !s.closed) ≤ limit) :
    (∀ s ∈ (Direction.grow.run epsilon (.finite available) limit shares).shares, s.closed = true) ∨
      .finite (available - ((Direction.grow.run epsilon (.finite available) limit
        shares).shares.map fun s => s.size.toRat).sum) ≤ epsilon := by
  fun_induction Direction.run Direction.grow epsilon (.finite available) limit shares with
  | case1 shares =>
    rw [Nat.le_zero, List.countP_eq_zero] at hlimit
    -- no pass is left, but no open item either
    exact Or.inl fun s hs => by simpa using hlimit s hs
  | case2 limit shares hnone =>
    obtain ⟨level, h⟩ := h
    exact h.used_up_of_pass_eq_none hnone
  | case3 limit shares report after hpass hclamped course ih =>
    obtain ⟨level, h⟩ := h
    obtain ⟨high, hhigh, -, hcount⟩ := h.pass hpass
    have := hcount hclamped
    exact ih ⟨high, hhigh⟩ (by omega)
  | case4 limit shares report after hpass hunclamped =>
    obtain ⟨level, h⟩ := h
    obtain ⟨high, hhigh, hsum, -⟩ := h.pass hpass
    refine Or.inr ?_
    -- a pass that closes no item uses up all there is
    rw [hsum (by simpa using hunclamped), sub_self]
    exact hepsilon

end Leveled

end

/-! ## The whole distribution -/

section

variable {settings : Settings Exact} {items : List (Item Exact)} {available : Rat}

/-- Before the first pass the level is that of nothing. -/
theorem Item.Regular.atLevel_opening {item : Item Exact} (h : item.Regular) :
    (Direction.grow.opening item).AtLevel 0 := by
  have hrise := h.rise_zero
  have hn := Exact.ne_nan_of_le h.natural_le_max
  rw [Direction.opening, h.exempt_grow]
  by_cases hweight : Scalar.zero < item.weight
  · by_cases hmax : item.natural < item.max
    · -- an item that can grow begins at level zero
      rw [decide_eq_true hweight, decide_eq_true hmax, Bool.and_true, Bool.not_true, ← hrise]
      refine .rising ?_ (hrise.symm ▸ hmax)
      rw [h.weight_eq] at hweight
      exact Exact.finite_lt_finite.mp hweight
    · have hle : item.max ≤ item.natural := by
        rwa [Exact.lt_iff_not_le hn.1 hn.2, not_not] at hmax
      rw [decide_eq_false hmax, Bool.and_false, Bool.not_false,
        Exact.le_antisymm h.natural_le_max hle]
      exact .full (hrise.symm ▸ hle)
  · have hle : item.weight ≤ Scalar.zero := by
      have hn' := Exact.ne_nan_of_le h.zero_le_weight
      rwa [Exact.lt_iff_not_le hn'.1 hn'.2, not_not] at hweight
    rw [decide_eq_false hweight, Bool.false_and, Bool.not_false]
    exact .weightless (Exact.le_antisymm hle h.zero_le_weight)

theorem leveled_opening (hitems : ∀ item ∈ items, item.Regular)
    (hsum : Scalar.zero ≤ .finite available - Scalar.sum (items.map Item.natural)) :
    Leveled available 0 (items.map Direction.grow.opening) := by
  have hfinite : ∀ x ∈ items.map Item.natural, Scalar.isFinite x = true := by
    intro x hx
    obtain ⟨item, hitem, rfl⟩ := List.mem_map.mp hx
    exact (hitems item hitem).natural_isFinite
  rw [Exact.sum_eq_finite hfinite, Exact.finite_sub, Exact.zero_eq, Exact.finite_le_finite,
    sub_nonneg, List.map_map] at hsum
  refine ⟨le_refl 0, fun s hs => ?_, fun s hs => ?_, ?_⟩
  · obtain ⟨item, hitem, rfl⟩ := List.mem_map.mp hs
    exact hitems item hitem
  · obtain ⟨item, hitem, rfl⟩ := List.mem_map.mp hs
    exact (hitems item hitem).atLevel_opening
  · rw [List.map_map]
    exact hsum

/-- With a surplus there is growth, if any item takes it, and nothing to do otherwise. -/
theorem Direction.choose?_of_surplus (hepsilon : Scalar.zero ≤ settings.epsilon)
    (hslack : settings.epsilon < .finite available - Scalar.sum (items.map Item.natural)) :
    choose? settings items (.finite available) =
      if items.any (fun item => decide (Scalar.zero < item.weight)) then some .grow else none := by
  have hnot : ¬ .finite available - Scalar.sum (items.map Item.natural) < -settings.epsilon := by
    intro hlt
    have hn := Exact.ne_nan_of_lt hslack
    have hle := Exact.le_trans (Exact.le_of_lt hlt)
      (Exact.le_trans (Exact.neg_le_zero hepsilon) hepsilon)
    exact (Exact.lt_iff_not_le hn.1 hn.2).mp hslack hle
  unfold choose?
  dsimp only
  rw [if_neg hnot]
  simp only [hslack, true_and]

/-- What growing makes of a surplus. -/
structure Filled (settings : Settings Exact) (items : List (Item Exact)) (d : Distribution Exact) :
    Prop where
  level : ∃ level : Rat, 0 ≤ level ∧ d.sizes = items.map fun item => item.atLevel level
  natural_of_weightless : ∀ p ∈ items.zip d.sizes, p.1.weight = .finite 0 → p.2 = p.1.natural
  /-- Two items below their maxima grow in proportion to their weights. -/
  proportional : ∀ p ∈ items.zip d.sizes, ∀ q ∈ items.zip d.sizes, p.2 < p.1.max → q.2 < q.1.max →
    (p.2 - p.1.natural) * q.1.weight = (q.2 - q.1.natural) * p.1.weight
  zero_le_leftover : Scalar.zero ≤ d.leftover
  /-- With a pass for every item that can grow, nothing is left over or all of them are full. -/
  used_up : items.countP (fun item => decide (Scalar.zero < item.weight) &&
      decide (item.natural < item.max)) ≤ settings.maxPasses →
    d.leftover ≤ settings.epsilon ∨
      ∀ p ∈ items.zip d.sizes, Scalar.zero < p.1.weight → p.2 = p.1.max

theorem Leveled.filled {shares : List (Share Exact)} {level : Rat}
    (h : Leveled available level shares) (hitems : shares.map Share.item = items)
    {d : Distribution Exact} (hsizes : d.sizes = shares.map Share.size)
    (hleftover : d.leftover = .finite available - Scalar.sum d.sizes)
    (hused_up : items.countP (fun item => decide (Scalar.zero < item.weight) &&
        decide (item.natural < item.max)) ≤ settings.maxPasses →
      (∀ s ∈ shares, s.closed = true) ∨
        .finite (available - (shares.map fun s => s.size.toRat).sum) ≤ settings.epsilon) :
    Filled settings items d := by
  -- every size is read off the level, and so are the parts of the statement
  have hsize {s : Share Exact} (hs : s ∈ shares) : s.size = s.item.atLevel level :=
    (h.atLevel s hs).size_eq (h.regular s hs)
  have hpair {p : Item Exact × Exact} (hp : p ∈ items.zip d.sizes) :
      ∃ s ∈ shares, p = (s.item, s.size) := by
    rw [hsizes, ← hitems, List.zip_map'] at hp
    obtain ⟨s, hs, heq⟩ := List.mem_map.mp hp
    exact ⟨s, hs, heq.symm⟩
  have hleft : d.leftover = .finite (available - (shares.map fun s => s.size.toRat).sum) := by
    rw [hleftover, hsizes, h.sum_sizes, Exact.finite_sub]
  refine ⟨⟨level, h.zero_le, ?_⟩, fun p hp hweight => ?_, fun p hp q hq hpmax hqmax => ?_, ?_,
    fun hcount => ?_⟩
  · rw [hsizes, ← hitems, List.map_map]
    exact List.map_congr_left fun s hs => hsize hs
  · obtain ⟨s, hs, rfl⟩ := hpair hp
    exact (hsize hs).trans ((h.regular s hs).atLevel_of_weightless hweight level)
  · obtain ⟨s, hs, rfl⟩ := hpair hp
    obtain ⟨u, hu, rfl⟩ := hpair hq
    dsimp only at hpmax hqmax ⊢
    rw [hsize hs] at hpmax ⊢
    rw [hsize hu] at hqmax ⊢
    exact Item.Regular.proportional (h.regular s hs) (h.regular u hu) hpmax hqmax
  · rw [hleft, Exact.zero_eq, Exact.finite_le_finite]
    linarith [h.sum_le]
  · rw [hleft]
    refine (hused_up hcount).symm.imp id fun hclosed p hp hweight => ?_
    obtain ⟨s, hs, rfl⟩ := hpair hp
    exact (h.atLevel s hs).size_of_closed (hclosed s hs) hweight

theorem countP_opening (hitems : ∀ item ∈ items, item.Regular) :
    (items.map Direction.grow.opening).countP (fun s => !s.closed) =
      items.countP fun item => decide (Scalar.zero < item.weight) &&
        decide (item.natural < item.max) := by
  rw [List.countP_map]
  refine List.countP_congr fun item hitem => ?_
  show (!Direction.grow.exempt item) = true ↔ _
  rw [(hitems item hitem).exempt_grow, Bool.not_not]

/-- **Growth is water-filling.** -/
theorem filled_distribute (hitems : ∀ item ∈ items, item.Regular)
    (hepsilon : Scalar.zero ≤ settings.epsilon)
    (hslack : settings.epsilon < .finite available - Scalar.sum (items.map Item.natural)) :
    Filled settings items (distribute settings items (.finite available)) := by
  have hopening : Leveled available 0 (items.map Direction.grow.opening) :=
    leveled_opening hitems (Exact.le_trans hepsilon (Exact.le_of_lt hslack))
  have hchoose := Direction.choose?_of_surplus hepsilon hslack
  cases hany : items.any fun item => decide (Scalar.zero < item.weight) with
  | true =>
    rw [hany, if_pos rfl] at hchoose
    set shares := (Direction.grow.run settings.epsilon (.finite available) settings.maxPasses
      (items.map Direction.grow.opening)).shares with hshares
    have hmap : shares.map Share.item = items :=
      Direction.grow.map_item_run settings.epsilon (.finite available) settings.maxPasses items
    obtain ⟨high, hhigh⟩ := hopening.run settings.epsilon settings.maxPasses
    have hsizes : (distribute settings items (.finite available)).sizes =
        shares.map Share.size := by
      unfold distribute
      rw [hchoose]
      rfl
    refine hhigh.filled hmap hsizes rfl fun hcount => ?_
    exact Leveled.used_up_run ⟨0, hopening⟩ hepsilon ((countP_opening hitems).trans_le hcount)
  | false =>
    rw [hany, if_neg Bool.false_ne_true] at hchoose
    have hmap : (items.map Direction.grow.opening).map Share.item = items := by
      rw [List.map_map]
      exact List.map_id _
    have hsizes : (distribute settings items (.finite available)).sizes =
        (items.map Direction.grow.opening).map Share.size := by
      unfold distribute
      rw [hchoose, List.map_map]
      rfl
    -- Nobody takes the surplus, so all items are closed from the start.
    have hclosed : ∀ s ∈ items.map Direction.grow.opening, s.closed = true := by
      intro s hs
      obtain ⟨item, hitem, rfl⟩ := List.mem_map.mp hs
      have hweight := List.any_eq_false.mp hany item hitem
      show Direction.grow.exempt item = true
      rw [(hitems item hitem).exempt_grow, Bool.eq_false_of_not_eq_true hweight]
      rfl
    exact hopening.filled hmap hsizes rfl fun _ => Or.inl hclosed

/-- An item that is full at ten, one that grows twice as fast as it, and one that does not grow. -/
def threeItems : List (Item Exact) :=
  [⟨.finite 5, .finite 0, .finite 10, .finite 1⟩, ⟨.finite 5, .finite 0, .infinity, .finite 2⟩,
    ⟨.finite 5, .finite 0, .infinity, .finite 0⟩]

theorem filled_threeItems :
    Filled ⟨.finite (1 / 100), 32, false⟩ threeItems
      (distribute ⟨.finite (1 / 100), 32, false⟩ threeItems (.finite 100)) := by
  refine filled_distribute ?_ (by decide +kernel) (by decide +kernel)
  intro item hitem
  fin_cases hitem <;>
    exact ⟨⟨by decide +kernel, by decide +kernel, by decide +kernel⟩, by decide +kernel, rfl, rfl⟩

end

end BoxLayout
