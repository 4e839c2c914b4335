import Mathlib
import BoxLayout.Proofs.Distribution.Deficit

/-!
# More space, larger shares

Without rounding and without a tolerance, no item loses anything when more space becomes available, also
if the passes are cut off by their limit. A deficit takes a smaller part from every item. With a surplus
the levels are compared pass by pass: a pass goes where a tangent of the space in use, as a concave
function of the level, reaches the space available, so a run that has come further and has more to give
stays ahead. The one run that may fall behind has filled every item to its maximum.

## The architecture

* **`Item.shareAt`**, **`raised`** — a share as a function of the level, and the level after one more pass.
* **`Leveled.shares_run`** — without a tolerance a run is so many steps from level to level, and the
  passes that it leaves out would not have changed it.
* **`rest_add_le`** — where a higher level is extended to, the tangent at a lower one lies above.
* **`Ahead`**, **`Ahead.raised`** — what two runs keep, and the step.
* **`takenPart_anti`** — a smaller deficit takes a smaller part.
* **`sizes_distribute_mono`** — the result, across all regimes.
-/

namespace BoxLayout

/-! ## Shares and levels -/

namespace Item

/-- The share of an item when the passes have come to a level. -/
def shareAt (level : Rat) (item : Item Exact) : Share Exact :=
  ⟨item, item.atLevel level,
    !(decide (Scalar.zero < item.weight) && decide (item.rise level < item.max))⟩

namespace Regular

variable {item : Item Exact} {level low high : Rat}

/-- A maximum that a level reaches is a number. -/
theorem max_eq (h : item.Regular) (hmax : item.max ≤ item.rise level) :
    item.max = .finite item.max.toRat := by
  have hzero := Exact.le_trans (Exact.le_trans h.zero_le_min h.min_le_natural) h.natural_le_max
  rw [h.rise_eq] at hmax
  exact Exact.eq_finite_toRat (Scalar.isExtent_iff.mp (Scalar.isExtent_of_le hzero hmax rfl)).1

/-- An item either has room below its maximum at a level, or is full there. -/
theorem rise_lt_max_or (h : item.Regular) (level : Rat) :
    item.rise level < item.max ∨ item.max ≤ item.rise level := by
  have hrise : item.rise level ≠ .nan := by
    rw [h.rise_eq]
    exact Exact.noConfusion
  have hmax := (Exact.ne_nan_of_le h.natural_le_max).2
  rw [Exact.lt_iff_not_le hrise hmax]
  exact (em _).symm

theorem weight_eq_zero (h : item.Regular) (hweight : ¬ Scalar.zero < item.weight) :
    item.weight = .finite 0 := by
  have hn := Exact.ne_nan_of_le h.zero_le_weight
  refine Exact.le_antisymm ?_ h.zero_le_weight
  rwa [Exact.lt_iff_not_le hn.1 hn.2, not_not] at hweight

theorem atLevel_le_max (h : item.Regular) (level : Rat) : item.atLevel level ≤ item.max := by
  rcases h.rise_lt_max_or level with hlt | hle
  · rw [atLevel_of_rise_le (Exact.le_of_lt hlt)]
    exact Exact.le_of_lt hlt
  · rw [atLevel_of_max_le hle]
    exact Exact.le_refl (Exact.ne_nan_of_le hle).1

theorem atLevel_mono (h : item.Regular) (hle : low ≤ high) :
    item.atLevel low ≤ item.atLevel high := by
  rcases h.rise_lt_max_or high with hlt | hmax
  · have hlt' := Exact.le_trans (h.rise_mono hle) (Exact.le_of_lt hlt)
    rw [atLevel_of_rise_le hlt', atLevel_of_rise_le (Exact.le_of_lt hlt)]
    exact h.rise_mono hle
  · rw [atLevel_of_max_le hmax]
    exact h.atLevel_le_max low

theorem natural_le_atLevel (h : item.Regular) (hlevel : 0 ≤ level) :
    item.natural ≤ item.atLevel level := by
  have hzero : item.atLevel 0 = item.natural := by
    rw [atLevel_of_rise_le (h.rise_zero.symm ▸ h.natural_le_max), h.rise_zero]
  rw [← hzero]
  exact h.atLevel_mono hlevel

/-! What a share at a level adds to the totals of a pass: its natural extent and its claim while it is
open, and its extent once it is closed. -/

theorem shareAt_of_open (hweight : Scalar.zero < item.weight)
    (hlt : item.rise level < item.max) :
    (item.shareAt level).rest = item.natural.toRat ∧
      (item.shareAt level).openClaim .grow = item.weight.toRat := by
  rw [shareAt, decide_eq_true hweight, decide_eq_true hlt]
  exact ⟨rfl, rfl⟩

theorem shareAt_of_full (hmax : item.max ≤ item.rise level) :
    (item.shareAt level).rest = item.max.toRat ∧ (item.shareAt level).openClaim .grow = 0 := by
  have hlt : ¬ item.rise level < item.max := Scalar.not_lt_of_le hmax
  rw [shareAt, decide_eq_false hlt, Bool.and_false, atLevel_of_max_le hmax]
  exact ⟨rfl, rfl⟩

theorem shareAt_of_weightless (h : item.Regular) (hweight : ¬ Scalar.zero < item.weight) :
    (item.shareAt level).rest = item.natural.toRat ∧ (item.shareAt level).openClaim .grow = 0 := by
  rw [shareAt, decide_eq_false hweight, Bool.false_and,
    h.atLevel_of_weightless (h.weight_eq_zero hweight)]
  exact ⟨rfl, rfl⟩

/-- **The tangent at a lower level lies above.** Beyond the higher of two levels, what an item would use
if its share went on from the lower one is at least what it would use from the higher one. -/
theorem rest_add_le (h : item.Regular) (hle : low ≤ high) {x : Rat} (hx : high ≤ x) :
    (item.shareAt high).rest + x * (item.shareAt high).openClaim .grow ≤
      (item.shareAt low).rest + x * (item.shareAt low).openClaim .grow := by
  by_cases hweight : Scalar.zero < item.weight
  · rcases h.rise_lt_max_or high with hopen | hfull
    · -- open at the higher level, and so at the lower one
      have hlow : item.rise low < item.max := by
        rcases h.rise_lt_max_or low with hlt | hmax
        · exact hlt
        · exact absurd hopen (Scalar.not_lt_of_le (Exact.le_trans hmax (h.rise_mono hle)))
      rw [(shareAt_of_open hweight hopen).1, (shareAt_of_open hweight hopen).2,
        (shareAt_of_open hweight hlow).1, (shareAt_of_open hweight hlow).2]
    · rw [(shareAt_of_full hfull).1, (shareAt_of_full hfull).2, mul_zero, add_zero]
      rcases h.rise_lt_max_or low with hopen | hmax
      · -- what it would use from the lower level is above its maximum
        rw [(shareAt_of_open hweight hopen).1, (shareAt_of_open hweight hopen).2]
        have hreached := Exact.le_trans hfull (h.rise_mono hx)
        rw [h.max_eq hfull, h.rise_eq, Exact.finite_le_finite] at hreached
        exact hreached
      · rw [(shareAt_of_full hmax).1, (shareAt_of_full hmax).2, mul_zero, add_zero]
  · rw [(h.shareAt_of_weightless hweight).1, (h.shareAt_of_weightless hweight).2,
      (h.shareAt_of_weightless hweight).1, (h.shareAt_of_weightless hweight).2]

end Regular

end Item

/-- There is one share of an item at a level. -/
theorem Share.AtLevel.eq_shareAt {s : Share Exact} {level : Rat} (h : s.AtLevel level)
    (hitem : s.item.Regular) : s = s.item.shareAt level := by
  have hsize : s.size = s.item.atLevel level := h.size_eq hitem
  have hclosed : s.closed =
      !(decide (Scalar.zero < s.item.weight) && decide (s.item.rise level < s.item.max)) := by
    cases h with
    | weightless hweight =>
      have hnot : ¬ Scalar.zero < (Exact.finite 0) := by simp
      rw [hweight, decide_eq_false hnot, Bool.false_and]
      rfl
    | full hmax =>
      rw [decide_eq_false (Scalar.not_lt_of_le hmax), Bool.and_false]
      rfl
    | @rising item hweight hlt =>
      have hpos : Scalar.zero < item.weight := by
        rw [hitem.weight_eq]
        exact Exact.finite_lt_finite.mpr hweight
      rw [decide_eq_true hlt, decide_eq_true hpos]
      rfl
  rw [Item.shareAt, ← hsize, ← hclosed]

/-! ## From level to level -/

section

variable {items : List (Item Exact)} {available level : Rat}

/-- The level after one more pass: if no item is open any more, the same. -/
def raised (available : Rat) (items : List (Item Exact)) (level : Rat) : Rat :=
  if ((items.map (Item.shareAt level)).map (Share.openClaim .grow)).sum = 0 then level
  else nextLevel available (items.map (Item.shareAt level))

theorem Leveled.eq_map_shareAt {shares : List (Share Exact)} (h : Leveled available level shares)
    (hitems : shares.map Share.item = items) : shares = items.map (Item.shareAt level) := by
  rw [← hitems, List.map_map]
  exact (List.map_id' shares).symm.trans (List.map_congr_left fun s hs =>
    (h.atLevel s hs).eq_shareAt (h.regular s hs))

namespace Leveled

variable (h : Leveled available level (items.map (Item.shareAt level)))

include h

theorem zero_le_claims :
    0 ≤ ((items.map (Item.shareAt level)).map (Share.openClaim .grow)).sum := by
  refine List.sum_nonneg fun claim hmem => ?_
  obtain ⟨s, hs, rfl⟩ := List.mem_map.mp hmem
  exact Share.zero_le_openClaim (h.regular s hs)

/-- A pass with a claim makes its offers at the level that is then reached. -/
theorem map_offer_eq
    (htotal : 0 < ((items.map (Item.shareAt level)).map (Share.openClaim .grow)).sum) :
    (items.map (Item.shareAt level)).map (Direction.grow.offer
        (.finite (available - ((items.map (Item.shareAt level)).map Share.rest).sum))
        (.finite ((items.map (Item.shareAt level)).map (Share.openClaim .grow)).sum)) =
      items.map (Item.shareAt (raised available items level)) := by
  rw [raised, if_neg htotal.ne']
  refine (h.offer htotal).eq_map_shareAt ?_
  rw [List.map_map, List.map_map]
  refine (List.map_congr_left fun item _ => ?_).trans (List.map_id items)
  exact Direction.item_offer .grow _ _ (item.shareAt level)

theorem raised_leveled :
    Leveled available (raised available items level)
      (items.map (Item.shareAt (raised available items level))) := by
  rcases h.zero_le_claims.eq_or_lt with hzero | htotal
  · rw [raised, if_pos hzero.symm]
    exact h
  · have hoffer := h.offer htotal
    rw [h.map_offer_eq htotal] at hoffer
    rwa [raised, if_neg htotal.ne'] at hoffer ⊢

theorem iterate_raised (passes : ℕ) :
    Leveled available ((raised available items)^[passes] level)
      (items.map (Item.shareAt ((raised available items)^[passes] level))) := by
  induction passes with
  | zero => exact h
  | succ passes ih =>
    rw [Function.iterate_succ_apply']
    exact ih.raised_leveled

/-- Where all there is has been used up, the level stays. -/
theorem raised_eq_self
    (hsum : ((items.map (Item.shareAt level)).map fun s => s.size.toRat).sum = available) :
    raised available items level = level := by
  have heq := h.sum_eq
  unfold raised
  split_ifs with hzero
  · rfl
  · rw [nextLevel, div_eq_iff hzero]
    linarith

/-- A pass that is left out would not have raised the level. -/
theorem raised_eq_self_of_pass_eq_none
    (hpass : Direction.grow.pass Scalar.zero (.finite available) (items.map (Item.shareAt level)) =
      none) :
    raised available items level = level := by
  have hclaims := h.zero_le_claims
  rcases Direction.pass_eq_none_iff.mp hpass with htotal | hamount
  · rw [h.totalClaim_eq, Exact.zero_eq, Exact.finite_le_finite] at htotal
    exact if_pos (le_antisymm htotal hclaims)
  · rw [h.amount_eq, Exact.zero_eq, Exact.finite_le_finite] at hamount
    -- the level so far takes nothing, and there is nothing left to take
    have hsum := h.sum_eq
    have hused := mul_nonneg h.zero_le hclaims
    exact h.raised_eq_self (le_antisymm h.sum_le (by linarith))

/-- **A run goes from level to level.** Induction on the limit; a run that ends before it has come to a
level that stays. -/
theorem shares_run (limit : ℕ) :
    (Direction.grow.run Scalar.zero (.finite available) limit
        (items.map (Item.shareAt level))).shares =
      items.map (Item.shareAt ((raised available items)^[limit] level)) := by
  induction limit generalizing level with
  | zero => rfl
  | succ limit ih =>
    rw [Direction.run]
    cases hpass : Direction.grow.pass Scalar.zero (.finite available)
        (items.map (Item.shareAt level)) with
    | none =>
      rw [Function.iterate_fixed (h.raised_eq_self_of_pass_eq_none hpass)]
    | some passed =>
      obtain ⟨report, after⟩ := passed
      have hafter : after = items.map (Item.shareAt (raised available items level)) := by
        obtain ⟨htotal, -, -, rfl⟩ := Direction.pass_eq_some_iff.mp hpass
        rw [h.totalClaim_eq, Exact.zero_eq, Exact.finite_le_finite, not_le] at htotal
        rw [h.amount_eq, h.totalClaim_eq, h.map_offer_eq htotal]
      obtain ⟨_, -, hsettled, -⟩ := h.pass hpass
      rw [hafter] at hsettled ⊢
      rw [Function.iterate_succ_apply]
      dsimp only
      split_ifs with hclamped
      · exact ih h.raised_leveled
      · -- a pass that closes no item uses up all there is
        have hstays := h.raised_leveled.raised_eq_self (hsettled (by simpa using hclamped))
        rw [Function.iterate_fixed hstays]

end Leveled

/-! ## Two runs -/

/-- One run is behind another: its level is lower, or the other one has filled all its items. -/
def Ahead (items : List (Item Exact)) (low high : Rat) : Prop :=
  low ≤ high ∨ ((items.map (Item.shareAt high)).map (Share.openClaim .grow)).sum = 0

theorem sum_rest_add_le (hitems : ∀ item ∈ items, item.Regular) {low high x : Rat} (hle : low ≤ high)
    (hx : high ≤ x) :
    ((items.map (Item.shareAt high)).map Share.rest).sum +
        x * ((items.map (Item.shareAt high)).map (Share.openClaim .grow)).sum ≤
      ((items.map (Item.shareAt low)).map Share.rest).sum +
        x * ((items.map (Item.shareAt low)).map (Share.openClaim .grow)).sum := by
  simp only [List.map_map, ← List.sum_map_mul_left, ← List.sum_map_add, Function.comp_apply]
  exact List.sum_le_sum fun item hitem => (hitems item hitem).rest_add_le hle hx

/-- **A run that is ahead and has more to give stays ahead.** -/
theorem Ahead.raised {low high a b : Rat} (h : Ahead items low high)
    (hitems : ∀ item ∈ items, item.Regular)
    (hlow : Leveled a low (items.map (Item.shareAt low)))
    (hhigh : Leveled b high (items.map (Item.shareAt high))) (hab : a ≤ b) :
    Ahead items (raised a items low) (raised b items high) := by
  rcases hhigh.zero_le_claims.eq_or_lt with hfull | hopen
  · right
    rw [BoxLayout.raised, if_pos hfull.symm]
    exact hfull.symm
  · left
    have hle := h.resolve_right hopen.ne'
    have hx := hhigh.le_nextLevel hopen
    have htangent := sum_rest_add_le hitems hle hx
    have hreached : ((items.map (Item.shareAt high)).map Share.rest).sum +
        nextLevel b (items.map (Item.shareAt high)) *
          ((items.map (Item.shareAt high)).map (Share.openClaim .grow)).sum = b := by
      rw [nextLevel, div_mul_cancel₀ _ hopen.ne', add_sub_cancel]
    rw [BoxLayout.raised, BoxLayout.raised, if_neg hopen.ne']
    split_ifs with hfull
    · exact hle.trans hx
    · have hpos := lt_of_le_of_ne hlow.zero_le_claims (Ne.symm hfull)
      rw [nextLevel, div_le_iff₀ hpos]
      linarith

/-- The shares of a run that is ahead are larger. -/
theorem Ahead.atLevel_le {low high : Rat} (h : Ahead items low high)
    (hitems : ∀ item ∈ items, item.Regular) {item : Item Exact} (hitem : item ∈ items) :
    item.atLevel low ≤ item.atLevel high := by
  have hregular := hitems item hitem
  rcases h with hle | hfull
  · exact hregular.atLevel_mono hle
  · by_cases hweight : Scalar.zero < item.weight
    · rcases hregular.rise_lt_max_or high with hlt | hmax
      · -- an open item has a weight, and so would the sum
        have hclaims : ∀ claim ∈ (items.map (Item.shareAt high)).map (Share.openClaim .grow),
            0 ≤ claim := by
          intro claim hmem
          obtain ⟨s, hs, rfl⟩ := List.mem_map.mp hmem
          obtain ⟨other, hother, rfl⟩ := List.mem_map.mp hs
          exact Share.zero_le_openClaim (hitems other hother)
        have hsingle := List.single_le_sum hclaims _
          (List.mem_map_of_mem (List.mem_map_of_mem hitem))
        rw [hfull, (Item.Regular.shareAt_of_open hweight hlt).2] at hsingle
        rw [hregular.weight_eq, Exact.zero_eq, Exact.finite_lt_finite] at hweight
        exact absurd hsingle (not_le.mpr hweight)
      · rw [Item.atLevel_of_max_le hmax]
        exact hregular.atLevel_le_max low
    · have hzero := hregular.weight_eq_zero hweight
      rw [hregular.atLevel_of_weightless hzero, hregular.atLevel_of_weightless hzero]
      exact Exact.le_refl (Exact.ne_nan_of_le hregular.natural_le_max).1

/-- Induction on the passes, which the two runs make side by side. -/
theorem ahead_iterate (hitems : ∀ item ∈ items, item.Regular) {a b : Rat} (hab : a ≤ b)
    (hlow : Leveled a 0 (items.map (Item.shareAt 0))) (hhigh : Leveled b 0 (items.map (Item.shareAt 0)))
    (passes : ℕ) :
    Ahead items ((raised a items)^[passes] 0) ((raised b items)^[passes] 0) := by
  induction passes with
  | zero => exact Or.inl le_rfl
  | succ passes ih =>
    rw [Function.iterate_succ_apply', Function.iterate_succ_apply']
    exact ih.raised hitems (hlow.iterate_raised passes) (hhigh.iterate_raised passes) hab

/-! ## The whole distribution -/

variable {settings : Settings Exact}

/-- A smaller deficit takes a smaller part. -/
theorem takenPart_anti (hitems : ∀ item ∈ items, item.Ranged) {a b : Rat} (hab : a ≤ b) :
    takenPart b items ≤ takenPart a items := by
  have htotal := List.sum_nonneg (zero_le_rooms hitems)
  unfold takenPart
  gcongr

theorem leveled_shareAt (hitems : ∀ item ∈ items, item.Regular)
    (hsum : Scalar.zero ≤ .finite available - Scalar.sum (items.map Item.natural)) :
    Leveled available 0 (items.map (Item.shareAt 0)) ∧
      items.map Direction.grow.opening = items.map (Item.shareAt 0) := by
  have hopening := leveled_opening hitems hsum
  have heq : items.map Direction.grow.opening = items.map (Item.shareAt 0) := by
    refine hopening.eq_map_shareAt ?_
    rw [List.map_map]
    exact List.map_id items
  exact ⟨heq ▸ hopening, heq⟩

/-- Without a tolerance, a surplus fills all items to the level that the passes come to. -/
theorem sizes_distribute_of_surplus (hitems : ∀ item ∈ items, item.Regular)
    (hepsilon : settings.epsilon = Scalar.zero)
    (hsum : Scalar.zero ≤ .finite available - Scalar.sum (items.map Item.natural)) :
    (distribute settings items (.finite available)).sizes =
      items.map (Item.atLevel · ((raised available items)^[settings.maxPasses] 0)) := by
  obtain ⟨hleveled, hopening⟩ := leveled_shareAt hitems hsum
  have hnot : ¬ .finite available - Scalar.sum (items.map Item.natural) < -Scalar.zero := by
    refine Scalar.not_lt_of_le (Exact.le_trans ?_ hsum)
    exact Exact.neg_le_zero (Exact.le_refl nofun)
  -- space that is not short is handed out, or there is none to hand out
  cases hchoose : Direction.choose? settings items (.finite available) with
  | some d =>
    obtain rfl : d = .grow := by
      unfold Direction.choose? at hchoose
      dsimp only at hchoose
      rw [hepsilon, if_neg hnot] at hchoose
      split_ifs at hchoose
      exact (Option.some.inj hchoose).symm
    rw [sizes_distribute_of_choose? hchoose, hepsilon, hopening, hleveled.shares_run, List.map_map]
    rfl
  | none =>
    rw [sizes_distribute_of_choose?_eq_none hchoose]
    refine List.map_congr_left fun item hitem => ?_
    have hregular := hitems item hitem
    by_cases hweight : Scalar.zero < item.weight
    · -- there is no surplus, so the level stays where it is
      have hsurplus : ¬ Scalar.zero < .finite available - Scalar.sum (items.map Item.natural) := by
        intro hlt
        unfold Direction.choose? at hchoose
        dsimp only at hchoose
        rw [hepsilon, if_pos ⟨hlt, List.any_eq_true.mpr ⟨item, hitem, decide_eq_true hweight⟩⟩]
          at hchoose
        exact absurd hchoose nofun
      rw [sum_natural_eq fun i hi => (hitems i hi).ranged, Exact.finite_sub, Exact.zero_eq,
        Exact.finite_lt_finite, not_lt, sub_nonpos] at hsurplus
      have hstays : raised available items 0 = 0 := by
        refine hleveled.raised_eq_self (le_antisymm hleveled.sum_le (hsurplus.trans_eq ?_))
        rw [← hopening, List.map_map]
        rfl
      rw [Function.iterate_fixed hstays,
        Item.atLevel_of_rise_le (hregular.rise_zero.symm ▸ hregular.natural_le_max),
        hregular.rise_zero]
    · exact (hregular.atLevel_of_weightless (hregular.weight_eq_zero hweight) _).symm

/-- A deficit takes a part from every item, and nothing if there are no passes. -/
theorem sizes_distribute_of_shortage (hitems : ∀ item ∈ items, item.Ranged)
    (hepsilon : settings.epsilon = Scalar.zero)
    (hslack : .finite available - Scalar.sum (items.map Item.natural) < -Scalar.zero) :
    (distribute settings items (.finite available)).sizes = items.map fun item =>
      .finite (item.shrunk (if settings.maxPasses = 0 then 0 else takenPart available items)) := by
  have hzero : Scalar.zero ≤ settings.epsilon := hepsilon.symm ▸ Exact.le_refl nofun
  have hslack' := hepsilon.symm ▸ hslack
  split_ifs with hpasses
  · rw [sizes_distribute_of_choose? (Direction.choose?_of_deficit hzero hslack'), hpasses,
      Direction.run, List.map_map]
    refine List.map_congr_left fun item hitem => ?_
    rw [Item.shrunk, zero_mul, sub_zero]
    exact (hitems item hitem).natural_eq
  · rw [sizes_distribute_of_deficit hitems hzero (Nat.one_le_iff_ne_zero.mpr hpasses) hslack',
      List.map_map]
    rfl

/-- **More space never takes anything from an item**, with any limit of passes. -/
theorem sizes_distribute_mono (hitems : ∀ item ∈ items, item.Regular)
    (hepsilon : settings.epsilon = Scalar.zero) {a b : Rat} (hab : a ≤ b) :
    List.Forall₂ (· ≤ ·) (distribute settings items (.finite a)).sizes
      (distribute settings items (.finite b)).sizes := by
  have hranged : ∀ item ∈ items, item.Ranged := fun item hitem => (hitems item hitem).ranged
  have hslack (available : Rat) :
      .finite available - Scalar.sum (items.map Item.natural) < -Scalar.zero ↔
        available < (items.map fun i => i.natural.toRat).sum := by
    rw [sum_natural_eq hranged, Exact.finite_sub, Exact.zero_eq, Exact.neg_finite, neg_zero,
      Exact.finite_lt_finite, sub_neg]
  have hsurplus (available : Rat) :
      Scalar.zero ≤ .finite available - Scalar.sum (items.map Item.natural) ↔
        (items.map fun i => i.natural.toRat).sum ≤ available := by
    rw [sum_natural_eq hranged, Exact.finite_sub, Exact.zero_eq, Exact.finite_le_finite, sub_nonneg]
  set total := (items.map fun i => i.natural.toRat).sum with htotal
  rcases lt_or_ge a total with ha | ha
  · rw [sizes_distribute_of_shortage hranged hepsilon ((hslack a).mpr ha), List.forall₂_map_left_iff]
    have hparts := takenPart_mem hranged ha.le
    rcases lt_or_ge b total with hb | hb
    · -- both have a deficit
      rw [sizes_distribute_of_shortage hranged hepsilon ((hslack b).mpr hb),
        List.forall₂_map_right_iff, List.forall₂_same]
      refine fun item hitem => Exact.finite_le_finite.mpr (sub_le_sub_left ?_ _)
      refine mul_le_mul_of_nonneg_right ?_ (hranged item hitem).zero_le_room
      split_ifs
      · exact le_rfl
      · exact takenPart_anti hranged hab
    · -- the natural extent lies between the two
      rw [sizes_distribute_of_surplus hitems hepsilon ((hsurplus b).mpr hb),
        List.forall₂_map_right_iff, List.forall₂_same]
      intro item hitem
      have hleveled := (leveled_shareAt hitems ((hsurplus b).mpr hb)).1
      refine Exact.le_trans ?_ ((hitems item hitem).natural_le_atLevel
        (hleveled.iterate_raised settings.maxPasses).zero_le)
      rw [(hranged item hitem).natural_eq, Exact.finite_le_finite]
      refine sub_le_self _ (mul_nonneg ?_ (hranged item hitem).zero_le_room)
      split_ifs
      · exact le_rfl
      · exact hparts.1
  · have hb := ha.trans hab
    rw [sizes_distribute_of_surplus hitems hepsilon ((hsurplus a).mpr ha),
      sizes_distribute_of_surplus hitems hepsilon ((hsurplus b).mpr hb),
      List.forall₂_map_left_iff, List.forall₂_map_right_iff, List.forall₂_same]
    have hahead := ahead_iterate hitems hab (leveled_shareAt hitems ((hsurplus a).mpr ha)).1
      (leveled_shareAt hitems ((hsurplus b).mpr hb)).1 settings.maxPasses
    exact fun item hitem => hahead.atLevel_le hitems hitem

/-- From a deficit to a surplus that a single pass cannot hand out. -/
theorem sizes_mono_threeItems :
    List.Forall₂ (· ≤ ·) (distribute ⟨.finite 0, 1, false⟩ threeItems (.finite 12)).sizes
      (distribute ⟨.finite 0, 1, false⟩ threeItems (.finite 100)).sizes := by
  refine sizes_distribute_mono ?_ rfl (by norm_num)
  intro item hitem
  fin_cases hitem <;>
    exact ⟨⟨by decide +kernel, by decide +kernel, by decide +kernel⟩, by decide +kernel, rfl, rfl⟩

end

end BoxLayout
