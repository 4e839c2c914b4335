import Mathlib
import BoxLayout.Distribution
import BoxLayout.Proofs.Scalar.Rounded

/-!
# Shares keep to their bounds

Whatever is shared out and however often it is rounded, an item ends up within its bounds, unless it
ends up with no number at all. So nothing that is placed by its share has to be brought within its
bounds again.

## The architecture

* **`Item.Proper`** — what an item must satisfy: its natural extent keeps to its bounds, and its
  weight is not negative.
* **`Item.Fits`** — what is shown of its share.
* **`run_induction`**, **`forall_run`** — what every pass preserves, all passes preserve, of the shares
  together or of each of them.
* **`beyond_target`** — an offer does not leave the side of the natural extent that its direction
  says. It is the one place where rounding matters, and all that is needed of it is its order.
* **`fits_target`** — so it keeps to both bounds, unless it reaches the one that closes the item.
* **`fits_distribute`** — the result.
-/

namespace BoxLayout

variable {α : Type} [Scalar α]

/-! ## Items -/

/-- The natural extent keeps to the bounds, and the weight is not negative. -/
structure Item.Proper (item : Item α) : Prop where
  min_le_natural : item.min ≤ item.natural
  natural_le_max : item.natural ≤ item.max
  zero_le_weight : Scalar.zero ≤ item.weight

/-- An extent keeps to the bounds of an item, or is no number. -/
def Item.Fits (item : Item α) (x : α) : Prop :=
  Scalar.isNaN x = true ∨ item.min ≤ x ∧ x ≤ item.max

/-- The size of a share keeps to the bounds of its item. -/
def Share.Fits (s : Share α) : Prop := s.item.Fits s.size

namespace Direction

/-! ## All passes -/

/-- **What every pass preserves, all passes preserve.** -/
theorem run_induction {P : List (Share α) → Prop} {d : Direction} {epsilon available : α}
    {limit : ℕ} {shares : List (Share α)} (h : P shares)
    (hpass : ∀ {shares after report}, P shares →
      d.pass epsilon available shares = some (report, after) → P after) :
    P (d.run epsilon available limit shares).shares := by
  fun_induction run d epsilon available limit shares with
  | case1 | case2 => exact h
  | case3 limit shares report after hpassed hclamped course ih => exact ih (hpass h hpassed)
  | case4 limit shares report after hpassed hunclamped => exact hpass h hpassed

/-- A pass that deals with an amount has a claim to divide it by, and makes every open item an
offer. -/
theorem pass_eq_some_iff {d : Direction} {epsilon available : α} {shares after : List (Share α)}
    {report : PassReport α} :
    d.pass epsilon available shares = some (report, after) ↔
      ¬ d.totalClaim shares ≤ Scalar.zero ∧ ¬ d.amount available (used shares) ≤ epsilon ∧
        report = ⟨d.amount available (used shares),
          shares.any (d.closes (d.amount available (used shares)) (d.totalClaim shares))⟩ ∧
        after = shares.map (d.offer (d.amount available (used shares)) (d.totalClaim shares)) := by
  unfold pass
  dsimp only
  by_cases htotal : d.totalClaim shares ≤ Scalar.zero
  · simp [htotal]
  · by_cases hamount : d.amount available (used shares) ≤ epsilon
    · simp [htotal, hamount]
    · simp [htotal, hamount, eq_comm]

/-- A pass does nothing if nobody claims anything, or the amount is within the tolerance. -/
theorem pass_eq_none_iff {d : Direction} {epsilon available : α} {shares : List (Share α)} :
    d.pass epsilon available shares = none ↔
      d.totalClaim shares ≤ Scalar.zero ∨ d.amount available (used shares) ≤ epsilon := by
  unfold pass
  dsimp only
  split_ifs <;> simp_all

theorem item_offer (d : Direction) (amount total : α) (s : Share α) :
    (d.offer amount total s).item = s.item := by
  unfold offer
  dsimp only
  split_ifs <;> rfl

theorem map_item_offer (d : Direction) (amount total : α) (shares : List (Share α)) :
    (shares.map (d.offer amount total)).map Share.item = shares.map Share.item := by
  rw [List.map_map]
  exact List.map_congr_left fun s _ => item_offer d _ _ s

/-- Passes change sizes, never items or their order. -/
theorem map_item_run (d : Direction) (epsilon available : α) (limit : ℕ) (items : List (Item α)) :
    (d.run epsilon available limit (items.map d.opening)).shares.map Share.item = items := by
  refine run_induction (P := fun shares => shares.map Share.item = items) ?_ fun h hpassed => ?_
  · rw [List.map_map]
    exact List.map_id _
  · obtain ⟨_, _, _, rfl⟩ := pass_eq_some_iff.mp hpassed
    exact (map_item_offer d _ _ _).trans h

end Direction

/-! ## One offer -/

theorem Item.Proper.fits_natural {item : Item α} (h : item.Proper) : item.Fits item.natural :=
  Or.inr ⟨h.min_le_natural, h.natural_le_max⟩

variable [Scalar.Rounded α]

theorem Item.Proper.min_le_max {item : Item α} (h : item.Proper) : item.min ≤ item.max :=
  Scalar.le_trans h.min_le_natural h.natural_le_max

namespace Direction

/-- Closed shares claim nothing, so no pass deals with them. -/
theorem pass_of_closed (d : Direction) (epsilon available : α) {shares : List (Share α)}
    (h : ∀ s ∈ shares, s.closed = true) : d.pass epsilon available shares = none := by
  have hfilter : shares.filter (fun s => !s.closed) = [] :=
    List.filter_eq_nil_iff.mpr fun s hs => by simp [h s hs]
  refine pass_eq_none_iff.mpr (Or.inl ?_)
  rw [totalClaim, hfilter]
  show (-Scalar.zero : α) ≤ Scalar.zero
  rw [Scalar.Rounded.le_iff, Scalar.Rounded.value_neg, Scalar.Rounded.value_zero]
  exact Exact.finite_le_finite.mpr neg_zero.le

/-- Passes over closed shares change nothing. -/
theorem run_of_closed (d : Direction) (epsilon available : α) (limit : ℕ)
    {shares : List (Share α)} (h : ∀ s ∈ shares, s.closed = true) :
    (d.run epsilon available limit shares).shares = shares := by
  cases limit with
  | zero => rfl
  | succ limit => rw [run, d.pass_of_closed epsilon available h]

/-- The extent at which an item is closed keeps to both bounds. -/
theorem fits_bound (d : Direction) {item : Item α} (h : item.Proper) : item.Fits (d.bound item) := by
  have hle := h.min_le_max
  have hnan := Scalar.not_isNaN_of_le hle
  cases d with
  | grow => exact Or.inr ⟨hle, Scalar.le_refl hnan.2⟩
  | shrink => exact Or.inr ⟨Scalar.le_refl hnan.1, hle⟩

/-- The divisor of an offer is no zero, for a total that is one leaves nothing to do. -/
theorem value_total_ne {total : α} (h : ¬ total ≤ Scalar.zero) :
    Scalar.Rounded.value total ≠ .finite 0 := by
  intro heq
  -- a total that stands for zero is at most zero
  refine h ?_
  rw [Scalar.Rounded.le_iff, heq, Scalar.Rounded.value_zero]
  exact Exact.le_refl nofun

/-- What an amount contributes to an offer is not negative, unless it is no number. -/
theorem zero_le_part {amount total claim : α}
    (hamount : Scalar.isNaN amount = false → Scalar.zero ≤ amount)
    (htotal : ¬ total ≤ Scalar.zero) (hclaim : Scalar.zero ≤ claim)
    (hnan : Scalar.isNaN (amount * claim / total) = false) :
    Scalar.zero ≤ amount * claim / total := by
  -- the quotient is no NaN, so neither are the product and the divisor
  have hparts := Scalar.not_isNaN_of_div hnan (value_total_ne htotal)
  have hpos : Scalar.zero < total := (Scalar.lt_iff_not_le Scalar.zero_isNaN hparts.2).mpr htotal
  have hzero := hamount (Scalar.not_isNaN_of_mul hparts.1).1
  exact Scalar.div_nonneg (Scalar.mul_nonneg hzero hclaim hparts.1) hpos hnan

/-- The side of the natural extent that a direction moves to. -/
def Beyond : Direction → Item α → α → Prop
  | grow, item, x => item.natural ≤ x
  | shrink, item, x => x ≤ item.natural

omit [Scalar.Rounded α] in
theorem beyond_bound (d : Direction) {item : Item α} (h : item.Proper) :
    d.Beyond item (d.bound item) := by
  cases d with
  | grow => exact h.natural_le_max
  | shrink => exact h.min_le_natural

theorem beyond_natural (d : Direction) {item : Item α} (h : item.Proper) :
    d.Beyond item item.natural := by
  have hle : item.natural ≤ item.natural := Scalar.le_refl (Scalar.not_isNaN_of_le h.natural_le_max).1
  cases d <;> exact hle

/-- **An offer lies on the side of the natural extent that its direction says**, unless it is no
number. -/
theorem beyond_target {d : Direction} {amount total : α} {item : Item α} (h : item.Proper)
    (hamount : Scalar.isNaN amount = false → Scalar.zero ≤ amount)
    (htotal : ¬ total ≤ Scalar.zero)
    (hnan : Scalar.isNaN (d.target amount total item) = false) :
    d.Beyond item (d.target amount total item) := by
  have hnatural := (Scalar.not_isNaN_of_le h.min_le_natural).2
  cases d with
  | grow =>
    -- the offer is no NaN, so its parts are none either
    have hpart := (Scalar.not_isNaN_of_add hnan).2
    exact Scalar.le_add_of_nonneg hnatural
      (zero_le_part hamount htotal h.zero_le_weight hpart) hnan
  | shrink =>
    have hpart := (Scalar.not_isNaN_of_sub hnan).2
    have hroom := (Scalar.not_isNaN_of_mul
      (Scalar.not_isNaN_of_div hpart (value_total_ne htotal)).1).2
    have hclaim := Scalar.sub_nonneg_of_le h.min_le_natural hroom
    exact Scalar.sub_le_of_nonneg hnatural (zero_le_part hamount htotal hclaim hpart) hnan

/-- **An offer that does not reach the bound keeps to both bounds**: to the one because it does not
reach it, to the other because it lies on the far side of the natural extent. -/
theorem fits_target {d : Direction} {amount total : α} {item : Item α} (h : item.Proper)
    (hamount : Scalar.isNaN amount = false → Scalar.zero ≤ amount)
    (htotal : ¬ total ≤ Scalar.zero)
    (hreaches : d.reaches item (d.target amount total item) = false) :
    item.Fits (d.target amount total item) := by
  cases hnan : Scalar.isNaN (d.target amount total item) with
  | true => exact Or.inl hnan
  | false =>
    have hbounds := Scalar.not_isNaN_of_le h.min_le_max
    have hbeyond := beyond_target h hamount htotal hnan
    right
    cases d with
    | grow =>
      exact ⟨Scalar.le_trans h.min_le_natural hbeyond,
        Scalar.le_of_not_le hnan hbounds.2 (of_decide_eq_false hreaches)⟩
    | shrink =>
      exact ⟨Scalar.le_of_not_le hbounds.1 hnan (of_decide_eq_false hreaches),
        Scalar.le_trans hbeyond h.natural_le_max⟩

/-! ## All offers -/

/-- An offer leaves a share that keeps to its bounds, whatever becomes of it. -/
theorem fits_offer {d : Direction} {amount total : α} {s : Share α} (hproper : s.item.Proper)
    (h : s.Fits) (hamount : Scalar.isNaN amount = false → Scalar.zero ≤ amount)
    (htotal : ¬ total ≤ Scalar.zero) :
    (d.offer amount total s).Fits := by
  unfold offer
  dsimp only
  split_ifs with hclosed hreaches
  · exact h
  · -- closed at its bound
    exact d.fits_bound hproper
  · exact fits_target hproper hamount htotal (by simpa using hreaches)

/-- **What the opening gives every item and every offer keeps, every share has in the end.** The
amounts offered are not negative, and the divisor is no zero. -/
theorem forall_run {P : Share α → Prop} {d : Direction} {epsilon : α} (available : α) (limit : ℕ)
    {items : List (Item α)} (hepsilon : Scalar.zero ≤ epsilon)
    (hopening : ∀ item ∈ items, P (d.opening item))
    (hoffer : ∀ {amount total : α} {s : Share α}, P s →
      (Scalar.isNaN amount = false → Scalar.zero ≤ amount) → ¬ total ≤ Scalar.zero →
      P (d.offer amount total s)) :
    ∀ s ∈ (d.run epsilon available limit (items.map d.opening)).shares, P s := by
  refine run_induction (P := fun shares => ∀ s ∈ shares, P s) ?_ ?_
  · intro s hs
    obtain ⟨item, hitem, rfl⟩ := List.mem_map.mp hs
    exact hopening item hitem
  · intro shares after report h hpassed
    obtain ⟨htotal, hamount, _, rfl⟩ := pass_eq_some_iff.mp hpassed
    -- an amount that a pass deals with exceeds the tolerance
    have hzero (hnan : Scalar.isNaN (d.amount available (used shares)) = false) :
        Scalar.zero ≤ d.amount available (used shares) :=
      Scalar.le_trans hepsilon
        (Scalar.le_of_not_le (Scalar.not_isNaN_of_le hepsilon).2 hnan hamount)
    intro offered hmem
    obtain ⟨s, hs, rfl⟩ := List.mem_map.mp hmem
    exact hoffer (h s hs) hzero htotal

/-- **Every pass leaves shares that keep to their bounds**, with any limit of passes. -/
theorem fits_run (d : Direction) {epsilon : α} (available : α) (limit : ℕ) {items : List (Item α)}
    (hepsilon : Scalar.zero ≤ epsilon) (hproper : ∀ item ∈ items, item.Proper) :
    ∀ s ∈ (d.run epsilon available limit (items.map d.opening)).shares, s.item.Proper ∧ s.Fits := by
  refine forall_run available limit hepsilon ?_ ?_
  · intro item hitem
    exact ⟨hproper item hitem, (hproper item hitem).fits_natural⟩
  · rintro amount total s ⟨hitem, hfits⟩ hamount htotal
    rw [item_offer]
    exact ⟨hitem, fits_offer hitem hfits hamount htotal⟩

/-- A direction is taken only if slack compares with the tolerance, so that this is a number. -/
theorem zero_le_epsilon_of_choose? {settings : Settings α} {items : List (Item α)} {available : α}
    {d : Direction} (hepsilon : ¬ settings.epsilon < Scalar.zero)
    (h : choose? settings items available = some d) : Scalar.zero ≤ settings.epsilon := by
  unfold choose? at h
  dsimp only at h
  -- both directions are taken by a comparison that a NaN would fail
  have hnan : Scalar.isNaN settings.epsilon = false := by
    split_ifs at h with hgrow hshrink
    · exact (Scalar.not_isNaN_of_lt hgrow.1).1
    · exact Scalar.not_isNaN_of_neg (Scalar.not_isNaN_of_lt hshrink).2
  exact Scalar.le_of_not_lt Scalar.zero_isNaN hnan hepsilon

end Direction

/-! ## The whole distribution -/

section Sizes

omit [Scalar.Rounded α]

variable {settings : Settings α} {items : List (Item α)} {available : α}

/-- With a direction, the sizes are those of the last pass. -/
theorem sizes_distribute_of_choose? {d : Direction}
    (h : Direction.choose? settings items available = some d) :
    (distribute settings items available).sizes =
      (d.run settings.epsilon available settings.maxPasses
        (items.map d.opening)).shares.map Share.size := by
  unfold distribute
  rw [h]
  rfl

/-- Without anything to share, every item keeps its natural extent. -/
theorem sizes_distribute_of_choose?_eq_none
    (h : Direction.choose? settings items available = none) :
    (distribute settings items available).sizes = items.map Item.natural := by
  unfold distribute
  rw [h]
  rfl

/-- What holds of every share holds of every item and its size. -/
theorem forall₂_sizes_distribute {P : Item α → α → Prop} {d : Direction}
    (hd : Direction.choose? settings items available = some d)
    (h : ∀ s ∈ (d.run settings.epsilon available settings.maxPasses (items.map d.opening)).shares,
      P s.item s.size) :
    List.Forall₂ P items (distribute settings items available).sizes := by
  have hitems := d.map_item_run settings.epsilon available settings.maxPasses items
  rw [sizes_distribute_of_choose? hd]
  generalize (d.run settings.epsilon available settings.maxPasses
    (items.map d.opening)).shares = shares at h hitems ⊢
  -- the items are those of the shares, so both lists can be taken from one
  rw [← hitems, List.forall₂_map_left_iff, List.forall₂_map_right_iff, List.forall₂_same]
  exact h

end Sizes

/-- **Every item gets an extent within its bounds, or none that is a number.** -/
theorem fits_distribute {settings : Settings α} {items : List (Item α)} (available : α)
    (hepsilon : ¬ settings.epsilon < Scalar.zero) (hproper : ∀ item ∈ items, item.Proper) :
    List.Forall₂ Item.Fits items (distribute settings items available).sizes := by
  cases hd : Direction.choose? settings items available with
  | none =>
    rw [sizes_distribute_of_choose?_eq_none hd, List.forall₂_map_right_iff, List.forall₂_same]
    exact fun item hitem => (hproper item hitem).fits_natural
  | some d =>
    have hzero := Direction.zero_le_epsilon_of_choose? hepsilon hd
    have hfits := d.fits_run available settings.maxPasses hzero hproper
    exact forall₂_sizes_distribute hd fun s hs => (hfits s hs).2

end BoxLayout
