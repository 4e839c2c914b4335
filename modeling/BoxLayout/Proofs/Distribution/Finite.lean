import Mathlib
import BoxLayout.Proofs.Distribution.Bounds

/-!
# Shares that are numbers

An offer is a product over a sum, and both can overflow where the share itself would be small. Whether
they do depends on all items at once. It is enough to look at each of them alone: an item that could be
offered the whole extent by itself is never offered more than that among others.

## The architecture

* **`Item.Tame`** — nothing overflows for any item by itself.
* **`isExtent_target_grow`** — alone an item is offered the most. This is where the order of rounded
  products and quotients matters.
* **`isFinite_offer_grow`**, **`isFinite_offer_shrink`** — one offer, in either direction.
* **`Direction.Numeric`**, **`Direction.Steady`** — what every pass keeps, of sizes that may be infinite
  and of sizes that are not; **`Steady.pass`** is the step.
* **`isFinite_distribute`** — so every share is a number.
-/

namespace BoxLayout

variable {α : Type} [Scalar α]

/-! ## Items -/

/-- The natural extent and the bounds of an item are in order, and its least extent and its weight are
numbers. -/
structure Item.Sound (item : Item α) : Prop extends item.Proper where
  min_isExtent : Scalar.isExtent item.min = true
  weight_isExtent : Scalar.isExtent item.weight = true

theorem Item.sound_iff {item : Item α} :
    item.Sound ↔ item.min ≤ item.natural ∧ item.natural ≤ item.max ∧ Scalar.zero ≤ item.weight ∧
      Scalar.isExtent item.min = true ∧ Scalar.isExtent item.weight = true :=
  ⟨fun h => ⟨h.min_le_natural, h.natural_le_max, h.zero_le_weight, h.min_isExtent, h.weight_isExtent⟩,
    fun ⟨hmin, hmax, hweight, hleast, hnumber⟩ => ⟨⟨hmin, hmax, hweight⟩, hleast, hnumber⟩⟩

instance (item : Item α) : Decidable item.Sound := decidable_of_iff _ Item.sound_iff.symm

/-- Sharing out at most an extent among items overflows nowhere: their natural extents add up to a
number, and whoever grows could take the whole extent alone, or else has a bound to stop at and weighs
a part of a total that is a number. -/
structure Item.Tame (extent : α) (items : List (Item α)) : Prop where
  naturals : Scalar.isFinite (Scalar.sum (items.map Item.natural)) = true
  growing : ∀ item ∈ items, Scalar.zero < item.weight →
    Scalar.isFinite (Direction.grow.target extent item.weight item) = true ∨
      Scalar.isFinite item.max = true ∧
        Scalar.isFinite (Scalar.sum (items.map Item.weight)) = true

/-! ## One offer -/

variable [Scalar.Rounded α] {d : Direction} {item : Item α} {items : List (Item α)}
  {extent available amount total : α}

theorem Item.Sound.zero_le_natural (h : item.Sound) : Scalar.zero ≤ item.natural :=
  Scalar.le_trans (Scalar.isExtent_iff.mp h.min_isExtent).2 h.min_le_natural

/-- Natural extents that add up to a number are numbers. -/
theorem Item.natural_isExtent (hsound : ∀ i ∈ items, i.Sound)
    (hsum : Scalar.isFinite (Scalar.sum (items.map Item.natural)) = true) (hitem : item ∈ items) :
    Scalar.isExtent item.natural = true :=
  Scalar.isExtent_of_le (hsound item hitem).zero_le_natural
    (Scalar.le_sum_map (fun i hi => (hsound i hi).zero_le_natural) hitem) hsum

namespace Direction

/-- An item that takes part has a claim, which is a number above zero. -/
theorem zero_lt_claim (hsound : item.Sound) (hnatural : Scalar.isExtent item.natural = true)
    (hexempt : d.exempt item = false) :
    Scalar.isExtent (d.claim item) = true ∧ Scalar.zero < d.claim item := by
  cases d with
  | grow =>
    have hnan := (Scalar.not_isNaN_of_le hsound.zero_le_weight).2
    rw [exempt, Bool.or_eq_false_iff, decide_eq_false_iff_not] at hexempt
    exact ⟨hsound.weight_isExtent, (Scalar.lt_iff_not_le Scalar.zero_isNaN hnan).mpr hexempt.1⟩
  | shrink =>
    obtain ⟨hfinite, hzero⟩ := Scalar.isExtent_iff.mp hnatural
    have hmin := (Scalar.isExtent_iff.mp hsound.min_isExtent).2
    -- the room is a difference of numbers, at most the natural extent
    have hlt := Scalar.lt_infinity_of_le (Scalar.le_refl (Scalar.isNaN_of_isFinite hfinite)) hfinite
    have hnan := (Scalar.isNaN_sub hlt hmin).1
    have hle := Scalar.sub_le_of_nonneg (Scalar.isNaN_of_isFinite hfinite) hmin hnan
    rw [exempt, decide_eq_false_iff_not] at hexempt
    exact ⟨Scalar.isExtent_of_le (Scalar.sub_nonneg_of_le hsound.min_le_natural hnan) hle hfinite,
      (Scalar.lt_iff_not_le Scalar.zero_isNaN hnan).mpr hexempt⟩

/-- What an amount contributes to an offer is a number, or infinite, if the total is one. -/
theorem part_nonneg {claim : α} (hamount : Scalar.zero ≤ amount)
    (hclaim : Scalar.isExtent claim = true) (hpos : Scalar.zero < claim)
    (htotal : Scalar.isExtent total = true) (hle : claim ≤ total) :
    Scalar.zero ≤ amount * claim / total := by
  have hmul := Scalar.isNaN_mul hamount hclaim hpos
  have hproduct := Scalar.mul_nonneg hamount (Scalar.le_of_lt hpos) hmul
  have htotal0 := Scalar.lt_of_lt_of_le hpos hle
  exact Scalar.div_nonneg hproduct htotal0 (Scalar.isNaN_div hproduct htotal htotal0)

/-- Alone an item is offered the most, so that no share of it overflows if this does not. -/
theorem isExtent_target_grow (hsound : item.Sound)
    (hpos : Scalar.zero < item.weight) (hextent : Scalar.isExtent extent = true)
    (hamount : Scalar.zero ≤ amount) (hle : amount ≤ extent) (htotal : item.weight ≤ total)
    (halone : Scalar.isFinite (grow.target extent item.weight item) = true) :
    Scalar.isExtent (grow.target amount total item) = true := by
  obtain ⟨hfinite, hzero⟩ := Scalar.isExtent_iff.mp hextent
  have hweight := hsound.weight_isExtent
  have hrefl := Scalar.le_refl (Scalar.not_isNaN_of_lt hpos).2
  have hwhole := part_nonneg hzero hweight hpos hweight hrefl
  have hproduct := Scalar.mul_nonneg hzero (Scalar.le_of_lt hpos) (Scalar.isNaN_mul hzero hweight hpos)
  -- the whole extent has a product with the weight that is a number, and so has every part of it
  have hbound : Scalar.isExtent (extent * item.weight) = true :=
    Scalar.isExtent_of_div hproduct hweight hpos (Scalar.isExtent_iff.mp
      (Scalar.isExtent_of_le hwhole (Scalar.le_add_left hsound.zero_le_natural hwhole) halone)).1
  have hamounts := Scalar.isExtent_of_le hamount hle hfinite
  have hmul := Scalar.mul_le_mul_right hamounts hextent hle hweight
  have hpart : Scalar.isExtent (amount * item.weight) = true :=
    Scalar.isExtent_of_le (Scalar.mul_nonneg hamount (Scalar.le_of_lt hpos)
      (Scalar.isNaN_mul hamount hweight hpos)) hmul (Scalar.isExtent_iff.mp hbound).1
  -- a smaller amount over a larger total is a smaller part
  have hdiv := Scalar.div_le_div hpart hbound hmul hweight hpos htotal
  have hnonneg := Scalar.div_nonneg (Scalar.isExtent_iff.mp hpart).2
    (Scalar.lt_of_lt_of_le hpos htotal) (Scalar.not_isNaN_of_le hdiv).1
  exact Scalar.isExtent_of_le (Scalar.add_nonneg hsound.zero_le_natural hnonneg)
    (Scalar.add_le_add_left hsound.zero_le_natural hnonneg hdiv) halone

/-- An offer is a number unless the item is closed at a bound that is none. -/
theorem isNaN_target (hsound : item.Sound) (hnatural : Scalar.isExtent item.natural = true)
    (hexempt : d.exempt item = false) (hamount : Scalar.zero ≤ amount)
    (htotal : Scalar.isExtent total = true) (hle : d.claim item ≤ total) :
    Scalar.isNaN (d.target amount total item) = false := by
  obtain ⟨hclaim, hpos⟩ := zero_lt_claim hsound hnatural hexempt
  have hpart := part_nonneg hamount hclaim hpos htotal hle
  obtain ⟨hfinite, hzero⟩ := Scalar.isExtent_iff.mp hnatural
  cases d with
  -- a sum of lengths is always a number
  | grow => exact (Scalar.not_isNaN_of_le (Scalar.add_nonneg hzero hpart)).2
  | shrink =>
    have hlt := Scalar.lt_infinity_of_le (Scalar.le_refl (Scalar.isNaN_of_isFinite hfinite)) hfinite
    exact (Scalar.isNaN_sub hlt hpart).1

/-- An offer that leaves the item open keeps to both bounds. -/
theorem fits_offered (hsound : item.Sound) (hamount : Scalar.zero ≤ amount)
    (hexempt : d.exempt item = false) (hnatural : Scalar.isExtent item.natural = true)
    (hle : d.claim item ≤ total) (hreaches : ¬ d.reaches item (d.target amount total item) = true) :
    item.Fits (d.target amount total item) := by
  have hpos := Scalar.lt_of_lt_of_le (zero_lt_claim hsound hnatural hexempt).2 hle
  have htotal := (Scalar.lt_iff_not_le Scalar.zero_isNaN (Scalar.not_isNaN_of_le hle).2).mp hpos
  exact fits_target hsound.toProper (fun _ => hamount) htotal (by simpa using hreaches)

/-- **An item that grows ends up with a number**, if it could take the whole extent alone, or has a
bound to stop at and weighs a part of a number. -/
theorem isFinite_offer_grow (hsound : item.Sound) (hnatural : Scalar.isExtent item.natural = true)
    (hexempt : grow.exempt item = false) (hextent : Scalar.isExtent extent = true)
    (hamount : Scalar.zero ≤ amount) (hle : amount ≤ extent) (hclaim : item.weight ≤ total)
    (hgrowing : Scalar.isFinite (grow.target extent item.weight item) = true ∨
      Scalar.isFinite item.max = true ∧ Scalar.isExtent total = true) (size : α) :
    Scalar.isFinite (grow.offer amount total ⟨item, size, false⟩).size = true := by
  have hmax0 : Scalar.zero ≤ item.max :=
    Scalar.le_trans (Scalar.isExtent_iff.mp hsound.min_isExtent).2 hsound.toProper.min_le_max
  unfold offer
  simp only [Bool.false_eq_true, if_false]
  -- either the target is finite by itself, or the maximum caps it
  rcases hgrowing with halone | ⟨hmax, htotal⟩
  · have hpos : Scalar.zero < item.weight := (zero_lt_claim hsound hnatural hexempt).2
    have htarget := Scalar.isExtent_iff.mp
      (isExtent_target_grow hsound hpos hextent hamount hle hclaim halone)
    split_ifs with hreaches
    · -- a bound that is reached lies below the target
      have hmax := Scalar.isExtent_of_le hmax0 (of_decide_eq_true hreaches) htarget.1
      exact (Scalar.isExtent_iff.mp hmax).1
    · exact htarget.1
  · have hnan := isNaN_target hsound hnatural hexempt hamount htotal hclaim
    split_ifs with hreaches
    · exact hmax
    · have hfits := fits_offered hsound hamount hexempt hnatural hclaim hreaches
      rcases hfits with h | ⟨hmin, hle⟩
      · exact absurd (hnan.symm.trans h) Bool.false_ne_true
      · exact (Scalar.isExtent_iff.mp (Scalar.isExtent_of_le (Scalar.le_trans
          (Scalar.isExtent_iff.mp hsound.min_isExtent).2 hmin) hle hmax)).1

/-- **An item that shrinks ends up with a number.** -/
theorem isFinite_offer_shrink (hsound : item.Sound) (hnatural : Scalar.isExtent item.natural = true)
    (hexempt : shrink.exempt item = false) (hamount : Scalar.zero ≤ amount)
    (hclaim : shrink.claim item ≤ total) (htotal : Scalar.isExtent total = true) (size : α) :
    Scalar.isFinite (shrink.offer amount total ⟨item, size, false⟩).size = true := by
  have hnan := isNaN_target hsound hnatural hexempt hamount htotal hclaim
  obtain ⟨hclaims, hpos⟩ := zero_lt_claim hsound hnatural hexempt
  unfold offer
  simp only [Bool.false_eq_true, if_false]
  split_ifs with hreaches
  · exact (Scalar.isExtent_iff.mp hsound.min_isExtent).1
  · rcases fits_offered hsound hamount hexempt hnatural hclaim hreaches with h | ⟨hmin, -⟩
    · exact absurd (hnan.symm.trans h) Bool.false_ne_true
    · -- what shrinks is at most its natural extent
      have hle := Scalar.sub_le_of_nonneg
        (Scalar.isNaN_of_isFinite (Scalar.isExtent_iff.mp hnatural).1)
        (part_nonneg hamount hclaims hpos htotal hclaim) hnan
      exact (Scalar.isExtent_iff.mp (Scalar.isExtent_of_le (Scalar.le_trans
        (Scalar.isExtent_iff.mp hsound.min_isExtent).2 hmin) hle (Scalar.isExtent_iff.mp hnatural).1)).1

/-! ## All passes -/

/-- What every pass keeps, also if shares are infinite: the items, sizes between their bounds, and that
only those take part who did from the start. -/
structure Numeric (d : Direction) (items : List (Item α)) (shares : List (Share α)) : Prop where
  items_eq : shares.map Share.item = items
  within : ∀ s ∈ shares, s.item.min ≤ s.size ∧ s.size ≤ s.item.max
  taking : ∀ s ∈ shares, s.closed = false → d.exempt s.item = false

/-- What every pass keeps: the items, sizes that are numbers, and that only those take part who did
from the start. -/
structure Steady (d : Direction) (items : List (Item α)) (shares : List (Share α)) : Prop where
  items_eq : shares.map Share.item = items
  fits : ∀ s ∈ shares, s.Fits
  finite : ∀ s ∈ shares, Scalar.isFinite s.size = true
  taking : ∀ s ∈ shares, s.closed = false → d.exempt s.item = false

variable {shares : List (Share α)}

/-- Sizes that are numbers keep to their bounds. -/
theorem Steady.numeric (h : Steady d items shares) : Numeric d items shares where
  items_eq := h.items_eq
  within s hs := (h.fits s hs).resolve_left fun hnan =>
    Bool.false_ne_true ((Scalar.isNaN_of_isFinite (h.finite s hs)).symm.trans hnan)
  taking := h.taking

omit [Scalar.Rounded α] in
/-- A share that an offer leaves open was open before. -/
theorem closed_of_offer {s : Share α} (h : (d.offer amount total s).closed = false) :
    s.closed = false := by
  unfold offer at h
  dsimp only at h
  split_ifs at h <;> assumption

namespace Numeric

omit [Scalar.Rounded α] in
theorem mem_items (h : Numeric d items shares) {s : Share α} (hs : s ∈ shares) : s.item ∈ items :=
  h.items_eq ▸ List.mem_map_of_mem hs

/-- The extent that is used is a sum of lengths. -/
theorem zero_le_used (h : Numeric d items shares) (hsound : ∀ i ∈ items, i.Sound) :
    Scalar.zero ≤ used shares := by
  refine Scalar.sum_map_nonneg fun s hs => ?_
  have hitem := hsound _ (h.mem_items hs)
  split_ifs
  · exact Scalar.le_trans (Scalar.isExtent_iff.mp hitem.min_isExtent).2 (h.within s hs).1
  · exact hitem.zero_le_natural

/-- A pass that does not stop before the tolerance deals with an amount that is not negative. -/
theorem zero_le_amount (h : Numeric d items shares) (hsound : ∀ i ∈ items, i.Sound) {epsilon : α}
    (hepsilon : Scalar.zero ≤ epsilon) (havailable : available < Scalar.infinity)
    (hamount : ¬ d.amount available (used shares) ≤ epsilon) :
    Scalar.zero ≤ d.amount available (used shares) := by
  have hsub := Scalar.isNaN_sub havailable (h.zero_le_used hsound)
  have hnan : Scalar.isNaN (d.amount available (used shares)) = false := by
    cases d with
    | grow => exact hsub.1
    | shrink => exact hsub.2
  exact Scalar.le_trans hepsilon
    (Scalar.le_of_not_le (Scalar.not_isNaN_of_le hepsilon).2 hnan hamount)

/-- Every claim is a part of their sum, which is at most the sum of any larger quantity over all
items. -/
theorem totalClaim_le (h : Numeric d items shares) {f : Item α → α}
    (hclaims : ∀ i ∈ items, Scalar.zero ≤ f i ∧
      (d.exempt i = false → Scalar.zero ≤ d.claim i ∧ d.claim i ≤ f i)) :
    (∀ s ∈ shares, s.closed = false → d.claim s.item ≤ d.totalClaim shares) ∧
      Scalar.zero ≤ d.totalClaim shares ∧ d.totalClaim shares ≤ Scalar.sum (items.map f) := by
  have hopen : ∀ s ∈ shares, Scalar.zero ≤ f s.item ∧ ((!s.closed) = true →
      Scalar.zero ≤ d.claim s.item ∧ d.claim s.item ≤ f s.item) := fun s hs =>
    ⟨(hclaims _ (h.mem_items hs)).1, fun hopen =>
      (hclaims _ (h.mem_items hs)).2 (h.taking s hs (by simpa using hopen))⟩
  refine ⟨fun s hs hclosed => ?_, ?_⟩
  · -- an open share is one of those that are summed
    have hmem : s ∈ shares.filter fun s => !s.closed := List.mem_filter.mpr ⟨hs, by rw [hclosed]; rfl⟩
    refine Scalar.le_sum_map (f := fun s : Share α => d.claim s.item) (fun s hs => ?_) hmem
    obtain ⟨hs, hopened⟩ := List.mem_filter.mp hs
    exact ((hopen s hs).2 hopened).1
  · have hsum := Scalar.sum_filter_map_le (g := fun s : Share α => f s.item) hopen
    have hmap : shares.map (fun s : Share α => f s.item) = items.map f := by
      rw [← h.items_eq, List.map_map]
      rfl
    rwa [hmap] at hsum

/-- Whoever grows claims a part of all weights. -/
theorem totalClaim_grow (h : Numeric grow items shares) (hsound : ∀ i ∈ items, i.Sound) :
    (∀ s ∈ shares, s.closed = false → s.item.weight ≤ grow.totalClaim shares) ∧
      Scalar.zero ≤ grow.totalClaim shares ∧
      grow.totalClaim shares ≤ Scalar.sum (items.map Item.weight) :=
  h.totalClaim_le fun i hi =>
    have hweight := Scalar.isExtent_iff.mp (hsound i hi).weight_isExtent
    ⟨hweight.2, fun _ => ⟨hweight.2, Scalar.le_refl (Scalar.isNaN_of_isFinite hweight.1)⟩⟩

/-- Whoever shrinks claims a part of all natural extents. -/
theorem totalClaim_shrink (h : Numeric shrink items shares) (hsound : ∀ i ∈ items, i.Sound)
    (hnatural : ∀ i ∈ items, Scalar.isExtent i.natural = true) :
    (∀ s ∈ shares, s.closed = false → shrink.claim s.item ≤ shrink.totalClaim shares) ∧
      Scalar.zero ≤ shrink.totalClaim shares ∧
      shrink.totalClaim shares ≤ Scalar.sum (items.map Item.natural) := by
  refine h.totalClaim_le fun i hi => ⟨(hsound i hi).zero_le_natural, fun hexempt => ?_⟩
  obtain ⟨hclaim, hpos⟩ := zero_lt_claim (hsound i hi) (hnatural i hi) hexempt
  exact ⟨Scalar.le_of_lt hpos, Scalar.sub_le_of_nonneg
    (Scalar.isNaN_of_isFinite (Scalar.isExtent_iff.mp (hnatural i hi)).1)
    (Scalar.isExtent_iff.mp (hsound i hi).min_isExtent).2
    (Scalar.isNaN_of_isFinite (Scalar.isExtent_iff.mp hclaim).1)⟩

end Numeric

theorem Steady.finite_offer (h : Steady d items shares) (hsound : ∀ i ∈ items, i.Sound)
    (htame : Item.Tame extent items) (hextent : Scalar.isExtent extent = true)
    (hamount : Scalar.zero ≤ amount) (hle : d = .grow → amount ≤ extent) {s : Share α}
    (hs : s ∈ shares) :
    Scalar.isFinite (d.offer amount (d.totalClaim shares) s).size = true := by
  have hitem := h.numeric.mem_items hs
  have hnatural : ∀ i ∈ items, Scalar.isExtent i.natural = true := fun i hi =>
    Item.natural_isExtent hsound htame.naturals hi
  have hclosed := h.taking s hs
  have hfinite := h.finite s hs
  obtain ⟨item, size, closed⟩ := s
  cases closed with
  | true => exact hfinite
  | false =>
    have hexempt := hclosed rfl
    cases d with
    | grow =>
      obtain ⟨hclaim, hzero, htotal⟩ := h.numeric.totalClaim_grow hsound
      have hpos := (zero_lt_claim (hsound item hitem) (hnatural item hitem) hexempt).2
      refine isFinite_offer_grow (hsound item hitem) (hnatural item hitem) hexempt hextent hamount
        (hle rfl) (hclaim _ hs rfl) ?_ size
      exact (htame.growing item hitem hpos).imp id fun hsum =>
        ⟨hsum.1, Scalar.isExtent_of_le hzero htotal hsum.2⟩
    | shrink =>
      obtain ⟨hclaim, hzero, htotal⟩ := h.numeric.totalClaim_shrink hsound hnatural
      exact isFinite_offer_shrink (hsound item hitem) (hnatural item hitem) hexempt hamount
        (hclaim _ hs rfl) (Scalar.isExtent_of_le hzero htotal htame.naturals) size

theorem Steady.pass {epsilon : α} {after : List (Share α)} {report : PassReport α}
    (h : Steady d items shares) (hsound : ∀ i ∈ items, i.Sound) (htame : Item.Tame extent items)
    (hextent : Scalar.isExtent extent = true) (havailable : available ≤ extent)
    (hepsilon : Scalar.zero ≤ epsilon)
    (hpassed : d.pass epsilon available shares = some (report, after)) : Steady d items after := by
  obtain ⟨htotal, hamount, _, rfl⟩ := pass_eq_some_iff.mp hpassed
  have hlt := Scalar.lt_infinity_of_le havailable (Scalar.isExtent_iff.mp hextent).1
  have hzero := h.numeric.zero_le_amount hsound hepsilon hlt hamount
  have hle : d = .grow → d.amount available (used shares) ≤ extent := by
    rintro rfl
    exact Scalar.le_trans (Scalar.sub_le_of_nonneg (Scalar.not_isNaN_of_le havailable).1
      (h.numeric.zero_le_used hsound) (Scalar.not_isNaN_of_le hzero).2) havailable
  refine ⟨?_, ?_, ?_, ?_⟩
  · rw [map_item_offer, h.items_eq]
  · intro offered hmem
    obtain ⟨s, hs, rfl⟩ := List.mem_map.mp hmem
    exact fits_offer (hsound _ (h.numeric.mem_items hs)).toProper (h.fits s hs) (fun _ => hzero) htotal
  · intro offered hmem
    obtain ⟨s, hs, rfl⟩ := List.mem_map.mp hmem
    exact h.finite_offer hsound htame hextent hzero hle hs
  · intro offered hmem hopen
    obtain ⟨s, hs, rfl⟩ := List.mem_map.mp hmem
    rw [item_offer]
    exact h.taking s hs (closed_of_offer hopen)

omit [Scalar.Rounded α] in
theorem steady_opening (hproper : ∀ i ∈ items, i.Proper)
    (hnatural : ∀ i ∈ items, Scalar.isFinite i.natural = true) :
    Steady d items (items.map d.opening) where
  items_eq := by
    rw [List.map_map]
    exact List.map_id _
  fits s hs := by
    obtain ⟨i, hi, rfl⟩ := List.mem_map.mp hs
    exact (hproper i hi).fits_natural
  finite s hs := by
    obtain ⟨i, hi, rfl⟩ := List.mem_map.mp hs
    exact hnatural i hi
  taking s hs hopen := by
    obtain ⟨i, hi, rfl⟩ := List.mem_map.mp hs
    exact hopen

/-- A direction is taken only if there is an extent to share out. -/
theorem isNaN_available_of_choose? {settings : Settings α}
    (h : choose? settings items available = some d) : Scalar.isNaN available = false := by
  unfold choose? at h
  dsimp only at h
  split_ifs at h with hgrow hshrink
  · exact (Scalar.not_isNaN_of_sub (Scalar.not_isNaN_of_lt hgrow.1).2).1
  · exact (Scalar.not_isNaN_of_sub (Scalar.not_isNaN_of_lt hshrink).1).1

end Direction

/-! ## The whole distribution -/

/-- **Every share is a number**, if none of the items would overflow by itself. -/
theorem isFinite_distribute {settings : Settings α} (hepsilon : ¬ settings.epsilon < Scalar.zero)
    (hsound : ∀ i ∈ items, i.Sound) (htame : Item.Tame extent items)
    (hextent : Scalar.isExtent extent = true)
    (havailable : Scalar.isNaN available = false → available ≤ extent) :
    ∀ size ∈ (distribute settings items available).sizes, Scalar.isFinite size = true := by
  have hnatural : ∀ i ∈ items, Scalar.isFinite i.natural = true := fun i hi =>
    (Scalar.isExtent_iff.mp (Item.natural_isExtent hsound htame.naturals hi)).1
  unfold distribute
  cases hd : Direction.choose? settings items available with
  | none =>
    intro size hsize
    obtain ⟨i, hi, rfl⟩ := List.mem_map.mp hsize
    exact hnatural i hi
  | some d =>
    have hzero := Direction.zero_le_epsilon_of_choose? hepsilon hd
    have hle := havailable (Direction.isNaN_available_of_choose? hd)
    have hsteady : Direction.Steady d items (d.run settings.epsilon available settings.maxPasses
        (items.map d.opening)).shares :=
      Direction.run_induction
        (Direction.steady_opening (fun i hi => (hsound i hi).toProper) hnatural)
        fun h => h.pass hsound htame hextent hle hzero
    intro size hsize
    obtain ⟨s, hs, rfl⟩ := List.mem_map.mp hsize
    exact hsteady.finite s hs

end BoxLayout
