import Mathlib
import BoxLayout.Proofs.Distribution.Finite
import BoxLayout.Proofs.Scalar.Single

/-!
# Distribution stays in bounds

Nothing brings a size back within the bounds of its item: growing stops at the maximum, shrinking at
the minimum, and the other bound is kept because a share moves to one side only. With rounding, with
infinite room and with infinite maxima a size can also be no number. It is one whenever the natural
extents and the weights add up to numbers.

## The architecture

* **`Share.Moved`**, **`moved_run`** — to which side of its natural extent a share can have gone, and
  that an item which takes no part has not moved at all.
* **`Numeric.pass`**, **`numeric_run`** — sizes are numbers after every pass over a room below infinity.
* **`closed_of_infinity`**, **`numeric_run_of_infinity`** — an infinite room is dealt out by the first
  pass, which leaves every item that grows at its maximum.
* **`Bounded`**, **`bounded_distribute`** — all that is shown of sizes that are 32-bit floats.
-/

namespace BoxLayout

variable {α : Type} [Scalar α]

/-! ## To one side -/

/-- Where a share can have gone from the natural extent of its item: only to the side that the
direction says, and nowhere at all if the item takes no part. -/
structure Share.Moved (d : Direction) (s : Share α) : Prop where
  beyond : Scalar.isNaN s.size = false → d.Beyond s.item s.size
  stays : d.exempt s.item = true → s.closed = true ∧ s.size = s.item.natural

/-- The natural extents add up to a number, and so do the weights. -/
structure Item.Summable (items : List (Item α)) : Prop where
  naturals : Scalar.isFinite (Scalar.sum (items.map Item.natural)) = true
  weights : Scalar.isFinite (Scalar.sum (items.map Item.weight)) = true

variable [Scalar.Rounded α] {d : Direction} {item : Item α} {items : List (Item α)}
  {shares : List (Share α)} {available epsilon amount total : α}

namespace Direction

theorem moved_offer {s : Share α} (hproper : s.item.Proper) (h : s.Moved d)
    (hamount : Scalar.isNaN amount = false → Scalar.zero ≤ amount)
    (htotal : ¬ total ≤ Scalar.zero) : (d.offer amount total s).Moved d := by
  have hstays (hopen : s.closed = false) : d.exempt s.item ≠ true := fun hexempt =>
    Bool.false_ne_true (hopen.symm.trans (h.stays hexempt).1)
  unfold offer
  dsimp only
  split_ifs with hclosed hreaches
  · exact h
  · exact ⟨fun _ => d.beyond_bound hproper, fun hexempt => absurd hexempt (hstays (by simpa using hclosed))⟩
  · exact ⟨beyond_target hproper hamount htotal,
      fun hexempt => absurd hexempt (hstays (by simpa using hclosed))⟩

/-- **No pass moves a share to the other side**, whatever is rounded, and none moves an item that
takes no part. -/
theorem moved_run (available : α) (limit : ℕ) (hepsilon : Scalar.zero ≤ epsilon)
    (hproper : ∀ item ∈ items, item.Proper) :
    ∀ s ∈ (d.run epsilon available limit (items.map d.opening)).shares, s.item.Proper ∧ s.Moved d := by
  refine forall_run available limit hepsilon ?_ ?_
  · intro item hitem
    exact ⟨hproper item hitem, fun _ => d.beyond_natural (hproper item hitem), fun h => ⟨h, rfl⟩⟩
  · rintro amount total s ⟨hitem, hmoved⟩ hamount htotal
    rw [item_offer]
    exact ⟨hitem, moved_offer hitem hmoved hamount htotal⟩

/-! ## Sizes that are numbers -/

namespace Numeric

/-- What is claimed adds up to a number, of which each claim is a part. -/
theorem isExtent_totalClaim (h : Numeric d items shares) (hsound : ∀ i ∈ items, i.Sound)
    (hsum : Item.Summable items) :
    Scalar.isExtent (d.totalClaim shares) = true ∧
      ∀ s ∈ shares, s.closed = false → d.claim s.item ≤ d.totalClaim shares := by
  cases d with
  | grow =>
    obtain ⟨hclaim, hzero, hle⟩ := h.totalClaim_grow hsound
    exact ⟨Scalar.isExtent_of_le hzero hle hsum.weights, hclaim⟩
  | shrink =>
    obtain ⟨hclaim, hzero, hle⟩ := h.totalClaim_shrink hsound fun i hi =>
      Item.natural_isExtent hsound hsum.naturals hi
    exact ⟨Scalar.isExtent_of_le hzero hle hsum.naturals, hclaim⟩

theorem isNaN_offer (h : Numeric d items shares) (hsound : ∀ i ∈ items, i.Sound)
    (hsum : Item.Summable items) (hamount : Scalar.zero ≤ amount) {s : Share α} (hs : s ∈ shares) :
    Scalar.isNaN (d.offer amount (d.totalClaim shares) s).size = false := by
  have hitem := hsound _ (h.mem_items hs)
  have hbounds := Scalar.not_isNaN_of_le hitem.toProper.min_le_max
  obtain ⟨htotal, hclaim⟩ := h.isExtent_totalClaim hsound hsum
  unfold offer
  dsimp only
  split_ifs with hclosed hreaches
  · exact (Scalar.not_isNaN_of_le (h.within s hs).1).2
  · cases d with
    | grow => exact hbounds.2
    | shrink => exact hbounds.1
  · have hopen : s.closed = false := by simpa using hclosed
    exact isNaN_target hitem (Item.natural_isExtent hsound hsum.naturals (h.mem_items hs))
      (h.taking s hs hopen) hamount htotal (hclaim s hs hopen)

/-- The step: every offer of an amount from zero upwards is a number within bounds. -/
theorem pass {after : List (Share α)} {report : PassReport α} (h : Numeric d items shares)
    (hsound : ∀ i ∈ items, i.Sound) (hsum : Item.Summable items)
    (hamount : ¬ d.amount available (used shares) ≤ epsilon →
      Scalar.zero ≤ d.amount available (used shares))
    (hpassed : d.pass epsilon available shares = some (report, after)) : Numeric d items after := by
  obtain ⟨htotal, hmore, _, rfl⟩ := pass_eq_some_iff.mp hpassed
  refine ⟨?_, ?_, ?_⟩
  · rw [map_item_offer, h.items_eq]
  · intro offered hmem
    obtain ⟨s, hs, rfl⟩ := List.mem_map.mp hmem
    have hfits := fits_offer (d := d) (hsound _ (h.mem_items hs)).toProper (Or.inr (h.within s hs))
      (fun _ => hamount hmore) htotal
    refine hfits.resolve_left fun hnan => Bool.false_ne_true ?_
    exact (h.isNaN_offer hsound hsum (hamount hmore) hs).symm.trans hnan
  · intro offered hmem hopen
    obtain ⟨s, hs, rfl⟩ := List.mem_map.mp hmem
    rw [item_offer]
    exact h.taking s hs (closed_of_offer hopen)

end Numeric

theorem numeric_opening (hsound : ∀ i ∈ items, i.Sound) (hsum : Item.Summable items) :
    Numeric d items (items.map d.opening) :=
  (steady_opening (fun i hi => (hsound i hi).toProper) fun _ hi =>
    (Scalar.isExtent_iff.mp (Item.natural_isExtent hsound hsum.naturals hi)).1).numeric

/-- **A room below infinity gives every item a number**, in either direction. -/
theorem numeric_run (limit : ℕ) (hsound : ∀ i ∈ items, i.Sound) (hsum : Item.Summable items)
    (hepsilon : Scalar.zero ≤ epsilon) (havailable : available < Scalar.infinity) :
    Numeric d items (d.run epsilon available limit (items.map d.opening)).shares :=
  run_induction (numeric_opening hsound hsum) fun h =>
    h.pass hsound hsum (h.zero_le_amount hsound hepsilon havailable)

/-! ## Infinite room -/

/-- An infinite part takes an item to its maximum, even to an infinite one. -/
theorem reaches_of_infinity (hsound : item.Sound) (hnatural : Scalar.isExtent item.natural = true)
    (hexempt : grow.exempt item = false) (hamount : Scalar.infinity ≤ amount)
    (htotal : Scalar.isExtent total = true) (hle : item.weight ≤ total) :
    grow.reaches item (grow.target amount total item) = true := by
  obtain ⟨hweight, hpos⟩ := zero_lt_claim hsound hnatural hexempt
  have hpart : Scalar.infinity ≤ amount * item.weight / total :=
    Scalar.infinity_le_div (Scalar.infinity_le_mul hamount hweight hpos) htotal
      (Scalar.lt_of_lt_of_le hpos hle)
  have hmax := Scalar.le_infinity (Scalar.not_isNaN_of_le hsound.natural_le_max).2
  exact decide_eq_true (Scalar.le_trans hmax (Scalar.infinity_le_add hsound.zero_le_natural hpart))

omit [Scalar.Rounded α] in
theorem used_opening (d : Direction) (items : List (Item α)) :
    used (items.map d.opening) = Scalar.sum (items.map Item.natural) := by
  unfold used
  rw [List.map_map]
  refine congrArg Scalar.sum (List.map_congr_left fun item _ => ?_)
  exact ite_self item.natural

/-- A pass that shares out an infinite amount closes every item. -/
theorem closed_of_infinity (h : Numeric grow items shares) (hsound : ∀ i ∈ items, i.Sound)
    (hsum : Item.Summable items) (hamount : Scalar.infinity ≤ amount) :
    ∀ s ∈ shares.map (grow.offer amount (grow.totalClaim shares)), s.closed = true := by
  obtain ⟨htotal, hclaim⟩ := h.isExtent_totalClaim hsound hsum
  intro offered hmem
  obtain ⟨s, hs, rfl⟩ := List.mem_map.mp hmem
  unfold offer
  dsimp only
  split_ifs with hclosed hreaches
  · exact hclosed
  · rfl
  · have hopen : s.closed = false := by simpa using hclosed
    exact absurd (reaches_of_infinity (hsound _ (h.mem_items hs))
      (Item.natural_isExtent hsound hsum.naturals (h.mem_items hs)) (h.taking s hs hopen) hamount
      htotal (hclaim s hs hopen)) hreaches

/-- **An infinite room gives every item a number**: the first pass ends the growing, for what would be
left is infinite again and the next offer to an open item might be none. -/
theorem numeric_run_of_infinity (limit : ℕ) (hsound : ∀ i ∈ items, i.Sound)
    (hsum : Item.Summable items) (havailable : Scalar.infinity ≤ available) :
    Numeric grow items (grow.run epsilon available limit (items.map grow.opening)).shares := by
  have hopening : Numeric grow items (items.map grow.opening) := numeric_opening hsound hsum
  cases limit with
  | zero => exact hopening
  | succ limit =>
    unfold run
    cases hpassed : grow.pass epsilon available (items.map grow.opening) with
    | none => exact hopening
    | some result =>
      obtain ⟨report, after⟩ := result
      have hamount : Scalar.infinity ≤
          grow.amount available (used (items.map grow.opening)) := by
        rw [used_opening]
        exact Scalar.infinity_le_sub havailable hsum.naturals
      have hnumeric : Numeric grow items after := hopening.pass hsound hsum
        (fun _ => Scalar.le_trans Scalar.zero_le_infinity hamount) hpassed
      -- an unlimited amount closes every item in the first pass, and there is no second
      have hclosed : ∀ s ∈ after, s.closed = true := by
        obtain ⟨_, _, _, rfl⟩ := pass_eq_some_iff.mp hpassed
        exact closed_of_infinity hopening hsound hsum hamount
      dsimp only
      split_ifs
      · rwa [grow.run_of_closed epsilon available limit hclosed]
      · exact hnumeric

omit [Scalar.Rounded α] in
theorem slack_of_choose?_shrink {settings : Settings α}
    (h : choose? settings items available = some .shrink) :
    available - Scalar.sum (items.map Item.natural) < -settings.epsilon := by
  unfold choose? at h
  dsimp only at h
  split_ifs at h with hgrow hshrink
  · cases h
  · exact hshrink

/-- Where there is a deficit, the room is below infinity. -/
theorem lt_infinity_of_choose?_shrink {settings : Settings α}
    (hnaturals : Scalar.isFinite (Scalar.sum (items.map Item.natural)) = true)
    (h : choose? settings items available = some .shrink) : available < Scalar.infinity := by
  have hslack := slack_of_choose?_shrink h
  have hinfinity : Scalar.isNaN (Scalar.infinity : α) = false :=
    (Scalar.not_isNaN_of_le Scalar.zero_le_infinity).2
  rw [Scalar.lt_iff_not_le (isNaN_available_of_choose? h) hinfinity]
  intro hle
  -- infinite room would leave infinite slack, and no tolerance is beyond that
  have htolerance := Scalar.le_infinity (Scalar.not_isNaN_of_lt hslack).2
  exact Scalar.not_lt_of_le (Scalar.le_trans htolerance (Scalar.infinity_le_sub hle hnaturals)) hslack

end Direction

/-! ## The whole distribution -/

/-- **Every size is a number**, for any room, if the natural extents and the weights add up to numbers. -/
theorem isNaN_size_distribute {settings : Settings α} (hepsilon : ¬ settings.epsilon < Scalar.zero)
    (hsound : ∀ i ∈ items, i.Sound) (hsum : Item.Summable items) {size : α}
    (hsize : size ∈ (distribute settings items available).sizes) : Scalar.isNaN size = false := by
  cases hd : Direction.choose? settings items available with
  | none =>
    rw [sizes_distribute_of_choose?_eq_none hd] at hsize
    obtain ⟨i, hi, rfl⟩ := List.mem_map.mp hsize
    exact (Scalar.not_isNaN_of_le (hsound i hi).natural_le_max).1
  | some d =>
    have hzero := Direction.zero_le_epsilon_of_choose? hepsilon hd
    have hnumeric : d.Numeric items (d.run settings.epsilon available settings.maxPasses
        (items.map d.opening)).shares := by
      -- only space that is handed out can be unlimited: nothing is short of it
      by_cases hlt : available < Scalar.infinity
      · exact Direction.numeric_run settings.maxPasses hsound hsum hzero hlt
      · have hle : Scalar.infinity ≤ available := Scalar.le_of_not_lt
          (Scalar.not_isNaN_of_le Scalar.zero_le_infinity).2
          (Direction.isNaN_available_of_choose? hd) hlt
        cases d with
        | grow => exact Direction.numeric_run_of_infinity settings.maxPasses hsound hsum hle
        | shrink => exact absurd (Direction.lt_infinity_of_choose?_shrink hsum.naturals hd) hlt
    rw [sizes_distribute_of_choose? hd] at hsize
    obtain ⟨s, hs, rfl⟩ := List.mem_map.mp hsize
    exact (Scalar.not_isNaN_of_le (hnumeric.within s hs).1).2

/-- Sizes lie on one side of the natural extents, and those of items that take no part at them. -/
theorem moved_distribute {settings : Settings α} (hepsilon : ¬ settings.epsilon < Scalar.zero)
    (hproper : ∀ i ∈ items, i.Proper) (hd : Direction.choose? settings items available = some d) :
    List.Forall₂ (fun item size => (Scalar.isNaN size = false → d.Beyond item size) ∧
      (d.exempt item = true → size = item.natural)) items
      (distribute settings items available).sizes := by
  have hzero := Direction.zero_le_epsilon_of_choose? hepsilon hd
  refine forall₂_sizes_distribute hd fun s hs => ?_
  obtain ⟨-, hmoved⟩ := Direction.moved_run available settings.maxPasses hzero hproper s hs
  exact ⟨hmoved.beyond, fun hexempt => (hmoved.stays hexempt).2⟩

/-- What is shown of a distribution whose sizes are rounded. -/
structure Bounded (items : List (Item α)) (d : Distribution α) : Prop where
  /-- There is one size for each item, within the bounds of the item or no number. -/
  fits : List.Forall₂ (fun item size => Scalar.isNaN size = true ∨ item.min ≤ size ∧ size ≤ item.max)
    items d.sizes
  numbers : Scalar.isFinite (Scalar.sum (items.map Item.natural)) = true →
    Scalar.isFinite (Scalar.sum (items.map Item.weight)) = true →
    ∀ size ∈ d.sizes, Scalar.isNaN size = false
  grown : d.course.map Prod.fst = some .grow → List.Forall₂ (fun item size =>
    (Scalar.isNaN size = false → item.natural ≤ size) ∧
      (item.weight ≤ Scalar.zero → size = item.natural)) items d.sizes
  shrunk : d.course.map Prod.fst = some .shrink → List.Forall₂ (fun item size =>
    Scalar.isNaN size = false → size ≤ item.natural) items d.sizes

omit [Scalar.Rounded α] in
theorem course_distribute (settings : Settings α) (items : List (Item α)) (available : α) :
    (distribute settings items available).course.map Prod.fst =
      Direction.choose? settings items available := by
  unfold distribute
  cases Direction.choose? settings items available <;> rfl

/-- **Distribution stays in bounds with rounding**: for any room, NaN and the infinities included, any
tolerance that is not negative and any limit of passes. -/
theorem bounded_distribute {settings : Settings Float32} {items : List (Item Float32)}
    (available : Float32) (hepsilon : ¬ settings.epsilon < Scalar.zero)
    (hsound : ∀ item ∈ items, item.Sound) : Bounded items (distribute settings items available) where
  fits := fits_distribute available hepsilon fun item hitem => (hsound item hitem).toProper
  numbers hnaturals hweights _ hsize :=
    isNaN_size_distribute hepsilon hsound ⟨hnaturals, hweights⟩ hsize
  grown h := by
    rw [course_distribute] at h
    refine (moved_distribute hepsilon (fun i hi => (hsound i hi).toProper) h).imp ?_
    rintro item size ⟨hbeyond, hstays⟩
    refine ⟨hbeyond, fun hweight => hstays ?_⟩
    exact Bool.or_eq_true_iff.mpr (Or.inl (decide_eq_true hweight))
  shrunk h := by
    rw [course_distribute] at h
    exact (moved_distribute hepsilon (fun i hi => (hsound i hi).toProper) h).imp fun _ _ hsize =>
      hsize.1

/-- A fixed item of extent 1 between two that stretch, the first of them without a maximum. -/
def twoStretching : List (Item Float32) :=
  let one : Float32 := Scalar.one
  [⟨one, one, Scalar.infinity, one⟩, ⟨one, one, one, Scalar.zero⟩,
    ⟨one, Scalar.zero, one + one, one⟩]

theorem bounded_twoStretching :
    (¬ Settings.standard.epsilon < Scalar.zero) ∧ (∀ item ∈ twoStretching, item.Sound) ∧
      Bounded twoStretching (distribute .standard twoStretching Scalar.infinity) := by
  have hepsilon : ¬ Settings.standard.epsilon < Scalar.zero := by decide +kernel
  have hsound : ∀ item ∈ twoStretching, item.Sound := by decide +kernel
  exact ⟨hepsilon, hsound, bounded_distribute Scalar.infinity hepsilon hsound⟩

end BoxLayout
