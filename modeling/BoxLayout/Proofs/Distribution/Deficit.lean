import Mathlib
import BoxLayout.Proofs.Distribution.Level

/-!
# A deficit is taken in proportion

Without rounding, one pass settles a deficit. Every item gives up the same part of how far it can
shrink; if that part would be more than the whole, all items end up at their minima together, and no
claim is left for another pass. So what a distribution leaves over is negative beyond the tolerance
only when nothing can shrink any further. Weights play no role in this, so nothing is asked of them.

## The architecture

* **`Item.Ranged`** — what is asked of an item that shrinks.
* **`Item.room`**, **`Item.shrunk`** — how far an item can shrink, and its extent when a part of that
  has been taken.
* **`takenPart`**, **`sum_shrunk_takenPart`** — the part that covers a deficit, and what is left in use.
* **`size_offer_opening`** — what the first pass offers, whether it closes the item or not.
* **`sizes_run_shrink`** — all passes over a deficit take that part from every item.
* **`le_available_distribute`** — no more is used than there is, for growing and keeping as well.
* **`shrunk_distribute`** — a deficit beyond the tolerance, with any limit of passes.
-/

namespace BoxLayout

/-! ## Items -/

namespace Item

/-- An item whose natural extent is a rational within its bounds. -/
structure Ranged (item : Item Exact) : Prop where
  zero_le_min : Scalar.zero ≤ item.min
  min_le_natural : item.min ≤ item.natural
  natural_le_max : item.natural ≤ item.max
  natural_isFinite : Scalar.isFinite item.natural = true

theorem Regular.ranged {item : Item Exact} (h : item.Regular) : item.Ranged :=
  ⟨h.zero_le_min, h.min_le_natural, h.natural_le_max, h.natural_isFinite⟩

/-- How far an item can shrink. -/
def room (item : Item Exact) : Rat := item.natural.toRat - item.min.toRat

/-- The extent of an item when a part of what it can give up has been taken. -/
def shrunk (item : Item Exact) (part : Rat) : Rat := item.natural.toRat - part * item.room

namespace Ranged

variable {item : Item Exact}

theorem natural_eq (h : item.Ranged) : item.natural = .finite item.natural.toRat :=
  Exact.eq_finite_toRat h.natural_isFinite

theorem min_eq (h : item.Ranged) : item.min = .finite item.min.toRat := by
  have hextent := Scalar.isExtent_of_le h.zero_le_min h.min_le_natural h.natural_isFinite
  exact Exact.eq_finite_toRat (Scalar.isExtent_iff.mp hextent).1

theorem zero_le_room (h : item.Ranged) : 0 ≤ item.room := by
  have hle := h.min_le_natural
  rw [h.min_eq, h.natural_eq, Exact.finite_le_finite] at hle
  exact sub_nonneg.mpr hle

theorem claim_shrink (h : item.Ranged) : Direction.shrink.claim item = .finite item.room := by
  rw [Direction.claim, h.natural_eq, h.min_eq, Exact.finite_sub]
  rfl

theorem exempt_shrink (h : item.Ranged) :
    Direction.shrink.exempt item = decide (item.room ≤ 0) := by
  refine decide_eq_decide.mpr ?_
  show Direction.shrink.claim item ≤ Scalar.zero ↔ _
  rw [h.claim_shrink]
  exact Exact.finite_le_finite

theorem target_shrink (h : item.Ranged) {amount total : Rat} (htotal : total ≠ 0) :
    Direction.shrink.target (.finite amount) (.finite total) item =
      .finite (item.shrunk (amount / total)) := by
  show item.natural - .finite amount * Direction.shrink.claim item / .finite total = _
  rw [h.claim_shrink, h.natural_eq, Exact.finite_mul, Exact.finite_div _ htotal, Exact.finite_sub]
  rw [mul_div_right_comm]
  rfl

/-- An item that can shrink reaches its minimum when all of its room is asked for. -/
theorem reaches_shrink (h : item.Ranged) (hroom : 0 < item.room) (part : Rat) :
    Direction.shrink.reaches item (.finite (item.shrunk part)) = decide (1 ≤ part) := by
  refine decide_eq_decide.mpr ?_
  rw [h.min_eq, Exact.finite_le_finite, shrunk, room]
  unfold room at hroom
  constructor
  · intro hle
    nlinarith
  · intro hle
    nlinarith

end Ranged

end Item

/-- **What an item is offered by the first pass**: its natural extent less a part of its room, the same
part for every item, and no more than all of it. -/
theorem size_offer_opening {item : Item Exact} (h : item.Ranged) (amount : Rat) {total : Rat}
    (htotal : total ≠ 0) :
    (Direction.shrink.offer (.finite amount) (.finite total) (Direction.shrink.opening item)).size =
        .finite (item.shrunk (min 1 (amount / total))) ∧
      (1 ≤ amount / total → (Direction.shrink.offer (.finite amount) (.finite total)
        (Direction.shrink.opening item)).closed = true) ∧
      (Direction.shrink.closes (.finite amount) (.finite total) (Direction.shrink.opening item) = true →
        1 ≤ amount / total) := by
  unfold Direction.closes Direction.offer Direction.opening
  dsimp only
  rw [h.exempt_shrink, h.target_shrink htotal]
  by_cases hroom : item.room ≤ 0
  · rw [decide_eq_true hroom, if_pos rfl, Item.shrunk, le_antisymm hroom h.zero_le_room, mul_zero,
      sub_zero]
    exact ⟨h.natural_eq, fun _ => rfl, nofun⟩
  · rw [decide_eq_false hroom, if_neg Bool.false_ne_true, h.reaches_shrink (not_le.mp hroom)]
    by_cases hpart : 1 ≤ amount / total
    · rw [decide_eq_true hpart, if_pos rfl, min_eq_left hpart]
      refine ⟨?_, fun _ => rfl, fun _ => hpart⟩
      show item.min = _
      rw [Item.shrunk, one_mul, Item.room, sub_sub_cancel, ← h.min_eq]
    · rw [decide_eq_false hpart, if_neg Bool.false_ne_true, min_eq_right (not_le.mp hpart).le]
      exact ⟨rfl, fun hle => absurd hle hpart, nofun⟩

/-! ## All passes -/

section

variable {items : List (Item Exact)} {available : Rat}

theorem sum_natural_eq (hitems : ∀ item ∈ items, item.Ranged) :
    Scalar.sum (items.map Item.natural) = .finite (items.map fun i => i.natural.toRat).sum := by
  rw [List.map_congr_left fun item hitem => (hitems item hitem).natural_eq, Exact.sum_map_finite]

theorem sum_min_eq (hitems : ∀ item ∈ items, item.Ranged) :
    Scalar.sum (items.map Item.min) = .finite (items.map fun i => i.min.toRat).sum := by
  rw [List.map_congr_left fun item hitem => (hitems item hitem).min_eq, Exact.sum_map_finite]

/-! ### What is taken -/

theorem sum_shrunk (items : List (Item Exact)) (part : Rat) :
    (items.map fun item => item.shrunk part).sum =
      (items.map fun i => i.natural.toRat).sum - part * (items.map Item.room).sum := by
  rw [eq_sub_iff_add_eq, ← List.sum_map_mul_left, ← List.sum_map_add]
  exact congrArg List.sum (List.map_congr_left fun item _ => sub_add_cancel _ _)

theorem sum_room (items : List (Item Exact)) :
    (items.map Item.room).sum =
      (items.map fun i => i.natural.toRat).sum - (items.map fun i => i.min.toRat).sum := by
  rw [eq_sub_iff_add_eq, ← List.sum_map_add]
  exact congrArg List.sum (List.map_congr_left fun item _ => sub_add_cancel _ _)

theorem zero_le_rooms (hitems : ∀ item ∈ items, item.Ranged) :
    ∀ room ∈ items.map Item.room, 0 ≤ room := by
  intro room hroom
  obtain ⟨item, hitem, rfl⟩ := List.mem_map.mp hroom
  exact (hitems item hitem).zero_le_room

theorem room_eq_zero (hitems : ∀ item ∈ items, item.Ranged)
    (hzero : 0 = (items.map Item.room).sum) {item : Item Exact} (hitem : item ∈ items) :
    item.room = 0 :=
  le_antisymm ((List.single_le_sum (zero_le_rooms hitems) _ (List.mem_map_of_mem hitem)).trans hzero.ge)
    (hitems item hitem).zero_le_room

/-- The part of its room that every item gives up to cover a deficit, all of it if that is not enough. -/
def takenPart (available : Rat) (items : List (Item Exact)) : Rat :=
  min 1 (((items.map fun i => i.natural.toRat).sum - available) / (items.map Item.room).sum)

theorem takenPart_mem (hitems : ∀ item ∈ items, item.Ranged)
    (hdeficit : available ≤ (items.map fun i => i.natural.toRat).sum) :
    0 ≤ takenPart available items ∧ takenPart available items ≤ 1 := by
  have htotal := List.sum_nonneg (zero_le_rooms hitems)
  exact ⟨le_min zero_le_one (div_nonneg (sub_nonneg.mpr hdeficit) htotal), min_le_left _ _⟩

/-- Together the items give up the deficit, or all the room they have. -/
theorem takenPart_mul (hitems : ∀ item ∈ items, item.Ranged)
    (hdeficit : available ≤ (items.map fun i => i.natural.toRat).sum) :
    takenPart available items * (items.map Item.room).sum =
      min (items.map Item.room).sum ((items.map fun i => i.natural.toRat).sum - available) := by
  have hdeficit := sub_nonneg.mpr hdeficit
  rcases (List.sum_nonneg (zero_le_rooms hitems)).eq_or_lt with hzero | hpos
  · rw [← hzero, mul_zero, min_eq_left hdeficit]
  · rw [takenPart, min_mul_of_nonneg _ _ hpos.le, one_mul, div_mul_cancel₀ _ hpos.ne']

/-- **Nothing is lost.** What is in use after a deficit has been covered is what is available, or all
minima if that is more. -/
theorem sum_shrunk_takenPart (hitems : ∀ item ∈ items, item.Ranged)
    (hdeficit : available ≤ (items.map fun i => i.natural.toRat).sum) :
    (items.map fun item => item.shrunk (takenPart available items)).sum =
      max available (items.map fun i => i.min.toRat).sum := by
  rw [sum_shrunk, takenPart_mul hitems hdeficit, sum_room]
  rcases le_total available (items.map fun i => i.min.toRat).sum with hle | hle
  · rw [max_eq_right hle, min_eq_left (sub_le_sub_left hle _), sub_sub_cancel]
  · rw [max_eq_left hle, min_eq_right (sub_le_sub_left hle _), sub_sub_cancel]

/-- If the minima need all that is available, every item gives up all of its room. -/
theorem shrunk_takenPart_eq_min (hitems : ∀ item ∈ items, item.Ranged)
    (hminima : available ≤ (items.map fun i => i.min.toRat).sum) {item : Item Exact}
    (hitem : item ∈ items) : item.shrunk (takenPart available items) = item.min.toRat := by
  rw [Item.shrunk]
  rcases (List.sum_nonneg (zero_le_rooms hitems)).eq_or_lt with hzero | hpos
  · -- without any room the natural extent is the minimum
    have hroom := room_eq_zero hitems hzero hitem
    rw [hroom, mul_zero, sub_zero]
    exact sub_eq_zero.mp hroom
  · have hpart : takenPart available items = 1 := by
      refine min_eq_left ((one_le_div hpos).mpr ?_)
      rw [sum_room]
      linarith
    rw [hpart, one_mul, Item.room, sub_sub_cancel]

/-! ### The passes -/

/-- Before the first pass all natural extents are in use, and the claims are all there is to shrink. -/
theorem totals_opening_shrink (hitems : ∀ item ∈ items, item.Ranged) :
    Direction.used (items.map Direction.shrink.opening) =
        .finite (items.map fun i => i.natural.toRat).sum ∧
      Direction.shrink.totalClaim (items.map Direction.shrink.opening) =
        .finite (items.map Item.room).sum := by
  have hall {s : Share Exact} (hs : s ∈ items.map Direction.shrink.opening) :
      ∃ item ∈ items, s = Direction.shrink.opening item ∧ item.Ranged := by
    obtain ⟨item, hitem, rfl⟩ := List.mem_map.mp hs
    exact ⟨item, hitem, rfl, hitems item hitem⟩
  constructor
  · rw [Direction.used_eq, List.map_map]
    · refine congrArg (fun xs => Exact.finite (List.sum xs)) (List.map_congr_left fun item _ => ?_)
      show (if _ then item.natural else item.natural).toRat = _
      rw [ite_self]
    · intro s hs
      obtain ⟨item, -, rfl, hitem⟩ := hall hs
      exact ⟨hitem.natural_isFinite, hitem.natural_isFinite⟩
  · rw [Direction.totalClaim_eq, List.map_map]
    · refine congrArg (fun xs => Exact.finite (List.sum xs)) (List.map_congr_left fun item hitem => ?_)
      have hranged := hitems item hitem
      -- an item without room is closed from the start, and has nothing to claim either
      show (if Direction.shrink.exempt item = true then 0 else
        (Direction.shrink.claim item).toRat) = item.room
      rw [hranged.exempt_shrink, hranged.claim_shrink]
      split_ifs with hroom
      · exact le_antisymm hranged.zero_le_room (of_decide_eq_true hroom)
      · rfl
    · intro s hs
      obtain ⟨item, -, rfl, hitem⟩ := hall hs
      show Scalar.isFinite (Direction.shrink.claim item) = true
      rw [hitem.claim_shrink]
      rfl

/-- Where there is room at all, one pass does everything: a second one finds all shares closed. -/
theorem shares_run_shrink (hitems : ∀ item ∈ items, item.Ranged) {epsilon : Exact} (limit : ℕ)
    (hdeficit : epsilon < .finite ((items.map fun i => i.natural.toRat).sum - available))
    (hroom : 0 < (items.map Item.room).sum) :
    (Direction.shrink.run epsilon (.finite available) (limit + 1)
        (items.map Direction.shrink.opening)).shares =
      (items.map Direction.shrink.opening).map (Direction.shrink.offer
        (.finite ((items.map fun i => i.natural.toRat).sum - available))
        (.finite (items.map Item.room).sum)) := by
  obtain ⟨hused, hclaims⟩ := totals_opening_shrink hitems
  set deficit := (items.map fun i => i.natural.toRat).sum - available with hdef
  set total := (items.map Item.room).sum with htotal
  have hamount : Direction.shrink.amount (.finite available)
      (Direction.used (items.map Direction.shrink.opening)) = .finite deficit := by
    rw [hused, Direction.amount, Exact.finite_sub]
  have hpos : ¬ Exact.finite deficit ≤ epsilon :=
    fun hle => Scalar.not_lt_of_le hle hdeficit
  have hpass : ∃ report, Direction.shrink.pass epsilon (.finite available)
      (items.map Direction.shrink.opening) = some (report, (items.map Direction.shrink.opening).map
        (Direction.shrink.offer (.finite deficit) (.finite total))) ∧
        report.clamped = (items.map Direction.shrink.opening).any
          (Direction.shrink.closes (.finite deficit) (.finite total)) := by
    refine ⟨_, Direction.pass_eq_some_iff.mpr ⟨?_, ?_, rfl, ?_⟩, ?_⟩
    · rw [hclaims, Exact.zero_eq, Exact.finite_le_finite]
      exact not_le.mpr hroom
    · rwa [hamount]
    · rw [hamount, hclaims]
    · rw [hamount, hclaims]
  obtain ⟨report, hpass, hclamped⟩ := hpass
  rw [Direction.run, hpass]
  dsimp only
  split_ifs with hagain
  · rw [hclamped, List.any_map] at hagain
    obtain ⟨item, hitem, hcloses⟩ := List.any_eq_true.mp hagain
    -- an item that closes is offered all of its room, and then every other item is, too
    have hpart := (size_offer_opening (hitems item hitem) deficit hroom.ne').2.2 hcloses
    refine Direction.run_of_closed _ _ _ _ fun s hs => ?_
    rw [List.map_map] at hs
    obtain ⟨other, hother, rfl⟩ := List.mem_map.mp hs
    exact (size_offer_opening (hitems other hother) deficit hroom.ne').2.1 hpart
  · rfl

/-- **A deficit is taken in proportion**: the passes, at least one of them, take the same part of its
room from every item. -/
theorem sizes_run_shrink (hitems : ∀ item ∈ items, item.Ranged) {epsilon : Exact} (limit : ℕ)
    (hdeficit : epsilon < .finite ((items.map fun i => i.natural.toRat).sum - available)) :
    (Direction.shrink.run epsilon (.finite available) (limit + 1)
        (items.map Direction.shrink.opening)).shares.map Share.size =
      items.map fun item => .finite (item.shrunk (takenPart available items)) := by
  rcases (List.sum_nonneg (zero_le_rooms hitems)).eq_or_lt with hzero | hroom
  · -- nothing can shrink, so there is no pass
    have hnone : Direction.shrink.pass epsilon (.finite available)
        (items.map Direction.shrink.opening) = none := by
      refine Direction.pass_eq_none_iff.mpr (Or.inl ?_)
      rw [(totals_opening_shrink hitems).2, ← hzero]
      exact Exact.finite_le_finite.mpr (le_refl 0)
    rw [Direction.run, hnone, List.map_map]
    refine List.map_congr_left fun item hitem => ?_
    rw [Item.shrunk, room_eq_zero hitems hzero hitem, mul_zero, sub_zero,
      ← (hitems item hitem).natural_eq]
    rfl
  · rw [shares_run_shrink hitems limit hdeficit hroom, List.map_map, List.map_map]
    exact List.map_congr_left fun item hitem =>
      (size_offer_opening (hitems item hitem) _ hroom.ne').1

/-! ## The whole distribution -/

variable {settings : Settings Exact}

/-- A deficit in terms of the slack, which is what a distribution looks at. -/
theorem lt_deficit_iff (hitems : ∀ item ∈ items, item.Ranged) {epsilon : Exact} (available : Rat) :
    epsilon < .finite ((items.map fun i => i.natural.toRat).sum - available) ↔
      .finite available - Scalar.sum (items.map Item.natural) < -epsilon := by
  rw [sum_natural_eq hitems, Exact.finite_sub, Exact.lt_neg_comm, Exact.neg_finite, neg_sub]

/-- A deficit is dealt with by shrinking, whatever the weights are. -/
theorem Direction.choose?_of_deficit (hepsilon : Scalar.zero ≤ settings.epsilon)
    (hslack : .finite available - Scalar.sum (items.map Item.natural) < -settings.epsilon) :
    choose? settings items (.finite available) = some .shrink := by
  have hnot : ¬ settings.epsilon < .finite available - Scalar.sum (items.map Item.natural) := by
    intro hlt
    have hle := Exact.le_trans (Exact.le_of_lt hslack)
      (Exact.le_trans (Exact.neg_le_zero hepsilon) hepsilon)
    exact Scalar.not_lt_of_le hle hlt
  unfold choose?
  dsimp only
  rw [if_neg fun h => hnot h.1, if_pos hslack]

theorem leftover_distribute {sizes : List Rat}
    (h : (distribute settings items (.finite available)).sizes = sizes.map .finite) :
    (distribute settings items (.finite available)).leftover = .finite (available - sizes.sum) := by
  show .finite available - Scalar.sum (distribute settings items (.finite available)).sizes = _
  rw [h, Exact.sum_map_finite, List.map_id', Exact.finite_sub]

/-- **Shrinking takes the same part from every item**, with any limit of passes but none at all. -/
theorem sizes_distribute_of_deficit (hitems : ∀ item ∈ items, item.Ranged)
    (hepsilon : Scalar.zero ≤ settings.epsilon) (hpasses : 1 ≤ settings.maxPasses)
    (hslack : .finite available - Scalar.sum (items.map Item.natural) < -settings.epsilon) :
    (distribute settings items (.finite available)).sizes =
      (items.map fun item => item.shrunk (takenPart available items)).map .finite := by
  obtain ⟨limit, hlimit⟩ := Nat.exists_eq_add_of_le' hpasses
  rw [sizes_distribute_of_choose? (Direction.choose?_of_deficit hepsilon hslack), hlimit,
    sizes_run_shrink hitems limit ((lt_deficit_iff hitems available).mpr hslack), List.map_map]
  rfl

theorem map_min_eq (hitems : ∀ item ∈ items, item.Ranged)
    (hminima : available ≤ (items.map fun i => i.min.toRat).sum) :
    (items.map fun item => item.shrunk (takenPart available items)).map .finite =
      items.map Item.min := by
  rw [List.map_map]
  refine List.map_congr_left fun item hitem => ?_
  rw [(hitems item hitem).min_eq, ← shrunk_takenPart_eq_min hitems hminima hitem]
  rfl

/-- **No more is used than there is**, up to the tolerance, unless every item is at its minimum. -/
theorem le_available_distribute (hitems : ∀ item ∈ items, item.Regular)
    (hepsilon : Scalar.zero ≤ settings.epsilon) (hpasses : 1 ≤ settings.maxPasses) (available : Rat) :
    ∃ sizes : List Rat, (distribute settings items (.finite available)).sizes = sizes.map .finite ∧
      (distribute settings items (.finite available)).leftover = .finite (available - sizes.sum) ∧
      (.finite (sizes.sum - available) ≤ settings.epsilon ∨
        (distribute settings items (.finite available)).sizes = items.map Item.min) := by
  have hranged : ∀ item ∈ items, item.Ranged := fun item hitem => (hitems item hitem).ranged
  by_cases hslack : .finite available - Scalar.sum (items.map Item.natural) < -settings.epsilon
  · have hsizes := sizes_distribute_of_deficit hranged hepsilon hpasses hslack
    refine ⟨_, hsizes, leftover_distribute hsizes, ?_⟩
    have hdeficit : available ≤ (items.map fun i => i.natural.toRat).sum := by
      have hlt := Exact.le_trans hepsilon
        (Exact.le_of_lt ((lt_deficit_iff hranged available).mpr hslack))
      exact sub_nonneg.mp (Exact.finite_le_finite.mp hlt)
    rcases le_total available (items.map fun i => i.min.toRat).sum with hle | hle
    · exact Or.inr (hsizes.trans (map_min_eq hranged hle))
    · left
      rw [sum_shrunk_takenPart hranged hdeficit, max_eq_left hle, sub_self]
      exact hepsilon
  · cases hchoose : Direction.choose? settings items (.finite available) with
    | none =>
      -- the natural extents are kept, for a deficit is within the tolerance
      have hsizes : (distribute settings items (.finite available)).sizes =
          (items.map fun i => i.natural.toRat).map .finite := by
        unfold distribute
        rw [hchoose, List.map_map]
        exact List.map_congr_left fun item hitem => (hitems item hitem).natural_eq
      refine ⟨_, hsizes, leftover_distribute hsizes, Or.inl ?_⟩
      refine Scalar.le_of_not_lt rfl (Scalar.not_isNaN_of_le hepsilon).2 fun hlt => ?_
      exact hslack ((lt_deficit_iff hranged available).mp hlt)
    | some d =>
      unfold Direction.choose? at hchoose
      dsimp only at hchoose
      rw [if_neg hslack] at hchoose
      split_ifs at hchoose with hsurplus
      obtain rfl := Option.some.inj hchoose
      obtain ⟨level, h⟩ := (leveled_opening hitems (Exact.le_trans hepsilon
        (Exact.le_of_lt hsurplus.1))).run settings.epsilon settings.maxPasses
      set shares := (Direction.grow.run settings.epsilon (.finite available) settings.maxPasses
        (items.map Direction.grow.opening)).shares
      have hsizes : (distribute settings items (.finite available)).sizes =
          (shares.map fun s => s.size.toRat).map .finite := by
        have hchoose : Direction.choose? settings items (.finite available) = some .grow :=
          if_pos hsurplus
        rw [sizes_distribute_of_choose? hchoose, List.map_map]
        exact List.map_congr_left fun s hs =>
          Exact.eq_finite_toRat ((h.atLevel s hs).size_isFinite (h.regular s hs))
      refine ⟨_, hsizes, leftover_distribute hsizes, Or.inl (Exact.le_trans ?_ hepsilon)⟩
      exact Exact.finite_le_finite.mpr (sub_nonpos.mpr h.sum_le)

/-- What shrinking makes of a deficit. -/
structure Shrunk (items : List (Item Exact)) (available : Exact) (d : Distribution Exact) : Prop where
  /-- Every item gives up the same part of how far it can shrink. -/
  part : ∃ part : Rat, 0 ≤ part ∧ part ≤ 1 ∧
    d.sizes = items.map fun item => item.natural - .finite part * (item.natural - item.min)
  sum_eq : Scalar.sum d.sizes = Scalar.max available (Scalar.sum (items.map Item.min))
  leftover_neg_iff : d.leftover < Scalar.zero ↔ available < Scalar.sum (items.map Item.min)
  at_minima : d.leftover < Scalar.zero → d.sizes = items.map Item.min

/-- **Shrinking is proportional and exact**, and the limit of passes makes no difference to it. -/
theorem shrunk_distribute (hitems : ∀ item ∈ items, item.Ranged)
    (hepsilon : Scalar.zero ≤ settings.epsilon) (hpasses : 1 ≤ settings.maxPasses)
    (hslack : .finite available - Scalar.sum (items.map Item.natural) < -settings.epsilon) :
    Shrunk items (.finite available) (distribute settings items (.finite available)) ∧
      ∀ limit, 1 ≤ limit →
        let other := distribute { settings with maxPasses := limit } items (.finite available)
        other.sizes = (distribute settings items (.finite available)).sizes ∧
          other.leftover = (distribute settings items (.finite available)).leftover := by
  have hsizes := sizes_distribute_of_deficit hitems hepsilon hpasses hslack
  have hdeficit : available ≤ (items.map fun i => i.natural.toRat).sum := by
    have hlt := Exact.le_trans hepsilon
      (Exact.le_of_lt ((lt_deficit_iff hitems available).mpr hslack))
    exact sub_nonneg.mp (Exact.finite_le_finite.mp hlt)
  have hleftover := leftover_distribute hsizes
  rw [sum_shrunk_takenPart hitems hdeficit] at hleftover
  have hneg : (distribute settings items (.finite available)).leftover < Scalar.zero ↔
      available < (items.map fun i => i.min.toRat).sum := by
    rw [hleftover, Exact.zero_eq, Exact.finite_lt_finite, sub_neg, lt_max_iff,
      or_iff_right (lt_irrefl _)]
  refine ⟨⟨?_, ?_, ?_, fun h => ?_⟩, fun limit hlimit => ?_⟩
  · obtain ⟨hnonneg, hle⟩ := takenPart_mem hitems hdeficit
    refine ⟨takenPart available items, hnonneg, hle, ?_⟩
    rw [hsizes, List.map_map]
    refine List.map_congr_left fun item hitem => ?_
    show Exact.finite (item.shrunk _) = item.natural - _ * Direction.shrink.claim item
    rw [(hitems item hitem).claim_shrink, (hitems item hitem).natural_eq, Exact.finite_mul,
      Exact.finite_sub]
    rfl
  · rw [hsizes, sum_min_eq hitems, Exact.sum_map_finite, List.map_id', Exact.finite_max,
      sum_shrunk_takenPart hitems hdeficit]
  · rw [hneg, sum_min_eq hitems, Exact.finite_lt_finite]
  · rw [hsizes]
    exact map_min_eq hitems (hneg.mp h).le
  · -- the part that is taken does not depend on the limit
    have hother : (distribute { settings with maxPasses := limit } items (.finite available)).sizes =
        (items.map fun item => item.shrunk (takenPart available items)).map .finite :=
      sizes_distribute_of_deficit hitems hepsilon hlimit hslack
    refine ⟨hother.trans hsizes.symm, ?_⟩
    rw [hleftover, leftover_distribute hother, sum_shrunk_takenPart hitems hdeficit]

/-- Two items that can shrink by ten and by thirty, and one that cannot shrink. -/
def twoAndOne : List (Item Exact) :=
  [⟨.finite 30, .finite 20, .infinity, .finite 2⟩, ⟨.finite 50, .finite 20, .finite 60, .finite 0⟩,
    ⟨.finite 10, .finite 10, .finite 10, .finite (-1)⟩]

theorem shrunk_twoAndOne :
    Shrunk twoAndOne (.finite 70) (distribute ⟨.finite (1 / 100), 32, false⟩ twoAndOne (.finite 70)) := by
  refine (shrunk_distribute ?_ (by decide +kernel) (by decide) (by decide +kernel)).1
  intro item hitem
  fin_cases hitem <;>
    exact ⟨by decide +kernel, by decide +kernel, by decide +kernel, rfl⟩

end

end BoxLayout
