import Mathlib
import BoxLayout.Proofs.Distribution.Rational
import BoxLayout.Proofs.Layout.Overflow
import BoxLayout.Proofs.Layout.StackGeometry

/-!
# The geometry of cells

Where a container sizes its children in their cells, a child gets a size from the cell and from its own
proportions, is brought within its own bounds, and is then moved inside the cell as its alignments say.
The bounds come last, so the frame may leave the cell again; it does so at the far edges only.

## The architecture

* **`CellPositioning.Sized`**, **`CellPositioning.sized_of_sizeInCell`** — the size a cell gives, by one
  factor for both axes.
* **`Alignment.Seats`**, **`Alignment.seats_of_shift`** — the three places in a cell with room to spare.
* **`Cell.Positioned`**, **`Cell.positioned_of_offset`** — all that is said of one frame in its cell,
  for stacks and overlays alike.
* **`Stack.slots`**, **`Overlay.slot`**, **`Container.slots`** — the cells of all children.
* **`Stack.positioned_pack`**, **`Overlay.positioned_frame`**, **`positioned_run`** — the result, along a
  run and for the views of a tree.
-/

namespace BoxLayout

open ViewTree

/-! ## Sizes -/

namespace CellPositioning

/-- What is said of the size that something with a natural size gets in a cell. -/
structure Sized (positioning : CellPositioning) (natural cell size : Size Exact) : Prop where
  whole : positioning = .fill → size = cell
  /-- Without an extent there are no proportions. -/
  empty : ∀ axis, natural.along axis ≤ Scalar.zero → size = cell
  proportional : positioning ≠ .fill → (∀ axis, Scalar.zero < natural.along axis) →
    size.width * natural.height = size.height * natural.width
  inside : positioning = .fitWithAspectRatio → ∀ axis, size.along axis ≤ cell.along axis
  covering : positioning = .fillWithAspectRatio → ∀ axis, cell.along axis ≤ size.along axis
  touching : ∃ axis, size.along axis = cell.along axis

variable {positioning : CellPositioning} {natural cell size : Size Exact} {n c : Axis → Rat}

variable (natural cell) in
/-- Every way of positioning gives a size, except for the one that leaves it to the container. -/
theorem exists_sizeInCell (h : positioning ≠ .normal) :
    ∃ size, positioning.sizeInCell natural cell = some size := by
  cases positioning with
  | normal => exact absurd rfl h
  | fill | fillWithAspectRatio | fitWithAspectRatio => exact ⟨_, rfl⟩

section

variable (hn : ∀ axis, natural.along axis = .finite (n axis))
  (hc : ∀ axis, cell.along axis = .finite (c axis))

include hc

/-- The whole cell, for those who fill it and for those who have no proportions. -/
theorem sized_cell (h : positioning = .fill ∨ ∃ axis, natural.along axis ≤ Scalar.zero) :
    positioning.Sized natural cell cell := by
  have hle (axis : Axis) : cell.along axis ≤ cell.along axis := by
    rw [hc]
    exact Exact.finite_le_finite.mpr (le_refl _)
  refine ⟨fun _ => rfl, fun _ _ => rfl, fun hne hpos => ?_, fun _ => hle, fun _ => hle,
    ⟨.horizontal, rfl⟩⟩
  -- proportions are asked for only where the cell is not filled and both extents are there
  rcases h with h | ⟨axis, h⟩
  · exact absurd h hne
  · exact absurd (hpos axis) (Scalar.not_lt_of_le h)

include hn

/-- Natural extents times one factor, which is the ratio of cell to natural extent along some axis. -/
theorem sized_of_factor (hne : positioning ≠ .fill) (hpos : ∀ axis, 0 < n axis) {factor : Rat}
    (hsize : ∀ axis, size.along axis = .finite (n axis * factor))
    (htouching : ∃ axis, factor = c axis / n axis)
    (hinside : positioning = .fitWithAspectRatio → ∀ axis, factor ≤ c axis / n axis)
    (hcovering : positioning = .fillWithAspectRatio → ∀ axis, c axis / n axis ≤ factor) :
    positioning.Sized natural cell size := by
  have hcancel (axis : Axis) : n axis * (c axis / n axis) = c axis :=
    mul_div_cancel₀ _ (hpos axis).ne'
  constructor
  case whole => exact fun h => absurd h hne
  case empty =>
    intro axis hle
    rw [hn, Exact.zero_eq, Exact.finite_le_finite] at hle
    exact absurd hle (not_le.mpr (hpos axis))
  case proportional =>
    intro _ _
    show size.along .horizontal * natural.along .vertical =
      size.along .vertical * natural.along .horizontal
    rw [hsize, hsize, hn, hn, Exact.finite_mul, Exact.finite_mul]
    congr 1
    ring
  case inside =>
    intro hfit axis
    rw [hsize, hc, Exact.finite_le_finite, ← hcancel axis]
    exact mul_le_mul_of_nonneg_left (hinside hfit axis) (hpos axis).le
  case covering =>
    intro hcover axis
    rw [hsize, hc, Exact.finite_le_finite, ← hcancel axis]
    exact mul_le_mul_of_nonneg_left (hcovering hcover axis) (hpos axis).le
  case touching =>
    obtain ⟨axis, rfl⟩ := htouching
    exact ⟨axis, by rw [hsize, hc, hcancel]⟩

/-- A scaled size, if there is an extent to scale. -/
theorem along_scaled {choose : Exact → Exact → Exact} {pick : Rat → Rat → Rat}
    (hpick : ∀ x y, choose (.finite x) (.finite y) = .finite (pick x y))
    (hpos : ∀ axis, 0 < n axis) (axis : Axis) :
    (scaled choose natural cell).along axis = .finite (n axis *
      pick (c .horizontal / n .horizontal) (c .vertical / n .vertical)) := by
  have hextent (axis : Axis) : ¬ natural.along axis ≤ Scalar.zero := by
    rw [hn, Exact.zero_eq, Exact.finite_le_finite]
    exact not_le.mpr (hpos axis)
  -- the choice is made among ratios of numbers, so it is one of them
  have hfactor : choose (cell.width / natural.width) (cell.height / natural.height) =
      .finite (pick (c .horizontal / n .horizontal) (c .vertical / n .vertical)) := by
    show choose (cell.along .horizontal / natural.along .horizontal)
      (cell.along .vertical / natural.along .vertical) = _
    rw [hn, hn, hc, hc, Exact.finite_div _ (hpos _).ne', Exact.finite_div _ (hpos _).ne', hpick]
  have hscaled : (scaled choose natural cell).along axis = natural.along axis *
      choose (cell.width / natural.width) (cell.height / natural.height) := by
    have hnone : ¬ (natural.width ≤ Scalar.zero ∨ natural.height ≤ Scalar.zero) :=
      not_or.mpr ⟨hextent .horizontal, hextent .vertical⟩
    rw [scaled, if_neg hnone]
    cases axis <;> rfl
  rw [hscaled, hfactor, hn, Exact.finite_mul]

/-- A size scaled by one of the two ratios is in proportion, and finite. -/
theorem sized_scaled {choose : Exact → Exact → Exact} {pick : Rat → Rat → Rat}
    (hpick : ∀ x y, choose (.finite x) (.finite y) = .finite (pick x y))
    (hchoice : ∀ x y, pick x y = x ∨ pick x y = y) (hne : positioning ≠ .fill)
    (hpos : ∀ axis, 0 < n axis)
    (hinside : positioning = .fitWithAspectRatio → ∀ x y, pick x y ≤ x ∧ pick x y ≤ y)
    (hcovering : positioning = .fillWithAspectRatio → ∀ x y, x ≤ pick x y ∧ y ≤ pick x y) :
    positioning.Sized natural cell (scaled choose natural cell) ∧
      ∀ axis, Scalar.isFinite ((scaled choose natural cell).along axis) = true := by
  have halong := along_scaled hn hc hpick hpos
  -- the factor is the ratio of one axis, along which the cell is met exactly
  have htouching : ∃ axis, pick (c .horizontal / n .horizontal) (c .vertical / n .vertical) =
      c axis / n axis := by
    rcases hchoice (c .horizontal / n .horizontal) (c .vertical / n .vertical) with heq | heq
    · exact ⟨.horizontal, heq⟩
    · exact ⟨.vertical, heq⟩
  refine ⟨sized_of_factor hn hc hne hpos halong htouching (fun hfit axis => ?_)
    fun hcover axis => ?_, fun axis => ?_⟩
  · cases axis
    · exact (hinside hfit _ _).1
    · exact (hinside hfit _ _).2
  · cases axis
    · exact (hcovering hcover _ _).1
    · exact (hcovering hcover _ _).2
  · rw [halong]
    rfl

omit hc hn in
/-- Something without an extent along some axis takes the whole cell. -/
theorem scaled_of_empty {choose : Exact → Exact → Exact}
    (h : ∃ axis, natural.along axis ≤ Scalar.zero) : scaled choose natural cell = cell := by
  obtain ⟨axis, h⟩ := h
  refine if_pos ?_
  cases axis
  · exact Or.inl h
  · exact Or.inr h

/-- **The size that a cell gives**, in each way of positioning. -/
theorem sized_of_sizeInCell (h : positioning.sizeInCell natural cell = some size) :
    positioning.Sized natural cell size ∧ ∀ axis, Scalar.isFinite (size.along axis) = true := by
  have hcell (axis : Axis) : Scalar.isFinite (cell.along axis) = true := by
    rw [hc]
    rfl
  by_cases hempty : ∃ axis, natural.along axis ≤ Scalar.zero
  · -- whatever the way, there is nothing to scale
    obtain rfl : size = cell := by
      cases positioning with
      | normal => nomatch h
      | fill => exact (Option.some.inj h).symm
      | fillWithAspectRatio | fitWithAspectRatio =>
        exact (Option.some.inj h).symm.trans (scaled_of_empty hempty)
    exact ⟨sized_cell hc (Or.inr hempty), hcell⟩
  · -- both natural extents are there, so ratios can be taken
    have hpos (axis : Axis) : 0 < n axis := by
      have hle := fun hle => hempty ⟨axis, hle⟩
      rw [hn, Exact.zero_eq, Exact.finite_le_finite] at hle
      exact not_le.mp hle
    cases positioning with
    | normal => nomatch h
    | fill =>
      obtain rfl := Option.some.inj h
      exact ⟨sized_cell hc (Or.inl rfl), hcell⟩
    | fillWithAspectRatio =>
      obtain rfl := Option.some.inj h
      exact sized_scaled hn hc Exact.finite_max max_choice (by decide) hpos nofun
        fun _ x y => ⟨le_max_left x y, le_max_right x y⟩
    | fitWithAspectRatio =>
      obtain rfl := Option.some.inj h
      exact sized_scaled hn hc Exact.finite_min min_choice (by decide) hpos
        (fun _ x y => ⟨min_le_left x y, min_le_right x y⟩) nofun

end

end CellPositioning

/-! ## Places -/

/-- A rectangle ends its extent after it starts. -/
theorem Rect.stop_eq {α : Type} [Scalar α] (r : Rect α) (axis : Axis) :
    r.stop axis = r.origin.along axis + r.size.along axis := by cases axis <;> rfl

namespace Alignment

/-- Where an alignment seats a frame in a cell along an axis. -/
def Seats (axis : Axis) (slot frame : Rect Exact) : Alignment → Prop
  | start | fill => frame.origin.along axis = slot.origin.along axis
  | center => frame.origin.along axis - slot.origin.along axis = slot.stop axis - frame.stop axis
  | stop => frame.stop axis = slot.stop axis

/-- How far an alignment moves something into a room, as a rational. -/
def shift (room extent : Rat) : Alignment → Rat
  | start | fill => 0
  | center => max (room - extent) 0 / 2
  | stop => max (room - extent) 0

variable (alignment : Alignment) {room extent : Rat}

/-- Among numbers an offset is a number. -/
theorem offset_finite (room extent : Rat) : alignment.offset (.finite room) (.finite extent) =
    Exact.finite (alignment.shift room extent) := by
  have hfree : Scalar.max (Exact.finite room - .finite extent) Scalar.zero =
      .finite (max (room - extent) 0) := by
    rw [Exact.finite_sub, Exact.zero_eq, Exact.finite_max]
  unfold offset
  rw [hfree]
  cases alignment with
  | start | fill | stop => rfl
  | center =>
    show Exact.finite _ / Scalar.two = _
    rw [Exact.two_eq, Exact.finite_div _ two_ne_zero, shift]

/-- What has no room to spare stays at the start. -/
theorem shift_of_le (h : room ≤ extent) : alignment.shift room extent = 0 := by
  have hfree : max (room - extent) 0 = 0 := max_eq_right (by linarith)
  cases alignment <;> simp [shift, hfree]

/-- What has room to spare stays inside it, and is seated as its alignment says. -/
theorem seats_of_shift {axis : Axis} {slot frame : Rect Exact} {start : Rat} (h : extent ≤ room)
    (hslot : slot.origin.along axis = .finite start) (hroom : slot.size.along axis = .finite room)
    (hframe : frame.origin.along axis = .finite (start + alignment.shift room extent))
    (hextent : frame.size.along axis = .finite extent) :
    slot.origin.along axis ≤ frame.origin.along axis ∧ frame.stop axis ≤ slot.stop axis ∧
      alignment.Seats axis slot frame := by
  have hfree : max (room - extent) 0 = room - extent := max_eq_left (by linarith)
  cases alignment <;>
    simp only [Seats, shift, hfree, Rect.stop_eq, hslot, hroom, hextent] at hframe ⊢ <;>
    simp only [hframe, Exact.finite_add, Exact.finite_sub, Exact.finite_le_finite,
      Exact.finite.injEq] <;>
    exact ⟨by linarith, by linarith, by linarith⟩

end Alignment

/-! ## Frames -/

namespace Cell

/-- All that is said of the frame of a child in its cell. -/
structure Positioned (container : View Exact) (c : Cell Exact) (slot frame : Rect Exact) : Prop where
  /-- The cell consists of numbers. -/
  slot_isFinite : ∀ axis, Scalar.isFinite (slot.origin.along axis) = true ∧
    Scalar.isFinite (slot.size.along axis) = true
  /-- The size is what the cell gives, brought within the bounds of the child. -/
  sized : ∃ size, container.constraints.cells.sizeInCell c.natural slot.size = some size ∧
    container.constraints.cells.Sized c.natural slot.size size ∧
      frame.size = c.constraints.clamp size
  extent : frame.size.isExtent = true
  /-- Along an axis with room enough the frame lies inside the cell, where its alignment says. -/
  inside : ∀ axis, frame.size.along axis ≤ slot.size.along axis →
    slot.origin.along axis ≤ frame.origin.along axis ∧ frame.stop axis ≤ slot.stop axis ∧
      (c.alignment container axis).Seats axis slot frame
  /-- Along any other axis it starts where the cell does. -/
  beyond : ∀ axis, ¬ frame.size.along axis ≤ slot.size.along axis →
    frame.origin.along axis = slot.origin.along axis

variable {container : View Exact} {c : Cell Exact}

/-- **A frame of the size that a cell gives, moved as its alignments say**, is positioned in the
cell. Both kinds of container place their children so. -/
theorem positioned_of_offset (h : c.Regular) {slot frame : Rect Exact} {size : Size Exact}
    (hslot : ∀ axis, Scalar.isFinite (slot.origin.along axis) = true ∧
      Scalar.isFinite (slot.size.along axis) = true)
    (hsize : container.constraints.cells.sizeInCell c.natural slot.size = some size)
    (hclamp : frame.size = c.constraints.clamp size)
    (horigin : ∀ axis, frame.origin.along axis = slot.origin.along axis +
      (c.alignment container axis).offset (slot.size.along axis) (frame.size.along axis)) :
    c.Positioned container slot frame := by
  have hnatural (axis : Axis) :=
    Exact.eq_finite_toRat (Scalar.isExtent_iff.mp (h.natural_isExtent axis)).1
  have hcell (axis : Axis) := Exact.eq_finite_toRat (hslot axis).2
  obtain ⟨hsized, hfinite⟩ := CellPositioning.sized_of_sizeInCell hnatural hcell hsize
  have hextent : frame.size.isExtent = true := by
    rw [hclamp]
    exact h.valid.isExtent_clamp fun axis => Or.inl (hfinite axis)
  -- one axis at a time, and as rationals: from here on only the offset matters
  have halong (axis : Axis) : ∃ start room extent : Rat, slot.origin.along axis = .finite start ∧
      slot.size.along axis = .finite room ∧ frame.size.along axis = .finite extent ∧
        frame.origin.along axis =
          .finite (start + (c.alignment container axis).shift room extent) := by
    obtain ⟨start, hstart⟩ := Exact.isFinite_iff.mp (hslot axis).1
    obtain ⟨room, hroom⟩ := Exact.isFinite_iff.mp (hslot axis).2
    obtain ⟨extent, -, hframe⟩ := Exact.isExtent_iff.mp (Size.isExtent_iff.mp hextent axis)
    refine ⟨start, room, extent, hstart, hroom, hframe, ?_⟩
    rw [horigin, hstart, hroom, hframe, Alignment.offset_finite, Exact.finite_add]
  refine ⟨hslot, ⟨size, hsize, hsized, hclamp⟩, hextent, fun axis hle => ?_, fun axis hle => ?_⟩
  · obtain ⟨start, room, extent, hstart, hroom, hframe, hplace⟩ := halong axis
    rw [hframe, hroom, Exact.finite_le_finite] at hle
    exact (c.alignment container axis).seats_of_shift hle hstart hroom hplace hframe
  · obtain ⟨start, room, extent, hstart, hroom, hframe, hplace⟩ := halong axis
    rw [hframe, hroom, Exact.finite_le_finite] at hle
    rw [hplace, hstart, Alignment.shift_of_le _ (not_le.mp hle).le, add_zero]

end Cell

/-! ## Cells -/

section

variable {α : Type} [Scalar α]

/-- The cell of a child of a stack, from where it starts along the axis. -/
def Stack.slot (axis : Axis) (bounds : Size α) (c : Cell α) (start main : α) : Rect α :=
  .ofAxes axis start (c.margins.leading axis.cross) main
    (Scalar.max (bounds.along axis.cross - c.margins.along axis.cross) Scalar.zero)

/-- The cells of children with given extents: each begins after the margin of its child, and what
comes between two of them is their margins and the spacing. -/
def Stack.slots (axis : Axis) (container : View α) (bounds : Size α) :
    α → List (Cell α × α) → List (Rect α)
  | _, [] => []
  | position, (c, main) :: rest =>
    let start := position + c.margins.leading axis
    let next :=
      start + (main + c.margins.trailing axis + container.constraints.spacing.along axis)
    slot axis bounds c start main :: slots axis container bounds next rest

/-- The cell of a child of an overlay. -/
def Overlay.slot (bounds : Size α) (c : Cell α) : Rect α :=
  .ofOriginSize (cellOrigin c) (cellSize bounds c)

/-- The cells of the children inside the bounds of a view of this kind. -/
def Container.slots (kind : Container) (settings : Settings α) (view : View α)
    (cells : List (Cell α)) (bounds : Size α) : List (Rect α) :=
  match kind.axis? with
  | some axis =>
    let shares := Stack.distribution settings axis view cells bounds
    Stack.slots axis view bounds (Stack.runStart settings axis view cells shares.leftover)
      (cells.zip shares.sizes)
  | none => cells.map (Overlay.slot bounds)

end

namespace Stack

variable {axis : Axis} {container : View Exact} {bounds : Size Exact} {c : Cell Exact}

variable (axis container) in
/-- Where a run starts is a number, with any tolerance. -/
theorem exists_start (settings : Settings Exact) (cells : List (Cell Exact)) (leftover : Rat) :
    ∃ position : Rat, runStart settings axis container cells (.finite leftover) =
      .finite position := by
  unfold runStart
  split_ifs
  · exact ⟨_, Alignment.offset_finite _ leftover 0⟩
  · exact ⟨0, rfl⟩

/-- A frame in a stack, if the cell gives the size. -/
theorem frame_of_sizeInCell {start main : Exact} {size : Size Exact}
    (hsize : container.constraints.cells.sizeInCell c.natural
      (slot axis bounds c start main).size = some size) :
    (frame axis container bounds c start main).size = c.constraints.clamp size ∧
      ∀ other, (frame axis container bounds c start main).origin.along other =
        (slot axis bounds c start main).origin.along other +
          (c.alignment container other).offset ((slot axis bounds c start main).size.along other)
            ((frame axis container bounds c start main).size.along other) := by
  have hslot : (slot axis bounds c start main).size = cellSize axis bounds c main :=
    Rect.size_ofAxes _ _ _ _ _
  rw [hslot] at hsize ⊢
  unfold frame slot
  dsimp only
  rw [show Size.ofAxes axis main _ = cellSize axis bounds c main from rfl, hsize]
  -- both sides name the same two sums, read off along each axis
  cases axis <;> exact ⟨rfl, fun other => by cases other <;> rfl⟩

variable (hcells : container.constraints.cells ≠ .normal)

include hcells

/-- **A child of a stack in its cell.** -/
theorem positioned_frame (h : c.Regular) (start main : Rat)
    (hcross : Scalar.isFinite (bounds.along axis.cross) = true) :
    c.Positioned container (slot axis bounds c (.finite start) (.finite main))
      (frame axis container bounds c (.finite start) (.finite main)) := by
  obtain ⟨size, hsize⟩ := CellPositioning.exists_sizeInCell c.natural
    (slot axis bounds c (.finite start) (.finite main)).size hcells
  obtain ⟨hclamp, horigin⟩ := frame_of_sizeInCell hsize
  refine Cell.positioned_of_offset h (fun other => ?_) hsize hclamp horigin
  -- that the cell consists of numbers: start and share are given, the rest comes from margins and bounds
  obtain ⟨cross, hcross⟩ := Exact.isFinite_iff.mp hcross
  obtain ⟨leading, -, trailing, hl, -, ht, -⟩ := h.exists_lengths axis.cross
  unfold slot
  rw [Rect.size_ofAxes, hcross, Edges.along, hl, ht, Exact.finite_add, Exact.finite_sub,
    Exact.zero_eq, Exact.finite_max]
  cases axis <;> cases other <;> exact ⟨rfl, rfl⟩

/-- **Along a run every child is positioned in its cell.** Induction on the children, with the
position as it moves on. -/
theorem positioned_pack {shares : List (Cell Exact × Exact)} {spacing : Rat}
    (hspacing : container.constraints.spacing.along axis = .finite spacing)
    (hcross : Scalar.isFinite (bounds.along axis.cross) = true)
    (hshares : ∀ s ∈ shares, s.1.Regular ∧ Scalar.isFinite s.2 = true) (position : Rat) :
    List.Forall₂ (fun (q : Cell Exact × Rect Exact) place => q.1.Positioned container q.2 place)
      ((shares.map Prod.fst).zip (slots axis container bounds (.finite position) shares))
      ((pack axis container bounds (.finite position) shares).map Prod.snd) := by
  induction shares generalizing position with
  | nil => exact .nil
  | cons s shares ih =>
    obtain ⟨c, main⟩ := s
    obtain ⟨⟨hregular, hmain⟩, hrest⟩ := List.forall_mem_cons.mp hshares
    obtain ⟨main, rfl⟩ := Exact.isFinite_iff.mp hmain
    obtain ⟨leading, -, trailing, hl, -, ht, -⟩ := hregular.exists_lengths axis
    have hstart : Exact.finite position + c.margins.leading axis = .finite (position + leading) := by
      rw [hl, Exact.finite_add]
    -- the next cell begins at a number again, which carries the induction
    have hnext : Exact.finite (position + leading) + (.finite main + c.margins.trailing axis +
        container.constraints.spacing.along axis) =
          .finite (position + leading + (main + trailing + spacing)) := by
      rw [ht, hspacing, Exact.finite_add, Exact.finite_add, Exact.finite_add]
    rw [slots, pack, hstart, hnext]
    exact .cons (positioned_frame hcells hregular _ main hcross) (ih hrest _)

/-- **The children of a stack in their cells.** -/
theorem positioned_place (settings : Settings Exact) {cells : List (Cell Exact)}
    (hvalid : container.constraints.Valid) (hregular : ∀ c ∈ cells, c.Regular)
    (hbounds : ∀ axis, Scalar.isFinite (bounds.along axis) = true) :
    List.Forall₂ (fun (q : Cell Exact × Rect Exact) place => q.1.Positioned container q.2 place)
      (cells.zip (slots axis container bounds
        (runStart settings axis container cells
          (distribution settings axis container cells bounds).leftover)
        (cells.zip (distribution settings axis container cells bounds).sizes)))
      ((place settings axis container cells bounds).map Prod.snd) := by
  obtain ⟨spacing, -, hspacing⟩ := Exact.isExtent_iff.mp (hvalid.spacing_isExtent axis)
  obtain ⟨main, hmain⟩ := Exact.isFinite_iff.mp (hbounds axis)
  have hitems : ∀ i ∈ cells.map (item axis), i.Regular := by
    intro i hi
    obtain ⟨c, hc, rfl⟩ := List.mem_map.mp hi
    exact item_regular (hregular c hc) axis
  -- there is a share for every cell, so the pairs below leave none out
  have hlength : (distribution settings axis container cells bounds).sizes.length =
      cells.length := (length_sizes_distribute _ _ _).trans (List.length_map _)
  have hdistribution := distribution_eq settings hregular hspacing hmain
  have hsizes : ∀ size ∈ (distribution settings axis container cells bounds).sizes,
      Scalar.isFinite size = true := by
    rw [hdistribution]
    exact fun _ => Item.isFinite_distribute settings hitems _
  obtain ⟨leftover, hleftover⟩ : ∃ leftover : Rat,
      (distribution settings axis container cells bounds).leftover = .finite leftover := by
    rw [hdistribution]
    exact Exact.isFinite_iff.mp (Item.isFinite_leftover settings hitems _)
  obtain ⟨position, hposition⟩ := exists_start axis container settings cells leftover
  have hshares : ∀ s ∈ cells.zip (distribution settings axis container cells bounds).sizes,
      s.1.Regular ∧ Scalar.isFinite s.2 = true := fun s hs =>
    ⟨hregular _ (List.of_mem_zip hs).1, hsizes _ (List.of_mem_zip hs).2⟩
  have hpack := positioned_pack hcells hspacing (hbounds axis.cross) hshares position
  rw [List.map_fst_zip hlength.ge] at hpack
  unfold place
  dsimp only
  rw [hleftover, hposition]
  exact hpack

end Stack

namespace Overlay

variable {container : View Exact} {bounds : Size Exact} {c : Cell Exact}

/-- **A child of an overlay in its cell.** -/
theorem positioned_frame (hcells : container.constraints.cells ≠ .normal) (h : c.Regular)
    (horigin : ∀ axis, Scalar.isFinite (c.view.declaredOrigin.along axis) = true)
    (hbounds : ∀ axis, Scalar.isFinite (bounds.along axis) = true) :
    c.Positioned container (slot bounds c) (frame container bounds c) := by
  obtain ⟨size, hsize⟩ := CellPositioning.exists_sizeInCell c.natural (cellSize bounds c)
    hcells
  -- both axes at once, as the overlay writes them down
  have hframe : frame container bounds c = .ofOriginSize
      ⟨(cellOrigin c).x + (c.alignment container .horizontal).offset (cellSize bounds c).width
          (c.constraints.clamp size).width,
        (cellOrigin c).y + (c.alignment container .vertical).offset (cellSize bounds c).height
          (c.constraints.clamp size).height⟩ (c.constraints.clamp size) := by
    unfold frame
    dsimp only
    rw [hsize]
  rw [hframe]
  refine Cell.positioned_of_offset h (fun axis => ?_) hsize rfl
    (fun axis => by cases axis <;> rfl)
  -- the cell starts at the declared origin and the leading margin, both numbers
  obtain ⟨declared, hdeclared⟩ := Exact.isFinite_iff.mp (horigin axis)
  obtain ⟨extent, hextent⟩ := Exact.isFinite_iff.mp (hbounds axis)
  obtain ⟨leading, -, trailing, hl, -, ht, -⟩ := h.exists_lengths axis
  have hstart : (cellOrigin c).along axis = .finite (declared + leading) := by
    rw [along_cellOrigin, hdeclared, hl, Exact.finite_add]
  rw [slot, Rect.origin_ofOriginSize, Rect.size_ofOriginSize, along_cellSize, hstart, hextent, ht,
    Exact.finite_sub, Exact.finite_sub, Exact.zero_eq, Exact.finite_max]
  exact ⟨rfl, rfl⟩

/-- **The children of an overlay in their cells.** -/
theorem positioned_place {cells : List (Cell Exact)} (hcells : container.constraints.cells ≠ .normal)
    (hregular : ∀ c ∈ cells, c.Regular)
    (horigins : ∀ c ∈ cells, ∀ axis, Scalar.isFinite (c.view.declaredOrigin.along axis) = true)
    (hbounds : ∀ axis, Scalar.isFinite (bounds.along axis) = true) :
    List.Forall₂ (fun (q : Cell Exact × Rect Exact) place => q.1.Positioned container q.2 place)
      (cells.zip (cells.map (slot bounds))) ((place container cells bounds).map Prod.snd) := by
  rw [← List.map_prod_left_eq_zip, place, List.map_map, List.forall₂_map_left_iff,
    List.forall₂_map_right_iff, List.forall₂_same]
  exact fun c hc => positioned_frame hcells (hregular c hc) (horigins c hc) hbounds

end Overlay

/-! ## Trees -/

/-- **Where the children of a container lie in their cells**, in any tree that operations lead to, with
any settings and with any measurer. Nothing is asked of the bounds and of the origins in overlays but
that they are numbers. -/
theorem positioned_run (ops : List (Operation Exact)) (e : Engine Exact) {kind : Container}
    {id : ViewId} {v : View Exact} (hv : (empty.run ops).get? id = some v)
    (hsized : v.constraints.cells ≠ .normal)
    (hanchored : ∀ low ∈ ((empty.run ops).below id).ids, (e.pass (empty.run ops)).Anchored low)
    (horigins : kind.axis? = none → ∀ child ∈ v.children, ∀ w,
      (empty.run ops).get? child = some w → ∀ axis,
        Scalar.isFinite (w.declaredOrigin.along axis) = true)
    {bounds : Size Exact} (hbounds : ∀ axis, Scalar.isFinite (bounds.along axis) = true)
    {placements : List (Placement Exact)}
    (hok : ((e.pass (empty.run ops)).childPlacements kind id bounds).outcome = .ok placements) :
    ∃ cells : List (Cell Exact),
      (((empty.run ops).below id).cells (e.pass (empty.run ops)) bounds).outcome = .ok cells ∧
      cells.map Cell.id = v.children ∧
      (∀ c ∈ cells, (empty.run ops).get? c.id = some c.view) ∧
      placements.map Prod.fst = v.children ∧
      List.Forall₂ (fun (q : Cell Exact × Rect Exact) place => q.1.Positioned v q.2 place)
        (cells.zip (kind.slots e.settings v cells bounds)) (placements.map Prod.snd) := by
  have hvalid : (empty.run ops).ValidRecords := validRecords_run ops
  obtain ⟨cells, hcells, hids, hviews, hregular, rfl⟩ := Pass.exists_regular_cells
    (p := e.pass (empty.run ops)) (wellFormed_run ops) hvalid hv hanchored hok
  refine ⟨cells, hcells, hids, hviews, (kind.map_fst_place _ _ _ _).trans hids, ?_⟩
  show List.Forall₂ _ _ ((kind.place e.settings v cells bounds).map Prod.snd)
  cases haxis : kind.axis? with
  | some axis =>
    rw [Container.slots, Container.place, haxis]
    exact Stack.positioned_place hsized e.settings (hvalid id v hv) hregular hbounds
  | none =>
    rw [Container.slots, Container.place, haxis]
    refine Overlay.positioned_place hsized hregular (fun c hc => ?_) hbounds
    -- the cells are of the children of the view, whose origins are numbers
    refine horigins haxis c.id ?_ c.view (hviews c hc)
    rw [← hids]
    exact List.mem_map_of_mem hc

/-- A row that fits its children into their cells. The first grows, and sits in the middle of its cell.
The second belongs at the bottom, but is higher than its cell. -/
def fittedRow : List (Operation Exact) :=
  [.create .horizontal .zero, .create .horizontal ⟨.finite 10, .finite 20⟩,
    .create .horizontal ⟨.finite 10, .finite 10⟩, .insertBefore ⟨0, 1⟩ ⟨1, 1⟩ none,
    .insertBefore ⟨0, 1⟩ ⟨2, 1⟩ none, .edit ⟨0, 1⟩ [.cells .fitWithAspectRatio, .hAlign .center],
    .edit ⟨1, 1⟩ [.stretching, .margins (.finite 1)],
    .edit ⟨2, 1⟩ [.vAlign .bottom, .minExtent .vertical (.finite 50)]]

theorem positioned_fittedRow :
    let e : Engine Exact := ⟨⟨.finite (1 / 100), 32, false⟩, .stored⟩
    let bounds : Size Exact := ⟨.finite 100, .finite 42⟩
    ∃ (v : View Exact) (cells : List (Cell Exact)), (empty.run fittedRow).get? ⟨0, 1⟩ = some v ∧
      cells.map Cell.id = v.children ∧
      List.Forall₂ (fun (q : Cell Exact × Rect Exact) place => q.1.Positioned v q.2 place)
        (cells.zip (Container.horizontal.slots e.settings v cells bounds))
        [⟨.finite 35, .finite 1, .finite 20, .finite 40⟩,
          ⟨.finite (454 / 5), .finite 0, .finite (42 / 5), .finite 50⟩] := by
  have hleaves : ∀ low ∈ ((empty.run fittedRow).below ⟨0, 1⟩).ids,
      ∀ v ∈ (empty.run fittedRow).get? low, v.children = [] := by decide +kernel
  have hrow : ∀ v ∈ (empty.run fittedRow).get? ⟨0, 1⟩, v.constraints.cells ≠ .normal := by
    decide +kernel
  obtain ⟨v, hv⟩ : ∃ v, (empty.run fittedRow).get? ⟨0, 1⟩ = some v := ⟨_, rfl⟩
  have hplaces : ((Engine.pass ⟨⟨.finite (1 / 100), 32, false⟩, .stored⟩
      (empty.run fittedRow)).childPlacements .horizontal ⟨0, 1⟩
        ⟨.finite 100, .finite 42⟩).outcome = .ok
      [(⟨1, 1⟩, ⟨.finite 35, .finite 1, .finite 20, .finite 40⟩),
        (⟨2, 1⟩, ⟨.finite (454 / 5), .finite 0, .finite (42 / 5), .finite 50⟩)] := by decide +kernel
  obtain ⟨cells, -, hids, -, -, hpositioned⟩ := positioned_run fittedRow
    ⟨⟨.finite (1 / 100), 32, false⟩, .stored⟩ hv (hrow v hv) (fun low hlow w hw _ child hchild => by
      rw [hleaves low hlow w hw] at hchild
      nomatch hchild) (fun haxis => absurd haxis (by decide))
    (fun axis => by cases axis <;> rfl) hplaces
  exact ⟨v, cells, hv, hids, hpositioned⟩

end BoxLayout
