import Mathlib
import BoxLayout.Proofs.Distribution.Totals
import BoxLayout.Proofs.Layout.Bounds

/-!
# Containers of their natural size

A container adds up what its children take, and takes that apart again when it places them. The two
are written separately: extents, margins and spacing along a stack, the room across it, the far
edges of an overlay. Without rounding the second undoes the first. In bounds of exactly the natural
size there is nothing to share out, and a child that nothing makes fill its cell has room for its
natural size.

## The architecture

* **`View.KeepsNatural`**, **`View.KeepsNaturalIn`** — that nothing makes a child fill an axis, and
  that its container leaves it its natural size.
* **`Cell.FitsIn`** — a place has the natural size of a child, whose margins end inside the bounds.
* **`Cell.footprint`** — what a child takes along an axis, as a rational.
* **`Stack.fitsIn_pack`** — a run fits if it starts early enough, by induction on the children.
* **`Stack.fitsIn_place`**, **`Overlay.fitsIn_place`**, **`Container.fitsIn_place`** — a container
  of its natural size fits its children.
-/

namespace BoxLayout

variable {α : Type}

/-! ## Children that keep their natural size -/

/-- Nothing makes a view in a container take more than its natural extent along an axis: it has no
weight there, and neither its own alignment nor, for want of one, its container's has it fill the
axis. -/
structure View.KeepsNatural [Scalar α] (v container : View α) (axis : Axis) : Prop where
  weightless : ¬ Scalar.zero < v.constraints.stretch.along axis
  alignment_ne : ((v.constraints.alignmentAlong axis).or
    (container.constraints.alignmentAlong axis)).getD .start ≠ .fill

/-- What a container asks of a child that is to keep its natural size. Along a stack any weight and
any alignment will do. In an overlay the child's declared origin is a pair of numbers: an infinity or
a NaN is nothing that exact lengths can be added up to. -/
structure View.KeepsNaturalIn (v container : View Exact) : Prop where
  across : ∀ axis, container.container.axis? = some axis → v.KeepsNatural container axis.cross
  overlaid : container.container.axis? = none → ∀ axis, v.KeepsNatural container axis ∧
    Scalar.isFinite (v.declaredOrigin.along axis) = true

/-- A measured child whose natural size is one. -/
structure Cell.Regular (c : Cell Exact) : Prop extends c.Proper where
  natural_isExtent : ∀ axis, Scalar.isExtent (c.natural.along axis) = true

/-- A place has the natural size of a child, and the child's margins end inside the bounds. -/
structure Cell.FitsIn (bounds : Size Exact) (c : Cell Exact) (place : Placement Exact) : Prop where
  id_eq : place.1 = c.id
  size_eq : place.2.size = c.natural
  ends : ∀ axis, place.2.origin.along axis + place.2.size.along axis + c.margins.trailing axis ≤
    bounds.along axis

/-- What a child takes up along an axis, margins included. -/
def Cell.footprint (c : Cell Exact) (axis : Axis) : Rat :=
  (c.margins.leading axis).toRat + (c.natural.along axis).toRat + (c.margins.trailing axis).toRat

namespace Cell.Regular

variable {c : Cell Exact}

/-- The three lengths of a child along an axis, as rationals. -/
theorem exists_lengths (h : c.Regular) (axis : Axis) : ∃ leading natural trailing : Rat,
    c.margins.leading axis = .finite leading ∧ c.natural.along axis = .finite natural ∧
      c.margins.trailing axis = .finite trailing ∧
      0 ≤ leading ∧ 0 ≤ natural ∧ 0 ≤ trailing ∧
      c.footprint axis = leading + natural + trailing := by
  obtain ⟨leading, hleading, heq⟩ := Exact.isExtent_iff.mp (h.valid.leading_isExtent axis)
  obtain ⟨natural, hnatural, heq'⟩ := Exact.isExtent_iff.mp (h.natural_isExtent axis)
  obtain ⟨trailing, htrailing, heq''⟩ := Exact.isExtent_iff.mp (h.valid.trailing_isExtent axis)
  have hfootprint : c.footprint axis = leading + natural + trailing := by
    unfold footprint
    rw [heq', show c.margins.leading axis = .finite leading from heq,
      show c.margins.trailing axis = .finite trailing from heq'']
    rfl
  exact ⟨leading, natural, trailing, heq, heq', heq'', hleading, hnatural, htrailing, hfootprint⟩

/-- No child takes up less than nothing: margins and natural sizes are extents. -/
theorem zero_le_footprint (h : c.Regular) (axis : Axis) : 0 ≤ c.footprint axis := by
  obtain ⟨leading, natural, trailing, -, -, -, hleading, hnatural, htrailing, heq⟩ :=
    h.exists_lengths axis
  rw [heq]
  positivity

/-- The footprint is what the container adds up, whichever way the sum is grouped. -/
theorem natural_add_margins (h : c.Regular) (axis : Axis) :
    c.natural.along axis + c.margins.along axis = .finite (c.footprint axis) := by
  obtain ⟨leading, natural, trailing, hleading, hnatural, htrailing, -, -, -, heq⟩ :=
    h.exists_lengths axis
  rw [Edges.along, hleading, hnatural, htrailing, heq, Exact.finite_add, Exact.finite_add]
  congr 1
  ring

theorem clampAlong_natural (h : c.Regular) (axis : Axis) :
    c.constraints.clampAlong axis (c.natural.along axis) = c.natural.along axis :=
  Constraints.clampAlong_eq_self (Or.inr (h.natural_mem axis))
    (Constraints.isNaN_of_isExtent (h.natural_isExtent axis))

/-- A natural size that keeps to the bounds is left alone by them. -/
theorem clamp_natural (h : c.Regular) : c.constraints.clamp c.natural = c.natural :=
  Size.ext_along fun axis => by rw [Constraints.along_clamp, h.clampAlong_natural]

theorem isExtent_natural (h : c.Regular) : c.natural.isExtent = true :=
  Size.isExtent_iff.mpr h.natural_isExtent

end Cell.Regular

/-- The two reasons to fill a cell, both ruled out. -/
theorem View.KeepsNatural.not_fills {container : View Exact} {c : Cell Exact} {axis : Axis}
    (h : c.view.KeepsNatural container axis) :
    ¬ (c.alignment container axis = .fill ∨ c.stretches axis = true) := by
  rintro (hfill | hstretches)
  · exact h.alignment_ne hfill
  · exact h.weightless (of_decide_eq_true hstretches)

/-! ## No slack -/

/-- Where there is neither surplus nor deficit, all items keep their natural extents. -/
theorem distribute_of_no_slack {settings : Settings Exact}
    (hepsilon : Scalar.zero ≤ settings.epsilon) {items : List (Item Exact)} {available : Exact}
    (hslack : available - Scalar.sum (items.map Item.natural) = .finite 0) :
    distribute settings items available =
      { sizes := items.map Item.natural, leftover := .finite 0, course := none } := by
  -- a slack of zero is on neither side of the tolerance
  have hgrow : ¬ settings.epsilon < .finite 0 := Scalar.not_lt_of_le hepsilon
  have hshrink : ¬ Exact.finite 0 < -settings.epsilon :=
    Scalar.not_lt_of_le (Exact.neg_le_zero hepsilon)
  have hnone : Direction.choose? settings items available = none := by
    unfold Direction.choose?
    dsimp only
    rw [hslack, if_neg fun h => hgrow h.1, if_neg hshrink]
  unfold distribute
  rw [hnone]
  dsimp only [Option.map_none]
  rw [hslack]

/-! ## Stacks -/

namespace Stack

variable {axis : Axis} {container : View Exact} {cells : List (Cell Exact)} {c : Cell Exact}
  {bounds : Size Exact}

/-- Across the axis a child that keeps its natural size has room for just that, and ends inside. -/
theorem frame_eq (h : c.Regular) (hnormal : container.constraints.cells = .normal)
    (hkeeps : c.view.KeepsNatural container axis.cross) {cross : Rat}
    (hcross : bounds.along axis.cross = .finite cross) (hroom : c.footprint axis.cross ≤ cross)
    (start main : Exact) : ∃ crossStart : Exact,
      frame axis container bounds c start main =
        .ofAxes axis start crossStart main (c.natural.along axis.cross) ∧
      crossStart + c.natural.along axis.cross + c.margins.trailing axis.cross ≤ .finite cross := by
  obtain ⟨leading, natural, trailing, hl, hn, ht, hl0, hn0, ht0, hf⟩ := h.exists_lengths axis.cross
  have hfree : 0 ≤ cross - (leading + trailing) - natural := by linarith
  -- the cell is at least as wide as the child with its margins
  have hcell : Scalar.max (bounds.along axis.cross - c.margins.along axis.cross) Scalar.zero =
      .finite (cross - (leading + trailing)) := by
    rw [hcross, Edges.along, hl, ht, Exact.finite_add, Exact.finite_sub, Exact.zero_eq,
      Exact.finite_max, max_eq_left (by linarith)]
  -- so the natural extent is taken, and the bounds leave it
  have hextent : c.constraints.clampAlong axis.cross
      (Scalar.min (c.natural.along axis.cross) (.finite (cross - (leading + trailing)))) =
        c.natural.along axis.cross := by
    rw [Scalar.min_eq_left, h.clampAlong_natural]
    rw [hn, Exact.finite_le_finite]
    linarith
  -- wherever the cell is set across the axis, it is moved by no more than the room it leaves
  have hoffset : ∃ offset : Rat, offset ≤ cross - (leading + trailing) - natural ∧
      frame axis container bounds c start main =
        .ofAxes axis start (.finite (leading + offset)) main (c.natural.along axis.cross) := by
    unfold frame
    rw [hnormal]
    dsimp only [CellPositioning.sizeInCell]
    rw [hcell, if_neg hkeeps.not_fills, hextent, hl, hn, Exact.two_eq, Exact.finite_sub]
    cases halign : c.alignment container axis.cross with
    | start => exact ⟨0, hfree, by simp⟩
    | center => exact ⟨_, half_le_self hfree, by simp [Exact.finite_div]⟩
    | stop => exact ⟨_, le_refl _, by simp⟩
    | fill => exact absurd halign hkeeps.alignment_ne
  obtain ⟨offset, hle, hframe⟩ := hoffset
  refine ⟨_, hframe, ?_⟩
  rw [hn, ht, Exact.finite_add, Exact.finite_add, Exact.finite_le_finite]
  linarith

/-- **A child fits into its cell** if the run has room for it along the axis and the stack across. -/
theorem fitsIn_frame (h : c.Regular) (hnormal : container.constraints.cells = .normal)
    (hkeeps : c.view.KeepsNatural container axis.cross) {start main cross : Rat}
    (hmain : bounds.along axis = .finite main) (hcross : bounds.along axis.cross = .finite cross)
    (hend : start + c.footprint axis ≤ main) (hroom : c.footprint axis.cross ≤ cross) :
    c.FitsIn bounds (c.id, frame axis container bounds c
      (.finite start + c.margins.leading axis) (c.natural.along axis)) := by
  obtain ⟨crossStart, hframe, hends⟩ := frame_eq h hnormal hkeeps hcross hroom
    (.finite start + c.margins.leading axis) (c.natural.along axis)
  rw [hframe]
  refine ⟨rfl, ?_, fun other => ?_⟩
  · rw [Rect.size_ofAxes]
    refine Size.ext_along fun other => ?_
    rcases axis.eq_or_eq_cross other with rfl | rfl <;> simp
  · rw [Rect.size_ofAxes]
    -- along the axis the run leaves room, across it the cell does
    rcases axis.eq_or_eq_cross other with rfl | rfl
    · obtain ⟨leading, natural, trailing, hl, hn, ht, -, -, -, hf⟩ := h.exists_lengths other
      rw [Rect.along_origin_ofAxes, Size.along_ofAxes, hl, hn, ht, hmain]
      simp only [Exact.finite_add, Exact.finite_le_finite]
      linarith
    · rw [Rect.along_cross_origin_ofAxes, Size.along_cross_ofAxes, hcross]
      exact hends

/-- **A run fits if it starts early enough.** Induction on the children, with the position as it
moves on; every child is followed by the spacing, the last one included. -/
theorem fitsIn_pack (hcells : ∀ c ∈ cells, c.Regular)
    (hnormal : container.constraints.cells = .normal)
    (hkeeps : ∀ c ∈ cells, c.view.KeepsNatural container axis.cross) {main cross spacing : Rat}
    (hmain : bounds.along axis = .finite main) (hcross : bounds.along axis.cross = .finite cross)
    (hspacing : container.constraints.spacing.along axis = .finite spacing)
    (hspacing0 : 0 ≤ spacing) (hroom : ∀ c ∈ cells, c.footprint axis.cross ≤ cross) {position : Rat}
    (hend : position + (cells.map fun c => c.footprint axis + spacing).sum ≤ main + spacing)
    {place : Placement Exact} (hplace : place ∈ pack axis container bounds (.finite position)
      (cells.zip (cells.map fun c => c.natural.along axis))) :
    ∃ c ∈ cells, c.FitsIn bounds place := by
  induction cells generalizing position with
  | nil => nomatch hplace
  | cons c rest ih =>
    have hc := hcells c List.mem_cons_self
    have hothers : ∀ d ∈ rest, d.Regular := fun d hd => hcells d (List.mem_cons_of_mem _ hd)
    -- the rest takes up no less than nothing, so the first child alone has room
    have hrest : 0 ≤ (rest.map fun c => c.footprint axis + spacing).sum := by
      refine List.sum_nonneg fun x hx => ?_
      obtain ⟨d, hd, rfl⟩ := List.mem_map.mp hx
      exact add_nonneg ((hothers d hd).zero_le_footprint axis) hspacing0
    rw [List.map_cons, List.sum_cons] at hend
    rcases List.mem_cons.mp hplace with rfl | hplace
    · exact ⟨c, List.mem_cons_self, fitsIn_frame hc hnormal (hkeeps c List.mem_cons_self) hmain
        hcross (by linarith) (hroom c List.mem_cons_self)⟩
    · obtain ⟨leading, natural, trailing, hl, hn, ht, -, -, -, hf⟩ := hc.exists_lengths axis
      -- the next cell begins one footprint and one spacing further on, without rounding
      have hnext : Exact.finite position + c.margins.leading axis +
          (c.natural.along axis + c.margins.trailing axis +
            container.constraints.spacing.along axis) =
          .finite (position + (c.footprint axis + spacing)) := by
        rw [hl, hn, ht, hspacing, hf]
        simp only [Exact.finite_add]
        congr 1
        ring
      rw [hnext] at hplace
      obtain ⟨d, hd, hfits⟩ := ih hothers (fun d hd => hkeeps d (List.mem_cons_of_mem _ hd))
        (fun d hd => hroom d (List.mem_cons_of_mem _ hd)) (by linarith) hplace
      exact ⟨d, List.mem_cons_of_mem _ hd, hfits⟩

/-- The natural size of a stack, as rationals. -/
theorem naturalSize_eq (hcells : ∀ c ∈ cells, c.Regular) {spacing : Rat}
    (hspacing : container.constraints.spacing.along axis = .finite spacing) :
    (naturalSize axis container cells).along axis = .finite
        ((cells.map fun c => c.footprint axis).sum + (cells.length - 1 : ℕ) * spacing) ∧
      ∃ cross : Rat, 0 ≤ cross ∧
        (naturalSize axis container cells).along axis.cross = .finite cross ∧
        ∀ c ∈ cells, c.footprint axis.cross ≤ cross := by
  -- both sums are over footprints
  have houter (axis : Axis) : (cells.map fun c => c.natural.along axis + c.margins.along axis) =
      cells.map fun c => .finite (c.footprint axis) :=
    List.map_congr_left fun c hc => (hcells c hc).natural_add_margins axis
  unfold naturalSize gaps
  dsimp only
  rw [Size.along_ofAxes, Size.along_cross_ofAxes, houter, houter, Exact.sum_map_finite, hspacing]
  obtain ⟨cross, heq, hle, hmem⟩ :=
    Exact.foldl_max_map_finite (fun c : Cell Exact => c.footprint axis.cross) cells 0
  exact ⟨rfl, cross, hle, heq, hmem⟩

/-- At the natural size nothing is shared out. -/
theorem distribution_naturalSize {settings : Settings Exact}
    (hepsilon : Scalar.zero ≤ settings.epsilon) (hcells : ∀ c ∈ cells, c.Regular) {spacing : Rat}
    (hspacing : container.constraints.spacing.along axis = .finite spacing) :
    distribution settings axis container cells (naturalSize axis container cells) =
      { sizes := cells.map fun c => c.natural.along axis
        leftover := .finite 0
        course := none } := by
  -- the margins are what the naturals leave of the footprints
  have hmargins : (cells.map fun c => c.margins.along axis) =
      cells.map fun c => .finite (c.footprint axis - (c.natural.along axis).toRat) := by
    refine List.map_congr_left fun c hc => ?_
    obtain ⟨leading, natural, trailing, hl, hn, ht, -, -, -, hf⟩ :=
      (hcells c hc).exists_lengths axis
    rw [Edges.along, hl, ht, hf, hn, Exact.finite_add, Exact.toRat]
    congr 1
    ring
  have hnaturals : (cells.map fun c => c.natural.along axis) =
      cells.map fun c => .finite (c.natural.along axis).toRat :=
    List.map_congr_left fun c hc => Exact.eq_finite_toRat
      (Scalar.isExtent_iff.mp ((hcells c hc).natural_isExtent axis)).1
  have hitems : (cells.map (item axis)).map Item.natural =
      cells.map fun c => c.natural.along axis := List.map_map
  unfold distribution
  dsimp only
  rw [distribute_of_no_slack hepsilon]
  · rw [hitems]
  · rw [hitems, (naturalSize_eq hcells hspacing).1, hmargins, hnaturals, Exact.sum_map_finite,
      Exact.sum_map_finite, gaps, hspacing]
    -- margins and naturals together are the footprints, which is what the bounds hold
    have htotal : (cells.map fun c => c.footprint axis - (c.natural.along axis).toRat).sum +
        (cells.map fun c => (c.natural.along axis).toRat).sum =
          (cells.map fun c => c.footprint axis).sum := by
      simp only [← List.sum_map_add, sub_add_cancel]
    show Exact.finite _ - (.finite _ + .finite _ * .finite spacing) - .finite _ = _
    rw [Exact.finite_mul, Exact.finite_add, Exact.finite_sub, Exact.finite_sub, ← htotal]
    congr 1
    ring

/-- **A stack of its natural size fits its children.** -/
theorem fitsIn_place {settings : Settings Exact} (hepsilon : Scalar.zero ≤ settings.epsilon)
    (hvalid : container.constraints.Valid) (hnormal : container.constraints.cells = .normal)
    (hcells : ∀ c ∈ cells, c.Regular)
    (hkeeps : ∀ c ∈ cells, c.view.KeepsNatural container axis.cross) {p : Placement Exact}
    (hp : p ∈ place settings axis container cells (naturalSize axis container cells)) :
    ∃ c ∈ cells, c.FitsIn (naturalSize axis container cells) p := by
  obtain ⟨spacing, hspacing0, hspacing⟩ := Exact.isExtent_iff.mp (hvalid.spacing_isExtent axis)
  obtain ⟨hmain, cross, -, hcross, hroom⟩ := naturalSize_eq hcells hspacing
  -- nothing is left over, so the run starts at the leading edge
  have hstart : runStart settings axis container cells (.finite 0) = .finite 0 :=
    if_neg (Scalar.not_lt_of_le hepsilon)
  unfold place at hp
  rw [distribution_naturalSize hepsilon hcells hspacing] at hp
  dsimp only at hp
  rw [hstart] at hp
  refine fitsIn_pack hcells hnormal hkeeps hmain hcross hspacing hspacing0 hroom ?_ hp
  -- one spacing less than there are children, and the one after the last
  have hcount : (cells.length : ℚ) ≤ (cells.length - 1 : ℕ) + 1 := by
    exact_mod_cast Nat.le_add_of_sub_le (le_refl _)
  rw [List.sum_map_add, List.map_const', List.sum_replicate, nsmul_eq_mul]
  nlinarith

/-- A stack of regular children asks for a size. -/
theorem isExtent_naturalSize (hvalid : container.constraints.Valid)
    (hcells : ∀ c ∈ cells, c.Regular) (other : Axis) :
    Scalar.isExtent ((naturalSize axis container cells).along other) = true := by
  obtain ⟨spacing, hspacing0, hspacing⟩ := Exact.isExtent_iff.mp (hvalid.spacing_isExtent axis)
  obtain ⟨hmain, cross, hcross0, hcross, -⟩ := naturalSize_eq hcells hspacing
  rcases axis.eq_or_eq_cross other with rfl | rfl
  · have hsum : 0 ≤ (cells.map fun c => c.footprint other).sum := by
      refine List.sum_nonneg fun x hx => ?_
      obtain ⟨c, hc, rfl⟩ := List.mem_map.mp hx
      exact (hcells c hc).zero_le_footprint other
    rw [hmain]
    exact Exact.isExtent_iff.mpr ⟨_, by positivity, rfl⟩
  · rw [hcross]
    exact Exact.isExtent_iff.mpr ⟨cross, hcross0, rfl⟩

end Stack

/-! ## Overlays -/

namespace Overlay

variable {container : View Exact} {cells : List (Cell Exact)} {c : Cell Exact}
  {bounds : Size Exact}

/-- An overlay reaches the farthest far margin, along each axis. -/
theorem along_naturalSize [Scalar α] (cells : List (Cell α)) (axis : Axis) :
    (naturalSize cells).along axis = (cells.map fun c => c.view.declaredOrigin.along axis +
      (c.natural.along axis + c.margins.along axis)).foldl Scalar.max Scalar.zero := by
  -- generalised to any size that has been reached so far
  have hall (extent : Size α) : (cells.foldl
      (fun extent c =>
        let footprint := c.natural + c.margins.size
        (⟨Scalar.max extent.width (c.view.declaredOrigin.x + footprint.width),
          Scalar.max extent.height (c.view.declaredOrigin.y + footprint.height)⟩ : Size α))
      extent).along axis = (cells.map fun c => c.view.declaredOrigin.along axis +
        (c.natural.along axis + c.margins.along axis)).foldl Scalar.max (extent.along axis) := by
    induction cells generalizing extent with
    | nil => rfl
    | cons c cells ih =>
      rw [List.foldl_cons, ih, List.map_cons, List.foldl_cons]
      cases axis <;> rfl
  exact (hall .zero).trans (by rw [Size.along_zero])

/-- The natural size of an overlay is one, and reaches the far margins of every child. -/
theorem naturalSize_spec (hcells : ∀ c ∈ cells, c.Regular) (axis : Axis)
    (horigins : ∀ c ∈ cells, Scalar.isFinite (c.view.declaredOrigin.along axis) = true) :
    ∃ extent : Rat, 0 ≤ extent ∧ (naturalSize cells).along axis = .finite extent ∧
      ∀ c ∈ cells, (c.view.declaredOrigin.along axis).toRat + c.footprint axis ≤ extent := by
  -- the far end of a child is its declared origin and its footprint
  have houter : (cells.map fun c => c.view.declaredOrigin.along axis +
      (c.natural.along axis + c.margins.along axis)) =
        cells.map fun c =>
          .finite ((c.view.declaredOrigin.along axis).toRat + c.footprint axis) := by
    refine List.map_congr_left fun c hc => ?_
    rw [(hcells c hc).natural_add_margins, Exact.eq_finite_toRat (horigins c hc)]
    rfl
  obtain ⟨extent, heq, hle, hmem⟩ := Exact.foldl_max_map_finite
    (fun c : Cell Exact => (c.view.declaredOrigin.along axis).toRat + c.footprint axis) cells 0
  refine ⟨extent, hle, ?_, hmem⟩
  rw [along_naturalSize, houter]
  exact heq

/-- **A child fits into its cell** if it ends inside the overlay. -/
theorem fitsIn_frame (h : c.Regular) (hnormal : container.constraints.cells = .normal)
    (hkeeps : ∀ axis, c.view.KeepsNatural container axis)
    (horigin : ∀ axis, Scalar.isFinite (c.view.declaredOrigin.along axis) = true)
    (hend : ∀ axis, .finite ((c.view.declaredOrigin.along axis).toRat + c.footprint axis) ≤
      bounds.along axis) :
    c.FitsIn bounds (c.id, frame container bounds c) := by
  -- no axis is filled, so each extent is the natural one
  have hextent (axis : Axis) : extent container bounds c axis = c.natural.along axis :=
    if_neg fun hfills => (hkeeps axis).not_fills hfills.symm
  have hframe : frame container bounds c = .ofOriginSize (cellOrigin c) c.natural := by
    unfold frame
    rw [hnormal]
    dsimp only [CellPositioning.sizeInCell]
    rw [hextent, hextent]
    rfl
  rw [hframe]
  refine ⟨rfl, rfl, fun axis => ?_⟩
  obtain ⟨leading, natural, trailing, hl, hn, ht, -, -, -, hf⟩ := h.exists_lengths axis
  have hcell : (cellOrigin c).along axis =
      c.view.declaredOrigin.along axis + c.margins.leading axis := along_cellOrigin c axis
  refine Eq.trans_le ?_ (hend axis)
  rw [Rect.origin_ofOriginSize, Rect.size_ofOriginSize, hcell, hl, hn, ht, hf,
    Exact.eq_finite_toRat (horigin axis)]
  simp only [Exact.finite_add, Exact.toRat]
  congr 1
  ring

/-- **An overlay of its natural size fits its children.** -/
theorem fitsIn_place (hnormal : container.constraints.cells = .normal)
    (hcells : ∀ c ∈ cells, c.Regular)
    (hkeeps : ∀ c ∈ cells, ∀ axis, c.view.KeepsNatural container axis ∧
      Scalar.isFinite (c.view.declaredOrigin.along axis) = true) {p : Placement Exact}
    (hp : p ∈ place container cells (naturalSize cells)) :
    ∃ c ∈ cells, c.FitsIn (naturalSize cells) p := by
  obtain ⟨c, hc, rfl⟩ := List.mem_map.mp hp
  refine ⟨c, hc, ?_⟩
  refine fitsIn_frame (hcells c hc) hnormal (fun axis => (hkeeps c hc axis).1)
    (fun axis => (hkeeps c hc axis).2) fun axis => ?_
  obtain ⟨extent, -, heq, hmem⟩ := naturalSize_spec hcells axis fun c hc => (hkeeps c hc axis).2
  rw [heq]
  exact Exact.finite_le_finite.mpr (hmem c hc)

end Overlay

/-! ## All containers -/

namespace Container

variable {container : View Exact} {cells : List (Cell Exact)}

/-- A container of regular children asks for a size. -/
theorem isExtent_naturalSize (hvalid : container.constraints.Valid)
    (hcells : ∀ c ∈ cells, c.Regular)
    (horigins : container.container.axis? = none → ∀ c ∈ cells, ∀ axis,
      Scalar.isFinite (c.view.declaredOrigin.along axis) = true) (axis : Axis) :
    Scalar.isExtent ((container.container.naturalSize container cells).along axis) = true := by
  unfold naturalSize
  cases haxis : container.container.axis? with
  | none =>
    obtain ⟨extent, hextent, heq, -⟩ := Overlay.naturalSize_spec hcells axis fun c hc =>
      horigins haxis c hc axis
    exact Exact.isExtent_iff.mpr ⟨extent, hextent, heq⟩
  | some main => exact Stack.isExtent_naturalSize hvalid hcells axis

/-- **A container of its natural size fits its children**: every place it gives has the natural size
of a child, and the child's margins end inside. -/
theorem fitsIn_place {settings : Settings Exact} (hepsilon : Scalar.zero ≤ settings.epsilon)
    (hvalid : container.constraints.Valid) (hnormal : container.constraints.cells = .normal)
    (hcells : ∀ c ∈ cells, c.Regular) (hkeeps : ∀ c ∈ cells, c.view.KeepsNaturalIn container)
    {p : Placement Exact} (hp : p ∈ container.container.place settings container cells
      (container.container.naturalSize container cells)) :
    ∃ c ∈ cells, c.FitsIn (container.container.naturalSize container cells) p := by
  unfold naturalSize place at hp
  unfold naturalSize
  cases haxis : container.container.axis? with
  | none =>
    rw [haxis] at hp
    exact Overlay.fitsIn_place hnormal hcells (fun c hc => (hkeeps c hc).overlaid haxis) hp
  | some axis =>
    rw [haxis] at hp
    exact Stack.fitsIn_place hepsilon hvalid hnormal hcells
      (fun c hc => (hkeeps c hc).across axis haxis) hp

end Container

end BoxLayout
