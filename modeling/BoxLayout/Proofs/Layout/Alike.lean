import BoxLayout.Layout.Arrange
import BoxLayout.Proofs.Distribution.Alike

/-!
# Containers treat like views alike

Two runs are compared view by view. What answers to what is a `Comparison`: which lengths count as
the same, and whether the axes of one run are those of the other or are swapped. A rule that is
stated for a main axis and the one across it is the same rule in either case. The few rules that name
width and height have to be looked at in both.

Views are alike if they agree in all that a rule reads. Their frames, their parents, their names and
their switches may differ.

## The architecture

* **`Comparison`** — like lengths, and the turn of the axes.
* **`Size.Alike`**, **`Constraints.Alike`**, **`View.Alike`**, **`Cell.Alike`** — what is compared.
* **`Stack.naturalSize_alike`**, **`Overlay.naturalSize_alike`** — like children ask for like sizes.
* **`Stack.place_alike`**, **`Overlay.place_alike`** — like children get like places. A cell whose
  child keeps its proportions picks one of two ratios, one for each axis, so this needs a `Fair`
  comparison.
-/

namespace BoxLayout

open Scalar

variable {α : Type} [Scalar α]

/-! ## Comparisons -/

/-- How two runs are compared. -/
structure Comparison (α : Type) [Scalar α] extends Likeness α where
  /-- The axis of the other run that answers to an axis. -/
  turn : Axis → Axis
  turn_cross : ∀ axis, turn axis.cross = (turn axis).cross

/-- The axes are kept, or the order in which two lengths are compared does not matter. -/
def Comparison.Fair (K : Comparison α) : Prop :=
  (∀ axis, K.turn axis = axis) ∨ K.toLikeness.Balanced

variable {K : Comparison α}

/-- A comparison keeps both axes or swaps them. -/
theorem Comparison.turn_cases (K : Comparison α) :
    (∀ axis, K.turn axis = axis) ∨ ∀ axis, K.turn axis = axis.cross := by
  have hcross : K.turn .vertical = (K.turn .horizontal).cross := K.turn_cross .horizontal
  -- where one axis goes decides where the other one does
  cases hturn : K.turn .horizontal with
  | horizontal =>
    rw [hturn] at hcross
    exact Or.inl fun axis => by cases axis <;> assumption
  | vertical =>
    rw [hturn] at hcross
    exact Or.inr fun axis => by cases axis <;> assumption

/-! ## Figures -/

variable (K) in
/-- Like extents along the axes that answer to each other. -/
def Size.Alike (s s' : Size α) : Prop := ∀ axis, K.like (s.along axis) (s'.along (K.turn axis))

variable (K) in
def PerAxis.Alike (p p' : PerAxis α) : Prop :=
  ∀ axis, K.like (p.along axis) (p'.along (K.turn axis))

variable (K) in
def Point.Alike (p p' : Point α) : Prop := ∀ axis, K.like (p.along axis) (p'.along (K.turn axis))

/-- Edges with like lengths where the axes start and where they end. -/
structure Edges.Alike (K : Comparison α) (e e' : Edges α) : Prop where
  leading : ∀ axis, K.like (e.leading axis) (e'.leading (K.turn axis))
  trailing : ∀ axis, K.like (e.trailing axis) (e'.trailing (K.turn axis))

/-- Like corners and like sizes. -/
structure Rect.Alike (K : Comparison α) (r r' : Rect α) : Prop where
  origin : r.origin.Alike K r'.origin
  size : r.size.Alike K r'.size

theorem Size.zero_alike : (Size.zero : Size α).Alike K .zero := fun axis => by
  rw [along_zero, along_zero]
  exact K.refl _

/-- What holds along an axis and across it holds along every axis. -/
theorem Axis.forall_of {P : Axis → Prop} (axis : Axis) (hmain : P axis) (hcross : P axis.cross)
    (other : Axis) : P other := by
  rcases axis.eq_or_eq_cross other with rfl | rfl <;> assumption

/-- A size that is given by one rule for both axes. -/
theorem Size.alike_of_axes {f g : Axis → α} (h : ∀ axis, K.like (f axis) (g (K.turn axis))) :
    Size.Alike K ⟨f .horizontal, f .vertical⟩ ⟨g .horizontal, g .vertical⟩ := by
  have halong (f : Axis → α) (axis : Axis) :
      (Size.mk (f .horizontal) (f .vertical)).along axis = f axis := by cases axis <;> rfl
  intro axis
  rw [halong f, halong g]
  exact h axis

/-- A position that is given by one rule for both axes. -/
theorem Point.alike_of_axes {f g : Axis → α} (h : ∀ axis, K.like (f axis) (g (K.turn axis))) :
    Point.Alike K ⟨f .horizontal, f .vertical⟩ ⟨g .horizontal, g .vertical⟩ := by
  have halong (f : Axis → α) (axis : Axis) :
      (Point.mk (f .horizontal) (f .vertical)).along axis = f axis := by cases axis <;> rfl
  intro axis
  rw [halong f, halong g]
  exact h axis

section

variable {s s' : Size α} {axis : Axis} {main main' cross cross' : α}

/-- A size that is given along an axis and across it, with the axis turned in the other run. -/
theorem Size.ofAxes_alike (axis : Axis) (hmain : K.like main main') (hcross : K.like cross cross') :
    (Size.ofAxes axis main cross).Alike K (Size.ofAxes (K.turn axis) main' cross') := by
  refine Axis.forall_of axis ?_ ?_
  · rw [Size.along_ofAxes, Size.along_ofAxes]
    exact hmain
  · rw [K.turn_cross, Size.along_cross_ofAxes, Size.along_cross_ofAxes]
    exact hcross

theorem Rect.ofAxes_alike {mainStart mainStart' crossStart crossStart' : α}
    (hmainStart : K.like mainStart mainStart') (hcrossStart : K.like crossStart crossStart')
    (hmain : K.like main main') (hcross : K.like cross cross') :
    (Rect.ofAxes axis mainStart crossStart main cross).Alike K
      (Rect.ofAxes (K.turn axis) mainStart' crossStart' main' cross') where
  origin := by
    refine Axis.forall_of axis ?_ ?_
    · rw [Rect.along_origin_ofAxes, Rect.along_origin_ofAxes]
      exact hmainStart
    · rw [K.turn_cross, Rect.along_cross_origin_ofAxes, Rect.along_cross_origin_ofAxes]
      exact hcrossStart
  size := by
    rw [Rect.size_ofAxes, Rect.size_ofAxes]
    exact Size.ofAxes_alike axis hmain hcross

theorem Size.Alike.add {t t' : Size α} (hs : s.Alike K s') (ht : t.Alike K t') :
    (s + t).Alike K (s' + t') := fun axis => by
  rw [Size.along_add, Size.along_add]
  exact K.add (hs axis) (ht axis)

/-- What edges take up along an axis is alike. -/
theorem Edges.Alike.along {e e' : Edges α} (h : e.Alike K e') (axis : Axis) :
    K.like (e.along axis) (e'.along (K.turn axis)) :=
  K.add (h.leading axis) (h.trailing axis)

theorem Size.Alike.deflate {e e' : Edges α} (hs : s.Alike K s') (he : e.Alike K e') :
    (s.deflate e).Alike K (s'.deflate e') := fun axis => by
  rw [Size.along_deflate, Size.along_deflate]
  exact K.max (K.sub (hs axis) (he.along axis)) (K.refl _)

/-- Both extents are asked the same, so their order does not matter. -/
theorem Size.Alike.isExtent_eq (h : s.Alike K s') : s.isExtent = s'.isExtent := by
  have hwidth := K.isExtent_eq (h .horizontal)
  have hheight := K.isExtent_eq (h .vertical)
  rcases K.turn_cases with hturn | hturn <;> rw [hturn] at hwidth hheight
  · -- the axes kept
    exact congrArg₂ and hwidth hheight
  · -- the axes swapped
    exact (congrArg₂ and hwidth hheight).trans (Bool.and_comm _ _)

end

/-! ## Views -/

/-- Records that agree in what a rule reads. -/
structure Constraints.Alike (K : Comparison α) (c c' : Constraints α) : Prop where
  min : c.min.Alike K c'.min
  max : c.max.Alike K c'.max
  stretch : c.stretch.Alike K c'.stretch
  ignoreNatural : c.ignoreNatural = c'.ignoreNatural
  adjustment : c.adjustment.Alike K c'.adjustment
  margins : c.margins.Alike K c'.margins
  spacing : c.spacing.Alike K c'.spacing
  alignment : ∀ axis, c.alignmentAlong axis = c'.alignmentAlong (K.turn axis)
  cells : c.cells = c'.cells

/-- Views that agree in what a rule reads. -/
structure View.Alike (K : Comparison α) (v v' : View α) : Prop where
  constraints : v.constraints.Alike K v'.constraints
  /-- The axis of a stack is turned; an overlay is one in both runs. -/
  container : v'.container.axis? = v.container.axis?.map K.turn
  contentSize : v.contentSize.Alike K v'.contentSize
  declaredOrigin : v.declaredOrigin.Alike K v'.declaredOrigin
  children : v.children = v'.children

/-- The same child, measured alike. -/
structure Cell.Alike (K : Comparison α) (c c' : Cell α) : Prop where
  id : c.id = c'.id
  view : c.view.Alike K c'.view
  natural : c.natural.Alike K c'.natural

/-- Places for the same child that are alike. -/
structure PlacementAlike (K : Comparison α) (p p' : Placement α) : Prop where
  id : p.1 = p'.1
  frame : p.2.Alike K p'.2

section

variable {c c' : Constraints α}

theorem Constraints.Alike.clampAlong (h : c.Alike K c') (axis : Axis) {a a' : α}
    (ha : K.like a a') : K.like (c.clampAlong axis a) (c'.clampAlong (K.turn axis) a') :=
  K.max (K.min ha (h.max axis)) (h.min axis)

theorem Constraints.Alike.clamp (h : c.Alike K c') {s s' : Size α} (hs : s.Alike K s') :
    (c.clamp s).Alike K (c'.clamp s') := fun axis => by
  rw [Constraints.along_clamp, Constraints.along_clamp]
  exact h.clampAlong axis (hs axis)

end

/-! ## Alignment -/

theorem Alignment.offset_alike (alignment : Alignment) {available available' used used' : α}
    (havailable : K.like available available') (hused : K.like used used') :
    K.like (alignment.offset available used) (alignment.offset available' used') := by
  have hfree := K.max (K.sub havailable hused) (K.refl zero)
  cases alignment with
  | start | fill => exact K.refl zero
  | center => exact K.half hfree
  | stop => exact hfree

namespace CellPositioning

variable {natural natural' cell cell' : Size α}

/-- The ratios of the two axes come in the order of the axes, so it must not matter which of them
comes first where the axes are swapped. -/
theorem scaled_alike {choose : α → α → α}
    (hchoose : ∀ {a a' b b'}, K.like a a' → K.like b b' → K.like (choose a b) (choose a' b'))
    (hfair : (∀ axis, K.turn axis = axis) ∨ ∀ a b, K.like (choose a b) (choose b a))
    (hnatural : natural.Alike K natural') (hcell : cell.Alike K cell') :
    (scaled choose natural cell).Alike K (scaled choose natural' cell') := by
  have hwidth := K.le_iff (hnatural .horizontal) (K.refl zero)
  have hheight := K.le_iff (hnatural .vertical) (K.refl zero)
  -- the natural size has an area in both runs or in neither
  have hempty : natural.width ≤ zero ∨ natural.height ≤ zero ↔
      natural'.width ≤ zero ∨ natural'.height ≤ zero := by
    rcases K.turn_cases with hturn | hturn <;> rw [hturn] at hwidth hheight
    · exact or_congr hwidth hheight
    · exact (or_congr hwidth hheight).trans or_comm
  unfold scaled
  simp only [hempty]
  split_ifs with hflat
  · exact hcell
  · obtain ⟨hposWidth, hposHeight⟩ := not_or.mp (mt hempty.mp hflat)
    have hratioWidth := K.div hposWidth (hcell .horizontal) (hnatural .horizontal)
    have hratioHeight := K.div hposHeight (hcell .vertical) (hnatural .vertical)
    -- the ratios compare one by one; with the axes swapped they are also chosen from in the other order
    have hfactor : K.like (choose (cell.width / natural.width) (cell.height / natural.height))
        (choose (cell'.width / natural'.width) (cell'.height / natural'.height)) := by
      rcases K.turn_cases with hturn | hturn <;> rw [hturn] at hratioWidth hratioHeight
      · exact hchoose hratioWidth hratioHeight
      · -- a comparison that swaps the axes does not keep them, so the choice does not mind the order
        rcases hfair with hkeep | hcomm
        · have hnot := (hkeep .horizontal).symm.trans (hturn .horizontal)
          contradiction
        · exact K.trans (hchoose hratioWidth hratioHeight) (hcomm _ _)
    exact Size.alike_of_axes (f := fun axis => natural.along axis * _)
      (g := fun axis => natural'.along axis * _) fun axis => K.mul (hnatural axis) hfactor

theorem sizeInCell_alike (hfair : K.Fair) (positioning : CellPositioning)
    (hnatural : natural.Alike K natural') (hcell : cell.Alike K cell') :
    Option.Rel (Size.Alike K) (positioning.sizeInCell natural cell)
      (positioning.sizeInCell natural' cell') := by
  cases positioning with
  | normal => exact .none
  | fill => exact .some hcell
  | fillWithAspectRatio =>
    exact .some (scaled_alike K.max (hfair.imp_right fun h => h.max_comm) hnatural hcell)
  | fitWithAspectRatio =>
    exact .some (scaled_alike K.min (hfair.imp_right fun h => h.min_comm) hnatural hcell)

end CellPositioning

/-! ## Cells -/

section

variable {c c' : Cell α} {container container' : View α}

theorem Cell.Alike.constraints (h : c.Alike K c') : c.constraints.Alike K c'.constraints :=
  h.view.constraints

theorem Cell.Alike.margins (h : c.Alike K c') : c.margins.Alike K c'.margins :=
  h.view.constraints.margins

/-- A child is aligned alike along axes that answer to each other. -/
theorem Cell.Alike.alignment_eq (h : c.Alike K c') (hcontainer : container.Alike K container')
    (axis : Axis) : c.alignment container axis = c'.alignment container' (K.turn axis) := by
  unfold Cell.alignment
  rw [h.constraints.alignment, hcontainer.constraints.alignment]

theorem Cell.Alike.stretches_eq (h : c.Alike K c') (axis : Axis) :
    c.stretches axis = c'.stretches (K.turn axis) := by
  simp only [Cell.stretches, K.lt_iff (K.refl zero) (h.constraints.stretch axis)]

/-- The extent of a child with its margins. -/
theorem Cell.Alike.outer (h : c.Alike K c') (axis : Axis) :
    K.like (c.natural.along axis + c.margins.along axis)
      (c'.natural.along (K.turn axis) + c'.margins.along (K.turn axis)) :=
  K.add (h.natural axis) (h.margins.along axis)

end

/-! ## Stacks -/

namespace Stack

variable {axis : Axis} {container container' : View α} {cells cells' : List (Cell α)}
  {settings settings' : Settings α} {bounds bounds' : Size α}

theorem gaps_alike (hview : container.Alike K container')
    (hcells : List.Forall₂ (Cell.Alike K) cells cells') :
    K.like (gaps axis container cells) (gaps (K.turn axis) container' cells') := by
  unfold gaps
  rw [hcells.length_eq]
  exact K.mul (K.refl _) (hview.constraints.spacing axis)

/-- **Like children make stacks of like sizes.** -/
theorem naturalSize_alike (hview : container.Alike K container')
    (hcells : List.Forall₂ (Cell.Alike K) cells cells') :
    (naturalSize axis container cells).Alike K (naturalSize (K.turn axis) container' cells') := by
  have hmain := K.sum (List.rel_map (fun _ _ hc => Cell.Alike.outer hc axis) hcells)
  have hcross : List.Forall₂ K.like
      (cells.map fun c => c.natural.along axis.cross + c.margins.along axis.cross)
      (cells'.map fun c =>
        c.natural.along (K.turn axis).cross + c.margins.along (K.turn axis).cross) := by
    rw [← K.turn_cross]
    exact List.rel_map (fun _ _ hc => Cell.Alike.outer hc axis.cross) hcells
  refine Size.ofAxes_alike axis (K.add hmain (gaps_alike hview hcells)) ?_
  exact List.rel_foldl (P := K.like) (R := K.like) (fun _ _ hx _ _ hy => K.max hx hy) (K.refl _)
    hcross

theorem item_alike {c c' : Cell α} (h : c.Alike K c') :
    (item axis c).Alike K.toLikeness (item (K.turn axis) c') :=
  ⟨h.natural axis, h.constraints.min axis, h.constraints.max axis, h.constraints.stretch axis⟩

theorem distribution_alike (axis : Axis) (hepsilon : settings.epsilon = settings'.epsilon)
    (hpasses : settings.maxPasses = settings'.maxPasses) (hview : container.Alike K container')
    (hcells : List.Forall₂ (Cell.Alike K) cells cells') (hbounds : bounds.Alike K bounds') :
    List.Forall₂ K.like (distribution settings axis container cells bounds).sizes
        (distribution settings' (K.turn axis) container' cells' bounds').sizes ∧
      K.like (distribution settings axis container cells bounds).leftover
        (distribution settings' (K.turn axis) container' cells' bounds').leftover := by
  have hmargins := K.sum (List.rel_map (fun _ _ hc => (Cell.Alike.margins hc).along axis) hcells)
  have hitems : List.Forall₂ (Item.Alike K.toLikeness) (cells.map (item axis))
      (cells'.map (item (K.turn axis))) := by
    refine List.rel_map (R := Cell.Alike K) (fun c c' hc => ?_) hcells
    exact item_alike hc
  exact distribute_alike hepsilon hpasses
    (K.sub (hbounds axis) (K.add hmargins (gaps_alike hview hcells))) hitems

/-- The alignment of a run is that of the container or the first of its children's, so it is one in both
runs. -/
theorem runAlignment_eq (hview : container.Alike K container')
    (hcells : List.Forall₂ (Cell.Alike K) cells cells') :
    runAlignment axis container cells = runAlignment (K.turn axis) container' cells' := by
  have hown : cells.map (fun c => c.constraints.alignmentAlong axis) =
      cells'.map fun c => c.constraints.alignmentAlong (K.turn axis) := by
    rw [← List.forall₂_eq_eq_eq]
    exact List.rel_map (fun _ _ hc => (Cell.Alike.constraints hc).alignment axis) hcells
  unfold runAlignment
  rw [hview.constraints.alignment, hown]

theorem runStart_alike (hepsilon : settings.epsilon = settings'.epsilon)
    (hview : container.Alike K container') (hcells : List.Forall₂ (Cell.Alike K) cells cells')
    {leftover leftover' : α} (hleftover : K.like leftover leftover') :
    K.like (runStart settings axis container cells leftover)
      (runStart settings' (K.turn axis) container' cells' leftover') := by
  unfold runStart
  rw [runAlignment_eq hview hcells]
  simp only [hepsilon, K.lt_iff (K.refl settings'.epsilon) hleftover]
  split_ifs
  · exact Alignment.offset_alike _ hleftover (K.refl _)
  · exact K.refl _

/-- **A like child in a like cell gets a like frame.** -/
theorem frame_alike (hfair : K.Fair) (hview : container.Alike K container')
    (hbounds : bounds.Alike K bounds') {c c' : Cell α} (hc : c.Alike K c')
    {start start' main main' : α} (hstart : K.like start start') (hmain : K.like main main') :
    (frame axis container bounds c start main).Alike K
      (frame (K.turn axis) container' bounds' c' start' main') := by
  -- what lies across the axis, with the turn written after the crossing as the rules have it
  have hmargin := hc.margins.along axis.cross
  have hleading := hc.margins.leading axis.cross
  have hacross := hbounds axis.cross
  have hnatural := hc.natural axis.cross
  rw [K.turn_cross] at hmargin hleading hacross hnatural
  have hroom := K.max (K.sub hacross hmargin) (K.refl zero)
  have hsize := CellPositioning.sizeInCell_alike hfair container.constraints.cells hc.natural
    (Size.ofAxes_alike axis hmain hroom)
  have halign := hc.alignment_eq hview axis
  have halignCross := hc.alignment_eq hview axis.cross
  rw [K.turn_cross] at halignCross
  have hstretches := hc.stretches_eq axis.cross
  rw [K.turn_cross] at hstretches
  unfold frame
  dsimp only
  rw [← hview.constraints.cells, ← halign, ← halignCross, ← hstretches]
  generalize container.constraints.cells.sizeInCell c.natural _ = size at hsize ⊢
  generalize container.constraints.cells.sizeInCell c'.natural _ = size' at hsize ⊢
  cases hsize with
  -- the size comes from the cell, so only where it starts is left to compare
  | some hsize =>
    have hclamped := hc.constraints.clamp hsize
    have hclampedCross := hclamped axis.cross
    rw [K.turn_cross] at hclampedCross
    exact Rect.ofAxes_alike (K.add hstart (Alignment.offset_alike _ hmain (hclamped axis)))
      (K.add hleading (Alignment.offset_alike _ hroom hclampedCross)) (hclamped axis) hclampedCross
  | none =>
    -- the extent across the axis is chosen alike, and brought within like bounds
    have hchosen : K.like
        (if c.alignment container axis.cross = .fill ∨ c.stretches axis.cross = true then
          Scalar.max (bounds.along axis.cross - c.margins.along axis.cross) zero
        else Scalar.min (c.natural.along axis.cross)
          (Scalar.max (bounds.along axis.cross - c.margins.along axis.cross) zero))
        (if c.alignment container axis.cross = .fill ∨ c.stretches axis.cross = true then
          Scalar.max (bounds'.along (K.turn axis).cross - c'.margins.along (K.turn axis).cross) zero
        else Scalar.min (c'.natural.along (K.turn axis).cross)
          (Scalar.max (bounds'.along (K.turn axis).cross - c'.margins.along (K.turn axis).cross)
            zero)) := by
      split_ifs
      · exact hroom
      · exact K.min hnatural hroom
    have hextent := hc.constraints.clampAlong axis.cross hchosen
    rw [K.turn_cross] at hextent
    generalize c.constraints.clampAlong axis.cross _ = extent at hextent ⊢
    generalize c'.constraints.clampAlong (K.turn axis).cross _ = extent' at hextent ⊢
    refine Rect.ofAxes_alike hstart (K.add hleading ?_) hmain hextent
    cases c.alignment container axis.cross with
    | start | fill => exact K.refl _
    | center => exact K.half (K.sub hroom hextent)
    | stop => exact K.sub hroom hextent

/-- Children packed one after another start alike, each from where the last one ended. -/
theorem pack_alike (hfair : K.Fair) (hview : container.Alike K container')
    (hbounds : bounds.Alike K bounds') (hcells : List.Forall₂ (Cell.Alike K) cells cells')
    {sizes sizes' : List α} (hsizes : List.Forall₂ K.like sizes sizes') {position position' : α}
    (hposition : K.like position position') :
    List.Forall₂ (PlacementAlike K) (pack axis container bounds position (cells.zip sizes))
      (pack (K.turn axis) container' bounds' position' (cells'.zip sizes')) := by
  induction hcells generalizing sizes sizes' position position' with
  | nil => exact .nil
  | cons hc _ ih =>
    cases hsizes with
    | nil => exact .nil
    | cons hmain hsizes =>
      -- the leading margin comes before the child, the trailing one and the spacing after it
      have hstart := K.add hposition (hc.margins.leading axis)
      refine .cons ⟨hc.id, frame_alike hfair hview hbounds hc hstart hmain⟩ (ih hsizes ?_)
      exact K.add hstart (K.add (K.add hmain (hc.margins.trailing axis))
        (hview.constraints.spacing axis))

/-- **Like children get like places in like stacks.** -/
theorem place_alike (hfair : K.Fair) (hepsilon : settings.epsilon = settings'.epsilon)
    (hpasses : settings.maxPasses = settings'.maxPasses) (hview : container.Alike K container')
    (hcells : List.Forall₂ (Cell.Alike K) cells cells') (hbounds : bounds.Alike K bounds') :
    List.Forall₂ (PlacementAlike K) (place settings axis container cells bounds)
      (place settings' (K.turn axis) container' cells' bounds') := by
  obtain ⟨hsizes, hleftover⟩ :=
    distribution_alike axis hepsilon hpasses hview hcells hbounds
  exact pack_alike hfair hview hbounds hcells hsizes
    (runStart_alike hepsilon hview hcells hleftover)

end Stack

/-! ## Overlays -/

namespace Overlay

variable {container container' : View α} {cells cells' : List (Cell α)} {c c' : Cell α}
  {bounds bounds' : Size α}

/-- **Like children make overlays of like sizes.** -/
theorem naturalSize_alike (hcells : List.Forall₂ (Cell.Alike K) cells cells') :
    (naturalSize cells).Alike K (naturalSize cells') := by
  unfold naturalSize
  -- an overlay is as large as the farthest end of a child, taken along each axis apart
  refine List.rel_foldl (P := Size.Alike K) (R := Cell.Alike K) ?_ Size.zero_alike hcells
  intro extent extent' hextent c c' hc
  refine Size.alike_of_axes
    (f := fun axis => Scalar.max (extent.along axis)
      (c.view.declaredOrigin.along axis + (c.natural + c.margins.size).along axis))
    (g := fun axis => Scalar.max (extent'.along axis)
      (c'.view.declaredOrigin.along axis + (c'.natural + c'.margins.size).along axis))
    fun axis => K.max (hextent axis) (K.add (hc.view.declaredOrigin axis) ?_)
  simpa only [Size.along_add, Edges.along_size] using hc.outer axis

theorem cellOrigin_alike (hc : c.Alike K c') : (cellOrigin c).Alike K (cellOrigin c') :=
  Point.alike_of_axes (f := fun axis => c.view.declaredOrigin.along axis + c.margins.leading axis)
    (g := fun axis => c'.view.declaredOrigin.along axis + c'.margins.leading axis)
    fun axis => K.add (hc.view.declaredOrigin axis) (hc.margins.leading axis)

theorem cellSize_alike (hbounds : bounds.Alike K bounds') (hc : c.Alike K c') :
    (cellSize bounds c).Alike K (cellSize bounds' c') :=
  Size.alike_of_axes
    (f := fun axis => Scalar.max
      (bounds.along axis - (cellOrigin c).along axis - c.margins.trailing axis) zero)
    (g := fun axis => Scalar.max
      (bounds'.along axis - (cellOrigin c').along axis - c'.margins.trailing axis) zero)
    fun axis => K.max (K.sub (K.sub (hbounds axis) (cellOrigin_alike hc axis))
      (hc.margins.trailing axis)) (K.refl _)

/-- A child without a positioned cell fills its cell or keeps its natural extent, alike in both runs. -/
theorem extent_alike (hview : container.Alike K container') (hbounds : bounds.Alike K bounds')
    (hc : c.Alike K c') (axis : Axis) :
    K.like (extent container bounds c axis) (extent container' bounds' c' (K.turn axis)) := by
  unfold extent
  rw [← hc.stretches_eq, ← hc.alignment_eq hview]
  split_ifs
  · exact hc.constraints.clampAlong axis (cellSize_alike hbounds hc axis)
  · exact hc.natural axis

/-- **A like child gets a like frame.** -/
theorem frame_alike (hfair : K.Fair) (hview : container.Alike K container')
    (hbounds : bounds.Alike K bounds') (hc : c.Alike K c') :
    (frame container bounds c).Alike K (frame container' bounds' c') := by
  have horigin := cellOrigin_alike hc
  have hcell := cellSize_alike hbounds hc
  have hsize := CellPositioning.sizeInCell_alike hfair container.constraints.cells hc.natural hcell
  unfold frame
  dsimp only
  rw [← hview.constraints.cells]
  generalize container.constraints.cells.sizeInCell c.natural _ = size at hsize ⊢
  generalize container.constraints.cells.sizeInCell c'.natural _ = size' at hsize ⊢
  cases hsize with
  | @some size size' hsize =>
    have hclamped := hc.constraints.clamp hsize
    refine ⟨?_, hclamped⟩
    refine Point.alike_of_axes
      (f := fun axis => (cellOrigin c).along axis + (c.alignment container axis).offset
        ((cellSize bounds c).along axis) ((c.constraints.clamp size).along axis))
      (g := fun axis => (cellOrigin c').along axis + (c'.alignment container' axis).offset
        ((cellSize bounds' c').along axis) ((c'.constraints.clamp size').along axis))
      fun axis => K.add (horigin axis) ?_
    rw [← hc.alignment_eq hview]
    exact Alignment.offset_alike _ (hcell axis) (hclamped axis)
  -- the size is chosen for each axis by itself
  | none =>
    exact ⟨horigin, Size.alike_of_axes (extent_alike hview hbounds hc)⟩

/-- **Like children get like places in like overlays.** -/
theorem place_alike (hfair : K.Fair) (hview : container.Alike K container')
    (hcells : List.Forall₂ (Cell.Alike K) cells cells') (hbounds : bounds.Alike K bounds') :
    List.Forall₂ (PlacementAlike K) (place container cells bounds)
      (place container' cells' bounds') :=
  List.rel_map (fun _ _ hc => ⟨Cell.Alike.id hc, frame_alike hfair hview hbounds hc⟩) hcells

end Overlay

/-! ## Containers -/

namespace Container

variable {kind kind' : Container} {view view' : View α} {cells cells' : List (Cell α)}
  {settings settings' : Settings α} {bounds bounds' : Size α}

theorem naturalSize_alike (hkind : kind'.axis? = kind.axis?.map K.turn) (hview : view.Alike K view')
    (hcells : List.Forall₂ (Cell.Alike K) cells cells') :
    (kind.naturalSize view cells).Alike K (kind'.naturalSize view' cells') := by
  unfold naturalSize
  rw [hkind]
  cases kind.axis? with
  | none => exact Overlay.naturalSize_alike hcells
  | some axis => exact Stack.naturalSize_alike hview hcells

theorem place_alike (hfair : K.Fair) (hepsilon : settings.epsilon = settings'.epsilon)
    (hpasses : settings.maxPasses = settings'.maxPasses)
    (hkind : kind'.axis? = kind.axis?.map K.turn) (hview : view.Alike K view')
    (hcells : List.Forall₂ (Cell.Alike K) cells cells') (hbounds : bounds.Alike K bounds') :
    List.Forall₂ (PlacementAlike K) (kind.place settings view cells bounds)
      (kind'.place settings' view' cells' bounds') := by
  unfold place
  rw [hkind]
  cases kind.axis? with
  | none => exact Overlay.place_alike hfair hview hcells hbounds
  | some axis => exact Stack.place_alike hfair hepsilon hpasses hview hcells hbounds

end Container

end BoxLayout
