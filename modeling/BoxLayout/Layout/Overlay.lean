import BoxLayout.Layout.Cell

/-!
# Overlays

An overlay places its children independently of each other, each from its declared origin.

* `Overlay.naturalSize` — the smallest size that reaches every child's far margins.
* `Overlay.frame` — the frame of a child.
-/

namespace BoxLayout.Overlay

variable {α : Type} [Scalar α]

def naturalSize (cells : List (Cell α)) : Size α :=
  cells.foldl
    (fun extent c =>
      let footprint := c.natural + c.margins.size
      ⟨Scalar.max extent.width (c.view.declaredOrigin.x + footprint.width),
       Scalar.max extent.height (c.view.declaredOrigin.y + footprint.height)⟩)
    .zero

/-- Where a child's cell begins: at its declared origin, inside its margins. -/
def cellOrigin (c : Cell α) : Point α :=
  ⟨c.view.declaredOrigin.x + c.margins.left, c.view.declaredOrigin.y + c.margins.top⟩

/-- The size of a child's cell, which reaches to the far edges of the bounds. -/
def cellSize (bounds : Size α) (c : Cell α) : Size α :=
  let origin := cellOrigin c
  ⟨Scalar.max (bounds.width - origin.x - c.margins.right) Scalar.zero,
   Scalar.max (bounds.height - origin.y - c.margins.bottom) Scalar.zero⟩

/-- The extent of a child along an axis when the container does not size it: the cell's if the
child stretches or fills, its natural one otherwise. -/
def extent (container : View α) (bounds : Size α) (c : Cell α) (axis : Axis) : α :=
  if c.stretches axis = true ∨ c.alignment container axis = .fill then
    c.constraints.clampAlong axis ((cellSize bounds c).along axis)
  else c.natural.along axis

def frame (container : View α) (bounds : Size α) (c : Cell α) : Rect α :=
  let origin := cellOrigin c
  let cell := cellSize bounds c
  match container.constraints.cells.sizeInCell c.natural cell with
  | some size =>
    let size := c.constraints.clamp size
    .ofOriginSize
      ⟨origin.x + (c.alignment container .horizontal).offset cell.width size.width,
       origin.y + (c.alignment container .vertical).offset cell.height size.height⟩
      size
  | none =>
    .ofOriginSize origin
      ⟨extent container bounds c .horizontal, extent container bounds c .vertical⟩

/-- The frames of the children inside the bounds of their overlay. -/
def place (container : View α) (cells : List (Cell α)) (bounds : Size α) : List (Placement α) :=
  cells.map fun c => (c.id, frame container bounds c)

end BoxLayout.Overlay
