import BoxLayout.Event

/-!
# Cells

A child that has been measured, as the rules of a container see it.
-/

namespace BoxLayout

/-- A measured child. -/
structure Cell (α : Type) where
  id : ViewId
  view : View α
  natural : Size α

abbrev Placement (α : Type) := ViewId × Rect α

namespace Cell

variable {α : Type}

def constraints (c : Cell α) : Constraints α := c.view.constraints

def margins (c : Cell α) : Edges α := c.view.margins

/-- The child's own alignment along an axis, or else its container's, or else the start. -/
def alignment (c : Cell α) (container : View α) (axis : Axis) : Alignment :=
  ((c.constraints.alignmentAlong axis).or (container.constraints.alignmentAlong axis)).getD .start

def stretches [Scalar α] (c : Cell α) (axis : Axis) : Bool :=
  decide (Scalar.zero < c.constraints.stretch.along axis)

end Cell

end BoxLayout
