import BoxLayout.Layout.Stack
import BoxLayout.Layout.Overlay

/-!
# Containers

Every kind of container has a rule for its natural size and a rule for placing its children. Both
work on children that have been measured already.
-/

namespace BoxLayout.Container

variable {α : Type} [Scalar α]

/-- The axis of a stack; an overlay has none. -/
def axis? : Container → Option Axis
  | horizontal => some .horizontal
  | vertical => some .vertical
  | overlay => none

/-- The size that a view of this kind would like to have for its children. -/
def naturalSize (kind : Container) (view : View α) (cells : List (Cell α)) : Size α :=
  match kind.axis? with
  | some axis => Stack.naturalSize axis view cells
  | none => Overlay.naturalSize cells

/-- The frames of the children inside the bounds of a view of this kind. -/
def place (kind : Container) (settings : Settings α) (view : View α) (cells : List (Cell α))
    (bounds : Size α) : List (Placement α) :=
  match kind.axis? with
  | some axis => Stack.place settings axis view cells bounds
  | none => Overlay.place view cells bounds

def placeEvents (kind : Container) (settings : Settings α) (view : View α) (cells : List (Cell α))
    (bounds : Size α) : List (Event α) :=
  match kind.axis? with
  | some axis => Stack.events settings axis view cells bounds
  | none => []

end BoxLayout.Container
