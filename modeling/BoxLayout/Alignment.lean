import BoxLayout.Geometry

/-!
# Alignment

Where an item sits in the room it is given.

* `HAlign`, `VAlign` — the alignments of a view, one set of names for each direction.
* `Alignment` — the same without a direction; `Alignment.offset` is the distance from the start.
* `CellPositioning` — how a container sizes its children inside their cells.
-/

namespace BoxLayout

/-- Alignment from left to right. -/
inductive HAlign where
  | left
  | center
  | right
  | fill
  deriving DecidableEq

/-- Alignment from top to bottom. -/
inductive VAlign where
  | top
  | center
  | bottom
  | fill
  deriving DecidableEq

/-- Alignment along any axis. -/
inductive Alignment where
  | start
  | center
  | stop
  | fill
  deriving DecidableEq

namespace HAlign

def named : List (String × HAlign) :=
  [("Left", left), ("Center", center), ("Right", right), ("Fill", fill)]

def name : HAlign → String
  | left => "Left"
  | center => "Center"
  | right => "Right"
  | fill => "Fill"

def alignment : HAlign → Alignment
  | left => .start
  | center => .center
  | right => .stop
  | fill => .fill

end HAlign

namespace VAlign

def named : List (String × VAlign) :=
  [("Top", top), ("Center", center), ("Bottom", bottom), ("Fill", fill)]

def name : VAlign → String
  | top => "Top"
  | center => "Center"
  | bottom => "Bottom"
  | fill => "Fill"

def alignment : VAlign → Alignment
  | top => .start
  | center => .center
  | bottom => .stop
  | fill => .fill

end VAlign

namespace Alignment

variable {α : Type} [Scalar α]

/-- How far an item of extent `used` is moved into the room `available`. An item that overflows
its room stays at the start. -/
def offset (alignment : Alignment) (available used : α) : α :=
  let free := Scalar.max (available - used) Scalar.zero
  match alignment with
  | start | fill => Scalar.zero
  | center => free / Scalar.two
  | stop => free

end Alignment

/-! ## Cells -/

/-- How the children of a container size themselves inside their cells. -/
inductive CellPositioning where
  /-- By the rules of the container. -/
  | normal
  /-- The whole cell. -/
  | fill
  /-- The natural proportions, covering the cell. -/
  | fillWithAspectRatio
  /-- The natural proportions, inside the cell. -/
  | fitWithAspectRatio
  deriving DecidableEq

namespace CellPositioning

def named : List (String × CellPositioning) :=
  [("Normal", normal), ("Fill", fill), ("FillWithAspectRatio", fillWithAspectRatio),
    ("FitWithAspectRatio", fitWithAspectRatio)]

def name : CellPositioning → String
  | normal => "Normal"
  | fill => "Fill"
  | fillWithAspectRatio => "FillWithAspectRatio"
  | fitWithAspectRatio => "FitWithAspectRatio"

variable {α : Type} [Scalar α]

/-- The natural size enlarged or reduced by a factor that `choose` takes from the two ratios of
cell to natural extent. Something without extent has no proportions and fills the cell. -/
def scaled (choose : α → α → α) (natural cell : Size α) : Size α :=
  if natural.width ≤ Scalar.zero ∨ natural.height ≤ Scalar.zero then cell
  else
    let factor := choose (cell.width / natural.width) (cell.height / natural.height)
    ⟨natural.width * factor, natural.height * factor⟩

/-- The size of a child in its cell before the child's own bounds; `none` leaves it to the rules of
the container. -/
def sizeInCell (positioning : CellPositioning) (natural cell : Size α) : Option (Size α) :=
  match positioning with
  | normal => none
  | fill => some cell
  | fillWithAspectRatio => some (scaled Scalar.max natural cell)
  | fitWithAspectRatio => some (scaled Scalar.min natural cell)

end CellPositioning

end BoxLayout
