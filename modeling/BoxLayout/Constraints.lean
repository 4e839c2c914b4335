import BoxLayout.Alignment
import BoxLayout.DebugFlags

/-!
# Constraints

What a view asks of its layout: bounds on its size, how it stretches, its margins, how it places
its children, and its diagnostics.

* `Constraints` — the record, a plain value.
* `Constraints.standard` — the record of a new view: no bounds, no margins, no stretch.
* `Constraints.clamp` — a size brought within the bounds, where the minimum wins.
* `Constraints.alignmentAlong` — the alignment set for an axis, if one is.

The record itself can hold any values; `BoxLayout.Constraints.Edit` changes it by checked edits only.
-/

namespace BoxLayout

/-- The constraints of a view. -/
structure Constraints (α : Type) where
  /-- The smallest size. -/
  min : Size α
  /-- The largest size, where `infinity` is no bound. -/
  max : Size α
  /-- The share of surplus space the view takes; nothing for a view that does not stretch. -/
  stretch : PerAxis α
  /-- Measure as nothing before the bounds are applied. -/
  ignoreNatural : Bool
  /-- What is added to the natural size before the bounds are applied. -/
  adjustment : Size α
  /-- The room left free around the view. -/
  margins : Edges α
  /-- The room left free between children. -/
  spacing : PerAxis α
  /-- Where the view wants to sit from left to right. -/
  hAlign : Option HAlign
  /-- Where the view wants to sit from top to bottom. -/
  vAlign : Option VAlign
  /-- How children size themselves in their cells. -/
  cells : CellPositioning
  /-- The name that stands for the view in messages. -/
  name : Option String
  /-- Diagnostics. -/
  flags : DebugFlags
  deriving BEq, DecidableEq

namespace Constraints

variable {α : Type}

def standard [Scalar α] : Constraints α where
  min := .zero
  max := .unbounded
  stretch := .both Scalar.zero
  ignoreNatural := false
  adjustment := .zero
  margins := .zero
  spacing := .both Scalar.zero
  hAlign := none
  vAlign := none
  cells := .normal
  name := none
  flags := .off

/-- A length brought within the bounds along an axis. The minimum wins over the maximum. -/
def clampAlong [Scalar α] (c : Constraints α) (axis : Axis) (value : α) : α :=
  Scalar.max (Scalar.min value (c.max.along axis)) (c.min.along axis)

def clamp [Scalar α] (c : Constraints α) (size : Size α) : Size α :=
  ⟨c.clampAlong .horizontal size.width, c.clampAlong .vertical size.height⟩

theorem along_clamp [Scalar α] (c : Constraints α) (size : Size α) (axis : Axis) :
    (c.clamp size).along axis = c.clampAlong axis (size.along axis) := by
  cases axis <;> rfl

def alignmentAlong (c : Constraints α) : Axis → Option Alignment
  | .horizontal => c.hAlign.map HAlign.alignment
  | .vertical => c.vAlign.map VAlign.alignment

/-- Whether the view appears in the log when it is arranged. -/
def logsLayout (c : Constraints α) : Bool := c.flags.contains .layout

/-- Whether the view appears in the log when it is measured. -/
def logsMinSize (c : Constraints α) : Bool := c.flags.contains .minSize

end Constraints

end BoxLayout
