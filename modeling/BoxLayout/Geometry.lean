import BoxLayout.Scalar

/-!
# Geometry

Points, sizes, rectangles and edges, each with its projections onto an axis. A layout rule is
stated once for a main axis and the one across it; `ofAxes` and `along` carry it to both
directions.

* `Axis`, `PerAxis` — the two directions, and a pair of values for them.
* `Point`, `Size`, `Edges`, `Rect` — the figures.
* `Size.deflate`, `Rect.contains`, `Rect.translate` — what layout does with them.
-/

namespace BoxLayout

variable {α : Type}

/-! ## Axes -/

/-- The two directions of layout. -/
inductive Axis where
  | horizontal
  | vertical
  deriving DecidableEq

namespace Axis

def cross : Axis → Axis
  | horizontal => vertical
  | vertical => horizontal

def extentName : Axis → String
  | horizontal => "width"
  | vertical => "height"

def adjective : Axis → String
  | horizontal => "horizontal"
  | vertical => "vertical"

@[simp] theorem cross_cross (axis : Axis) : axis.cross.cross = axis := by cases axis <;> rfl

theorem eq_or_eq_cross (axis other : Axis) : other = axis ∨ other = axis.cross := by
  cases axis <;> cases other <;> simp [cross]

instance {P : Axis → Prop} [DecidablePred P] : Decidable (∀ axis, P axis) :=
  decidable_of_iff (P horizontal ∧ P vertical)
    ⟨fun ⟨hh, hv⟩ axis => by cases axis <;> assumption, fun h => ⟨h _, h _⟩⟩

end Axis

/-- A value for each direction. -/
structure PerAxis (β : Type) where
  horizontal : β
  vertical : β
  deriving BEq, DecidableEq

namespace PerAxis

def along {β : Type} (p : PerAxis β) : Axis → β
  | .horizontal => p.horizontal
  | .vertical => p.vertical

def set {β : Type} (p : PerAxis β) (axis : Axis) (value : β) : PerAxis β :=
  match axis with
  | .horizontal => { p with horizontal := value }
  | .vertical => { p with vertical := value }

def both {β : Type} (value : β) : PerAxis β := ⟨value, value⟩

theorem ext_along {β : Type} {p q : PerAxis β} (h : ∀ axis, p.along axis = q.along axis) :
    p = q := by
  have hhorizontal : p.horizontal = q.horizontal := h .horizontal
  have hvertical : p.vertical = q.vertical := h .vertical
  cases p
  cases q
  congr

end PerAxis

/-! ## Points -/

/-- A position. -/
structure Point (α : Type) where
  x : α
  y : α
  deriving BEq, DecidableEq

namespace Point

def zero [Scalar α] : Point α := ⟨Scalar.zero, Scalar.zero⟩

def along (p : Point α) : Axis → α
  | .horizontal => p.x
  | .vertical => p.y

instance [Scalar α] : Sub (Point α) := ⟨fun p q => ⟨p.x - q.x, p.y - q.y⟩⟩

theorem ext_along {p q : Point α} (h : ∀ axis, p.along axis = q.along axis) : p = q := by
  have hx : p.x = q.x := h .horizontal
  have hy : p.y = q.y := h .vertical
  cases p
  cases q
  congr

end Point

/-! ## Edges -/

/-- Lengths at the four sides of a rectangle. -/
structure Edges (α : Type) where
  top : α
  right : α
  bottom : α
  left : α
  deriving BEq, DecidableEq

/-- The four sides. -/
inductive Side where
  | top
  | right
  | bottom
  | left
  deriving DecidableEq

def Side.name : Side → String
  | top => "top"
  | right => "right"
  | bottom => "bottom"
  | left => "left"

instance {P : Side → Prop} [DecidablePred P] : Decidable (∀ side, P side) :=
  decidable_of_iff (P .top ∧ P .right ∧ P .bottom ∧ P .left)
    ⟨fun ⟨ht, hr, hb, hl⟩ side => by cases side <;> assumption, fun h => ⟨h _, h _, h _, h _⟩⟩

namespace Edges

def all (value : α) : Edges α := ⟨value, value, value, value⟩

def zero [Scalar α] : Edges α := all Scalar.zero

def get (e : Edges α) : Side → α
  | .top => e.top
  | .right => e.right
  | .bottom => e.bottom
  | .left => e.left

def set (e : Edges α) (side : Side) (value : α) : Edges α :=
  match side with
  | .top => { e with top := value }
  | .right => { e with right := value }
  | .bottom => { e with bottom := value }
  | .left => { e with left := value }

/-- The edges with the lengths at both ends of an axis replaced. -/
def setAlong (e : Edges α) (axis : Axis) (value : α) : Edges α :=
  match axis with
  | .horizontal => { e with left := value, right := value }
  | .vertical => { e with top := value, bottom := value }

/-- The length where an axis starts: at the left or at the top. -/
def leading (e : Edges α) : Axis → α
  | .horizontal => e.left
  | .vertical => e.top

/-- The length where an axis ends: at the right or at the bottom. -/
def trailing (e : Edges α) : Axis → α
  | .horizontal => e.right
  | .vertical => e.bottom

def along [Scalar α] (e : Edges α) (axis : Axis) : α := e.leading axis + e.trailing axis

theorem ext_get {e e' : Edges α} (h : ∀ side, e.get side = e'.get side) : e = e' := by
  have htop : e.top = e'.top := h .top
  have hright : e.right = e'.right := h .right
  have hbottom : e.bottom = e'.bottom := h .bottom
  have hleft : e.left = e'.left := h .left
  cases e
  cases e'
  congr

end Edges

/-! ## Sizes -/

/-- The extents of a figure. -/
structure Size (α : Type) where
  width : α
  height : α
  deriving BEq, DecidableEq

namespace Size

def zero [Scalar α] : Size α := ⟨Scalar.zero, Scalar.zero⟩

def unbounded [Scalar α] : Size α := ⟨Scalar.infinity, Scalar.infinity⟩

/-- The size with given extents along an axis and across it. -/
def ofAxes (axis : Axis) (main cross : α) : Size α :=
  match axis with
  | .horizontal => ⟨main, cross⟩
  | .vertical => ⟨cross, main⟩

def along (s : Size α) : Axis → α
  | .horizontal => s.width
  | .vertical => s.height

def set (s : Size α) (axis : Axis) (value : α) : Size α :=
  match axis with
  | .horizontal => { s with width := value }
  | .vertical => { s with height := value }

instance [Scalar α] : Add (Size α) := ⟨fun s t => ⟨s.width + t.width, s.height + t.height⟩⟩

theorem ext_along {s t : Size α} (h : ∀ axis, s.along axis = t.along axis) : s = t := by
  have hwidth : s.width = t.width := h .horizontal
  have hheight : s.height = t.height := h .vertical
  cases s
  cases t
  congr

/-- What is left inside the given edges, never below nothing. -/
def deflate [Scalar α] (s : Size α) (e : Edges α) : Size α :=
  ⟨Scalar.max (s.width - e.along .horizontal) Scalar.zero,
   Scalar.max (s.height - e.along .vertical) Scalar.zero⟩

/-- Both extents are numbers and not negative. -/
def isExtent [Scalar α] (s : Size α) : Bool := Scalar.isExtent s.width && Scalar.isExtent s.height

theorem isExtent_iff [Scalar α] {s : Size α} :
    s.isExtent = true ↔ ∀ axis, Scalar.isExtent (s.along axis) = true := by
  rw [isExtent, Bool.and_eq_true]
  refine ⟨fun h axis => ?_, fun h => ⟨h .horizontal, h .vertical⟩⟩
  cases axis
  · exact h.1
  · exact h.2

@[simp] theorem along_ofAxes (axis : Axis) (main cross : α) :
    (ofAxes axis main cross).along axis = main := by cases axis <;> rfl

@[simp] theorem along_cross_ofAxes (axis : Axis) (main cross : α) :
    (ofAxes axis main cross).along axis.cross = cross := by cases axis <;> rfl

@[simp] theorem along_zero [Scalar α] (axis : Axis) : (zero : Size α).along axis = Scalar.zero := by
  cases axis <;> rfl

@[simp] theorem along_add [Scalar α] (s t : Size α) (axis : Axis) :
    (s + t).along axis = s.along axis + t.along axis := by cases axis <;> rfl

@[simp] theorem along_deflate [Scalar α] (s : Size α) (e : Edges α) (axis : Axis) :
    (s.deflate e).along axis = Scalar.max (s.along axis - e.along axis) Scalar.zero := by
  cases axis <;> rfl

end Size

def Edges.size [Scalar α] (e : Edges α) : Size α := ⟨e.along .horizontal, e.along .vertical⟩

@[simp] theorem Edges.along_size [Scalar α] (e : Edges α) (axis : Axis) :
    e.size.along axis = e.along axis := by cases axis <;> rfl

/-! ## Rectangles -/

/-- A rectangle by its top left corner and its extents. -/
structure Rect (α : Type) where
  x : α
  y : α
  width : α
  height : α
  deriving BEq, DecidableEq

namespace Rect

def zero [Scalar α] : Rect α := ⟨Scalar.zero, Scalar.zero, Scalar.zero, Scalar.zero⟩

def ofOriginSize (origin : Point α) (size : Size α) : Rect α :=
  ⟨origin.x, origin.y, size.width, size.height⟩

/-- The rectangle with given positions and extents along an axis and across it. -/
def ofAxes (axis : Axis) (mainStart crossStart main cross : α) : Rect α :=
  match axis with
  | .horizontal => ⟨mainStart, crossStart, main, cross⟩
  | .vertical => ⟨crossStart, mainStart, cross, main⟩

def origin (r : Rect α) : Point α := ⟨r.x, r.y⟩

def size (r : Rect α) : Size α := ⟨r.width, r.height⟩

/-- Where the rectangle ends on the right. -/
def right [Scalar α] (r : Rect α) : α := r.x + r.width

/-- Where the rectangle ends below. -/
def bottom [Scalar α] (r : Rect α) : α := r.y + r.height

/-- Whether a point lies inside; the left and top sides belong to the rectangle, the right and
bottom sides do not. -/
def contains [Scalar α] (r : Rect α) (p : Point α) : Bool :=
  decide (r.x ≤ p.x) && decide (p.x < r.right) && decide (r.y ≤ p.y) && decide (p.y < r.bottom)

/-- The test in full. It is the same for every kind of lengths, whatever adding them rounds to. -/
theorem contains_iff [Scalar α] {r : Rect α} {p : Point α} : r.contains p = true ↔
    (r.x ≤ p.x ∧ p.x < r.x + r.width) ∧ r.y ≤ p.y ∧ p.y < r.y + r.height := by
  simp only [contains, Bool.and_eq_true, decide_eq_true_eq, and_assoc]
  rfl

def translate [Scalar α] (r : Rect α) (dx dy : α) : Rect α :=
  { r with x := r.x + dx, y := r.y + dy }

@[simp] theorem origin_ofOriginSize (p : Point α) (s : Size α) : (ofOriginSize p s).origin = p :=
  rfl

@[simp] theorem size_ofOriginSize (p : Point α) (s : Size α) : (ofOriginSize p s).size = s := rfl

theorem size_ofAxes (axis : Axis) (mainStart crossStart main cross : α) :
    (ofAxes axis mainStart crossStart main cross).size = .ofAxes axis main cross := by
  cases axis <;> rfl

@[simp] theorem along_origin_ofAxes (axis : Axis) (mainStart crossStart main cross : α) :
    (ofAxes axis mainStart crossStart main cross).origin.along axis = mainStart := by
  cases axis <;> rfl

@[simp] theorem along_cross_origin_ofAxes (axis : Axis) (mainStart crossStart main cross : α) :
    (ofAxes axis mainStart crossStart main cross).origin.along axis.cross = crossStart := by
  cases axis <;> rfl

end Rect

end BoxLayout
