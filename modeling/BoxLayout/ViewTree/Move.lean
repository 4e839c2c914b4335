import BoxLayout.ViewTree

/-!
# Moving views by hand

A host may move and resize a view between passes. Moving a view sets its declared origin as well,
so that an overlay leaves the view where it was put; other containers place it anew.

* `ViewTree.setOrigin` — the corner of a view; the other moves lead to it.
* `ViewTree.centerHorizontally`, `ViewTree.centerVertically`, `ViewTree.center` — a view in the
  middle of its parent.
* `ViewTree.setSize`, `ViewTree.setWidth`, `ViewTree.setHeight` — the extents, until the next pass.
-/

namespace BoxLayout

variable {α : Type} [Scalar α]

/-- The view with its corner at a point, and its margins beginning before that. -/
def View.moveTo (v : View α) (origin : Point α) : View α :=
  { v with
    frame := { v.frame with x := origin.x, y := origin.y }
    declaredOrigin := ⟨origin.x - v.margins.left, origin.y - v.margins.top⟩ }

namespace ViewTree

/-! ## Positions -/

def setOrigin (t : ViewTree α) (id : ViewId) (origin : Point α) : Attempt α (ViewTree α) :=
  t.modify id fun v => v.moveTo origin

/-- A view moved sideways; the height it is at is declared again as well. -/
def setX (t : ViewTree α) (id : ViewId) (x : α) : Attempt α (ViewTree α) := do
  let v ← t.node id
  t.setOrigin id ⟨x, v.frame.y⟩

def setY (t : ViewTree α) (id : ViewId) (y : α) : Attempt α (ViewTree α) := do
  let v ← t.node id
  t.setOrigin id ⟨v.frame.x, y⟩

/-- A view moved sideways until it ends at `right`. -/
def setRight (t : ViewTree α) (id : ViewId) (right : α) : Attempt α (ViewTree α) := do
  let v ← t.node id
  t.setX id (right - v.frame.width)

/-- A view moved up or down until it ends at `bottom`. -/
def setBottom (t : ViewTree α) (id : ViewId) (bottom : α) : Attempt α (ViewTree α) := do
  let v ← t.node id
  t.setY id (bottom - v.frame.height)

/-! ## Centering -/

/-- The size of the frame of the parent. A view without one has no such size. -/
def superviewSize (t : ViewTree α) (id : ViewId) : Attempt α (Size α) := do
  let v ← t.node id
  match v.parent with
  | none => throw (.noSuperview id)
  | some parent => return (← t.node parent).frame.size

/-- A view moved sideways to the middle of its parent. -/
def centerHorizontally (t : ViewTree α) (id : ViewId) : Attempt α (ViewTree α) := do
  let bounds ← t.superviewSize id
  let v ← t.node id
  t.setX id ((bounds.width - v.frame.width) / Scalar.two)

/-- A view moved up or down to the middle of its parent. -/
def centerVertically (t : ViewTree α) (id : ViewId) : Attempt α (ViewTree α) := do
  let bounds ← t.superviewSize id
  let v ← t.node id
  t.setY id ((bounds.height - v.frame.height) / Scalar.two)

/-- A view in the middle of its parent, by one move along each axis. -/
def center (t : ViewTree α) (id : ViewId) : Attempt α (ViewTree α) := do
  (← t.centerHorizontally id).centerVertically id

/-! ## Extents -/

/-- The extents of the frame alone: nothing that the next pass reads. -/
def setSize (t : ViewTree α) (id : ViewId) (size : Size α) : Attempt α (ViewTree α) :=
  t.modify id fun v => { v with frame := { v.frame with width := size.width, height := size.height } }

def setWidth (t : ViewTree α) (id : ViewId) (width : α) : Attempt α (ViewTree α) :=
  t.modify id fun v => { v with frame := { v.frame with width } }

def setHeight (t : ViewTree α) (id : ViewId) (height : α) : Attempt α (ViewTree α) :=
  t.modify id fun v => { v with frame := { v.frame with height } }

end ViewTree

end BoxLayout
