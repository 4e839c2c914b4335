import BoxLayout.Layout.Measure

/-!
# Arranging

Every view below a start gets its frame: the start the rectangle it is allotted, brought within its
bounds, and each child the place that its parent's container gives it. Frames are written on the
way down, each view's before its children's, so a failure leaves those that were already written.

* `Visit` — what is decided about a view before its frame is written.
* `Pass.visit` — a visit, which reads the tree and reports, and can fail.
* `Forest.arrange` — visits and writes, by recursion on the shape of the tree.
* `Engine.measure`, `Engine.arrange`, `Engine.layout` — what a host calls.
-/

namespace BoxLayout

variable {α : Type}

/-! ## Visits -/

/-- What is decided about a view: its frame, and the places of its children. -/
structure Visit (α : Type) where
  frame : Rect α
  placements : List (Placement α)

section

variable [Scalar α]

/-- An extent that is allotted to a view must be one. -/
def checkedExtent (id : ViewId) (axis : Axis) (value : α) : Attempt α α :=
  if Scalar.isExtent value then .ok value
  else .error (.invalidExtent id axis.extentName value)

namespace Pass

/-- What is reported once the places of a view's children are known. -/
def visitEvents (p : Pass α) (id : ViewId) (v : View α) (allotted frame : Rect α) :
    List (Event α) :=
  let asked := v.constraints.logsLayout
  (if asked = true ∨ p.settings.tracePasses = true then
    [.arranged asked (v.label id) frame] else []) ++
  if allotted.width < frame.width ∨ allotted.height < frame.height then
    [.overflowing (v.label id) allotted frame.size] else []

/-- The places of a view's children, which have the given shape, if the view's container were of the
given kind. -/
def placements (p : Pass α) (kind : Container) (v : View α) (children : Forest) (bounds : Size α) :
    Logged α (List (Placement α)) := do
  let cells ← children.cells p bounds
  Logged.report (kind.placeEvents p.settings v cells bounds)
  return kind.place p.settings v cells bounds

/-- The visit of a view whose children have the given shape. -/
def visit (p : Pass α) (id : ViewId) (children : Forest) (allotted : Rect α) :
    Logged α (Visit α) := do
  let v ← p.node id
  let width ← .ofAttempt (checkedExtent id .horizontal allotted.width)
  let height ← .ofAttempt (checkedExtent id .vertical allotted.height)
  let size := v.constraints.clamp ⟨width, height⟩
  let frame := Rect.ofOriginSize allotted.origin size
  -- Everything below the view is measured here, before any of it is visited.
  let placements ← p.placements v.container v children size
  Logged.report (p.visitEvents id v allotted frame)
  return ⟨frame, placements⟩

/-- The places of the children of a view, if its container were of the given kind. -/
def childPlacements (p : Pass α) (kind : Container) (id : ViewId) (bounds : Size α) :
    Logged α (List (Placement α)) := do
  p.placements kind (← p.node id) (p.tree.below id) bounds

end Pass

end

/-! ## Writing -/

/-- A tree after a computation that wrote frames, with the outcome and the log. -/
structure Arranged (α β : Type) where
  tree : ViewTree α
  result : Logged α β

namespace Arranged

variable {β γ : Type}

/-- A computation on the tree that another one left. A failure ends both. -/
def andThen (x : Arranged α β) (next : β → ViewTree α → Arranged α γ) : Arranged α γ :=
  match x.result.outcome with
  | .error e => ⟨x.tree, ⟨.error e, x.result.log⟩⟩
  | .ok value =>
    let y := next value x.tree
    ⟨y.tree, ⟨y.result.outcome, x.result.log ++ y.result.log⟩⟩

end Arranged

/-- What a host sets up: its settings, and where the size of content comes from. -/
structure Engine (α : Type) where
  settings : Settings α
  measurer : Measurer α

namespace Engine

def pass (e : Engine α) (t : ViewTree α) : Pass α := ⟨t, e.measurer, e.settings⟩

end Engine

variable [Scalar α]

def ViewTree.setFrame (t : ViewTree α) (id : ViewId) (frame : Rect α) : ViewTree α :=
  t.update id fun v => { v with frame }

/-- The views of a forest arranged in the given places, one for each view of the first level. -/
def Forest.arrange (e : Engine α) : Forest → List (Placement α) → ViewTree α → Arranged α Unit
  | .view id children rest, (_, allotted) :: placements, t =>
    (Arranged.mk t ((e.pass t).visit id children allotted)).andThen fun visit t =>
      (children.arrange e visit.placements (t.setFrame id visit.frame)).andThen fun _ t =>
        rest.arrange e placements t
  | _, _, t => ⟨t, pure ()⟩

namespace Engine

/-- The natural size of a view, given the size proposed for it. -/
def measure (e : Engine α) (t : ViewTree α) (id : ViewId) (proposed : Size α) :
    Logged α (Size α) :=
  (e.pass t).measure id proposed

/-- A view and all below it arranged in a rectangle of the view's parent. -/
def arrange (e : Engine α) (t : ViewTree α) (id : ViewId) (allotted : Rect α) :
    Arranged α Unit :=
  (Arranged.mk t (Logged.report [.arranging id])).andThen fun _ t =>
    (t.forest [id]).arrange e [(id, allotted)] t

/-- The root measured and then arranged in the viewport. Yields the root's natural size. -/
def layout (e : Engine α) (t : ViewTree α) (viewport : Rect α) : Arranged α (Size α) :=
  match t.root with
  | none => ⟨t, .fail .noRoot⟩
  | some root =>
    (Arranged.mk t (e.measure t root viewport.size)).andThen fun natural t =>
      (e.arrange t root viewport).andThen fun _ t =>
        ⟨t, do Logged.report [.completed natural]; return natural⟩

end Engine

end BoxLayout
