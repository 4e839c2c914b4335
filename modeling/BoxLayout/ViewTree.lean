import BoxLayout.Arena
import BoxLayout.Constraints.Edit

/-!
# View trees

A tree owns its views and links them by id, both ways: every view knows its parent and its
children. Ids may be stale; what a stale id names is unknown.

* `View` — a view, and the `Container` that lays out its children.
* `ViewTree` — the views with the root, if one is set.
* `ViewTree.node` — a view, or the error that it is unknown.
* `ViewTree.find?` — a view by its name.
-/

namespace BoxLayout

/-- How a view lays out its children. -/
inductive Container where
  /-- One after another from left to right. -/
  | horizontal
  /-- One after another from top to bottom. -/
  | vertical
  /-- Each at its declared origin, later ones on top. -/
  | overlay
  deriving DecidableEq

namespace Container

/-- The container of a view that does not say otherwise. -/
def standard : Container := horizontal

def name : Container → String
  | horizontal => "horizontal"
  | vertical => "vertical"
  | overlay => "overlay"

end Container

/-- A view. -/
structure View (α : Type) where
  constraints : Constraints α
  container : Container
  /-- The size of the view's own content, which counts while the view has no children. -/
  contentSize : Size α
  /-- Where the view's margins begin inside an overlay. -/
  declaredOrigin : Point α
  /-- The place inside the parent that the last pass gave the view. -/
  frame : Rect α
  parent : Option ViewId
  /-- The children, in the order of layout and from bottom to top. -/
  children : List ViewId
  deriving DecidableEq

namespace View

variable {α : Type}

def new [Scalar α] (container : Container) (contentSize : Size α) : View α :=
  { constraints := .standard, container, contentSize, declaredOrigin := .zero, frame := .zero
    parent := none, children := [] }

def hasChildren (v : View α) : Bool := !v.children.isEmpty

/-- What messages call the view: its name, or else its id. -/
def label (v : View α) (id : ViewId) : String := v.constraints.name.getD id.text

def margins (v : View α) : Edges α := v.constraints.margins

end View

/-- What an operation on a tree yields: a value, or why there is none. -/
abbrev Attempt (α : Type) := Except (LayoutError ViewId α)

/-- A tree of views. -/
structure ViewTree (α : Type) where
  views : Arena (View α)
  root : Option ViewId

namespace ViewTree

variable {α : Type}

def empty : ViewTree α := ⟨.empty, none⟩

/-- A view, if the id is not stale. -/
def get? (t : ViewTree α) (id : ViewId) : Option (View α) := t.views.get? id

/-- A view, or the error that there is none. -/
def node (t : ViewTree α) (id : ViewId) : Attempt α (View α) :=
  match t.get? id with
  | some v => .ok v
  | none => .error (.unknownView id)

/-- A view is found just if its id is not stale. -/
theorem node_eq_ok_iff {t : ViewTree α} {id : ViewId} {v : View α} :
    t.node id = .ok v ↔ t.get? id = some v := by
  unfold node
  split <;> simp_all

/-- What messages call a view; a stale id stands for itself. -/
def label (t : ViewTree α) (id : ViewId) : String :=
  match t.get? id with
  | some v => v.label id
  | none => id.text

/-- The tree with a new view, and the view's id. -/
def create (t : ViewTree α) (v : View α) : ViewId × ViewTree α :=
  let (id, views) := t.views.insert v
  (id, { t with views })

def update (t : ViewTree α) (id : ViewId) (change : View α → View α) : ViewTree α :=
  { t with views := t.views.update id change }

theorem get?_update (t : ViewTree α) (id other : ViewId) (change : View α → View α) :
    (t.update id change).get? other =
      if other = id then (t.get? id).map change else t.get? other :=
  Arena.get?_update t.views id other change

/-- The tree with one view changed, or the error that there is none. -/
def modify (t : ViewTree α) (id : ViewId) (change : View α → View α) :
    Attempt α (ViewTree α) := do
  let _ ← t.node id
  return t.update id change

/-- The tree with its root set, which need not be a view of it. -/
def setRoot (t : ViewTree α) (id : ViewId) : ViewTree α := { t with root := some id }

/-- The parent of a view; none also for a stale id. -/
def parent? (t : ViewTree α) (id : ViewId) : Option ViewId := (t.get? id).bind View.parent

/-- The children of a view; none for a stale id. -/
def children (t : ViewTree α) (id : ViewId) : List ViewId := ((t.get? id).map View.children).getD []

def size (t : ViewTree α) : Nat := t.views.size

def isEmpty (t : ViewTree α) : Bool := t.size == 0

/-- A change of the constraints of a view, such as a chain of edits. What was done before a refusal
stays done. -/
def editConstraints (t : ViewTree α) (id : ViewId)
    (change : Constraints α → Constraints.Edited α) : ViewTree α × Attempt α Unit :=
  match t.node id with
  | .error e => (t, .error e)
  | .ok v =>
    let edited := change v.constraints
    let t := t.update id fun v => { v with constraints := edited.record }
    match edited.refusal with
    | some refusal => (t, .error (.validation refusal))
    | none => (t, .ok ())

/-- The first view with a name, in the order of slots. -/
def find? (t : ViewTree α) (name : String) : Option ViewId :=
  (t.views.entries.find? fun (_, v) => v.constraints.name == some name).map Prod.fst

end ViewTree

end BoxLayout
