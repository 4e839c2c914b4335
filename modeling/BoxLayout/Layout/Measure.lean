import BoxLayout.Layout.Strategy
import BoxLayout.Logged
import BoxLayout.ViewTree.Forest

/-!
# Measuring

The natural size of a view: of its children as its container packs them, or of its own content if
it has no children, brought within its bounds.

* `Measurer` — where the size of content comes from; `Measurer.stored` is the size kept in the view.
* `Pass` — what a pass over a tree reads.
* `Pass.naturalSize` — the natural size of a view once its children can be measured.
* `Forest.cells` — the measured children, by recursion on the shape of the tree.
* `Pass.measure` — the natural size of a view.
-/

namespace BoxLayout

variable {α : Type}

/-- The size of a view's content, given the size proposed for it. -/
abbrev Measurer (α : Type) := ViewId → View α → Size α → Size α

/-- The content size kept in the view, whatever is proposed. -/
def Measurer.stored : Measurer α := fun _ v _ => v.contentSize

/-- What a pass reads. -/
structure Pass (α : Type) where
  tree : ViewTree α
  measurer : Measurer α
  settings : Settings α

namespace Pass

def node (p : Pass α) (id : ViewId) : Logged α (View α) := .ofAttempt (p.tree.node id)

variable [Scalar α]

/-- The natural size of a view before its bounds and its adjustment are applied. -/
def rawSize (p : Pass α) (id : ViewId) (v : View α)
    (measureChildren : Size α → Logged α (List (Cell α))) (proposed : Size α) :
    Logged α (Size α) :=
  if v.constraints.ignoreNatural then pure .zero
  else if v.hasChildren then do
    let cells ← measureChildren proposed
    return v.container.naturalSize v cells
  else
    let content := p.measurer id v proposed
    if content.isExtent then pure content
    else .fail (.invalidContent id content.width content.height)

def naturalSize (p : Pass α) (id : ViewId) (v : View α)
    (measureChildren : Size α → Logged α (List (Cell α))) (proposed : Size α) :
    Logged α (Size α) := do
  let raw ← p.rawSize id v measureChildren proposed
  let natural := v.constraints.clamp (raw + v.constraints.adjustment)
  Logged.report (if v.constraints.logsMinSize then [.measured (v.label id) natural] else [])
  return natural

end Pass

variable [Scalar α]

/-- The measured views of a forest. Each is proposed what its margins leave of the given size. -/
def Forest.cells (p : Pass α) : Forest → Size α → Logged α (List (Cell α))
  | .empty, _ => pure []
  | .view id children rest, proposed => do
    let v ← p.node id
    let natural ← p.naturalSize id v (children.cells p) (proposed.deflate v.margins)
    let others ← rest.cells p proposed
    return ⟨id, v, natural⟩ :: others

namespace Pass

def cells (p : Pass α) (id : ViewId) (proposed : Size α) : Logged α (List (Cell α)) :=
  (p.tree.below id).cells p proposed

/-- The size that a view's children would like their container to have, if it were of the given
kind. The view's own bounds have no part in it. -/
def childrenSize (p : Pass α) (kind : Container) (id : ViewId) (proposed : Size α) :
    Logged α (Size α) := do
  let v ← p.node id
  return kind.naturalSize v (← p.cells id proposed)

def measure (p : Pass α) (id : ViewId) (proposed : Size α) : Logged α (Size α) := do
  let v ← p.node id
  p.naturalSize id v (p.cells id) proposed

end Pass

end BoxLayout
