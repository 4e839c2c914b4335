import BoxLayout.ViewTree.Forest

/-!
# Hit testing

The topmost view at a point. Later siblings lie above earlier ones, and children above their
parent, so the search goes through a forest from its end and takes a view only after its children.
-/

namespace BoxLayout

variable {α : Type} [Scalar α]

/-- The topmost view of a forest at a point, in the coordinates of the forest's parent. A view
that does not contain the point hides its children too. -/
def Forest.hit (t : ViewTree α) : Forest → Point α → Option ViewId
  | .empty, _ => none
  | .view id children rest, p =>
    -- Whatever comes later lies above this view and all its children.
    match rest.hit t p with
    | some top => some top
    | none =>
      match t.get? id with
      | none => none
      | some v =>
        if v.frame.contains p then some ((children.hit t (p - v.frame.origin)).getD id) else none

/-- The topmost view at a point in the coordinates of the root's parent. -/
def ViewTree.hitTest (t : ViewTree α) (p : Point α) : Option ViewId :=
  match t.root with
  | none => none
  | some root => (t.forest [root]).hit t p

end BoxLayout
