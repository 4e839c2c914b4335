import BoxLayout.ViewTree.Forest

/-!
# Changing the structure

Views are put under a parent, moved and removed. An insertion is checked as a whole before
anything changes, so a refused one leaves the tree as it is.

* `ViewTree.ancestors` — the chain of parent links above a view.
* `ViewTree.detach` — a view taken from its parent.
* `ViewTree.insertBefore` — a view put before another among the children of a parent.
* `ViewTree.remove` — a view removed with all below it.
-/

namespace BoxLayout.ViewTree

variable {α : Type}

/-! ## Upwards -/

/-- The parents above a view, the nearest first, at most `bound` of them. -/
def ancestorsTo (t : ViewTree α) : Nat → ViewId → List ViewId
  | 0, _ => []
  | bound + 1, id =>
    match t.parent? id with
    | some parent => parent :: t.ancestorsTo bound parent
    | none => []

/-- The parents above a view, the nearest first. -/
def ancestors (t : ViewTree α) (id : ViewId) : List ViewId := t.ancestorsTo t.levels id

/-- The frame of a view in the coordinates of its topmost ancestor. -/
def absoluteFrame? [Scalar α] (t : ViewTree α) (id : ViewId) : Option (Rect α) := do
  let v ← t.get? id
  (t.ancestors id).foldlM
    (fun frame parent => (t.get? parent).map fun p => frame.translate p.frame.x p.frame.y) v.frame

/-! ## Links -/

/-- A list with an item put before the first occurrence of another, or last if there is none. -/
def placeBefore (reference : Option ViewId) (id : ViewId) (ids : List ViewId) : List ViewId :=
  match reference with
  | none => ids ++ [id]
  | some before => ids.takeWhile (· != before) ++ id :: ids.dropWhile (· != before)

theorem mem_placeBefore (reference : Option ViewId) (id other : ViewId) (ids : List ViewId) :
    other ∈ placeBefore reference id ids ↔ other = id ∨ other ∈ ids := by
  cases reference with
  | none => simp [placeBefore, or_comm]
  | some before =>
    have parts := List.takeWhile_append_dropWhile (p := (· != before)) (l := ids)
    rw [placeBefore, List.mem_append, List.mem_cons, ← or_assoc, or_comm (b := other = id),
      or_assoc, ← List.mem_append, parts]

/-- The tree with a view taken out of its parent's children, and without its link to the parent. -/
def detach (t : ViewTree α) (id : ViewId) : ViewTree α :=
  match t.parent? id with
  | none => t
  | some parent =>
    (t.update id fun v => { v with parent := none }).update parent fun v =>
      { v with children := v.children.filter (· != id) }

/-- The tree with `child` among the children of `parent`, put before `reference` if that is a child
too and last otherwise. Whatever parent `child` had loses it. Refused if one of the two is unknown,
or if `child` is `parent` or above it. -/
def insertBefore (t : ViewTree α) (parent child : ViewId) (reference : Option ViewId) :
    Attempt α (ViewTree α) := do
  let _ ← t.node child
  let _ ← t.node parent
  if child ∈ parent :: t.ancestors parent then
    throw (.cycle parent child)
  -- The child leaves its old place first, also when that is under the same parent.
  let placed := (t.detach child).update parent fun v =>
    { v with children := placeBefore reference child v.children }
  return placed.update child fun v => { v with parent := some parent }

/-- The tree with `child` as the last of the children of `parent`. -/
def append (t : ViewTree α) (parent child : ViewId) : Attempt α (ViewTree α) :=
  t.insertBefore parent child none

/-! ## Removal -/

/-- The views of a queue and all below them, level by level, at most `bound` of them. -/
def levelOrder (t : ViewTree α) : Nat → List ViewId → List ViewId
  | 0, _ => []
  | _ + 1, [] => []
  | bound + 1, id :: queue => id :: t.levelOrder bound (queue ++ t.children id)

def subtree (t : ViewTree α) (id : ViewId) : List ViewId :=
  t.levelOrder (t.forest [id]).size [id]

/-- The tree without a view and all below it. The slots of the views are vacated in the order of
`subtree`. A root that is removed itself is unset. -/
def remove (t : ViewTree α) (id : ViewId) : ViewTree α :=
  let detached := t.detach id
  { views := (detached.subtree id).foldl Arena.erase detached.views
    root := if t.root = some id then none else t.root }

end BoxLayout.ViewTree
