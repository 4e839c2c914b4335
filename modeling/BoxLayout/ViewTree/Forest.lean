import BoxLayout.ViewTree

/-!
# The shape below views

The child lists of a tree are unfolded once into a `Forest`, and everything that goes down a tree
is recursion on that. A forest is a view with the forest of its children and the forest of the
views after it, so one induction covers children and siblings alike.

* `Forest` — the shape; `Forest.preorder` lists its views with their depths.
* `ViewTree.forest` — the shape below a list of views. A stale id has nothing below it.
-/

namespace BoxLayout

/-- Views in order, each with the views below it. -/
inductive Forest where
  | empty
  | view (id : ViewId) (children rest : Forest)

namespace Forest

def size : Forest → Nat
  | empty => 0
  | view _ children rest => children.size + rest.size + 1

/-- The views with their depths: each before its children, and these in order. -/
def preorder (depth : Nat) : Forest → List (ViewId × Nat)
  | empty => []
  | view id children rest =>
    (id, depth) :: (children.preorder (depth + 1) ++ rest.preorder depth)

/-- The views, each before its children, and these in order. -/
def ids : Forest → List ViewId
  | empty => []
  | view id children rest => id :: (children.ids ++ rest.ids)

@[simp] theorem length_preorder (f : Forest) (depth : Nat) :
    (f.preorder depth).length = f.size := by
  induction f generalizing depth with
  | empty => rfl
  | view id children rest ihc ihr => simp [preorder, size, ihc, ihr]

@[simp] theorem map_fst_preorder (f : Forest) (depth : Nat) :
    (f.preorder depth).map Prod.fst = f.ids := by
  induction f generalizing depth with
  | empty => rfl
  | view id children rest ihc ihr => simp [preorder, ids, ihc, ihr]

end Forest

namespace ViewTree

variable {α : Type}

/-- The shape below some views, cut off below the given number of levels. -/
def forestTo (t : ViewTree α) : Nat → List ViewId → Forest
  | 0, _ => .empty
  | levels + 1, ids =>
    ids.foldr (fun id rest => .view id (t.forestTo levels (t.children id)) rest) .empty

/-- More levels than any path down can have: the views on a path are distinct, and only the last
one can be stale. -/
def levels (t : ViewTree α) : Nat := t.views.slots.size + 1

/-- The shape of some views and all below them. -/
def forest (t : ViewTree α) (ids : List ViewId) : Forest := t.forestTo t.levels ids

def below (t : ViewTree α) (id : ViewId) : Forest := t.forest (t.children id)

end ViewTree

end BoxLayout
