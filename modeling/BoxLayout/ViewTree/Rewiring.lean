import BoxLayout.ViewTree.Structure

/-!
# Changing the structure in place

A host's tree is one object that every change works on, so a change that is refused half-way would
leave what it has written until then.

* `Rewiring` — a change of a tree under way.
* `Rewiring.insertBefore` — an insertion, step by step.
-/

namespace BoxLayout

variable {α : Type}

/-- A change of the structure under way. It works on the tree in place, so whatever it has written
when it is refused stays written. -/
abbrev Rewiring (α β : Type) := EStateM (LayoutError ViewId α) (ViewTree α) β

namespace Rewiring

/-- A view of the tree as it is by now. Without it the change ends here. -/
def node (id : ViewId) : Rewiring α (View α) := do
  match (← get).node id with
  | .ok v => pure v
  | .error e => throw e

/-- An insertion. It looks its two views up again before it writes to them. -/
def insertBefore (parent child : ViewId) (reference : Option ViewId) : Rewiring α Unit := do
  let _ ← node child
  let _ ← node parent
  if child ∈ parent :: (← get).ancestors parent then
    throw (.cycle parent child)
  modify fun t => t.detach child
  let _ ← node parent
  modify fun t => t.update parent fun v =>
    { v with children := ViewTree.placeBefore reference child v.children }
  let _ ← node child
  modify fun t => t.update child fun v => { v with parent := some parent }

end Rewiring

end BoxLayout
