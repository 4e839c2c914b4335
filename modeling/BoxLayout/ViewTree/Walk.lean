import BoxLayout.ViewTree.Forest

/-!
# Walking a tree

A `Walk` visits the views below a start one at a time. It keeps the views that are still to be
visited, so that a visitor can stop whenever it likes.

* `Walk.next?` — the next view with its depth, and the walk after it.
* `ViewTree.walk` — all visits from a view on.
-/

namespace BoxLayout

/-- A walk under way: what is still to be visited, the next view in front. -/
structure Walk where
  pending : List (ViewId × Nat)

namespace Walk

variable {α : Type}

def start (id : ViewId) : Walk := ⟨[(id, 0)]⟩

/-- The next view with its depth. Its children come before all that was pending already. -/
def next? (t : ViewTree α) (w : Walk) : Option ((ViewId × Nat) × Walk) :=
  match w.pending with
  | [] => none
  | (id, depth) :: pending =>
    some ((id, depth), ⟨(t.children id).map (·, depth + 1) ++ pending⟩)

/-- At most `bound` visits. -/
def take (t : ViewTree α) : Nat → Walk → List (ViewId × Nat)
  | 0, _ => []
  | bound + 1, w =>
    match w.next? t with
    | none => []
    | some (visit, w) => visit :: w.take t bound

end Walk

def ViewTree.walk {α : Type} (t : ViewTree α) (id : ViewId) : List (ViewId × Nat) :=
  (Walk.start id).take t (t.forest [id]).size

end BoxLayout
