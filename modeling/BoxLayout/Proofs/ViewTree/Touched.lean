import Mathlib
import BoxLayout.Proofs.Constraints.Valid
import BoxLayout.Proofs.Layout.Writes
import BoxLayout.ViewTree.Move

/-!
# Changes that leave links and constraints

A layout pass writes frames, and moving a view by hand writes its frame and its declared origin.
`Touched` collects all changes of this kind, so that what depends on links and constraints only
needs to be shown for a single one.

* **`Quiet`**, **`Touched`** — one change of one view, and any number of them.
* **`touched_moved`** — what moving and resizing by hand leaves.
* **`touched_arrange`**, **`touched_layout`** — what a pass leaves, also one that fails.
-/

namespace BoxLayout

variable {α : Type}

/-- Moving and resizing a view by hand. -/
inductive Move (α : Type) where
  | origin (point : Point α)
  | x (value : α)
  | y (value : α)
  | right (value : α)
  | bottom (value : α)
  | size (size : Size α)
  | width (value : α)
  | height (value : α)
  | centerHorizontally
  | centerVertically
  | center

namespace ViewTree

/-! ## Quiet changes -/

/-- A change of a view that leaves its links and its constraints. -/
structure Quiet (change : View α → View α) : Prop where
  parent : ∀ v, (change v).parent = v.parent
  children : ∀ v, (change v).children = v.children
  constraints : ∀ v, (change v).constraints = v.constraints

/-- A tree after any number of changes that leave links and constraints. -/
inductive Touched (t : ViewTree α) : ViewTree α → Prop
  | refl : Touched t t
  | update {r : ViewTree α} (id : ViewId) {change : View α → View α} :
      Quiet change → Touched t r → Touched t (r.update id change)

/-- Changes after changes. -/
theorem Touched.trans {t r s : ViewTree α} (h : Touched t r) (h' : Touched r s) : Touched t s := by
  induction h' with
  | refl => exact h
  | update id hquiet _ ih => exact .update id hquiet ih

theorem Touched.single {t : ViewTree α} (id : ViewId) {change : View α → View α}
    (h : Quiet change) : Touched t (t.update id change) :=
  .update id h .refl

/-- The tree that an attempt leaves: the one it yields, or the old one if it fails. -/
def after (t : ViewTree α) : Attempt α (ViewTree α) → ViewTree α
  | .ok r => r
  | .error _ => t

/-- An attempt that fails leaves the tree alone. -/
theorem touched_after {t : ViewTree α} {attempt : Attempt α (ViewTree α)}
    (h : ∀ r, attempt = .ok r → Touched t r) : Touched t (t.after attempt) := by
  cases attempt with
  | ok r => exact h r rfl
  | error _ => exact .refl

/-! ## Moves by hand

Every move ends in a single update, behind look-ups that may fail. -/

/-- A change of one view, if the view is there. -/
theorem touched_of_modify {t r : ViewTree α} {id : ViewId} {change : View α → View α}
    (hquiet : Quiet change) (h : t.modify id change = .ok r) : Touched t r := by
  obtain ⟨_, _, heq⟩ := Except.bind_eq_ok_iff.mp h
  obtain rfl := Except.ok.inj heq
  exact .single id hquiet

section

variable [Scalar α]

theorem quiet_moveTo (point : Point α) : Quiet fun v : View α => v.moveTo point :=
  ⟨fun _ => rfl, fun _ => rfl, fun _ => rfl⟩

/-- A view moved or resized by hand. -/
def moved (t : ViewTree α) (id : ViewId) : Move α → Attempt α (ViewTree α)
  | .origin point => t.setOrigin id point
  | .x value => t.setX id value
  | .y value => t.setY id value
  | .right value => t.setRight id value
  | .bottom value => t.setBottom id value
  | .size size => t.setSize id size
  | .width value => t.setWidth id value
  | .height value => t.setHeight id value
  | .centerHorizontally => t.centerHorizontally id
  | .centerVertically => t.centerVertically id
  | .center => t.center id

theorem touched_setOrigin {t r : ViewTree α} {id : ViewId} {point : Point α}
    (h : t.setOrigin id point = .ok r) : Touched t r :=
  touched_of_modify (quiet_moveTo point) h

/-- A coordinate is set as a corner, behind a look-up. -/
theorem touched_setX {t r : ViewTree α} {id : ViewId} {x : α} (h : t.setX id x = .ok r) :
    Touched t r := by
  obtain ⟨_, _, h⟩ := Except.bind_eq_ok_iff.mp h
  exact touched_setOrigin h

theorem touched_setY {t r : ViewTree α} {id : ViewId} {y : α} (h : t.setY id y = .ok r) :
    Touched t r := by
  obtain ⟨_, _, h⟩ := Except.bind_eq_ok_iff.mp h
  exact touched_setOrigin h

theorem touched_centerHorizontally {t r : ViewTree α} {id : ViewId}
    (h : t.centerHorizontally id = .ok r) : Touched t r := by
  obtain ⟨_, _, h⟩ := Except.bind_eq_ok_iff.mp h
  obtain ⟨_, _, h⟩ := Except.bind_eq_ok_iff.mp h
  exact touched_setX h

theorem touched_centerVertically {t r : ViewTree α} {id : ViewId}
    (h : t.centerVertically id = .ok r) : Touched t r := by
  obtain ⟨_, _, h⟩ := Except.bind_eq_ok_iff.mp h
  obtain ⟨_, _, h⟩ := Except.bind_eq_ok_iff.mp h
  exact touched_setY h

/-- Every move leaves links and constraints. -/
theorem touched_moved {t r : ViewTree α} {id : ViewId} {move : Move α}
    (h : t.moved id move = .ok r) : Touched t r := by
  cases move with
  | origin point => exact touched_setOrigin h
  | x value => exact touched_setX h
  | y value => exact touched_setY h
  -- the far edges are turned into coordinates first
  | right value =>
    obtain ⟨_, _, h⟩ := Except.bind_eq_ok_iff.mp h
    exact touched_setX h
  | bottom value =>
    obtain ⟨_, _, h⟩ := Except.bind_eq_ok_iff.mp h
    exact touched_setY h
  -- the extents of the frame
  | size _ | width _ | height _ =>
    refine touched_of_modify ?_ h
    exact ⟨fun _ => rfl, fun _ => rfl, fun _ => rfl⟩
  | centerHorizontally => exact touched_centerHorizontally h
  | centerVertically => exact touched_centerVertically h
  -- two moves in a row
  | center =>
    obtain ⟨between, hfirst, h⟩ := Except.bind_eq_ok_iff.mp h
    exact (touched_centerHorizontally hfirst).trans (touched_centerVertically h)

end

/-! ## Passes -/

/-- Writing frames leaves links and constraints, however many are written. -/
theorem touched_setFrames (t : ViewTree α) (writes : List (Placement α)) :
    Touched t (t.setFrames writes) := by
  induction writes generalizing t with
  | nil => exact .refl
  | cons w writes ih =>
    have hfirst : Touched t (t.setFrame w.1 w.2) :=
      .single w.1 ⟨fun _ => rfl, fun _ => rfl, fun _ => rfl⟩
    exact hfirst.trans (ih (t.setFrame w.1 w.2))

variable [Scalar α]

/-- A pass leaves links and constraints, also one that fails. -/
theorem touched_arrange (engine : Engine α) (t : ViewTree α) (id : ViewId) (allotted : Rect α) :
    Touched t (engine.arrange t id allotted).tree := by
  rw [Engine.tree_arrange]
  exact touched_setFrames t _

theorem touched_layout (engine : Engine α) (t : ViewTree α) (viewport : Rect α) :
    Touched t (engine.layout t viewport).tree := by
  rcases engine.tree_layout_eq_or t viewport with heq | ⟨root, -, heq⟩ <;> rw [heq]
  · exact .refl
  · exact touched_arrange engine t root viewport

end ViewTree

end BoxLayout
