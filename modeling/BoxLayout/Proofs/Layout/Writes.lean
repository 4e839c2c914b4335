import Mathlib
import BoxLayout.Layout.Arrange

/-!
# The frames a pass writes

Arranging reads the tree, fails or goes on, and writes one frame after another. What is left of it
in the tree is the list of those frames, in the order of writing, whether the pass ends in a failure
or not.

* **`SameButFrames`** — trees that agree but for frames, as they do whatever is written.
* **`Forest.writes`** — the list, by the recursion of the pass itself.
* **`Forest.tree_arrange`** — the tree after a pass is the tree before it with these frames written.
* **`Forest.writes_sublist`** — the frames are those of views of the shape, each written at most
  once, in the order of the shape.
-/

namespace BoxLayout

variable {α : Type}

namespace ViewTree

/-- The tree with some frames written, one after another. -/
def setFrames (t : ViewTree α) (writes : List (Placement α)) : ViewTree α :=
  writes.foldl (fun t w => t.setFrame w.1 w.2) t

theorem setFrames_append (t : ViewTree α) (xs ys : List (Placement α)) :
    t.setFrames (xs ++ ys) = (t.setFrames xs).setFrames ys :=
  List.foldl_append

/-- Writing a frame concerns one view. -/
theorem get?_setFrame (t : ViewTree α) (id other : ViewId) (frame : Rect α) :
    (t.setFrame id frame).get? other =
      (t.get? other).map fun v => { v with frame := if other = id then frame else v.frame } := by
  rw [setFrame, get?_update]
  split_ifs with heq
  · rw [heq]
  · -- another view gets the frame it has
    cases t.get? other <;> rfl

/-- Views that no frame is written to are as they were. -/
theorem get?_setFrames_of_notMem {t : ViewTree α} {writes : List (Placement α)} {id : ViewId}
    (h : id ∉ writes.map Prod.fst) : (t.setFrames writes).get? id = t.get? id := by
  induction writes generalizing t with
  | nil => rfl
  | cons w writes ih =>
    rw [List.map_cons, List.mem_cons, not_or] at h
    show ((t.setFrame w.1 w.2).setFrames writes).get? id = _
    rw [ih h.2, setFrame, get?_update, if_neg h.1]

theorem root_setFrames (t : ViewTree α) (writes : List (Placement α)) :
    (t.setFrames writes).root = t.root := by
  induction writes generalizing t with
  | nil => rfl
  | cons w writes ih => exact ih (t.setFrame w.1 w.2)

end ViewTree

variable [Scalar α]

/-! ## Trees that agree but for frames -/

/-- The view with its frame forgotten. -/
def View.unframed (v : View α) : View α := { v with frame := .zero }

/-- Views that agree but for frames are one view with two frames. -/
theorem View.eq_of_unframed {v w : View α} (h : v.unframed = w.unframed) :
    w = { v with frame := w.frame } := by
  obtain ⟨⟩ := v
  obtain ⟨⟩ := w
  simp only [View.unframed, View.mk.injEq] at h
  simp [h]

/-- Two trees agree but for the frames of their views. -/
def ViewTree.SameButFrames (t r : ViewTree α) : Prop :=
  ∀ id, (t.get? id).map View.unframed = (r.get? id).map View.unframed

namespace ViewTree.SameButFrames

variable {t r s : ViewTree α}

theorem refl (t : ViewTree α) : t.SameButFrames t := fun _ => rfl

theorem trans (h : t.SameButFrames r) (h' : r.SameButFrames s) : t.SameButFrames s :=
  fun id => (h id).trans (h' id)

/-- A view is in neither tree, or in both of them with two frames. -/
theorem get?_cases (h : t.SameButFrames r) (id : ViewId) :
    t.get? id = none ∧ r.get? id = none ∨
      ∃ v frame, t.get? id = some v ∧ r.get? id = some { v with frame } := by
  have hid := h id
  cases ht : t.get? id with
  | none =>
    rw [ht, Option.map_none, eq_comm, Option.map_eq_none_iff] at hid
    exact Or.inl ⟨rfl, hid⟩
  | some v =>
    rw [ht, Option.map_some, eq_comm, Option.map_eq_some_iff] at hid
    obtain ⟨w, hw, heq⟩ := hid
    exact Or.inr ⟨v, w.frame, rfl, by rw [hw, View.eq_of_unframed heq.symm]⟩

/-- Writing frames adds no view and removes none. -/
theorem isSome_eq (h : t.SameButFrames r) (id : ViewId) :
    (t.get? id).isSome = (r.get? id).isSome := by
  rcases h.get?_cases id with ⟨ht, hr⟩ | ⟨v, frame, ht, hr⟩
  · rw [ht, hr]
  · rw [ht, hr]
    rfl

/-- One more frame written to either tree keeps them alike. -/
theorem setFrame (h : t.SameButFrames r) (id : ViewId) (frame : Rect α) :
    t.SameButFrames (r.setFrame id frame) := by
  intro other
  rw [h other, ViewTree.setFrame, get?_update]
  split_ifs with heq
  · -- the frame that was written is forgotten again
    rw [heq]
    cases r.get? id <;> rfl
  · rfl

end ViewTree.SameButFrames

/-- A tree with frames written agrees with it but for frames. -/
theorem ViewTree.sameButFrames_setFrames (t : ViewTree α) (writes : List (Placement α)) :
    t.SameButFrames (t.setFrames writes) := by
  -- generalised to a tree in which some frames have been written already
  have hall (s : ViewTree α) (hs : t.SameButFrames s) : t.SameButFrames (s.setFrames writes) := by
    induction writes generalizing s with
    | nil => exact hs
    | cons w writes ih => exact ih (s.setFrame w.1 w.2) (hs.setFrame w.1 w.2)
  exact hall t (.refl t)

/-! ## Passes -/

namespace Forest

/-- The frames that arranging the views of a forest writes, up to its end or its failure. -/
def writes (e : Engine α) : Forest → List (Placement α) → ViewTree α → List (Placement α)
  | .view id children rest, (_, allotted) :: placements, t =>
    match ((e.pass t).visit id children allotted).outcome with
    | .error _ => []
    | .ok visit =>
      let below := children.arrange e visit.placements (t.setFrame id visit.frame)
      (id, visit.frame) ::
        (children.writes e visit.placements (t.setFrame id visit.frame) ++
          match below.result.outcome with
          | .error _ => []
          | .ok _ => rest.writes e placements below.tree)
  | _, _, _ => []

variable {e : Engine α}

/-- **A pass leaves the frames it wrote.** -/
theorem tree_arrange (f : Forest) (placements : List (Placement α)) (t : ViewTree α) :
    (f.arrange e placements t).tree = t.setFrames (f.writes e placements t) := by
  induction f generalizing placements t with
  | empty => rfl
  | view id children rest ihc ihr =>
    cases placements with
    | nil => rfl
    | cons placement placements =>
      unfold arrange writes Arranged.andThen
      dsimp only
      -- a run stops at the first error, below the view or at it, and so do its writes
      cases ((e.pass t).visit id children placement.2).outcome with
      | error _ => rfl
      | ok visit =>
        dsimp only
        have hc := ihc visit.placements (t.setFrame id visit.frame)
        cases (children.arrange e visit.placements (t.setFrame id visit.frame)).result.outcome with
        | error _ =>
          dsimp only
          rw [List.append_nil, hc]
          rfl
        | ok _ =>
          dsimp only
          rw [ihr, hc]
          exact (ViewTree.setFrames_append _ _ _).symm

/-- A pass changes nothing but frames, whether it succeeds or fails. -/
theorem sameButFrames_arrange {f : Forest} {placements : List (Placement α)}
    {t s : ViewTree α} (h : t.SameButFrames s) :
    t.SameButFrames (f.arrange e placements s).tree := by
  rw [f.tree_arrange]
  exact h.trans (ViewTree.sameButFrames_setFrames s _)

/-- Frames are written to views of the shape, in its order, and to none of them twice. -/
theorem writes_sublist (f : Forest) (placements : List (Placement α)) (t : ViewTree α) :
    ((f.writes e placements t).map Prod.fst).Sublist f.ids := by
  induction f generalizing placements t with
  | empty => exact List.nil_sublist _
  | view id children rest ihc ihr =>
    cases placements with
    | nil => exact List.nil_sublist _
    | cons placement placements =>
      unfold writes
      cases ((e.pass t).visit id children placement.2).outcome with
      | error _ => exact List.nil_sublist _
      | ok visit =>
        dsimp only
        rw [ids, List.map_cons, List.map_append]
        -- the view itself, then what lies below it, then as much of the rest as is reached
        refine ((ihc _ _).append ?_).cons_cons id
        cases (children.arrange e visit.placements (t.setFrame id visit.frame)).result.outcome with
        | error _ => exact List.nil_sublist _
        | ok _ => exact ihr _ _

end Forest

namespace Engine

def writes (e : Engine α) (t : ViewTree α) (id : ViewId) (allotted : Rect α) :
    List (Placement α) :=
  (t.forest [id]).writes e [(id, allotted)] t

variable {e : Engine α} {t : ViewTree α}

theorem tree_arrange (id : ViewId) (allotted : Rect α) :
    (e.arrange t id allotted).tree = t.setFrames (e.writes t id allotted) :=
  Forest.tree_arrange _ _ _

/-- A layout that gets as far as arranging leaves what that leaves, and any other leaves nothing. -/
theorem tree_layout_eq_or (e : Engine α) (t : ViewTree α) (viewport : Rect α) :
    (e.layout t viewport).tree = t ∨
      ∃ root, t.root = some root ∧
        (e.layout t viewport).tree = (e.arrange t root viewport).tree := by
  -- the tree changes in the arranging step only
  unfold layout Arranged.andThen
  cases t.root with
  | none => exact Or.inl rfl
  | some root =>
    dsimp only
    cases (e.measure t root viewport.size).outcome with
    | error _ => exact Or.inl rfl
    | ok natural =>
      -- a root that has been measured is arranged, and the rest of the layout is a report
      refine Or.inr ⟨root, rfl, ?_⟩
      dsimp only
      cases (e.arrange t root viewport).result.outcome <;> rfl

end Engine

end BoxLayout
