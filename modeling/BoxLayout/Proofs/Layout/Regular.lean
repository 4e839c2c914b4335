import Mathlib
import BoxLayout.Proofs.Layout.Natural
import BoxLayout.Proofs.Layout.Visits

/-!
# Measured sizes without rounding

Without rounding every measured size is a pair of numbers within the bounds of its view: content has
been checked, and what a container adds up of numbers is one again. The one number that comes from the
host unchecked is where a child of an overlay is declared.

* **`Pass.Anchored`** — what is asked of declared origins.
* **`Pass.regular_of_naturalSize`** — one view, if its children are regular cells.
* **`Forest.regular_cells`** — all views of a shape.
* **`Pass.exists_regular_cells`** — what the places of a view's children are worked out from.
-/

namespace BoxLayout

open ViewTree

variable {p : Pass Exact}

/-- If the view is an overlay, its children are declared at numbers. -/
def Pass.Anchored (p : Pass Exact) (id : ViewId) : Prop :=
  ∀ v, p.tree.get? id = some v → v.container.axis? = none → ∀ child ∈ v.children,
    ∀ w, p.tree.get? child = some w → ∀ axis,
      Scalar.isFinite (w.declaredOrigin.along axis) = true

/-- A measured view is a regular cell if its children are. -/
theorem Pass.regular_of_naturalSize (hvalid : p.tree.ValidRecords) {id : ViewId} {v : View Exact}
    (hv : p.tree.get? id = some v) (hanchored : p.Anchored id) {children : Forest}
    (hchildren : Unfolds p.tree (p.tree.children id) children)
    (hregular : ∀ s cells, (children.cells p s).outcome = .ok cells → ∀ c ∈ cells, c.Regular)
    {s natural : Size Exact}
    (hok : (p.naturalSize id v (children.cells p) s).outcome = .ok natural) :
    (Cell.mk id v natural).Regular := by
  have hrecord : v.constraints.Valid := hvalid id v hv
  obtain ⟨raw, hraw, rfl⟩ := Pass.naturalSize_eq_ok_iff.mp hok
  -- the raw size: checked content or what a container makes of regular cells
  have hextent (axis : Axis) : Scalar.isExtent (raw.along axis) = true := by
    rcases Pass.rawSize_of_ok hraw with hextent | ⟨-, cells, hcells, rfl⟩
    · exact Size.isExtent_iff.mp hextent axis
    · obtain ⟨hids, hviews⟩ := Forest.cells_of_ok hchildren hcells
      refine Container.isExtent_naturalSize hrecord (hregular s cells hcells)
        (fun haxis c hc => hanchored v hv haxis c.id ?_ c.view (hviews c hc).1) axis
      rw [← children_of_get? hv, ← hids]
      exact List.mem_map_of_mem hc
  refine ⟨⟨hrecord, fun axis => ?_⟩, fun axis => ?_⟩
  · rw [Constraints.along_clamp]
    exact hrecord.clampAlong_mem axis _
  · rw [Constraints.along_clamp]
    -- the adjustment is an extent, and bounds keep an extent one
    refine hrecord.isExtent_clampAlong ?_
    rw [Size.along_add]
    exact Exact.isExtent_add (hextent axis) (hrecord.adjustment_isExtent axis)

/-- **Measured cells are regular**, by induction on the shape. -/
theorem Forest.regular_cells (hvalid : p.tree.ValidRecords) {ids : List ViewId} {f : Forest}
    (hf : Unfolds p.tree ids f) (hanchored : ∀ id ∈ f.ids, p.Anchored id) {s : Size Exact}
    {cells : List (Cell Exact)} (hok : (f.cells p s).outcome = .ok cells) :
    ∀ c ∈ cells, c.Regular := by
  induction hf generalizing s cells with
  | nil =>
    obtain rfl := Except.ok.inj hok
    exact fun _ hc => absurd hc List.not_mem_nil
  | @cons id ids children rest hchildren _ ihc ihr =>
    simp only [Forest.ids, List.mem_cons, List.mem_append] at hanchored
    obtain ⟨v, hv, natural, hnatural, others, hothers, rfl⟩ := Forest.cells_view_eq_ok_iff.mp hok
    intro c hc
    -- the view at hand, by its children; or one after it
    rcases List.mem_cons.mp hc with rfl | hc
    · exact Pass.regular_of_naturalSize hvalid hv (hanchored id (Or.inl rfl)) hchildren
        (fun _ _ hcells => ihc (fun low hlow => hanchored low (Or.inr (Or.inl hlow))) hcells) hnatural
    · exact ihr (fun low hlow => hanchored low (Or.inr (Or.inr hlow))) hothers c hc

/-- Where the children of a view have been given places, they have been measured, each as the view it
is of, and their cells are regular. -/
theorem Pass.exists_regular_cells (hwf : p.tree.WellFormed) (hvalid : p.tree.ValidRecords)
    {kind : Container} {id : ViewId} {v : View Exact} (hv : p.tree.get? id = some v)
    (hanchored : ∀ low ∈ (p.tree.below id).ids, p.Anchored low) {bounds : Size Exact}
    {placements : List (Placement Exact)}
    (hok : (p.childPlacements kind id bounds).outcome = .ok placements) :
    ∃ cells, ((p.tree.below id).cells p bounds).outcome = .ok cells ∧
      cells.map Cell.id = v.children ∧ (∀ c ∈ cells, p.tree.get? c.id = some c.view) ∧
      (∀ c ∈ cells, c.Regular) ∧ placements = kind.place p.settings v cells bounds := by
  obtain ⟨w, hw, hplacements⟩ := Pass.childPlacements_eq_ok_iff.mp hok
  obtain rfl := Option.some.inj (hw.symm.trans hv)
  obtain ⟨cells, hcells, hplaces⟩ := Pass.placements_eq_ok_iff.mp hplacements
  have hf : Unfolds p.tree w.children (p.tree.below id) := by
    rw [← children_of_get? hv]
    exact unfolds_forest hwf _
  obtain ⟨hids, hviews⟩ := Forest.cells_of_ok hf hcells
  exact ⟨cells, hcells, hids, fun c hc => (hviews c hc).1,
    Forest.regular_cells hvalid hf hanchored hcells, hplaces⟩

end BoxLayout
