import Mathlib
import BoxLayout.Proofs.Layout.Failure
import BoxLayout.Proofs.Layout.Soundness

/-!
# Arranging again

A host that changes one view wants to arrange that view's subtree and no more of the tree. This is
safe if nothing moves where nothing has changed: in a subtree that has been arranged, a view that is
arranged once more in the frame it has keeps it, and so do the views below it.

## The architecture

* **`Engine.Keeps`** — a pass that succeeds and leaves the tree as it is.
* **`InPlace`**, **`Settled.inPlace`** — a rectangle gives a view the frame it has already, as the
  frame of a settled view does.
* **`Forest.keeps_of_settled`** — a pass over settled views keeps the tree, by induction on the shape.
* **`Engine.keeps_frame_iff`** — a pass over a view in its own frame keeps the tree just if all views
  within it are settled.
* **`relayout_run`** — what a pass that succeeds leaves is kept by passes over any view of it.
-/

namespace BoxLayout

open ViewTree

variable {α : Type} [Scalar α]

/-! ## Keeping a tree -/

/-- A computation has succeeded and left the given tree. -/
def Arranged.Keeps (x : Arranged α Unit) (r : ViewTree α) : Prop :=
  x.result.outcome = .ok () ∧ x.tree = r

omit [Scalar α] in
theorem Arranged.keeps_andThen_iff {β : Type} {x : Arranged α β}
    {next : β → ViewTree α → Arranged α Unit} {b : β} {r : ViewTree α}
    (hok : x.result.outcome = .ok b) : (x.andThen next).Keeps r ↔ (next b x.tree).Keeps r := by
  unfold andThen
  rw [hok]
  exact Iff.rfl

/-- Arranging a view in a rectangle succeeds and leaves the tree as it is. -/
def Engine.Keeps (e : Engine α) (r : ViewTree α) (id : ViewId) (allotted : Rect α) : Prop :=
  (e.arrange r id allotted).Keeps r

section

variable {e : Engine α} {t r : ViewTree α} {f : Forest} {placements : List (Placement α)}

/-! ## Settled views -/

/-- The links of two trees that agree but for frames say the same about what is settled. -/
theorem Settled.of_sameButFrames {id : ViewId} (h : Settled e t r id) (hsame : t.SameButFrames r)
    (ht : t.WellFormed) (hr : r.WellFormed) : Settled e r r id := by
  obtain ⟨v, placements, hv, hkeeps, hplacements, hids, hframes⟩ := h
  rw [← hsame.below_eq ht hr] at hplacements
  rw [← hsame.children_eq] at hids
  exact ⟨v, placements, hv, hkeeps, hplacements, hids, hframes⟩

/-- A visit in the rectangle would give the view the frame it has already. -/
structure ViewTree.InPlace (r : ViewTree α) (id : ViewId) (allotted : Rect α) : Prop where
  isExtent : allotted.size.isExtent = true
  frame_eq : ∀ v, r.get? id = some v →
    v.frame = .ofOriginSize allotted.origin (v.constraints.clamp allotted.size)

/-- The visit of a settled view that is in place decides on the frames that the view and its children
have. -/
theorem Settled.visit_eq {id : ViewId} (h : Settled e r r id) {allotted : Rect α}
    (hplace : r.InPlace id allotted) :
    ∃ visit, ((e.pass r).visit id (r.below id) allotted).outcome = .ok visit ∧
      r.setFrame id visit.frame = r ∧ visit.placements.map Prod.fst = r.children id ∧
      ∀ place ∈ visit.placements, ∃ w, r.get? place.1 = some w ∧ w.frame = place.2 := by
  obtain ⟨v, placements, hv, -, hplacements, hids, hframes⟩ := h
  refine ⟨⟨v.frame, placements⟩, ?_, setFrame_eq_self fun w hw => ?_, hids, hframes⟩
  · exact Pass.visit_eq_ok_iff.mpr ⟨v, hv, hplace.isExtent, hplace.frame_eq v hv, hplacements⟩
  · obtain rfl := Option.some.inj (hv.symm.trans hw)
    rfl

variable [Scalar.Rounded α]

/-- A frame that keeps to the bounds of its view is not changed by being brought within them. -/
theorem Settled.inPlace {id : ViewId} (h : Settled e t r id) {v : View α}
    (hv : r.get? id = some v) : r.InPlace id v.frame := by
  obtain ⟨w, -, hw, ⟨hextent, hbounds⟩, -⟩ := h
  obtain rfl := Option.some.inj (hw.symm.trans hv)
  refine ⟨hextent, fun v hv => ?_⟩
  obtain rfl := Option.some.inj (hw.symm.trans hv)
  -- a settled frame is within bounds already
  exact (Constraints.ofOriginSize_clamp hextent fun axis => Or.inr (hbounds axis)).symm

/-! ## Passes over settled views -/

/-- **A pass over settled views keeps the tree**, if the first level is in place. Induction on the
shape: below the first level every view is handed the frame it has. -/
theorem Forest.keeps_of_settled (hwf : r.WellFormed) {ids : List ViewId} (hf : Unfolds r ids f)
    (hids : placements.map Prod.fst = ids)
    (hplaced : ∀ place ∈ placements, r.InPlace place.1 place.2)
    (hsettled : ∀ id ∈ f.ids, Settled e r r id) : (f.arrange e placements r).Keeps r := by
  induction hf generalizing placements with
  | nil => exact ⟨rfl, rfl⟩
  | @cons id ids children rest hc hr ihc ihr =>
    obtain ⟨⟨first, allotted⟩, others, rfl, hfirst, hothers⟩ := List.map_eq_cons_iff.mp hids
    obtain rfl : id = first := hfirst.symm
    obtain rfl : r.below id = children := (unfolds_forest hwf _).unique hc
    have hmem {low : ViewId} : low ∈ (Forest.view id (r.below id) rest).ids ↔
        low = id ∨ low ∈ (r.below id).ids ∨ low ∈ rest.ids := by
      rw [Forest.ids, List.mem_cons, List.mem_append]
    have hbelow (low : ViewId) (hlow : low ∈ (r.below id).ids) : Settled e r r low :=
      hsettled low (hmem.mpr (Or.inr (Or.inl hlow)))
    obtain ⟨visit, hvisit, hset, hfst, hframes⟩ :=
      (hsettled id (hmem.mpr (Or.inl rfl))).visit_eq (hplaced (id, allotted) List.mem_cons_self)
    have hchildren : ((r.below id).arrange e visit.placements r).Keeps r := by
      refine ihc hfst (fun place hplace => ?_) hbelow
      -- the place of a child is its frame, and the child is settled too
      obtain ⟨w, hw, hframe⟩ := hframes place hplace
      have hchild : place.1 ∈ (r.below id).ids := hc.subset_ids (hfst ▸ List.mem_map_of_mem hplace)
      exact hframe ▸ (hbelow place.1 hchild).inPlace hw
    -- the places of the rest are those it was handed
    have hrest : (rest.arrange e others r).Keeps r :=
      ihr hothers (fun place hplace => hplaced place (List.mem_cons_of_mem _ hplace))
        fun low hlow => hsettled low (hmem.mpr (Or.inr (Or.inr hlow)))
    rw [arrange, Arranged.keeps_andThen_iff hvisit, hset, Arranged.keeps_andThen_iff hchildren.1,
      hchildren.2]
    exact hrest

namespace Engine

omit [Scalar.Rounded α] in
/-- Keeping a tree is decided by the pass over the shape below the view. -/
theorem keeps_iff {id : ViewId} {allotted : Rect α} :
    e.Keeps r id allotted ↔ ((r.forest [id]).arrange e [(id, allotted)] r).Keeps r :=
  Arranged.keeps_andThen_iff rfl

/-- A view in place keeps the tree if all within it are settled. -/
theorem keeps_of_settled (hwf : r.WellFormed) {id : ViewId} {allotted : Rect α}
    (hplace : r.InPlace id allotted)
    (hsettled : ∀ low, r.Within low id → Settled e r r low) : e.Keeps r id allotted := by
  refine keeps_iff.mpr (Forest.keeps_of_settled hwf (unfolds_forest hwf [id]) rfl ?_ ?_)
  · intro place hmem
    obtain rfl := List.mem_singleton.mp hmem
    exact hplace
  · exact fun low hlow => hsettled low ((mem_ids_forest_singleton_iff hwf).mp hlow)

/-- **When a view keeps its frame.** A pass over a view in the frame it has keeps the tree just if the
view and all below it are settled. -/
theorem keeps_frame_iff (hwf : r.WellFormed) (hvalid : r.ValidRecords)
    (hm : e.measurer.IgnoresFrames) (hepsilon : ¬ e.settings.epsilon < Scalar.zero) {id : ViewId}
    {v : View α} (hv : r.get? id = some v) :
    e.Keeps r id v.frame ↔ ∀ low, r.Within low id → Settled e r r low := by
  constructor
  · -- a pass settles what it visits, and here it has left the tree it started from
    rintro ⟨hok, htree⟩ low hlow
    have hpassed := passed_of_ok hwf hvalid hm hepsilon hok
    rw [htree] at hpassed
    exact hpassed.settled low ((mem_ids_forest_singleton_iff hwf).mpr hlow)
  · exact fun hsettled => keeps_of_settled hwf ((hsettled id .refl).inPlace hv) hsettled

/-- **A pass that succeeds leaves nothing to do**, in any well-formed tree with valid records. -/
theorem relayout_of_ok (hwf : t.WellFormed) (hvalid : t.ValidRecords)
    (hm : e.measurer.IgnoresFrames) (hepsilon : ¬ e.settings.epsilon < Scalar.zero)
    {start : ViewId} {allotted : Rect α}
    (hok : (e.arrange t start allotted).result.outcome = .ok ()) :
    e.Keeps (e.arrange t start allotted).tree start allotted ∧
      ∀ id, t.Within id start → ∃ v, (e.arrange t start allotted).tree.get? id = some v ∧
        e.Keeps (e.arrange t start allotted).tree id v.frame := by
  have hpassed := passed_of_ok hwf hvalid hm hepsilon hok
  have htouched := touched_arrange e t start allotted
  have hafter := hwf.touched htouched
  have hvalid' := hvalid.touched htouched
  set r := (e.arrange t start allotted).tree
  -- the links of the tree that is left are those of the one before
  have hwithin : r.Within = t.Within := hpassed.same.within_eq
  have hsettled (id : ViewId) (hid : r.Within id start) : Settled e r r id := by
    have hmem : id ∈ (t.forest [start]).ids := (mem_ids_forest_singleton_iff hwf).mpr (hwithin ▸ hid)
    exact (hpassed.settled id hmem).of_sameButFrames hpassed.same hwf hafter
  constructor
  · -- the same pass again: the start is where the first one put it
    obtain ⟨hextent, w, hw, hframe⟩ := hpassed.placed (start, allotted) List.mem_cons_self
    refine keeps_of_settled hafter ⟨hextent, fun v hv => ?_⟩ hsettled
    obtain rfl := Option.some.inj (hw.symm.trans hv)
    exact hframe
  · -- any view within, in the frame it has
    rw [← hwithin]
    intro id hid
    obtain ⟨v, -, hv, -⟩ := hsettled id hid
    exact ⟨v, hv, (keeps_frame_iff hafter hvalid' hm hepsilon hv).mpr fun low hlow =>
      hsettled low (hlow.trans hid)⟩

end Engine

end

/-- **In any tree that operations lead to, what has been arranged stays where it is**: after a pass
that succeeds, the same pass, and one over any view of the subtree in the frame it has, succeeds and
changes nothing. -/
theorem relayout_run (ops : List (Operation Float32)) (e : Engine Float32)
    (hm : e.measurer.IgnoresFrames) (hepsilon : ¬ e.settings.epsilon < Scalar.zero)
    (start : ViewId) (allotted : Rect Float32)
    (hok : (e.arrange (empty.run ops) start allotted).result.outcome = .ok ()) :
    e.Keeps (e.arrange (empty.run ops) start allotted).tree start allotted ∧
      ∀ id, (empty.run ops).Within id start → ∃ v,
        (e.arrange (empty.run ops) start allotted).tree.get? id = some v ∧
          e.Keeps (e.arrange (empty.run ops) start allotted).tree id v.frame :=
  Engine.relayout_of_ok (wellFormed_run ops) (validRecords_run ops) hm hepsilon hok

theorem relayout_rowOfTwo :
    let e : Engine Float32 := ⟨.standard, .stored⟩
    let viewport : Rect Float32 := .ofOriginSize .zero ⟨Float32.ofBits 0x42C80000, 1⟩
    let r := (e.arrange (empty.run rowOfTwo) ⟨0, 1⟩ viewport).tree
    e.Keeps r ⟨0, 1⟩ viewport ∧
      ∀ id, (empty.run rowOfTwo).Within id ⟨0, 1⟩ → ∃ v, r.get? id = some v ∧ e.Keeps r id v.frame :=
  relayout_run rowOfTwo ⟨.standard, .stored⟩ Measurer.ignoresFrames_stored (by decide +kernel) _ _
    (by rfl)

end BoxLayout
