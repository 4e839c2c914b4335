import Mathlib
import BoxLayout.Proofs.Layout.Regular
import BoxLayout.Proofs.Layout.Soundness

/-!
# Measuring and arranging agree

Measuring goes up a tree and adds sizes together; arranging goes down it and hands them out. Where
the views with children add nothing of their own and nothing makes a child fill its cell, a tree
arranged at its measured size gives every view its own measured size, all the way down.

## The architecture

* **`Measurer.IgnoresProposals`** — content that is as large whatever is proposed. Then nothing else
  depends on proposals either (`Forest.cells_eq_of_ignoresProposals`).
* **`Pass.Plain`** — a view that takes its children as they are.
* **`Pass.fitsIn_of_measure`** — a view of its measured size fits its children.
* **`Pass.visit_of_measure`**, **`Forest.arrange_of_measured`** — one visit at a measured size, and
  so a whole pass, succeeds.
* **`Arrangement.measured_start`**, **`Arrangement.measured_child`** — what it leaves: the start has
  its measured size, and a child has if its parent has.
* **`measured_run`** — so down to every view of the subtree.
-/

namespace BoxLayout

open Relation ViewTree

/-! ## Measuring -/

section

variable {α : Type} [Scalar α]

/-- The sizes that a measurer reports do not depend on what is proposed. -/
def Measurer.IgnoresProposals (m : Measurer α) : Prop :=
  ∀ id v proposed proposed', m id v proposed = m id v proposed'

omit [Scalar α] in
theorem Measurer.ignoresProposals_stored : (Measurer.stored : Measurer α).IgnoresProposals :=
  fun _ _ _ _ => rfl

variable {p : Pass α}

/-- Where neither children nor content mind what is proposed, a view does not either. -/
theorem Pass.naturalSize_eq_of_ignoresProposals (hm : p.measurer.IgnoresProposals) (id : ViewId)
    (v : View α) {measureChildren : Size α → Logged α (List (Cell α))}
    (hchildren : ∀ s s', measureChildren s = measureChildren s') (s s' : Size α) :
    p.naturalSize id v measureChildren s = p.naturalSize id v measureChildren s' := by
  unfold naturalSize rawSize
  rw [hchildren s s', hm id v s s']

/-- **What is proposed does not matter** where it does not matter for content. -/
theorem Forest.cells_eq_of_ignoresProposals (hm : p.measurer.IgnoresProposals) (f : Forest)
    (s s' : Size α) : f.cells p s = f.cells p s' := by
  induction f generalizing s s' with
  | empty => rfl
  | view id children rest ihc ihr =>
    unfold cells
    rw [ihr s s']
    refine congrArg (p.node id >>= ·) (funext fun v => ?_)
    rw [p.naturalSize_eq_of_ignoresProposals hm id v ihc]

theorem Pass.childrenSize_eq_of_ignoresProposals (hm : p.measurer.IgnoresProposals)
    (kind : Container) (id : ViewId) (s s' : Size α) :
    p.childrenSize kind id s = p.childrenSize kind id s' := by
  unfold childrenSize Pass.cells
  rw [Forest.cells_eq_of_ignoresProposals hm (p.tree.below id) s s']

theorem Pass.measure_eq_of_ignoresProposals (hm : p.measurer.IgnoresProposals) (id : ViewId)
    (s s' : Size α) : p.measure id s = p.measure id s' := by
  unfold measure
  refine congrArg (p.node id >>= ·) (funext fun v => ?_)
  exact p.naturalSize_eq_of_ignoresProposals hm id v
    (fun t t' => Forest.cells_eq_of_ignoresProposals hm _ t t') s s'

/-- A place has the size that measuring its view gives, whatever is proposed. -/
def Pass.Measured (p : Pass α) (place : Placement α) : Prop :=
  ∀ proposed, (p.measure place.1 proposed).outcome = .ok place.2.size

/-- The natural size of a cell is what measuring its view gives. -/
theorem Forest.measure_of_cells (hwf : p.tree.WellFormed) (hm : p.measurer.IgnoresProposals)
    {ids : List ViewId} {f : Forest} (hf : Unfolds p.tree ids f) {s : Size α}
    {cells : List (Cell α)} (hok : (f.cells p s).outcome = .ok cells) {c : Cell α} (hc : c ∈ cells)
    (s' : Size α) : (p.measure c.id s').outcome = .ok c.natural := by
  induction hf generalizing s cells with
  | nil =>
    obtain rfl := Except.ok.inj hok
    nomatch hc
  | @cons id ids children rest hchildren _ _ ihr =>
    obtain ⟨v, hv, natural, hnatural, others, hothers, rfl⟩ := Forest.cells_view_eq_ok_iff.mp hok
    rcases List.mem_cons.mp hc with rfl | hc
    · -- the shape below a view is one shape, so the cell was measured over it
      obtain rfl : children = p.tree.below id := hchildren.unique (unfolds_forest hwf _)
      refine Pass.measure_eq_ok_iff.mpr ⟨v, hv, ?_⟩
      rw [← hnatural]
      exact congrArg Logged.outcome (p.naturalSize_eq_of_ignoresProposals hm id v
        (fun t t' => Forest.cells_eq_of_ignoresProposals hm _ t t') _ _)
    · exact ihr hothers hc

end

/-! ## Views that take their children as they are -/

/-- A view with children adds nothing of its own to their sizes, and none of them asks for more. -/
structure Pass.PlainAt (p : Pass Exact) (id : ViewId) (v : View Exact) : Prop where
  normal : v.constraints.cells = .normal
  ignoreNatural_eq : v.constraints.ignoreNatural = false
  adjustment_eq : v.constraints.adjustment = .zero
  /-- The size that the children would like the view to have keeps to the view's bounds. -/
  within_bounds : ∀ proposed raw, (p.childrenSize v.container id proposed).outcome = .ok raw →
    ∀ axis, v.constraints.min.along axis ≤ raw.along axis ∧
      raw.along axis ≤ v.constraints.max.along axis
  keepsNaturalIn : ∀ child ∈ v.children, ∀ w, p.tree.get? child = some w → w.KeepsNaturalIn v

/-- The view takes its children as they are, if it has any. -/
def Pass.Plain (p : Pass Exact) (id : ViewId) : Prop :=
  ∀ v, p.tree.get? id = some v → v.hasChildren = true → p.PlainAt id v

section

variable {p : Pass Exact}

/-- Measured children keep their natural size as the views they are of do. -/
theorem Pass.PlainAt.cells_keepNatural {id : ViewId} {v : View Exact} (h : p.PlainAt id v)
    (hv : p.tree.get? id = some v) {children : Forest}
    (hchildren : Unfolds p.tree (p.tree.children id) children) {s : Size Exact}
    {cells : List (Cell Exact)} (hok : (children.cells p s).outcome = .ok cells) :
    ∀ c ∈ cells, c.view.KeepsNaturalIn v := by
  obtain ⟨hids, hcells⟩ := Forest.cells_of_ok hchildren hok
  intro c hc
  refine h.keepsNaturalIn c.id ?_ c.view (hcells c hc).1
  rw [← children_of_get? hv, ← hids]
  exact List.mem_map_of_mem hc

/-- Plain views have children with declared origins that are numbers. -/
theorem Pass.Plain.anchored {id : ViewId} (h : p.Plain id) : p.Anchored id := by
  intro v hv haxis child hchild w hw axis
  have hhas : v.hasChildren = true := by
    rw [View.hasChildren, Bool.not_eq_true', List.isEmpty_eq_false_iff]
    exact List.ne_nil_of_mem hchild
  exact (((h v hv hhas).keepsNaturalIn child hchild w hw).overlaid haxis axis).2

/-- The margins of a child end inside the bounds of its parent, on the right and below. -/
def View.EndsInside (w v : View Exact) : Prop :=
  w.frame.right + w.margins.right ≤ v.frame.width ∧
    w.frame.bottom + w.margins.bottom ≤ v.frame.height

/-- A child placed in its natural size ends inside. -/
theorem Cell.FitsIn.endsInside {c : Cell Exact} {place : Placement Exact} {v : View Exact}
    (h : c.FitsIn v.frame.size place) : View.EndsInside { c.view with frame := place.2 } v :=
  ⟨h.ends .horizontal, h.ends .vertical⟩

theorem Cell.FitsIn.measured {c : Cell Exact} {bounds : Size Exact} {place : Placement Exact}
    (h : c.FitsIn bounds place)
    (hmeasure : ∀ proposed, (p.measure c.id proposed).outcome = .ok c.natural) :
    p.Measured place := by
  intro proposed
  rw [h.id_eq, h.size_eq]
  exact hmeasure proposed

/-- **A measured view fits its children**: placed in bounds of the size measured, each has its own
measured size, and ends inside. -/
theorem Pass.fitsIn_of_measure (hwf : p.tree.WellFormed) (hvalid : p.tree.ValidRecords)
    (hm : p.measurer.IgnoresProposals) (hepsilon : Scalar.zero ≤ p.settings.epsilon) {id : ViewId}
    (hplain : p.Plain id) (hbelow : ∀ low ∈ (p.tree.below id).ids, p.Plain low)
    {s size : Size Exact} (hok : (p.measure id s).outcome = .ok size) :
    ∃ v cells, p.tree.get? id = some v ∧ (Cell.mk id v size).Regular ∧
      (p.cells id size).outcome = .ok cells ∧
      ∀ place ∈ v.container.place p.settings v cells size, ∃ c ∈ cells, c.FitsIn size place := by
  have hchildren : Unfolds p.tree (p.tree.children id) (p.tree.below id) := unfolds_forest hwf _
  -- below a plain view every measured child has lengths that can be added up
  have hregular (s : Size Exact) (cells : List (Cell Exact))
      (hcells : (p.cells id s).outcome = .ok cells) : ∀ c ∈ cells, c.Regular :=
    Forest.regular_cells hvalid hchildren (fun low hlow => (hbelow low hlow).anchored) hcells
  obtain ⟨v, hv, hnatural⟩ := Pass.measure_eq_ok_iff.mp hok
  have hcell :=
    Pass.regular_of_naturalSize hvalid hv hplain.anchored hchildren hregular hnatural
  cases hhas : v.hasChildren with
  -- no children: the measured size is that of the content
  | false =>
    have hnil : p.tree.children id = [] := by
      rw [children_of_get? hv]
      simpa [View.hasChildren] using hhas
    have hempty : p.tree.below id = .empty := by
      rw [hnil] at hchildren
      exact hchildren.unique .nil
    refine ⟨v, [], hv, hcell, ?_, ?_⟩
    · rw [cells, hempty]
      rfl
    · -- there is nothing to place
      intro place hplace
      have hmem := List.mem_map_of_mem (f := Prod.fst) hplace
      rw [Container.map_fst_place] at hmem
      exact absurd hmem List.not_mem_nil
  -- children: the measured size is what the container makes of them
  | true =>
    have hplain := hplain v hv hhas
    obtain ⟨raw, hraw, hsize⟩ := Pass.naturalSize_eq_ok_iff.mp hnatural
    obtain ⟨cells, hcells, rfl⟩ :=
      (Pass.rawSize_eq_ok_iff_of_children hplain.ignoreNatural_eq hhas).mp hraw
    have hkeeps := hplain.cells_keepNatural hv hchildren hcells
    have hextent := Container.isExtent_naturalSize hcell.valid (hregular s cells hcells)
      fun haxis c hc axis => ((hkeeps c hc).overlaid haxis axis).2
    have hbounds := hplain.within_bounds s _
      (Pass.childrenSize_eq_ok_iff.mpr ⟨v, hv, cells, hcells, rfl⟩)
    have hsum : v.container.naturalSize v cells + .zero = v.container.naturalSize v cells :=
      Size.ext_along fun axis => by rw [Size.along_add, Size.along_zero, Exact.add_zero]
    -- what the children call for lies within the limits, so the view's own size is just that
    obtain rfl : size = v.container.naturalSize v cells := by
      rw [hsize, hplain.adjustment_eq, hsum]
      exact Constraints.clamp_eq_self (fun axis => Or.inr (hbounds axis))
        fun axis => Constraints.isNaN_of_isExtent (hextent axis)
    refine ⟨v, cells, hv, hcell, ?_, ?_⟩
    · rw [← hcells]
      exact congrArg Logged.outcome (Forest.cells_eq_of_ignoresProposals hm _ _ _)
    · intro place hplace
      exact Container.fitsIn_place hepsilon hcell.valid hplain.normal (hregular s cells hcells)
        hkeeps hplace

end

/-! ## Arranging -/

section

variable {e : Engine Exact} {t : ViewTree Exact} (hwf : t.WellFormed) (hvalid : t.ValidRecords)
  (hm : e.measurer.IgnoresProposals) (hepsilon : Scalar.zero ≤ e.settings.epsilon)

include hwf hvalid hm hepsilon

/-- **A visit at a measured size succeeds**, and hands every child its own measured size. -/
theorem Pass.visit_of_measure {id : ViewId} (hplain : (e.pass t).Plain id)
    (hbelow : ∀ low ∈ (t.below id).ids, (e.pass t).Plain low) {allotted : Rect Exact}
    (hmeasured : (e.pass t).Measured (id, allotted)) :
    ∃ visit, ((e.pass t).visit id (t.below id) allotted).outcome = .ok visit ∧
      visit.placements.map Prod.fst = t.children id ∧
      ∀ place ∈ visit.placements, (e.pass t).Measured place := by
  have hchildren : Unfolds t (t.children id) (t.below id) := unfolds_forest hwf _
  obtain ⟨v, cells, hv, hcell, hcells, hfits⟩ := Pass.fitsIn_of_measure (p := e.pass t) hwf hvalid
    hm hepsilon hplain hbelow (hmeasured .zero)
  -- a measured size keeps to the bounds, so the visit takes it as it is
  have hclamp : v.constraints.clamp allotted.size = allotted.size := hcell.clamp_natural
  refine ⟨⟨.ofOriginSize allotted.origin (v.constraints.clamp allotted.size),
    v.container.place e.settings v cells allotted.size⟩, ?_, ?_, fun place hplace => ?_⟩
  · refine Pass.visit_eq_ok_iff.mpr ⟨v, hv, hcell.isExtent_natural, rfl, ?_⟩
    rw [Rect.size_ofOriginSize, hclamp]
    exact Pass.placements_eq_ok_iff.mpr ⟨cells, hcells, rfl⟩
  · rw [Container.map_fst_place]
    exact (Forest.cells_of_ok hchildren hcells).1
  · obtain ⟨c, hc, hfit⟩ := hfits place hplace
    exact hfit.measured fun proposed => Forest.measure_of_cells hwf hm hchildren hcells hc proposed

variable (hframes : e.measurer.IgnoresFrames)

include hframes

/-- **What has been measured can be arranged at that size.** Induction on the shape, over any tree
that differs from `t` in frames only. -/
theorem Forest.arrange_of_measured {ids : List ViewId} {f : Forest} (hf : Unfolds t ids f)
    (hplain : ∀ low ∈ f.ids, (e.pass t).Plain low) {placements : List (Placement Exact)}
    (hids : placements.map Prod.fst = ids)
    (hmeasured : ∀ place ∈ placements, (e.pass t).Measured place) {s : ViewTree Exact}
    (hsame : t.SameButFrames s) : (f.arrange e placements s).result.outcome = .ok () := by
  induction hf generalizing placements s with
  | nil => rfl
  | @cons id ids children rest hc _ ihc ihr =>
    obtain ⟨⟨first, allotted⟩, others, rfl, hfirst, hothers⟩ := List.map_eq_cons_iff.mp hids
    obtain rfl : id = first := hfirst.symm
    obtain rfl : children = t.below id := hc.unique (unfolds_forest hwf _)
    simp only [Forest.ids, List.mem_cons, List.mem_append] at hplain
    have hbelow : ∀ low ∈ (t.below id).ids, (e.pass t).Plain low :=
      fun low hlow => hplain low (Or.inr (Or.inl hlow))
    obtain ⟨visit, hvisit, hfst, hplaced⟩ := Pass.visit_of_measure hwf hvalid hm hepsilon
      (hplain id (Or.inl rfl)) hbelow (hmeasured _ List.mem_cons_self)
    -- the visit happens in `s`, where frames have been written, and decides as in `t`
    rw [Pass.visit_congr hframes hsame] at hvisit
    have hset := hsame.setFrame id visit.frame
    unfold Forest.arrange
    refine Arranged.andThen_eq_ok_iff.mpr ⟨visit, hvisit, ?_⟩
    refine Arranged.andThen_eq_ok_iff.mpr ⟨(), ihc hbelow hfst hplaced hset, ?_⟩
    exact ihr (fun low hlow => hplain low (Or.inr (Or.inr hlow))) hothers
      (fun place hplace => hmeasured place (List.mem_cons_of_mem _ hplace))
      (Forest.sameButFrames_arrange hset)

variable {r : ViewTree Exact} (hr : r.WellFormed) (hsame : t.SameButFrames r) {start : ViewId}
  {allotted : Rect Exact} (harranged : Arrangement e t r start allotted)
  (hplain : ∀ low ∈ t.subtree start, (e.pass t).Plain low)

include hsame harranged hplain

omit hframes in
/-- The start of a pass has its measured size, if that is what it was given. -/
theorem Arrangement.measured_start (hmeasured : (e.pass t).Measured (start, allotted)) :
    ∃ v, r.get? start = some v ∧ (e.pass t).Measured (start, v.frame) := by
  have hstart : start ∈ t.subtree start := (mem_subtree_iff hwf).mpr .refl
  obtain ⟨v, hv, hframe⟩ := harranged.frame_start
  obtain ⟨u, _, hu, hcell, -⟩ := Pass.fitsIn_of_measure (p := e.pass t) hwf hvalid hm hepsilon
    (hplain start hstart) (fun low hlow => hplain low (mem_subtree_of_mem_below hwf hstart hlow))
    (hmeasured .zero)
  obtain ⟨frame, hu⟩ := hsame.get?_of_some hu
  obtain rfl := Option.some.inj (hv.symm.trans hu)
  have hsize : frame.size = allotted.size := (congrArg Rect.size hframe).trans hcell.clamp_natural
  refine ⟨_, hv, fun proposed => ?_⟩
  show ((e.pass t).measure start proposed).outcome = .ok frame.size
  rw [hsize]
  exact hmeasured proposed

include hr

/-- **One step down**: if a view has its measured size, so have its children, which end inside. -/
theorem Arrangement.measured_child {id : ViewId} (hid : id ∈ t.subtree start) {v : View Exact}
    (hv : r.get? id = some v) (hmeasured : (e.pass t).Measured (id, v.frame)) {child : ViewId}
    (hchild : child ∈ v.children) :
    ∃ w, r.get? child = some w ∧ (e.pass t).Measured (child, w.frame) ∧ w.EndsInside v := by
  have hshape : Unfolds t (t.children id) (t.below id) := unfolds_forest hwf _
  obtain ⟨v', placements, hv', hplacements, hids, hplaced⟩ := harranged.frames_children id hid
  obtain rfl := Option.some.inj (hv.symm.trans hv')
  obtain ⟨u, cells, hu, -, hcells, hfits⟩ := Pass.fitsIn_of_measure (p := e.pass t) hwf hvalid hm
    hepsilon (hplain id hid) (fun low hlow => hplain low (mem_subtree_of_mem_below hwf hid hlow))
    (hmeasured .zero)
  -- the children were placed as they would have been before any frame was written
  obtain ⟨v', hv', hplacements⟩ := Pass.childPlacements_eq_ok_iff.mp hplacements
  obtain rfl := Option.some.inj (hv.symm.trans hv')
  obtain ⟨frame, hframe⟩ := hsame.get?_of_some hu
  obtain rfl := Option.some.inj (hv.symm.trans hframe)
  have hbelow : (e.pass r).tree.below id = t.below id := hsame.below_eq hwf hr id
  rw [hbelow, ← Pass.placements_congr hframes hsame u.container u] at hplacements
  obtain ⟨cells', hcells', rfl⟩ := Pass.placements_eq_ok_iff.mp hplacements
  obtain rfl := Except.ok.inj (hcells.symm.trans hcells')
  -- the place of the child is that of one of the cells
  obtain ⟨place, hplace, rfl⟩ := List.mem_map.mp (hids ▸ hchild)
  obtain ⟨c, hc, hfit⟩ := hfits place hplace
  obtain ⟨frame', hw⟩ := hsame.get?_of_some ((Forest.cells_of_ok hshape hcells).2 c hc).1
  rw [← hfit.id_eq] at hw
  have hframe' := hplaced place hplace
  rw [hw] at hframe'
  obtain rfl := Option.some.inj hframe'
  refine ⟨_, hw, hfit.measured fun proposed => ?_, hfit.endsInside⟩
  exact Forest.measure_of_cells hwf hm hshape hcells hc proposed

/-- **Every view of the subtree has its measured size.** Induction down from the start. -/
theorem Arrangement.measured_within (hmeasured : (e.pass t).Measured (start, allotted))
    {low : ViewId} (hlow : t.Within low start) :
    ∃ v, r.get? low = some v ∧ (e.pass t).Measured (low, v.frame) := by
  induction hlow using ReflTransGen.head_induction_on with
  | refl =>
    exact Arrangement.measured_start hwf hvalid hm hepsilon hsame harranged hplain hmeasured
  | @head low mid hlink hwithin ih =>
    obtain ⟨v, hv, hmid⟩ := ih
    -- the parent lists its child, in the tree that is left as in the one before
    have hchild : low ∈ v.children := by
      rw [← children_of_get? hv, hsame.children_eq]
      exact hwf.mem_children_iff.mpr hlink
    obtain ⟨w, hw, hchild, -⟩ := Arrangement.measured_child hwf hvalid hm hepsilon hframes hr hsame
      harranged hplain ((mem_subtree_iff hwf).mpr hwithin) hv hmid hchild
    exact ⟨w, hw, hchild⟩

end

/-- **In any tree that operations lead to, measuring and arranging agree** without rounding,
whatever the weights along the stacks. Sizes measured do not depend on what is proposed. Where all
views of a subtree are plain and its start is arranged in a rectangle of its measured size, this
succeeds, every view of the subtree gets its own measured size, and all margins of children end
inside. -/
theorem measured_run (ops : List (Operation Exact)) (settings : Settings Exact)
    (hepsilon : Scalar.zero ≤ settings.epsilon) (start : ViewId)
    (hplain : ∀ low ∈ (empty.run ops).subtree start,
      (Engine.pass ⟨settings, .stored⟩ (empty.run ops)).Plain low) :
    let t := empty.run ops
    let e : Engine Exact := ⟨settings, .stored⟩
    (∀ low proposed proposed',
      (e.measure t low proposed).outcome = (e.measure t low proposed').outcome) ∧
    ∀ proposed size, (e.measure t start proposed).outcome = .ok size →
      ∀ allotted : Rect Exact, allotted.size = size →
        (e.arrange t start allotted).result.outcome = .ok () ∧
        ∀ low ∈ t.subtree start, ∃ v, (e.arrange t start allotted).tree.get? low = some v ∧
          (∀ proposed', (e.measure t low proposed').outcome = .ok v.frame.size) ∧
          ∀ child ∈ v.children, ∃ w,
            (e.arrange t start allotted).tree.get? child = some w ∧ w.EndsInside v := by
  intro t e
  have hwf : t.WellFormed := wellFormed_run ops
  have hvalid : t.ValidRecords := validRecords_run ops
  have hm : e.measurer.IgnoresProposals := Measurer.ignoresProposals_stored
  have hframes : e.measurer.IgnoresFrames := Measurer.ignoresFrames_stored
  have hmeasure (low : ViewId) (proposed proposed' : Size Exact) :
      (e.measure t low proposed).outcome = (e.measure t low proposed').outcome :=
    congrArg Logged.outcome (Pass.measure_eq_of_ignoresProposals hm low proposed proposed')
  refine ⟨hmeasure, fun proposed size hsize allotted hallotted => ?_⟩
  have hmeasured : (e.pass t).Measured (start, allotted) := by
    intro proposed'
    show (e.measure t start proposed').outcome = .ok allotted.size
    rw [hallotted, ← hsize]
    exact hmeasure start proposed' proposed
  have hok : (e.arrange t start allotted).result.outcome = .ok () := by
    rw [Engine.outcome_arrange]
    refine Forest.arrange_of_measured hwf hvalid hm hepsilon hframes (unfolds_forest hwf [start])
      (fun low hlow => hplain low ?_) rfl ?_ (.refl t)
    · rw [mem_subtree_iff hwf]
      obtain ⟨id, hid, hwithin⟩ := (mem_ids_forest_iff hwf).mp hlow
      exact List.mem_singleton.mp hid ▸ hwithin
    · intro place hplace
      obtain rfl := List.mem_singleton.mp hplace
      exact hmeasured
  have harranged := Engine.arrangement_of_ok hwf hvalid hframes (Scalar.not_lt_of_le hepsilon) hok
  have hafter : (e.arrange t start allotted).tree.WellFormed :=
    hwf.touched (touched_arrange e t start allotted)
  have hsame : t.SameButFrames (e.arrange t start allotted).tree :=
    Forest.sameButFrames_arrange (.refl t)
  refine ⟨hok, fun low hlow => ?_⟩
  obtain ⟨v, hv, hlow'⟩ := Arrangement.measured_within hwf hvalid hm hepsilon hframes hafter hsame
    harranged hplain hmeasured ((mem_subtree_iff hwf).mp hlow)
  refine ⟨v, hv, hlow', fun child hchild => ?_⟩
  obtain ⟨w, hw, -, hends⟩ := Arrangement.measured_child hwf hvalid hm hepsilon hframes hafter hsame
    harranged hplain hlow hv hlow' hchild
  exact ⟨w, hw, hends⟩

/-- A row of a view that stretches along it and an overlay, which holds a view at a distance from
its corner. -/
def rowWithOverlay : List (Operation Exact) :=
  let content : Size Exact := ⟨.finite 10, .finite 20⟩
  [.create .horizontal .zero, .create .overlay content, .create .overlay .zero,
    .create .overlay content, .insertBefore ⟨0, 1⟩ ⟨1, 1⟩ none, .insertBefore ⟨0, 1⟩ ⟨2, 1⟩ none,
    .insertBefore ⟨2, 1⟩ ⟨3, 1⟩ none, .write ⟨3, 1⟩ (.declaredOrigin ⟨.finite 1, .finite (-2)⟩),
    .edit ⟨1, 1⟩ [.stretchAlong .horizontal (.finite 1), .margins (.finite 3)],
    .edit ⟨0, 1⟩ [.spacing (.finite (1 / 2))]]

/-- A tolerance of a hundredth. -/
def centTolerance : Settings Exact := ⟨.finite (1 / 100), 32, false⟩

theorem plain_rowWithOverlay :
    ∀ low ∈ (empty.run rowWithOverlay).subtree ⟨0, 1⟩,
      (Engine.pass ⟨centTolerance, .stored⟩ (empty.run rowWithOverlay)).Plain low := by
  have hsubtree : (empty.run rowWithOverlay).subtree ⟨0, 1⟩ =
      [⟨0, 1⟩, ⟨1, 1⟩, ⟨2, 1⟩, ⟨3, 1⟩] := by decide +kernel
  have hrow : (empty.run rowWithOverlay).get? ⟨0, 1⟩ = some { View.new .horizontal .zero with
      constraints := { Constraints.standard with spacing := .both (.finite (1 / 2)) }
      children := [⟨1, 1⟩, ⟨2, 1⟩] } := by decide +kernel
  have hstretching : (empty.run rowWithOverlay).get? ⟨1, 1⟩ = some
      { View.new .overlay ⟨.finite 10, .finite 20⟩ with
        constraints := { Constraints.standard with
          stretch := ⟨.finite 1, .finite 0⟩, margins := .all (.finite 3) }
        parent := some ⟨0, 1⟩ } := by decide +kernel
  have hoverlay : (empty.run rowWithOverlay).get? ⟨2, 1⟩ = some { View.new .overlay .zero with
      parent := some ⟨0, 1⟩, children := [⟨3, 1⟩] } := by decide +kernel
  have hinner : (empty.run rowWithOverlay).get? ⟨3, 1⟩ = some
      { View.new .overlay ⟨.finite 10, .finite 20⟩ with
        declaredOrigin := ⟨.finite 1, .finite (-2)⟩, parent := some ⟨2, 1⟩ } := by decide +kernel
  have hsize (kind : Container) (id : ViewId) (proposed raw : Size Exact)
      (hzero : (Pass.childrenSize (Engine.pass ⟨centTolerance, .stored⟩ (empty.run rowWithOverlay))
        kind id .zero).outcome = .ok raw) :
      (Pass.childrenSize (Engine.pass ⟨centTolerance, .stored⟩ (empty.run rowWithOverlay))
        kind id proposed).outcome = .ok raw := by
    rw [Pass.childrenSize_eq_of_ignoresProposals Measurer.ignoresProposals_stored, hzero]
  rw [hsubtree]
  intro low hlow v hv hhas
  fin_cases hlow
  · obtain rfl := Option.some.inj (hv.symm.trans hrow)
    refine ⟨rfl, rfl, rfl, fun proposed raw hraw => ?_, fun child hchild w hw => ?_⟩
    · obtain rfl := Except.ok.inj (hraw.symm.trans (hsize .horizontal ⟨0, 1⟩ proposed
        ⟨.finite (55 / 2), .finite 26⟩ (by decide +kernel)))
      exact fun axis => by cases axis <;> decide +kernel
    · refine ⟨fun axis haxis => ?_, nofun⟩
      obtain rfl : .horizontal = axis := Option.some.inj haxis
      fin_cases hchild
      · obtain rfl := Option.some.inj (hw.symm.trans hstretching)
        exact ⟨by decide +kernel, by decide +kernel⟩
      · obtain rfl := Option.some.inj (hw.symm.trans hoverlay)
        exact ⟨by decide +kernel, by decide +kernel⟩
  · obtain rfl := Option.some.inj (hv.symm.trans hstretching)
    nomatch hhas
  · obtain rfl := Option.some.inj (hv.symm.trans hoverlay)
    refine ⟨rfl, rfl, rfl, fun proposed raw hraw => ?_, fun child hchild w hw => ?_⟩
    · obtain rfl := Except.ok.inj (hraw.symm.trans (hsize .overlay ⟨2, 1⟩ proposed
        ⟨.finite 11, .finite 18⟩ (by decide +kernel)))
      exact fun axis => by cases axis <;> decide +kernel
    · refine ⟨nofun, fun _ axis => ?_⟩
      fin_cases hchild
      obtain rfl := Option.some.inj (hw.symm.trans hinner)
      cases axis <;> exact ⟨⟨by decide +kernel, by decide +kernel⟩, by decide +kernel⟩
  · obtain rfl := Option.some.inj (hv.symm.trans hinner)
    nomatch hhas

theorem measured_rowWithOverlay :
    let t := empty.run rowWithOverlay
    let e : Engine Exact := ⟨centTolerance, .stored⟩
    let allotted : Rect Exact := ⟨.finite 5, .finite 5, .finite (55 / 2), .finite 26⟩
    (∀ low ∈ t.subtree ⟨0, 1⟩, (e.pass t).Plain low) ∧
      (e.measure t ⟨0, 1⟩ .zero).outcome = .ok allotted.size ∧
      (e.arrange t ⟨0, 1⟩ allotted).result.outcome = .ok () ∧
      ∀ low ∈ t.subtree ⟨0, 1⟩, ∃ v, (e.arrange t ⟨0, 1⟩ allotted).tree.get? low = some v ∧
        (∀ proposed', (e.measure t low proposed').outcome = .ok v.frame.size) ∧
        ∀ child ∈ v.children, ∃ w,
          (e.arrange t ⟨0, 1⟩ allotted).tree.get? child = some w ∧ w.EndsInside v := by
  have hmeasure : (Engine.measure ⟨centTolerance, .stored⟩ (empty.run rowWithOverlay) ⟨0, 1⟩
      .zero).outcome = .ok ⟨.finite (55 / 2), .finite 26⟩ := by decide +kernel
  refine ⟨plain_rowWithOverlay, hmeasure, ?_⟩
  exact (measured_run rowWithOverlay centTolerance (by decide +kernel) ⟨0, 1⟩
    plain_rowWithOverlay).2 .zero _ hmeasure
      ⟨.finite 5, .finite 5, .finite (55 / 2), .finite 26⟩ rfl

end BoxLayout
