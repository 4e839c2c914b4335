import Mathlib
import BoxLayout.Proofs.Layout.Failure
import BoxLayout.Proofs.Layout.Soundness

/-!
# Children in a line

A stack moves a cursor along its axis and adds up margins, extents and spacings in an order of its
own, while the end of a frame is its start and its extent, added once. With rounding the two do not
agree. They still come in the right order, because every single addition keeps it, so the children of
a stack never overlap.

## The architecture

* **`Rect.stop`** — where a frame ends along an axis.
* **`Stack.cursor_le`** — one step of the cursor goes forward, and past the end of the child.
* **`Stack.pairwise_pack`**, **`Stack.pairwise_place`** — so no child of a run, and of a stack, starts
  before an earlier one has ended.
* **`Forest.placed_of_ok`**, **`Forest.visited_of_ok`** — every frame that a pass leaves was handed
  out by the visit of the parent. Unlike `Forest.passed_of_ok` this is said of the tree that the visit
  saw, so nothing is asked of the measurer; `Engine.places_of_ok` puts it for one view.
* **`View.Lined`**, **`lined_run`** — the result, for all stacks below the start.
-/

namespace BoxLayout

open ViewTree

variable {α : Type} [Scalar α]

/-! ## One frame -/

/-- Where a rectangle ends along an axis. -/
def Rect.stop (r : Rect α) : Axis → α
  | .horizontal => r.right
  | .vertical => r.bottom

@[simp] theorem Rect.stop_ofAxes (axis : Axis) (mainStart crossStart main cross : α) :
    (ofAxes axis mainStart crossStart main cross).stop axis = mainStart + main := by
  cases axis <;> rfl

namespace Stack

variable {axis : Axis} {container : View α} {bounds : Size α}

variable (axis bounds) in
/-- Without cells to size, the frame of a child is settled along the axis. -/
theorem exists_frame_eq (hcells : container.constraints.cells = .normal) (c : Cell α)
    (start main : α) : ∃ crossStart cross,
      frame axis container bounds c start main = .ofAxes axis start crossStart main cross := by
  unfold frame
  rw [hcells]
  exact ⟨_, _, rfl⟩

/-! ## The cursor -/

variable [Scalar.Rounded α]

/-- One step of the cursor: from a position over the leading margin to the start of a child, and from
there over all that the child takes. It passes the end of the child, however the sums are grouped. -/
theorem cursor_le {position leading main trailing spacing : α} (hposition : Scalar.zero ≤ position)
    (hleading : Scalar.zero ≤ leading) (hmain : Scalar.zero ≤ main)
    (htrailing : Scalar.zero ≤ trailing) (hspacing : Scalar.zero ≤ spacing) :
    position ≤ position + leading ∧
      position + leading + main ≤ position + leading + (main + trailing + spacing) ∧
      position + leading ≤ position + leading + (main + trailing + spacing) := by
  have hstart := Scalar.add_nonneg hposition hleading
  have hsum := Scalar.add_nonneg hmain htrailing
  have hle : main ≤ main + trailing + spacing :=
    Scalar.le_trans (Scalar.le_add_right hmain htrailing) (Scalar.le_add_right hsum hspacing)
  exact ⟨Scalar.le_add_right hposition hleading, Scalar.add_le_add_left hstart hmain hle,
    Scalar.le_add_right hstart (Scalar.add_nonneg hsum hspacing)⟩

/-- **The children of a packed run do not overlap**: none starts before the position that the run is
packed from, and none before an earlier one has ended. Induction on the run; the cursor is at or after
the end of every child that has been placed. -/
theorem pairwise_pack (hcells : container.constraints.cells = .normal)
    (hcontainer : container.constraints.Valid) {position : α} {shares : List (Cell α × α)}
    (hposition : Scalar.zero ≤ position) (hvalid : ∀ share ∈ shares, share.1.constraints.Valid)
    (hextent : ∀ p ∈ pack axis container bounds position shares, p.2.size.isExtent = true) :
    (∀ p ∈ pack axis container bounds position shares, position ≤ p.2.origin.along axis) ∧
      (pack axis container bounds position shares).Pairwise fun p q =>
        p.2.stop axis ≤ q.2.origin.along axis := by
  induction shares generalizing position with
  | nil => exact ⟨fun p hp => absurd hp List.not_mem_nil, List.Pairwise.nil⟩
  | cons share shares ih =>
    obtain ⟨c, main⟩ := share
    obtain ⟨hc, hvalid⟩ := List.forall_mem_cons.mp hvalid
    obtain ⟨hfirst, hextent⟩ := List.forall_mem_cons.mp hextent
    obtain ⟨crossStart, cross, hframe⟩ := exists_frame_eq axis bounds hcells c
      (position + c.margins.leading axis) main
    -- the share is the extent of a frame, which has been checked
    have hmain : Scalar.zero ≤ main := by
      have hsize := Size.isExtent_iff.mp hfirst axis
      rw [hframe, Rect.size_ofAxes, Size.along_ofAxes] at hsize
      exact (Scalar.isExtent_iff.mp hsize).2
    -- the record of a valid view has no negative lengths
    have hleading := (Scalar.isExtent_iff.mp (hc.leading_isExtent axis)).2
    have htrailing := (Scalar.isExtent_iff.mp (hc.trailing_isExtent axis)).2
    have hspacing := (Scalar.isExtent_iff.mp (hcontainer.spacing_isExtent axis)).2
    obtain ⟨hstart, hstop, hnext⟩ := cursor_le hposition hleading hmain htrailing hspacing
    -- all that follows starts at the moved cursor or behind it, which orders it after this cell too
    obtain ⟨hrest, hpairwise⟩ :=
      ih (Scalar.le_trans hposition (Scalar.le_trans hstart hnext)) hvalid hextent
    unfold pack
    dsimp only
    rw [hframe]
    refine ⟨List.forall_mem_cons.mpr ⟨?_, fun p hp => ?_⟩, List.Pairwise.cons (fun q hq => ?_) hpairwise⟩
    · rwa [Rect.along_origin_ofAxes]
    · exact Scalar.le_trans (Scalar.le_trans hstart hnext) (hrest p hp)
    · rw [Rect.stop_ofAxes]
      exact Scalar.le_trans hstop (hrest q hq)

variable (axis container) in
/-- The run starts no earlier than its container. -/
theorem zero_le_runStart (htwo : Scalar.isFinite (Scalar.two : α) = true) (settings : Settings α)
    (cells : List (Cell α)) (leftover : α) :
    Scalar.zero ≤ runStart settings axis container cells leftover := by
  have hzero := Scalar.le_refl (Scalar.zero_isNaN (α := α))
  -- free space is brought up to zero, and a NaN becomes zero as well
  have hfree (x : α) : Scalar.zero ≤ Scalar.max x Scalar.zero := by
    cases hnan : Scalar.isNaN x with
    | true => rwa [Scalar.max, hnan, if_pos rfl]
    | false => exact Scalar.le_max_right hnan Scalar.zero_isNaN
  unfold runStart Alignment.offset
  split_ifs
  · dsimp only
    split
    -- at the start and filling: no offset
    case h_1 | h_2 => exact hzero
    -- in the middle: half of what is free
    case h_3 => exact Scalar.half_nonneg htwo (hfree _)
    -- at the end: all of it
    case h_4 => exact hfree _
  · exact hzero

/-- The first child of a packed run leaves its leading margin free. -/
theorem leading_le_head_pack (hcells : container.constraints.cells = .normal) {position : α}
    {shares : List (Cell α × α)} (hposition : Scalar.zero ≤ position)
    (hvalid : ∀ share ∈ shares, share.1.constraints.Valid) :
    ∀ p ∈ (pack axis container bounds position shares).head?, ∃ share ∈ shares,
      share.1.id = p.1 ∧ share.1.margins.leading axis ≤ p.2.origin.along axis := by
  cases shares with
  | nil => nofun
  | cons share shares =>
    obtain ⟨c, main⟩ := share
    rintro p ⟨⟩
    refine ⟨_, List.mem_cons_self, rfl, ?_⟩
    obtain ⟨crossStart, cross, hframe⟩ := exists_frame_eq axis bounds hcells c
      (position + c.margins.leading axis) main
    have hleading := (hvalid _ List.mem_cons_self).leading_isExtent axis
    dsimp only
    rw [hframe, Rect.along_origin_ofAxes]
    exact Scalar.le_add_left hposition (Scalar.isExtent_iff.mp hleading).2

/-- **The children of a stack do not overlap**, and the first one leaves its leading margin free. -/
theorem pairwise_place (htwo : Scalar.isFinite (Scalar.two : α) = true) {settings : Settings α}
    {cells : List (Cell α)} (hcells : container.constraints.cells = .normal)
    (hcontainer : container.constraints.Valid) (hvalid : ∀ c ∈ cells, c.constraints.Valid)
    (hextent : ∀ p ∈ place settings axis container cells bounds, p.2.size.isExtent = true) :
    ((place settings axis container cells bounds).Pairwise fun p q =>
        p.2.stop axis ≤ q.2.origin.along axis) ∧
      ∀ p ∈ (place settings axis container cells bounds).head?, ∃ c ∈ cells,
        c.id = p.1 ∧ c.margins.leading axis ≤ p.2.origin.along axis := by
  have hstart := zero_le_runStart axis container htwo settings cells
    (distribution settings axis container cells bounds).leftover
  have hmem (share : Cell α × α)
      (hshare : share ∈ cells.zip (distribution settings axis container cells bounds).sizes) :
      share.1 ∈ cells := (List.of_mem_zip (a := share.1) (b := share.2) hshare).1
  have hshares := fun share hshare => hvalid _ (hmem share hshare)
  refine ⟨(pairwise_pack hcells hcontainer hstart hshares hextent).2, fun p hp => ?_⟩
  obtain ⟨share, hshare, hfirst⟩ := leading_le_head_pack hcells hstart hshares p hp
  exact ⟨share.1, hmem share hshare, hfirst⟩

end Stack

/-! ## The frames of a pass -/

section

variable {e : Engine α} {t s : ViewTree α} {f : Forest} {placements : List (Placement α)}

/-- A pass that succeeds writes the frame of the visit, then those of the children and of the views
after them. -/
theorem Forest.writes_of_ok {id other : ViewId} {children rest : Forest} {allotted : Rect α}
    {visit : Visit α} (hvisit : ((e.pass s).visit id children allotted).outcome = .ok visit)
    (hbelow : (children.arrange e visit.placements
      (s.setFrame id visit.frame)).result.outcome = .ok ()) :
    (Forest.view id children rest).writes e ((other, allotted) :: placements) s =
      (id, visit.frame) :: (children.writes e visit.placements (s.setFrame id visit.frame) ++
        rest.writes e placements
          (children.arrange e visit.placements (s.setFrame id visit.frame)).tree) := by
  rw [writes, hvisit]
  dsimp only
  rw [hbelow]

/-- Every view of the first level is written into the place it was handed, brought within bounds. -/
theorem Forest.placed_of_ok (hids : placements.map Prod.fst = f.tops) (hsame : t.SameButFrames s)
    (hok : (f.arrange e placements s).result.outcome = .ok ()) :
    ∀ place ∈ placements, place.2.size.isExtent = true ∧ ∃ v, t.get? place.1 = some v ∧
      (place.1, .ofOriginSize place.2.origin (v.constraints.clamp place.2.size)) ∈
        f.writes e placements s := by
  induction f generalizing placements s with
  | empty =>
    obtain rfl := List.map_eq_nil_iff.mp hids
    exact fun _ h => absurd h List.not_mem_nil
  | view id children rest _ ihr =>
    obtain ⟨⟨first, allotted⟩, others, rfl, hfirst, hothers⟩ := List.map_eq_cons_iff.mp hids
    obtain rfl : id = first := hfirst.symm
    obtain ⟨visit, below, hvisit, hbelow, rfl, hrest, -⟩ := Forest.arrange_of_ok hok
    have hlater := ihr hothers (Forest.sameButFrames_arrange (hsame.setFrame id visit.frame)) hrest
    rw [Forest.writes_of_ok hvisit hbelow]
    intro place hplace
    rcases List.mem_cons.mp hplace with rfl | hplace
    · obtain ⟨w, hw, hextent, hframe, -⟩ := Pass.visit_eq_ok_iff.mp hvisit
      -- the visit saw the view with some frame; `t` holds it with its own
      rcases hsame.get?_cases id with ⟨-, hs⟩ | ⟨v, frame, hv, hs⟩
      · exact absurd (hw.symm.trans hs) (Option.some_ne_none w)
      · obtain rfl := Option.some.inj (hw.symm.trans hs)
        exact ⟨hextent, v, hv, hframe ▸ List.mem_cons_self⟩
    · obtain ⟨hextent, v, hv, hmem⟩ := hlater place hplace
      exact ⟨hextent, v, hv, List.mem_cons_of_mem _ (List.mem_append_right _ hmem)⟩

/-- **A pass that succeeds visits every view of the shape**, in some tree `r` that differs in frames
only, and writes every child into the place that this visit gives it. Induction on the shape. -/
theorem Forest.visited_of_ok {ids : List ViewId} (hf : Unfolds t ids f)
    (hids : placements.map Prod.fst = ids) (hsame : t.SameButFrames s)
    (hok : (f.arrange e placements s).result.outcome = .ok ()) {id : ViewId} (hid : id ∈ f.ids) :
    ∃ (r : ViewTree α) (children : Forest) (allotted : Rect α) (visit : Visit α),
      t.SameButFrames r ∧ Unfolds t (t.children id) children ∧
        ((e.pass r).visit id children allotted).outcome = .ok visit ∧
        ∀ place ∈ visit.placements, place.2.size.isExtent = true ∧
          ∃ v, t.get? place.1 = some v ∧
            (place.1, .ofOriginSize place.2.origin (v.constraints.clamp place.2.size)) ∈
              f.writes e placements s := by
  induction hf generalizing placements s with
  | nil => nomatch hid
  | @cons top ids children rest hc hr ihc ihr =>
    obtain ⟨⟨first, allotted⟩, others, rfl, hfirst, hothers⟩ := List.map_eq_cons_iff.mp hids
    obtain rfl : top = first := hfirst.symm
    obtain ⟨visit, below, hvisit, hbelow, rfl, hrest, -⟩ := Forest.arrange_of_ok hok
    have hset := hsame.setFrame top visit.frame
    have hfst := Pass.map_fst_visit hvisit
    rw [Forest.writes_of_ok hvisit hbelow]
    rw [Forest.ids, List.mem_cons, List.mem_append] at hid
    -- the view itself, a view below it, or one of a later tree; each keeps its place in the writes
    rcases hid with rfl | hid | hid
    · refine ⟨s, children, allotted, visit, hsame, hc, hvisit, fun place hplace => ?_⟩
      obtain ⟨hextent, v, hv, hmem⟩ := Forest.placed_of_ok hfst hset hbelow place hplace
      exact ⟨hextent, v, hv, List.mem_cons_of_mem _ (List.mem_append_left _ hmem)⟩
    · obtain ⟨r, shape, rect, inner, hr, hshape, hinner, hmem⟩ :=
        ihc (hfst.trans hc.tops_eq) hset hbelow hid
      refine ⟨r, shape, rect, inner, hr, hshape, hinner, fun place hplace => ?_⟩
      obtain ⟨hextent, v, hv, hmem⟩ := hmem place hplace
      exact ⟨hextent, v, hv, List.mem_cons_of_mem _ (List.mem_append_left _ hmem)⟩
    · obtain ⟨r, shape, rect, inner, hr, hshape, hinner, hmem⟩ :=
        ihr hothers (Forest.sameButFrames_arrange hset) hrest hid
      refine ⟨r, shape, rect, inner, hr, hshape, hinner, fun place hplace => ?_⟩
      obtain ⟨hextent, v, hv, hmem⟩ := hmem place hplace
      exact ⟨hextent, v, hv, List.mem_cons_of_mem _ (List.mem_append_right _ hmem)⟩

/-- Frames are no part of a record. -/
theorem ViewTree.ValidRecords.sameButFrames (h : t.ValidRecords) (hsame : t.SameButFrames s) :
    s.ValidRecords := by
  intro id v hv
  rcases hsame.get?_cases id with ⟨-, hs⟩ | ⟨w, frame, hw, hs⟩
  · exact absurd (hv.symm.trans hs) (Option.some_ne_none v)
  · obtain rfl := Option.some.inj (hv.symm.trans hs)
    exact h id w hw

end

/-! ## Stacks below a view -/

/-- The children of a view stand in a line along an axis, in their order: the first one leaves its
leading margin free, and each has ended where a later one starts. -/
structure View.Lined (r : ViewTree α) (axis : Axis) (v : View α) : Prop where
  first : ∀ child ∈ v.children.head?, ∃ w, r.get? child = some w ∧
    w.margins.leading axis ≤ w.frame.origin.along axis
  pairwise : v.children.Pairwise fun c d => ∃ w x, r.get? c = some w ∧ r.get? d = some x ∧
    w.frame.stop axis ≤ x.frame.origin.along axis

section

variable [Scalar.Rounded α] {e : Engine α} {t : ViewTree α}

/-- After a pass that succeeds, the children of every view below the start have the places that its
container worked out, from children that were measured in some tree `s` on the way. -/
theorem Engine.places_of_ok (hwf : t.WellFormed) (hvalid : t.ValidRecords)
    (hepsilon : ¬ e.settings.epsilon < Scalar.zero) {start : ViewId} {allotted : Rect α}
    (hok : (e.arrange t start allotted).result.outcome = .ok ()) {id : ViewId}
    (hid : id ∈ t.subtree start) :
    ∃ (s : ViewTree α) (v : View α) (frame : Rect α) (cells : List (Cell α)) (bounds : Size α),
      s.ValidRecords ∧ s.get? id = some v ∧ (∀ c ∈ cells, s.get? c.id = some c.view) ∧
        (e.arrange t start allotted).tree.get? id = some { v with frame } ∧
        (v.container.place e.settings v cells bounds).map Prod.fst = v.children ∧
        ∀ place ∈ v.container.place e.settings v cells bounds, place.2.size.isExtent = true ∧
          ∃ w, s.get? place.1 = some w ∧
            (e.arrange t start allotted).tree.get? place.1 = some { w with frame := place.2 } := by
  obtain ⟨_, _, hpass⟩ := Arranged.andThen_eq_ok_iff.mp hok
  have hmem : id ∈ (t.forest [start]).ids :=
    (mem_ids_forest_singleton_iff hwf).mpr ((mem_subtree_iff hwf).mp hid)
  -- the visit of the parent, in the tree as it was then
  obtain ⟨s, children, rect, visit, hsame, hshape, hvisit, hwritten⟩ :=
    Forest.visited_of_ok (unfolds_forest hwf [start]) rfl (.refl t) hpass hmem
  obtain ⟨v, hv, -, -, hplacements⟩ := Pass.visit_eq_ok_iff.mp hvisit
  have hvalids := hvalid.sameButFrames hsame
  obtain ⟨hfst, hadmits⟩ := Pass.placements_of_ok (p := e.pass s) hvalids hepsilon
    (hshape.congr hsame.children_eq) hplacements
  obtain ⟨cells, hmeasured, hplaces⟩ := Pass.placements_eq_ok_iff.mp hplacements
  have hchildren : t.children id = v.children := by
    rw [← hsame.children_eq]
    exact children_of_get? hv
  -- nothing but frames changes from that tree to the last one
  have hafter : s.SameButFrames (e.arrange t start allotted).tree := by
    rw [Engine.tree_arrange]
    exact fun other => (hsame other).symm.trans (sameButFrames_setFrames t _ other)
  obtain ⟨frame, hlast⟩ := hafter.get?_of_some hv
  refine ⟨s, v, frame, cells, visit.frame.size, hvalids, hv,
    fun c hc => ((Forest.cells_eq_ok hmeasured).2 c hc).1, hlast, ?_, fun place hplace => ?_⟩
  · exact hplaces ▸ hfst.trans hchildren
  -- the child is written into its place and admits it, so that it ends up there
  have hplace : place ∈ visit.placements := hplaces ▸ hplace
  obtain ⟨hextent, u, hu, hmem⟩ := hwritten place hplace
  obtain ⟨w, hw, hadmits⟩ := hadmits place hplace
  obtain ⟨old, hs⟩ := hsame.get?_of_some hu
  obtain rfl := Option.some.inj (hw.symm.trans hs)
  rw [Constraints.ofOriginSize_clamp hextent hadmits] at hmem
  refine ⟨hextent, _, hw, ?_⟩
  rw [Engine.get?_arrange_of_mem hwf hmem, hu]
  rfl

/-- **Below a view that has been arranged, the children of every stack stand in a line**, unless the
stack sizes them itself. -/
theorem Engine.lined_of_ok (htwo : Scalar.isFinite (Scalar.two : α) = true) (hwf : t.WellFormed)
    (hvalid : t.ValidRecords) (hepsilon : ¬ e.settings.epsilon < Scalar.zero) {start : ViewId}
    {allotted : Rect α} (hok : (e.arrange t start allotted).result.outcome = .ok ())
    {id : ViewId} (hid : id ∈ t.subtree start) :
    ∃ v, (e.arrange t start allotted).tree.get? id = some v ∧ ∀ axis,
      v.container.axis? = some axis → v.constraints.cells = .normal →
        v.Lined (e.arrange t start allotted).tree axis := by
  obtain ⟨s, v, frame, cells, bounds, hvalids, hv, hviews, hlast, hfst, hplaces⟩ :=
    Engine.places_of_ok hwf hvalid hepsilon hok hid
  refine ⟨_, hlast, fun axis haxis (hcells : v.constraints.cells = .normal) => ?_⟩
  -- the container of the view is a stack along this axis
  have hstack : v.container.place e.settings v cells bounds =
      Stack.place e.settings axis v cells bounds := by
    unfold Container.place
    rw [show v.container.axis? = some axis from haxis]
  rw [hstack] at hfst hplaces
  obtain ⟨hpairwise, hfirst⟩ := Stack.pairwise_place htwo hcells (hvalids id v hv)
    (fun c hc => hvalids c.id c.view (hviews c hc)) (fun p hp => (hplaces p hp).1)
  refine ⟨fun child hchild => ?_, ?_⟩
  · -- the leading margin: the first place is that of the first child
    change child ∈ v.children.head? at hchild
    rw [← hfst, List.head?_map, Option.mem_map] at hchild
    obtain ⟨p, hp, rfl⟩ := hchild
    obtain ⟨c, hc, hid, hleading⟩ := hfirst p hp
    obtain ⟨-, w, hw, hget⟩ := hplaces p (List.mem_of_mem_head? hp)
    obtain rfl := Option.some.inj (hw.symm.trans (hid ▸ hviews c hc))
    exact ⟨_, hget, hleading⟩
  · -- the order: places and children are listed alike
    change v.children.Pairwise _
    rw [← hfst, List.pairwise_map]
    refine hpairwise.imp_of_mem fun {p q} hp hq hle => ?_
    obtain ⟨-, w, -, hw⟩ := hplaces p hp
    obtain ⟨-, x, -, hx⟩ := hplaces q hq
    exact ⟨_, _, hw, hx, hle⟩

end

/-- **The children of a stack never overlap**, in any tree that operations lead to and with any
measurer. -/
theorem lined_run (ops : List (Operation Float32)) (e : Engine Float32)
    (hepsilon : ¬ e.settings.epsilon < Scalar.zero) (start : ViewId) (allotted : Rect Float32)
    (hok : (e.arrange (empty.run ops) start allotted).result.outcome = .ok ()) :
    ∀ id ∈ (empty.run ops).subtree start,
      ∃ v, (e.arrange (empty.run ops) start allotted).tree.get? id = some v ∧ ∀ axis,
        v.container.axis? = some axis → v.constraints.cells = .normal →
          v.Lined (e.arrange (empty.run ops) start allotted).tree axis :=
  fun _ hid => Engine.lined_of_ok (by rfl) (wellFormed_run ops) (validRecords_run ops) hepsilon hok hid

theorem lined_rowOfTwo :
    let viewport : Rect Float32 := .ofOriginSize .zero ⟨Float32.ofBits 0x42C80000, 1⟩
    let after := (Engine.arrange ⟨.standard, .stored⟩ (empty.run rowOfTwo) ⟨0, 1⟩ viewport).tree
    ∃ v, after.get? ⟨0, 1⟩ = some v ∧ ∀ axis, v.container.axis? = some axis →
      v.constraints.cells = .normal → v.Lined after axis :=
  lined_run rowOfTwo ⟨.standard, .stored⟩ (by decide +kernel) _ _ (by rfl) ⟨0, 1⟩ (by decide +kernel)

end BoxLayout
