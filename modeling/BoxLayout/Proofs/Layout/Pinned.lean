import Mathlib
import BoxLayout.Proofs.Layout.Order
import BoxLayout.Proofs.ViewTree.Move

/-!
# Moves and overlays

An overlay puts a child where its declared origin and its margins say, and a move by hand declares an
origin that leads back to where the child was put. So a view that was moved stays there, through any
passes and any other changes. It also stays where it was along the axis that a move does not mention,
if that is where the overlay had it.

## The architecture

* **`Overlay.along_origin_frame`**, **`Overlay.along_origin_congr`** — the place of a child along one
  axis, and when it does not depend on the other.
* **`Forest.handed_of_mem_writes`** — every frame that a pass writes starts where a visit said, also if
  the pass fails later on; induction on the shape of the tree.
* **`Pass.exists_cell_of_visit`** — what the visit of an overlay says of a child.
* **`Engine.origin_of_mem_writes`**, **`Engine.origin_of_ok`** — in an overlay that does not size its
  children a child starts at its declared origin, inside its margins.
* **`shifted_run`** — what a move along one axis leaves, in the tree and in the next pass of the
  overlay, with **`raised_declaredLeaf`**, where the other axis is not left alone.
* **`pinned_run`** — a view stays where it was moved.
-/

namespace BoxLayout

open Relation ViewTree

variable {α : Type} [Scalar α]

/-! ## One child -/

/-- The alignment of a view inside a container along an axis. -/
def View.alignmentIn (v container : View α) (axis : Axis) : Alignment :=
  ((v.constraints.alignmentAlong axis).or (container.constraints.alignmentAlong axis)).getD .start

/-- A container that lays its children over each other places a child along one axis without regard to
the other one: nothing ties the extents of the child to each other, or else it sits at the start of its
cell anyway. -/
def View.PlacesApart (container v : View α) (axis : Axis) : Prop :=
  container.constraints.cells = .normal ∨ container.constraints.cells = .fill ∨
    v.alignmentIn container axis = .start ∨ v.alignmentIn container axis = .fill

namespace Overlay

variable {container : View α} {bounds : Size α} {c c' : Cell α} {axis : Axis}

variable (container bounds c axis) in
/-- Where a child of an overlay starts along an axis: at the origin of its cell, and aligned if the cell
gives its size. -/
theorem along_origin_frame : (frame container bounds c).origin.along axis =
    match container.constraints.cells.sizeInCell c.natural (cellSize bounds c) with
    | some size => (cellOrigin c).along axis + (c.alignment container axis).offset
        ((cellSize bounds c).along axis) (c.constraints.clampAlong axis (size.along axis))
    | none => (cellOrigin c).along axis := by
  unfold frame
  dsimp only
  cases container.constraints.cells.sizeInCell c.natural (cellSize bounds c) with
  | some size => cases axis <;> rfl
  | none => cases axis <;> rfl

/-- **The place of a child along an axis depends on what is declared along this axis only**, unless an
aspect ratio carries the other axis over and the alignment lets it show. -/
theorem along_origin_congr (hconstraints : c'.view.constraints = c.view.constraints)
    (hdeclared : c'.view.declaredOrigin.along axis = c.view.declaredOrigin.along axis)
    (h : container.PlacesApart c.view axis) :
    (frame container bounds c').origin.along axis = (frame container bounds c).origin.along axis := by
  have hmargins : c'.margins = c.margins := congrArg Constraints.margins hconstraints
  have horigin : (cellOrigin c').along axis = (cellOrigin c).along axis := by
    rw [along_cellOrigin, along_cellOrigin, hdeclared, hmargins]
  have hsize : (cellSize bounds c').along axis = (cellSize bounds c).along axis := by
    rw [along_cellSize, along_cellSize, horigin, hmargins]
  have halignment : c'.alignment container axis = c.alignment container axis := by
    unfold Cell.alignment Cell.constraints
    rw [hconstraints]
  rw [along_origin_frame, along_origin_frame]
  rcases h with hcells | hcells | hstart
  · -- not sized in its cell: the origin of the cell is all there is
    rw [hcells]
    exact horigin
  · rw [hcells]
    -- filling the cell: its extent along this axis depends on this axis only
    dsimp only [CellPositioning.sizeInCell]
    unfold Cell.constraints
    rw [horigin, hsize, halignment, hconstraints]
  · -- at the start nothing is added that depends on a size
    have hoffset (room extent : α) : (c.alignment container axis).offset room extent =
        Scalar.zero := by
      rcases hstart with hstart | hstart <;>
        rw [show c.alignment container axis = _ from hstart] <;> rfl
    cases hkind : container.constraints.cells <;> dsimp only [CellPositioning.sizeInCell]
    case normal => exact horigin
    all_goals rw [halignment, hoffset, hoffset, horigin]

end Overlay

/-! ## The frames of a pass -/

section

variable {e : Engine α} {t s : ViewTree α} {f : Forest} {placements : List (Placement α)}

/-- **Where a written frame starts.** A view of the first level starts where it is placed. Any other
one starts where the visit of its parent places it, in a tree that differs in frames only. -/
theorem Forest.handed_of_mem_writes {ids : List ViewId} (hf : Unfolds t ids f)
    (hids : placements.map Prod.fst = ids) (hsame : t.SameButFrames s) {low : ViewId}
    {frame : Rect α} (hmem : (low, frame) ∈ f.writes e placements s) :
    (∃ place, (low, place) ∈ placements ∧ frame.origin = place.origin) ∨
      ∃ top ∈ f.ids, ∃ (r : ViewTree α) (children : Forest) (allotted : Rect α) (visit : Visit α),
        t.SameButFrames r ∧ low ∈ t.children top ∧
          ((e.pass r).visit top children allotted).outcome = .ok visit ∧
          ∃ place, (low, place) ∈ visit.placements ∧ frame.origin = place.origin := by
  induction hf generalizing placements s with
  | nil => exact absurd hmem List.not_mem_nil
  | @cons top ids children rest hc hr ihc ihr =>
    obtain ⟨⟨first, allotted⟩, others, rfl, hfirst, hothers⟩ := List.map_eq_cons_iff.mp hids
    obtain rfl : top = first := hfirst.symm
    rw [Forest.writes] at hmem
    cases hvisit : ((e.pass s).visit top children allotted).outcome with
    | error error =>
      rw [hvisit] at hmem
      exact absurd hmem List.not_mem_nil
    | ok visit =>
      have hset := hsame.setFrame top visit.frame
      have htops := (Pass.map_fst_visit hvisit).trans hc.tops_eq
      rw [hvisit] at hmem
      -- the write is that of the view visited, of a view below it, or of a later tree
      rcases List.mem_cons.mp hmem with heq | hmem
      · obtain ⟨_, -, -, hframe, -⟩ := Pass.visit_eq_ok_iff.mp hvisit
        obtain ⟨rfl, rfl⟩ := Prod.mk.inj heq
        exact Or.inl ⟨allotted, List.mem_cons_self, by rw [hframe, Rect.origin_ofOriginSize]⟩
      rcases List.mem_append.mp hmem with hmem | hmem
      · right
        rcases ihc htops hset hmem with ⟨place, hplace, horigin⟩ | ⟨parent, hparent, h⟩
        · -- the first level below is what this visit places
          have hlow : low ∈ t.children top := htops ▸ List.mem_map_of_mem hplace
          exact ⟨top, List.mem_cons_self, s, children, allotted, visit, hsame, hlow, hvisit, place,
            hplace, horigin⟩
        · exact ⟨parent, List.mem_cons_of_mem _ (List.mem_append_left _ hparent), h⟩
      · cases hbelow : (children.arrange e visit.placements
            (s.setFrame top visit.frame)).result.outcome with
        | error error =>
          rw [hbelow] at hmem
          exact absurd hmem List.not_mem_nil
        | ok _ =>
          rw [hbelow] at hmem
          rcases ihr hothers (Forest.sameButFrames_arrange hset) hmem with
            ⟨place, hplace, horigin⟩ | ⟨parent, hparent, h⟩
          · exact Or.inl ⟨place, List.mem_cons_of_mem _ hplace, horigin⟩
          · exact Or.inr ⟨parent, List.mem_cons_of_mem _ (List.mem_append_right _ hparent), h⟩

/-- What the visit of an overlay decides about a child, as the tree holds it. -/
theorem Pass.exists_cell_of_visit {p : Pass α} {top : ViewId} {u : View α}
    (hu : p.tree.get? top = some u) (hkind : u.container = .overlay) {children : Forest}
    {allotted : Rect α} {visit : Visit α}
    (hvisit : (p.visit top children allotted).outcome = .ok visit) {child : ViewId}
    {place : Rect α} (hmem : (child, place) ∈ visit.placements) :
    ∃ c : Cell α, p.tree.get? child = some c.view ∧
      place = Overlay.frame u (u.constraints.clamp allotted.size) c := by
  obtain ⟨w, hw, -, hframe, hplacements⟩ := Pass.visit_eq_ok_iff.mp hvisit
  obtain rfl := Option.some.inj (hw.symm.trans hu)
  obtain ⟨cells, hcells, hplaces⟩ := Pass.placements_eq_ok_iff.mp hplacements
  have hoverlay : visit.placements =
      Overlay.place w cells (w.constraints.clamp allotted.size) := by
    rw [hplaces, hframe, Rect.size_ofOriginSize, Container.place, hkind]
    rfl
  rw [hoverlay] at hmem
  obtain ⟨c, hc, heq⟩ := List.mem_map.mp hmem
  obtain ⟨rfl, rfl⟩ := Prod.mk.inj heq
  exact ⟨c, ((Forest.cells_eq_ok hcells).2 c hc).1, rfl⟩

namespace Engine

variable {overlay child : ViewId} {u v : View α}

/-- An arrange of the overlay itself: the frame of a child comes from the visit of the overlay with the
rectangle that was asked for. -/
theorem exists_cell_of_mem_writes (hwf : t.WellFormed) (hu : t.get? overlay = some u)
    (hkind : u.container = .overlay) (hchild : t.ChildOf child overlay) {allotted frame : Rect α}
    (hmem : (child, frame) ∈ e.writes t overlay allotted) : ∃ c : Cell α,
      t.get? child = some c.view ∧
        frame.origin = (Overlay.frame u (u.constraints.clamp allotted.size) c).origin := by
  unfold writes at hmem
  rw [forest_cons hwf, Forest.writes] at hmem
  cases hvisit : ((e.pass t).visit overlay (t.below overlay) allotted).outcome with
  | error error =>
    rw [hvisit] at hmem
    exact absurd hmem List.not_mem_nil
  | ok visit =>
    have hf : Unfolds t (t.children overlay) (t.below overlay) := unfolds_forest hwf _
    have hids := (Pass.map_fst_visit hvisit).trans hf.tops_eq
    have hset := (SameButFrames.refl t).setFrame overlay visit.frame
    rw [hvisit] at hmem
    -- nothing comes after the overlay, and it is not its own child
    have hbelow : (child, frame) ∈ (t.below overlay).writes e visit.placements
        (t.setFrame overlay visit.frame) := by
      rcases List.mem_cons.mp hmem with heq | hmem
      · exact absurd (Prod.mk.inj heq).1.symm (hwf.ne_of_childOf hchild)
      rcases List.mem_append.mp hmem with hmem | hmem
      · exact hmem
      · split at hmem <;> exact absurd hmem List.not_mem_nil
    rcases Forest.handed_of_mem_writes hf hids hset hbelow with
      ⟨place, hplace, horigin⟩ | ⟨top, htop, r, -, -, -, -, hlow, -⟩
    · obtain ⟨c, hview, rfl⟩ := Pass.exists_cell_of_visit (p := e.pass t) hu hkind hvisit hplace
      exact ⟨c, hview, horigin⟩
    · -- written further down it would be the child of a view below the overlay, which is its parent
      obtain rfl := (hwf.childOf_of_mem hlow).unique hchild
      obtain ⟨start, hstart, hwithin⟩ := (mem_ids_forest_iff hwf).mp htop
      exact absurd (TransGen.tail' hwithin (hwf.childOf_of_mem hstart)) (hwf.acyclic top)

/-- **Where an overlay that does not size its children puts one**, in any pass over it that gets so
far: at its declared origin, inside its margins. -/
theorem origin_of_mem_writes (hwf : t.WellFormed) (hv : t.get? child = some v)
    (hparent : v.parent = some overlay) (hu : t.get? overlay = some u)
    (hkind : u.container = .overlay) (hcells : u.constraints.cells = .normal) {start : ViewId}
    (hwithin : t.Within overlay start) {allotted frame : Rect α}
    (hmem : (child, frame) ∈ e.writes t start allotted) (axis : Axis) :
    frame.origin.along axis = v.declaredOrigin.along axis + v.margins.leading axis := by
  have hlink : t.ChildOf child overlay := (parent?_of_get? hv).trans hparent
  rcases Forest.handed_of_mem_writes (unfolds_forest hwf [start]) rfl (.refl t) hmem with
    ⟨place, hplace, -⟩ | ⟨top, -, r, children, rect, visit, hsame, hlow, hvisit, place, hplace, horigin⟩
  · -- the start is above the child
    obtain ⟨rfl, -⟩ := Prod.mk.inj (List.mem_singleton.mp hplace)
    exact absurd (TransGen.head' hlink hwithin) (hwf.acyclic child)
  · obtain rfl := (hwf.childOf_of_mem hlow).unique hlink
    -- the visit saw both views with frames of their own; records and declared origins are as in `t`
    obtain ⟨framed, hframed⟩ := hsame.get?_of_some hu
    obtain ⟨c, hview, rfl⟩ := Pass.exists_cell_of_visit (p := e.pass r) hframed hkind hvisit hplace
    obtain ⟨kept, hkept⟩ := hsame.get?_of_some hv
    have hc : c.view = { v with frame := kept } := Option.some.inj (hview.symm.trans hkept)
    have hnormal : ({ u with frame := framed } : View α).constraints.cells = .normal := hcells
    rw [horigin, Overlay.along_origin_frame, hnormal]
    show (Overlay.cellOrigin c).along axis = _
    rw [Overlay.along_cellOrigin]
    show c.view.declaredOrigin.along axis + c.view.margins.leading axis = _
    rw [hc]
    rfl

/-- After a pass that succeeds, every view below the start has a frame that the pass wrote. -/
theorem exists_mem_writes_of_ok (hwf : t.WellFormed) {start low : ViewId} {v : View α}
    (hv : t.get? low = some v) (hwithin : t.Within low start) {allotted : Rect α}
    (hok : (e.arrange t start allotted).result.outcome = .ok ()) :
    ∃ frame, (low, frame) ∈ e.writes t start allotted ∧
      (e.arrange t start allotted).tree.get? low = some { v with frame } := by
  obtain ⟨_, _, hpass⟩ := Arranged.andThen_eq_ok_iff.mp hok
  have hids : (e.writes t start allotted).map Prod.fst = (t.forest [start]).ids :=
    Forest.map_fst_writes (unfolds_forest hwf [start]).tops_eq.symm hpass
  -- the pass has come to the end of the shape, so this view was on its way
  have hlow : low ∈ (e.writes t start allotted).map Prod.fst :=
    hids ▸ (mem_ids_forest_singleton_iff hwf).mpr hwithin
  obtain ⟨⟨low, frame⟩, hmem, rfl⟩ := List.mem_map.mp hlow
  refine ⟨frame, hmem, ?_⟩
  rw [get?_arrange_of_mem hwf hmem, hv]
  rfl

/-- **Where a child of such an overlay is after a pass that succeeds.** -/
theorem origin_of_ok (hwf : t.WellFormed) (hv : t.get? child = some v)
    (hparent : v.parent = some overlay) (hu : t.get? overlay = some u)
    (hkind : u.container = .overlay) (hcells : u.constraints.cells = .normal) {start : ViewId}
    (hwithin : t.Within overlay start) {allotted : Rect α}
    (hok : (e.arrange t start allotted).result.outcome = .ok ()) :
    ∃ w, (e.arrange t start allotted).tree.get? child = some w ∧ ∀ axis,
      w.frame.origin.along axis = v.declaredOrigin.along axis + v.margins.leading axis := by
  have hlink : t.ChildOf child overlay := (parent?_of_get? hv).trans hparent
  obtain ⟨frame, hmem, hget⟩ :=
    exists_mem_writes_of_ok hwf hv (ReflTransGen.head hlink hwithin) hok
  exact ⟨_, hget, origin_of_mem_writes hwf hv hparent hu hkind hcells hwithin hmem⟩

end Engine

end

/-! ## A move along one axis -/

/-- **What a move along one axis leaves**, in any tree that operations lead to and with any measurer.
Of the tree it changes the view only, and of the view the place along the axis and the declared origin,
which follows the frame along the other axis too. Where it does not change there by that, an overlay
goes on to place the view there as before, unless an aspect ratio ties the two axes. -/
theorem shifted_run (ops : List (Operation α)) {id : ViewId} {move : Move α} {axis : Axis}
    (haxis : move.axis? = some axis) {r : ViewTree α}
    (hok : (empty.run ops).moved id move = .ok r) :
    ∃ v w, (empty.run ops).get? id = some v ∧ r.get? id = some w ∧ v.Shifted axis w ∧
      r.root = (empty.run ops).root ∧
      (∀ other, other ≠ id → r.get? other = (empty.run ops).get? other) ∧
      ∀ (e : Engine α) (overlay : ViewId) (u : View α), v.parent = some overlay →
        (empty.run ops).get? overlay = some u → u.container = .overlay →
        ∀ allotted before after, (id, before) ∈ e.writes (empty.run ops) overlay allotted →
          (id, after) ∈ e.writes r overlay allotted →
          (u.constraints.cells = .normal →
            before.origin.along axis.cross =
              v.declaredOrigin.along axis.cross + v.margins.leading axis.cross ∧
            after.origin.along axis.cross = v.frame.origin.along axis.cross -
              v.margins.leading axis.cross + v.margins.leading axis.cross) ∧
          (w.declaredOrigin.along axis.cross = v.declaredOrigin.along axis.cross →
            u.PlacesApart v axis.cross →
              after.origin.along axis.cross = before.origin.along axis.cross) := by
  set t := empty.run ops with ht
  have hwf : t.WellFormed := wellFormed_run ops
  have hwf' : r.WellFormed := hwf.touched (touched_moved hok)
  obtain ⟨v, w, hv, hw, hshifted⟩ := shifted_of_moved haxis hok
  obtain ⟨hroot, hothers⟩ := others_of_moved (Move.places_of_axis? haxis) hok
  refine ⟨v, w, hv, hw, hshifted, hroot, hothers, ?_⟩
  intro e overlay u hparent hu hkind allotted before after hbefore hafter
  have hlink : t.ChildOf id overlay := (parent?_of_get? hv).trans hparent
  -- the overlay is another view than the one that was moved, so it is as before
  have hu' : r.get? overlay = some u := (hothers overlay (hwf.ne_of_childOf hlink)).trans hu
  have hparent' : w.parent = some overlay := by
    rw [hshifted.rest]
    exact hparent
  have hconstraints : w.constraints = v.constraints := by rw [hshifted.rest]
  refine ⟨fun hcells => ⟨?_, ?_⟩, fun hdeclared happart => ?_⟩
  · exact Engine.origin_of_mem_writes hwf hv hparent hu hkind hcells .refl hbefore axis.cross
  · have hmargins : w.margins = v.margins := congrArg Constraints.margins hconstraints
    rw [Engine.origin_of_mem_writes hwf' hw hparent' hu' hkind hcells .refl hafter axis.cross,
      hshifted.declared, hmargins]
  · -- both passes place the child as a cell of the overlay, in the same bounds
    obtain ⟨c, hc, horigin⟩ := Engine.exists_cell_of_mem_writes hwf hu hkind hlink hbefore
    obtain ⟨c', hc', horigin'⟩ := Engine.exists_cell_of_mem_writes hwf' hu' hkind
      ((parent?_of_get? hw).trans hparent') hafter
    obtain rfl := Option.some.inj (hv.symm.trans hc)
    obtain rfl := Option.some.inj (hw.symm.trans hc')
    rw [horigin, horigin']
    exact Overlay.along_origin_congr hconstraints hdeclared happart

/-- A page with a leaf that is declared in it. -/
def declaredLeaf : List (Operation Float32) :=
  [.create .overlay .zero, .create .horizontal ⟨10, 10⟩, .insertBefore ⟨0, 1⟩ ⟨1, 1⟩ none,
    .write ⟨1, 1⟩ (.declaredOrigin ⟨5, 20⟩)]

/-- Before a pass the frame of the leaf is still at the top, and a move to the right takes the declared
origin there. -/
theorem raised_declaredLeaf :
    let t := empty.run declaredLeaf
    let r := t.step (.move ⟨1, 1⟩ (.x 30))
    let arranged (s : ViewTree Float32) :=
      (Engine.arrange ⟨.standard, .stored⟩ s ⟨0, 1⟩ ⟨0, 0, 100, 100⟩).tree
    (t.get? ⟨1, 1⟩).map (fun v => v.declaredOrigin.y) = some 20 ∧
      (r.get? ⟨1, 1⟩).map (fun v => v.declaredOrigin.y) = some 0 ∧
      ((arranged t).get? ⟨1, 1⟩).map (fun v => v.frame.y) = some 20 ∧
      ((arranged r).get? ⟨1, 1⟩).map (fun v => v.frame.y) = some 0 := by
  decide +kernel

/-- After a pass the frame is where the leaf is declared. -/
theorem shifted_declaredLeaf :
    let e : Engine Float32 := ⟨.standard, .stored⟩
    let page : Rect Float32 := ⟨0, 0, 100, 100⟩
    let t := empty.run (declaredLeaf ++ [.arrange e ⟨0, 1⟩ page])
    ∃ r v w, t.moved ⟨1, 1⟩ (.x 30) = .ok r ∧ t.get? ⟨1, 1⟩ = some v ∧ r.get? ⟨1, 1⟩ = some w ∧
      v.Shifted .horizontal w ∧ w.declaredOrigin.y = v.declaredOrigin.y ∧
      ∃ before after, (⟨1, 1⟩, before) ∈ e.writes t ⟨0, 1⟩ page ∧
        (⟨1, 1⟩, after) ∈ e.writes r ⟨0, 1⟩ page ∧ after.y = before.y := by
  intro e page t
  obtain ⟨r, hr⟩ : ∃ r, t.moved ⟨1, 1⟩ (.x 30) = .ok r := by
    have hok : (t.moved ⟨1, 1⟩ (.x 30)).isOk = true := by decide +kernel
    cases hr : t.moved ⟨1, 1⟩ (.x 30) with
    | ok r => exact ⟨r, rfl⟩
    | error error =>
      rw [hr] at hok
      nomatch hok
  have hfound : ∀ v ∈ t.get? ⟨1, 1⟩, v.parent = some ⟨0, 1⟩ := by decide +kernel
  have hpage : ∀ u ∈ t.get? ⟨0, 1⟩, u.container = .overlay ∧ u.constraints.cells = .normal := by
    decide +kernel
  have hbefore : e.writes t ⟨0, 1⟩ page = [(⟨0, 1⟩, page), (⟨1, 1⟩, ⟨5, 20, 10, 10⟩)] := by
    decide +kernel
  have hafter : ∀ s ∈ (t.moved ⟨1, 1⟩ (.x 30)).toOption,
      e.writes s ⟨0, 1⟩ page = [(⟨0, 1⟩, page), (⟨1, 1⟩, ⟨30, 20, 10, 10⟩)] := by decide +kernel
  have hkept : ∀ s ∈ (t.moved ⟨1, 1⟩ (.x 30)).toOption, ∀ v ∈ t.get? ⟨1, 1⟩, ∀ w ∈ s.get? ⟨1, 1⟩,
      w.declaredOrigin.y = v.declaredOrigin.y := by decide +kernel
  rw [hr] at hafter hkept
  obtain ⟨v, w, hv, hw, hshifted, -, -, harranged⟩ :=
    shifted_run (declaredLeaf ++ [.arrange e ⟨0, 1⟩ page]) (show _ = some .horizontal from rfl) hr
  obtain ⟨u, hu⟩ := Option.isSome_iff_exists.mp
    (show (t.get? ⟨0, 1⟩).isSome = true by decide +kernel)
  have hdeclared := hkept r rfl v hv w hw
  have hfirst : (⟨1, 1⟩, ⟨5, 20, 10, 10⟩) ∈ e.writes t ⟨0, 1⟩ page := by
    rw [hbefore]
    exact List.mem_cons_of_mem _ List.mem_cons_self
  have hsecond : (⟨1, 1⟩, ⟨30, 20, 10, 10⟩) ∈ e.writes r ⟨0, 1⟩ page := by
    rw [hafter r rfl]
    exact List.mem_cons_of_mem _ List.mem_cons_self
  obtain ⟨-, hsame⟩ := harranged e ⟨0, 1⟩ u (hfound v hv) hu (hpage u hu).1 page _ _ hfirst hsecond
  exact ⟨r, v, w, hr, hv, hw, hshifted, hdeclared, _, _, hfirst, hsecond,
    hsame hdeclared (Or.inl (hpage u hu).2)⟩

/-- A page that keeps proportions, with a centered leaf that fills it. Half the width is left after a move to
the right, and with it half the height, so the leaf comes down, though it is declared as high as before. -/
example :
    let e : Engine Float32 := ⟨.standard, .stored⟩
    let page : Rect Float32 := ⟨0, 0, 100, 100⟩
    let t := empty.run [.create .overlay .zero, .create .horizontal ⟨10, 10⟩,
      .insertBefore ⟨0, 1⟩ ⟨1, 1⟩ none, .edit ⟨0, 1⟩ [.cells .fitWithAspectRatio],
      .edit ⟨1, 1⟩ [.vAlign .center], .arrange e ⟨0, 1⟩ page]
    let r := t.step (.move ⟨1, 1⟩ (.x 50))
    (t.get? ⟨1, 1⟩).map (fun v => v.declaredOrigin.y) = some 0 ∧
      (r.get? ⟨1, 1⟩).map (fun v => v.declaredOrigin.y) = some 0 ∧
      e.writes t ⟨0, 1⟩ page = [(⟨0, 1⟩, page), (⟨1, 1⟩, ⟨0, 0, 100, 100⟩)] ∧
      e.writes r ⟨0, 1⟩ page = [(⟨0, 1⟩, page), (⟨1, 1⟩, ⟨50, 25, 50, 50⟩)] := by
  decide +kernel

/-! ## A view that was moved -/

/-- What keeps a view where it was put: its margins, its declared origin and its parent, and what kind
of container the parent is. -/
structure ViewTree.Undisturbed (r s : ViewTree α) (child overlay : ViewId) : Prop where
  child : ∀ v, r.get? child = some v → ∃ w, s.get? child = some w ∧ w.margins = v.margins ∧
    w.declaredOrigin = v.declaredOrigin ∧ w.parent = v.parent
  overlay : ∀ v, r.get? overlay = some v → ∃ w, s.get? overlay = some w ∧
    w.container = v.container ∧ w.constraints.cells = v.constraints.cells

/-- A layout that succeeds is an arranging of the root that does. -/
theorem Engine.arrange_of_layout {e : Engine α} {t : ViewTree α} {viewport : Rect α}
    {natural : Size α} (hok : (e.layout t viewport).result.outcome = .ok natural) :
    ∃ root, t.root = some root ∧ (e.arrange t root viewport).result.outcome = .ok () ∧
      (e.layout t viewport).tree = (e.arrange t root viewport).tree := by
  unfold layout at hok ⊢
  cases hroot : t.root with
  | none =>
    rw [hroot] at hok
    nomatch hok
  | some root =>
    rw [hroot] at hok
    obtain ⟨measured, hmeasured, hok⟩ := Arranged.andThen_eq_ok_iff.mp hok
    obtain ⟨_, harranged, -⟩ := Arranged.andThen_eq_ok_iff.mp hok
    refine ⟨root, rfl, harranged, ?_⟩
    dsimp only
    rw [Arranged.tree_andThen hmeasured, Arranged.tree_andThen harranged]

/-- The margin that a move takes off the declared origin is the one that an overlay adds again. -/
theorem View.declaredOrigin_add_leading {v : View Exact} (hvalid : v.constraints.Valid)
    (p : Point Exact) (axis : Axis) :
    (v.moveTo p).declaredOrigin.along axis + v.margins.leading axis = p.along axis := by
  obtain ⟨leading, -, hleading⟩ := Exact.isExtent_iff.mp (hvalid.leading_isExtent axis)
  rw [View.declaredOrigin_moveTo, show v.margins.leading axis = .finite leading from hleading,
    Exact.sub_add_cancel]

/-- **A view stays where it was moved**, in any tree that operations lead to: every move that places a
child of an overlay succeeds, and every later pass over the overlay that succeeds puts the child there
again, whatever has been done to the tree in between. -/
theorem pinned_run (ops : List (Operation Exact)) {child overlay : ViewId} {v u : View Exact}
    (hv : (empty.run ops).get? child = some v) (hparent : v.parent = some overlay)
    (hu : (empty.run ops).get? overlay = some u) (hkind : u.container = .overlay)
    (hcells : u.constraints.cells = .normal) {move : Move Exact} (hplaces : move.places = true) :
    ∃ r w, (empty.run ops).moved child move = .ok r ∧ r.get? child = some w ∧
      w.frame.origin = move.corner v.frame u.frame.size ∧
      ∀ later : List (Operation Exact), r.Undisturbed (r.run later) child overlay →
        ∀ e : Engine Exact,
          (∀ start allotted, (r.run later).Within overlay start →
            (e.arrange (r.run later) start allotted).result.outcome = .ok () →
              ∃ x, (e.arrange (r.run later) start allotted).tree.get? child = some x ∧
                x.frame.origin = w.frame.origin) ∧
          (∀ root viewport natural, (r.run later).root = some root →
            (r.run later).Within overlay root →
              (e.layout (r.run later) viewport).result.outcome = .ok natural →
                ∃ x, (e.layout (r.run later) viewport).tree.get? child = some x ∧
                  x.frame.origin = w.frame.origin) := by
  set t := empty.run ops with ht
  have hwf : t.WellFormed := wellFormed_run ops
  have hvalid : v.constraints.Valid := validRecords_run ops child v hv
  have hroom : t.superviewSize child = .ok u.frame.size :=
    superviewSize_eq_ok_iff.mpr ⟨v, overlay, u, hv, hparent, hu, rfl⟩
  -- the view is there, and so is the parent whose size centering asks for
  have hmoved := moved_eq_ok hv hplaces fun _ => hroom
  set p := move.corner v.frame u.frame.size with hp
  set r := t.update child fun u => u.moveTo p with hr
  have hw : r.get? child = some (v.moveTo p) := get?_update_self hv _
  refine ⟨r, v.moveTo p, hmoved, hw, rfl, ?_⟩
  intro later hundisturbed e
  have hwf' : (r.run later).WellFormed := (hwf.touched (touched_moved hmoved)).run later
  have hlink : t.ChildOf child overlay := (parent?_of_get? hv).trans hparent
  have hu' : r.get? overlay = some u :=
    ((others_of_moved hplaces hmoved).2 overlay (hwf.ne_of_childOf hlink)).trans hu
  -- the two views as they are when the pass comes, whatever their frames are by then
  obtain ⟨y, hy, hymargins, hydeclared, hyparent⟩ := hundisturbed.child _ hw
  obtain ⟨z, hz, hzkind, hzcells⟩ := hundisturbed.overlay _ hu'
  have harrange (start : ViewId) (allotted : Rect Exact)
      (hwithin : (r.run later).Within overlay start)
      (hok : (e.arrange (r.run later) start allotted).result.outcome = .ok ()) :
      ∃ x, (e.arrange (r.run later) start allotted).tree.get? child = some x ∧
        x.frame.origin = p := by
    obtain ⟨x, hx, horigin⟩ := Engine.origin_of_ok hwf' hy (hyparent.trans hparent) hz
      (hzkind.trans hkind) (hzcells.trans hcells) hwithin hok
    -- declared origin and margin, put together again along each axis
    refine ⟨x, hx, Point.ext_along fun axis => ?_⟩
    rw [horigin axis, hydeclared, hymargins]
    exact View.declaredOrigin_add_leading hvalid p axis
  refine ⟨harrange, fun root viewport natural hroot hwithin hok => ?_⟩
  -- a layout is an arranging of the root
  obtain ⟨other, hother, harranged, htree⟩ := Engine.arrange_of_layout hok
  obtain rfl := Option.some.inj (hother.symm.trans hroot)
  rw [htree]
  exact harrange other viewport hwithin harranged

/-- A page with a leaf that has a margin. -/
def marginedLeaf : List (Operation Exact) :=
  [.create .overlay .zero, .create .horizontal ⟨.finite 12, .finite 12⟩,
    .insertBefore ⟨0, 1⟩ ⟨1, 1⟩ none, .edit ⟨1, 1⟩ [.margins (.finite 4)]]

theorem pinned_marginedLeaf :
    let e : Engine Exact := ⟨⟨.finite (1 / 100), 32, false⟩, .stored⟩
    let page : Rect Exact := ⟨.finite 0, .finite 0, .finite 100, .finite 100⟩
    let point : Point Exact := ⟨.finite 30, .finite 50⟩
    let later : List (Operation Exact) :=
      [.edit ⟨1, 1⟩ [.hAlign .right, .stretching], .arrange e ⟨0, 1⟩ .zero]
    ∃ r w x, (empty.run marginedLeaf).moved ⟨1, 1⟩ (.origin point) = .ok r ∧
      r.get? ⟨1, 1⟩ = some w ∧ w.frame.origin = point ∧
      (e.arrange (r.run later) ⟨0, 1⟩ page).tree.get? ⟨1, 1⟩ = some x ∧ x.frame.origin = point := by
  intro e page point later
  obtain ⟨v, hv⟩ : ∃ v, (empty.run marginedLeaf).get? ⟨1, 1⟩ = some v := ⟨_, rfl⟩
  obtain ⟨u, hu⟩ : ∃ u, (empty.run marginedLeaf).get? ⟨0, 1⟩ = some u := ⟨_, rfl⟩
  have hleaf : ∀ v ∈ (empty.run marginedLeaf).get? ⟨1, 1⟩, v.parent = some ⟨0, 1⟩ := by
    decide +kernel
  have hpage : ∀ u ∈ (empty.run marginedLeaf).get? ⟨0, 1⟩,
      u.container = .overlay ∧ u.constraints.cells = .normal := by decide +kernel
  have hplaces : (Move.origin point).places = true := rfl
  obtain ⟨r, w, hr, hw, horigin, hlater⟩ := pinned_run marginedLeaf hv (hleaf v hv) hu
    (hpage u hu).1 (hpage u hu).2 hplaces
  have hundisturbed : ∀ s ∈ ((empty.run marginedLeaf).moved ⟨1, 1⟩ (.origin point)).toOption,
      (∀ v ∈ s.get? ⟨1, 1⟩, ∃ w ∈ (s.run later).get? ⟨1, 1⟩, w.margins = v.margins ∧
        w.declaredOrigin = v.declaredOrigin ∧ w.parent = v.parent) ∧
      (∀ v ∈ s.get? ⟨0, 1⟩, ∃ w ∈ (s.run later).get? ⟨0, 1⟩,
        w.container = v.container ∧ w.constraints.cells = v.constraints.cells) ∧
      (e.arrange (s.run later) ⟨0, 1⟩ page).result.outcome = .ok () := by decide +kernel
  rw [hr] at hundisturbed
  obtain ⟨hchild, hoverlay, hok⟩ := hundisturbed r rfl
  obtain ⟨x, hx, hplace⟩ := (hlater later ⟨hchild, hoverlay⟩ e).1 ⟨0, 1⟩ page .refl hok
  exact ⟨r, w, x, hr, hw, horigin, hx, hplace.trans horigin⟩

end BoxLayout
