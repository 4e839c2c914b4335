import Mathlib
import BoxLayout.Proofs.Layout.Frames
import BoxLayout.Proofs.Layout.Visits
import BoxLayout.Proofs.Scalar.Single

/-!
# Arranging is sound

Places are worked out for one size of the parent and written as frames after being brought within
bounds once more. In a tree with valid records that second step changes nothing, so a pass that
succeeds leaves every view of a subtree with the frames that its own frame asks for.

## The architecture

* **`Settled`** — the children of a view have the frames that the frame of the view asks for.
* **`Passed`** — what a pass over a shape leaves; `Passed.mono` says that it stays while frames are
  written elsewhere.
* **`Forest.passed_of_ok`** — a pass that succeeds settles all it visits, by induction on the shape.
* **`Arrangement`**, **`arrangement_of_ok`** — all of it for the subtree of a view, with what stays.
-/

namespace BoxLayout

open Relation ViewTree

variable {α : Type} [Scalar α]

/-! ## Trees after frames have been written -/

namespace ViewTree

variable {t r : ViewTree α}

/-- What one tree holds the other one holds with some frame. -/
theorem SameButFrames.get?_of_some (h : t.SameButFrames r) {id : ViewId} {v : View α}
    (hv : t.get? id = some v) : ∃ frame, r.get? id = some { v with frame } := by
  rcases h.get?_cases id with ⟨hnone, -⟩ | ⟨u, frame, hu, hr⟩
  · rw [hv] at hnone
    contradiction
  · obtain rfl := Option.some.inj (hv.symm.trans hu)
    exact ⟨frame, hr⟩

/-- Lists of children, parents and shapes are the same in trees that agree but for frames. -/
theorem SameButFrames.children_eq (h : t.SameButFrames r) (id : ViewId) :
    r.children id = t.children id := by
  unfold children
  rcases h.get?_cases id with ⟨ht, hr⟩ | ⟨v, frame, ht, hr⟩
  · rw [ht, hr]
  · rw [ht, hr]
    rfl

theorem SameButFrames.within_eq (h : t.SameButFrames r) : r.Within = t.Within := by
  have hparent (id : ViewId) : r.parent? id = t.parent? id := by
    unfold parent?
    rcases h.get?_cases id with ⟨ht, hr⟩ | ⟨v, frame, ht, hr⟩
    · rw [ht, hr]
    · rw [ht, hr]
      rfl
  have hchildOf : r.ChildOf = t.ChildOf := by
    funext child parent
    rw [ChildOf, ChildOf, hparent]
  unfold Within
  rw [hchildOf]

theorem SameButFrames.forest_eq (h : t.SameButFrames r) (ht : t.WellFormed) (hr : r.WellFormed)
    (ids : List ViewId) : r.forest ids = t.forest ids :=
  (unfolds_forest hr ids).unique ((unfolds_forest ht ids).congr h.children_eq)

theorem SameButFrames.below_eq (h : t.SameButFrames r) (ht : t.WellFormed) (hr : r.WellFormed)
    (id : ViewId) : r.below id = t.below id := by
  unfold below
  rw [h.children_eq]
  exact h.forest_eq ht hr _

end ViewTree

/-- Outside a shape, a pass over it leaves every view as it is. -/
theorem Forest.get?_arrange_of_notMem {e : Engine α} {f : Forest} {placements : List (Placement α)}
    {t : ViewTree α} {id : ViewId} (h : id ∉ f.ids) :
    (f.arrange e placements t).tree.get? id = t.get? id := by
  rw [f.tree_arrange]
  exact get?_setFrames_of_notMem fun hmem => h ((f.writes_sublist placements t).subset hmem)

/-! ## Settled views -/

/-- The view's frame has a size, and that keeps to the view's bounds. -/
def View.KeepsBounds (v : View α) : Prop :=
  v.frame.size.isExtent = true ∧ ∀ axis, v.constraints.min.along axis ≤ v.frame.size.along axis ∧
    v.frame.size.along axis ≤ v.constraints.max.along axis

/-- A tree holds a view whose frame keeps to its bounds, and the view's children have the frames that
their container gives them in it. The links are those of `t`. -/
def Settled (e : Engine α) (t r : ViewTree α) (id : ViewId) : Prop :=
  ∃ v placements, r.get? id = some v ∧ v.KeepsBounds ∧
    ((e.pass r).placements v.container v (t.below id) v.frame.size).outcome = .ok placements ∧
    placements.map Prod.fst = t.children id ∧
    ∀ place ∈ placements, ∃ w, r.get? place.1 = some w ∧ w.frame = place.2

/-- What a pass over a shape leaves: the first level in the places it was handed, each brought within
bounds, and every view of the shape settled. -/
structure Passed (e : Engine α) (t r : ViewTree α) (f : Forest) (placements : List (Placement α)) :
    Prop where
  same : t.SameButFrames r
  placed : ∀ place ∈ placements, place.2.size.isExtent = true ∧
    ∃ w, r.get? place.1 = some w ∧
      w.frame = .ofOriginSize place.2.origin (w.constraints.clamp place.2.size)
  settled : ∀ id ∈ f.ids, Settled e t r id

section

variable {e : Engine α} {t s r : ViewTree α} {f : Forest} {placements : List (Placement α)}

/-- What is settled stays so while frames of other views than it and its children are written. -/
theorem Settled.mono {id : ViewId} (h : Settled e t s id) (hm : e.measurer.IgnoresFrames)
    (hsame : s.SameButFrames r) (hid : r.get? id = s.get? id)
    (hchildren : ∀ child ∈ t.children id, r.get? child = s.get? child) : Settled e t r id := by
  obtain ⟨v, placements, hv, hkeeps, hplacements, hids, hframes⟩ := h
  have hcongr := Pass.placements_congr (e := e) hm hsame v.container v v.frame (t.below id)
    v.frame.size
  refine ⟨v, placements, hid.trans hv, hkeeps, hcongr.symm.trans hplacements, hids, ?_⟩
  intro place hplace
  obtain ⟨w, hw, hframe⟩ := hframes place hplace
  have hmem : place.1 ∈ t.children id := hids ▸ List.mem_map_of_mem hplace
  exact ⟨w, (hchildren place.1 hmem).trans hw, hframe⟩

/-- What a pass leaves stays so while frames are written outside the shape. -/
theorem Passed.mono (h : Passed e t s f placements)
    (hm : e.measurer.IgnoresFrames) (hf : Unfolds t (placements.map Prod.fst) f)
    (hsame : s.SameButFrames r) (hget : ∀ id ∈ f.ids, r.get? id = s.get? id) :
    Passed e t r f placements where
  same := h.same.trans hsame
  placed place hplace := by
    obtain ⟨hextent, w, hw, hframe⟩ := h.placed place hplace
    have hmem : place.1 ∈ f.ids := hf.subset_ids (List.mem_map_of_mem hplace)
    exact ⟨hextent, w, (hget place.1 hmem).trans hw, hframe⟩
  settled id hid := by
    refine (h.settled id hid).mono hm hsame (hget id hid) fun child hchild => ?_
    exact hget child (hf.mem_of_listed hchild hid)

variable [Scalar.Rounded α]

/-- A place whose size is admitted is left alone by the bounds. -/
theorem Constraints.ofOriginSize_clamp {c : Constraints α} {place : Rect α}
    (hsize : place.size.isExtent = true) (hadmits : c.Admits place.size) :
    Rect.ofOriginSize place.origin (c.clamp place.size) = place := by
  obtain ⟨hw, hh⟩ := Bool.and_eq_true_iff.mp hsize
  rw [Constraints.clamp_eq_self hadmits]
  · rfl
  · intro axis
    cases axis
    · exact Scalar.isNaN_of_isFinite (Scalar.isExtent_iff.mp hw).1
    · exact Scalar.isNaN_of_isFinite (Scalar.isExtent_iff.mp hh).1

/-- A frame that has been clamped by a valid record keeps to it. -/
theorem Constraints.Valid.keepsBounds {v : View α} (h : v.constraints.Valid) {allotted : Rect α}
    (hextent : allotted.size.isExtent = true) {origin : Point α}
    (hframe : v.frame = .ofOriginSize origin (v.constraints.clamp allotted.size)) :
    v.KeepsBounds := by
  obtain ⟨hw, hh⟩ := Bool.and_eq_true_iff.mp hextent
  have hsize : v.frame.size = v.constraints.clamp allotted.size := congrArg Rect.size hframe
  refine ⟨?_, fun axis => ?_⟩
  · rw [hsize]
    exact Bool.and_eq_true_iff.mpr ⟨h.isExtent_clampAlong hw, h.isExtent_clampAlong hh⟩
  · rw [hsize, Constraints.along_clamp]
    exact h.clampAlong_mem axis _

/-- Views that admit the places they are handed end up in them. -/
theorem Passed.frame_eq (h : Passed e t r f placements)
    (hadmits : ∀ place ∈ placements,
      ∃ w, t.get? place.1 = some w ∧ w.constraints.Admits place.2.size) :
    ∀ place ∈ placements, ∃ w, r.get? place.1 = some w ∧ w.frame = place.2 := by
  intro place hplace
  obtain ⟨hextent, w, hw, hframe⟩ := h.placed place hplace
  obtain ⟨u, hu, hadmits⟩ := hadmits place hplace
  obtain ⟨frame, hr⟩ := h.same.get?_of_some hu
  obtain rfl := Option.some.inj (hw.symm.trans hr)
  exact ⟨_, hw, hframe.trans (Constraints.ofOriginSize_clamp hextent hadmits)⟩

/-- A view with the frame of its visit is settled by the pass over its children. -/
theorem Passed.settled_parent (hvalid : t.ValidRecords) (hm : e.measurer.IgnoresFrames)
    (hepsilon : ¬ e.settings.epsilon < Scalar.zero) {id : ViewId} {visit : Visit α}
    {allotted : Rect α} (hwf : t.WellFormed) (h : Passed e t r (t.below id) visit.placements)
    (hvisit : ((e.pass t).visit id (t.below id) allotted).outcome = .ok visit)
    (hget : ∀ v, t.get? id = some v → r.get? id = some { v with frame := visit.frame }) :
    Settled e t r id := by
  obtain ⟨v, hv, hextent, hframe, hplacements⟩ := Pass.visit_eq_ok_iff.mp hvisit
  obtain ⟨hids, hadmits⟩ := Pass.placements_of_ok (p := e.pass t) hvalid hepsilon
    (unfolds_forest hwf _) hplacements
  have hkeeps : View.KeepsBounds { v with frame := visit.frame } :=
    Constraints.Valid.keepsBounds (hvalid id v hv) hextent hframe
  -- the finished tree asks for the same places as the one that was visited
  rw [Pass.placements_congr hm h.same v.container v visit.frame] at hplacements
  exact ⟨_, visit.placements, hget v hv, hkeeps, hplacements, hids, h.frame_eq hadmits⟩

/-- **A pass that succeeds settles all it visits.** Induction on the shape, over any tree `s` that
differs from `t` in frames only: a visit writes one frame, then come the children and the views after
them. -/
theorem Forest.passed_of_ok (hwf : t.WellFormed) (hvalid : t.ValidRecords)
    (hm : e.measurer.IgnoresFrames) (hepsilon : ¬ e.settings.epsilon < Scalar.zero)
    {ids : List ViewId} (hf : Unfolds t ids f) (hnodup : f.ids.Nodup)
    (hids : placements.map Prod.fst = ids) (hsame : t.SameButFrames s)
    (hok : (f.arrange e placements s).result.outcome = .ok ()) :
    Passed e t (f.arrange e placements s).tree f placements := by
  induction hf generalizing placements s with
  | nil =>
    obtain rfl := List.map_eq_nil_iff.mp hids
    exact ⟨hsame, fun _ h => absurd h List.not_mem_nil, fun _ h => absurd h List.not_mem_nil⟩
  | @cons id ids children rest hc hr ihc ihr =>
    obtain ⟨⟨first, allotted⟩, others, rfl, hfirst, hothers⟩ := List.map_eq_cons_iff.mp hids
    obtain rfl : id = first := hfirst.symm
    obtain ⟨visit, below, hvisit, hbelow, rfl, hrest, htree⟩ := Forest.arrange_of_ok hok
    rw [Forest.ids, List.nodup_cons, List.mem_append, not_or, List.nodup_append'] at hnodup
    obtain ⟨⟨hidc, hidr⟩, hnodupc, hnodupr, hdisjoint⟩ := hnodup
    rw [htree]
    -- the visit is that of `t`, where the shape and the records are known
    rw [← Pass.visit_congr hm hsame] at hvisit
    obtain ⟨v, hv, hextent, hframe, hplacements⟩ := Pass.visit_eq_ok_iff.mp hvisit
    obtain ⟨hfst, -⟩ := Pass.placements_of_ok (p := e.pass t) hvalid hepsilon hc hplacements
    -- the children in the tree with the visit's frame, then the rest in what they leave
    have hpassed := ihc hnodupc hfst (hsame.setFrame id visit.frame) hbelow
    set below := (children.arrange e visit.placements (s.setFrame id visit.frame)).tree with hbelow'
    have hlast := ihr hnodupr hothers hpassed.same hrest
    set after := (rest.arrange e others below).tree with hafter
    -- no view is met twice, so what was written on the way here stays
    have hkeep {other : ViewId} (h : other ∉ rest.ids) : after.get? other = below.get? other :=
      Forest.get?_arrange_of_notMem h
    have hchildren : Passed e t after children visit.placements :=
      hpassed.mono hm (hfst ▸ hc) (Forest.sameButFrames_arrange (.refl below))
        fun other hother => hkeep (hdisjoint hother)
    have hget : ∀ v, t.get? id = some v → after.get? id = some { v with frame := visit.frame } := by
      intro v hv
      obtain ⟨frame, hs⟩ := hsame.get?_of_some hv
      rw [hkeep hidr, hbelow', Forest.get?_arrange_of_notMem hidc, get?_setFrame, hs]
      simp
    refine ⟨hlast.same, fun place hplace => ?_, fun other hother => ?_⟩
    · -- the places of the first level: the view at hand, then those of the rest
      rcases List.mem_cons.mp hplace with rfl | hplace
      · exact ⟨hextent, _, hget v hv, hframe⟩
      · exact hlast.placed place hplace
    · rw [Forest.ids, List.mem_cons, List.mem_append] at hother
      rcases hother with rfl | hother | hother
      · -- the view itself is settled by the pass over its children
        obtain rfl : t.below other = children := (unfolds_forest hwf _).unique hc
        exact hchildren.settled_parent hvalid hm hepsilon hwf hvisit hget
      · exact hchildren.settled other hother
      · exact hlast.settled other hother

/-! ## The subtree of a view -/

/-- What the tree `r` holds once the subtree of a view of `t` has been arranged. -/
structure Arrangement (e : Engine α) (t r : ViewTree α) (start : ViewId) (allotted : Rect α) :
    Prop where
  /-- The start has the origin of its rectangle, and the size of it brought within bounds. -/
  frame_start : ∃ v, r.get? start = some v ∧
    v.frame = .ofOriginSize allotted.origin (v.constraints.clamp allotted.size)
  /-- The frames of a view's children are the places that its container works out for its frame. -/
  frames_children : ∀ id ∈ t.subtree start, ∃ v placements, r.get? id = some v ∧
    ((e.pass r).childPlacements v.container id v.frame.size).outcome = .ok placements ∧
    placements.map Prod.fst = v.children ∧
    ∀ place ∈ placements, (r.get? place.1).map View.frame = some place.2
  /-- Every frame has a size, and that keeps to the bounds of the view. -/
  keepsBounds : ∀ id ∈ t.subtree start, ∃ v, r.get? id = some v ∧ v.KeepsBounds
  /-- Nothing but frames changes, and none outside the subtree. -/
  get?_eq_or : ∀ id, r.get? id = t.get? id ∨
    id ∈ t.subtree start ∧ ∃ v frame, t.get? id = some v ∧ r.get? id = some { v with frame }
  root_eq : r.root = t.root

/-- A pass from a start leaves what a pass over the shape below it does. -/
theorem Engine.passed_of_ok (hwf : t.WellFormed) (hvalid : t.ValidRecords)
    (hm : e.measurer.IgnoresFrames) (hepsilon : ¬ e.settings.epsilon < Scalar.zero)
    {start : ViewId} {allotted : Rect α}
    (hok : (e.arrange t start allotted).result.outcome = .ok ()) :
    Passed e t (e.arrange t start allotted).tree (t.forest [start]) [(start, allotted)] := by
  obtain ⟨_, _, hpass⟩ := Arranged.andThen_eq_ok_iff.mp hok
  exact Forest.passed_of_ok hwf hvalid hm hepsilon (unfolds_forest hwf _)
    (nodup_ids_forest hwf (apart_singleton t start)) rfl (.refl t) hpass

/-- **Arranging a view is sound**, in any well-formed tree with valid records. -/
theorem Engine.arrangement_of_ok (hwf : t.WellFormed) (hvalid : t.ValidRecords)
    (hm : e.measurer.IgnoresFrames) (hepsilon : ¬ e.settings.epsilon < Scalar.zero)
    {start : ViewId} {allotted : Rect α}
    (hok : (e.arrange t start allotted).result.outcome = .ok ()) :
    Arrangement e t (e.arrange t start allotted).tree start allotted := by
  have htree : (e.arrange t start allotted).tree =
      ((t.forest [start]).arrange e [(start, allotted)] t).tree := rfl
  obtain ⟨hsame, hplaced, hsettled⟩ := Engine.passed_of_ok hwf hvalid hm hepsilon hok
  have hmem {id : ViewId} : id ∈ t.subtree start ↔ id ∈ (t.forest [start]).ids := by
    rw [mem_subtree_iff hwf, mem_ids_forest_singleton_iff hwf]
  have hafter : (e.arrange t start allotted).tree.WellFormed :=
    hwf.touched (touched_arrange e t start allotted)
  rw [htree] at hafter hsame hplaced hsettled ⊢
  set r := ((t.forest [start]).arrange e [(start, allotted)] t).tree with hr
  refine ⟨?_, fun id hid => ?_, fun id hid => ?_, fun id => ?_, ?_⟩
  · exact (hplaced _ List.mem_cons_self).2
  · obtain ⟨v, placements, hv, -, hplacements, hids, hframes⟩ := hsettled id (hmem.mp hid)
    refine ⟨v, placements, hv, ?_, ?_, fun place hplace => ?_⟩
    · -- the placements of the visit are those that the finished tree asks for
      rw [← hsame.below_eq hwf hafter] at hplacements
      exact Pass.childPlacements_eq_ok_iff.mpr ⟨v, hv, hplacements⟩
    · rw [hids, ← hsame.children_eq, children_of_get? hv]
    · obtain ⟨w, hw, hframe⟩ := hframes place hplace
      rw [hw, ← hframe]
      rfl
  · obtain ⟨v, _, hv, hkeeps, -⟩ := hsettled id (hmem.mp hid)
    exact ⟨v, hv, hkeeps⟩
  · -- outside the subtree no frame has been written
    by_cases hid : id ∈ t.subtree start
    · rcases hsame.get?_cases id with ⟨ht, hr⟩ | hview
      · exact Or.inl (hr.trans ht.symm)
      · exact Or.inr ⟨hid, hview⟩
    · exact Or.inl (Forest.get?_arrange_of_notMem fun h => hid (hmem.mpr h))
  · rw [hr, Forest.tree_arrange, root_setFrames]

end

/-- **In any tree that operations lead to, arranging a view is sound.** -/
theorem arrangement_run (ops : List (Operation Float32)) (e : Engine Float32)
    (hm : e.measurer.IgnoresFrames) (hepsilon : ¬ e.settings.epsilon < Scalar.zero)
    (start : ViewId) (allotted : Rect Float32)
    (hok : (e.arrange (empty.run ops) start allotted).result.outcome = .ok ()) :
    Arrangement e (empty.run ops) (e.arrange (empty.run ops) start allotted).tree start allotted :=
  Engine.arrangement_of_ok (wellFormed_run ops) (validRecords_run ops) hm hepsilon hok

/-- A row of two views, one of which stretches up to a bound. -/
def rowOfTwo : List (Operation Float32) :=
  let ten : Float32 := Float32.ofBits 0x41200000
  let content : Size Float32 := ⟨ten, ten⟩
  [.create .horizontal .zero, .create .overlay content, .create .overlay content,
    .insertBefore ⟨0, 1⟩ ⟨1, 1⟩ none, .insertBefore ⟨0, 1⟩ ⟨2, 1⟩ none,
    .edit ⟨2, 1⟩ [.stretching, .maxSize ⟨ten + ten, ten + ten⟩]]

theorem arrangement_rowOfTwo :
    let viewport : Rect Float32 := .ofOriginSize .zero ⟨Float32.ofBits 0x42C80000, 1⟩
    Arrangement ⟨.standard, .stored⟩ (empty.run rowOfTwo)
      (Engine.arrange ⟨.standard, .stored⟩ (empty.run rowOfTwo) ⟨0, 1⟩ viewport).tree ⟨0, 1⟩
      viewport :=
  arrangement_run rowOfTwo ⟨.standard, .stored⟩ Measurer.ignoresFrames_stored (by decide +kernel) _ _
    (by rfl)

end BoxLayout
