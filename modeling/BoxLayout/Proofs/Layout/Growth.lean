import Mathlib
import BoxLayout.Proofs.Layout.Natural
import BoxLayout.Proofs.Layout.Visits
import BoxLayout.Proofs.Scalar.Growth
import BoxLayout.Proofs.Scalar.Single

/-!
# More asked for is more granted

Two trees of one shape are compared, of which the second one has larger content, larger bounds, wider
margins and so on. All rules for natural sizes keep that order, the packing of a stack, the reach of
an overlay and the bounds of a view, so no size that is measured in the second tree is smaller than in
the first. The order survives rounding and overflow, and the sizes that are proposed have no part in
it.

## The architecture

* **`View.AtMost`**, **`ViewTree.GrowsTo`** — a view that asks for no more than another one, and a tree
  whose views all do, matched with the views of another tree.
* **`Cell.Grows`** — what a container reads of a measured child.
* **`Stack.growsBeyond_naturalSize`**, **`Overlay.grows_naturalSize`** — the rules of the containers.
* **`Pass.GrowsTo.naturalSize`** — a view, once its children have been measured.
* **`Forest.grows_cells`** — all views, by induction on the shape that both trees have.
* **`growth_run`** — the result, for trees that operations lead to.
-/

namespace BoxLayout

open ViewTree

variable {α : Type} [Scalar α]

/-! ## What grows -/

/-- A record that asks for no more than another one does. -/
@[mk_iff]
structure Constraints.AtMost (c c' : Constraints α) : Prop where
  ignoreNatural : c.ignoreNatural = c'.ignoreNatural
  min : ∀ axis, c.min.along axis ≤ c'.min.along axis
  max : ∀ axis, c.max.along axis ≤ c'.max.along axis
  adjustment : ∀ axis, c.adjustment.along axis ≤ c'.adjustment.along axis
  margins : ∀ side, c.margins.get side ≤ c'.margins.get side
  spacing : ∀ axis, c.spacing.along axis ≤ c'.spacing.along axis

/-- A view that asks for no more than another one does, with the same container. -/
@[mk_iff]
structure View.AtMost (v v' : View α) : Prop where
  container : v.container = v'.container
  constraints : v.constraints.AtMost v'.constraints
  contentSize : ∀ axis, v.contentSize.along axis ≤ v'.contentSize.along axis
  declaredOrigin : ∀ axis, v.declaredOrigin.along axis ≤ v'.declaredOrigin.along axis

/-- The content of a view has a size, and its declared origin is a pair of numbers. -/
@[mk_iff]
structure View.Sized (v : View α) : Prop where
  content_isExtent : v.contentSize.isExtent = true
  origin_isFinite : ∀ axis, Scalar.isFinite (v.declaredOrigin.along axis) = true

/-- A view of one tree asks for no more than a view of another one, and their children are matched in
order. -/
@[mk_iff]
structure View.GrowsTo (v v' : View α) (R : ViewId → ViewId → Prop) : Prop where
  atMost : v.AtMost v'
  sized : v.Sized
  sized' : v'.Sized
  children : List.Forall₂ R v.children v'.children

/-- Views that are matched are there, and ask for no less in the second tree. -/
def ViewTree.GrowsTo (t t' : ViewTree α) (R : ViewId → ViewId → Prop) : Prop :=
  ∀ id id', R id id' → ∃ v v', t.get? id = some v ∧ t'.get? id' = some v' ∧ v.GrowsTo v' R

/-- Two passes that measure the content kept in the views, over trees with valid records of which the
first grows to the second. -/
structure Pass.GrowsTo (p p' : Pass α) (R : ViewId → ViewId → Prop) : Prop where
  stored : p.measurer = .stored
  stored' : p'.measurer = .stored
  valid : p.tree.ValidRecords
  valid' : p'.tree.ValidRecords
  tree : p.tree.GrowsTo p'.tree R

/-- A measured child that takes up no less in the second run, and begins no earlier there. -/
structure Cell.Grows (c c' : Cell α) : Prop where
  outer : ∀ axis, Scalar.Grows (c.natural.along axis + c.margins.along axis)
    (c'.natural.along axis + c'.margins.along axis)
  origin : ∀ axis, c.view.declaredOrigin.along axis ≤ c'.view.declaredOrigin.along axis
  origin_isFinite : ∀ axis, Scalar.isFinite (c.view.declaredOrigin.along axis) = true ∧
    Scalar.isFinite (c'.view.declaredOrigin.along axis) = true

/-! For two given views all of this can be computed. -/

instance (c c' : Constraints α) : Decidable (c.AtMost c') :=
  decidable_of_iff _ (c.atMost_iff c').symm

instance (v v' : View α) : Decidable (v.AtMost v') := decidable_of_iff _ (v.atMost_iff v').symm

instance (v : View α) : Decidable v.Sized := decidable_of_iff _ v.sized_iff.symm

instance (v v' : View α) (R : ViewId → ViewId → Prop) [DecidableRel R] : Decidable (v.GrowsTo v' R) :=
  decidable_of_iff _ (v.growsTo_iff v' R).symm

variable [Scalar.Rounded α]

/-! ## Containers -/

section

variable {v v' : View α} {cells cells' : List (Cell α)}

theorem Stack.growsBeyond_naturalSize (hcount : ∀ n, Scalar.zero ≤ (Scalar.ofCount n : α))
    (hvalid : v.constraints.Valid) (hvalid' : v'.constraints.Valid)
    (hle : v.constraints.AtMost v'.constraints) (hcells : List.Forall₂ Cell.Grows cells cells')
    (main axis : Axis) : Scalar.GrowsBeyond ((naturalSize main v cells).along axis)
      ((naturalSize main v' cells').along axis) := by
  have hextents (axis : Axis) : List.Forall₂ Scalar.Grows
      (cells.map fun c => c.natural.along axis + c.margins.along axis)
      (cells'.map fun c => c.natural.along axis + c.margins.along axis) :=
    List.rel_map (fun _ _ h => h.outer axis) hcells
  unfold naturalSize gaps
  dsimp only
  rcases main.eq_or_eq_cross axis with rfl | rfl
  · -- the two stacks have as many gaps, and only the number of gaps can be infinite
    rw [Size.along_ofAxes, Size.along_ofAxes, hcells.length_eq]
    refine Scalar.GrowsBeyond.add (Or.inl (Scalar.grows_sum (hextents _))) ?_
    exact Scalar.Grows.mul_count (hcount _) (hvalid.spacing_isExtent _)
      (hvalid'.spacing_isExtent _) (hle.spacing _)
  · -- across the axis the widest child counts
    rw [Size.along_cross_ofAxes, Size.along_cross_ofAxes]
    exact Or.inl (Scalar.grows_foldl_max ((hextents _).imp fun _ _ h => h.le)
      (Scalar.grows_self (Scalar.le_refl Scalar.zero_isNaN)))

theorem Overlay.grows_naturalSize (hcells : List.Forall₂ Cell.Grows cells cells') (axis : Axis) :
    Scalar.Grows ((naturalSize cells).along axis) ((naturalSize cells').along axis) := by
  rw [along_naturalSize, along_naturalSize]
  refine Scalar.grows_foldl_max (List.rel_map (fun c c' h => ?_) hcells)
    (Scalar.grows_self (Scalar.le_refl Scalar.zero_isNaN))
  -- a child may begin left of the overlay, so its far end need not be a length
  exact Scalar.add_le_add_of_isFinite (h.origin_isFinite axis).1 (h.origin_isFinite axis).2
    (h.origin axis) (h.outer axis).le

/-- Whatever the container, children that grow make it grow. -/
theorem Container.growsBeyond_naturalSize (hcount : ∀ n, Scalar.zero ≤ (Scalar.ofCount n : α))
    (hvalid : v.constraints.Valid) (hvalid' : v'.constraints.Valid)
    (hle : v.constraints.AtMost v'.constraints) (hcells : List.Forall₂ Cell.Grows cells cells')
    (kind : Container) (axis : Axis) : Scalar.GrowsBeyond ((kind.naturalSize v cells).along axis)
      ((kind.naturalSize v' cells').along axis) := by
  unfold naturalSize
  cases kind.axis? with
  | some main => exact Stack.growsBeyond_naturalSize hcount hvalid hvalid' hle hcells main axis
  | none => exact Or.inl (Overlay.grows_naturalSize hcells axis)

end

/-! ## Views -/

/-- Bounds that grow keep sizes growing, and take away what was left open. -/
theorem Constraints.AtMost.clamp {c c' : Constraints α} (h : c.AtMost c') (hvalid : c.Valid)
    {raw raw' : Size α}
    (hraw : ∀ axis, Scalar.GrowsBeyond (raw.along axis) (raw'.along axis)) (axis : Axis) :
    Scalar.Grows ((c.clamp (raw + c.adjustment)).along axis)
      ((c'.clamp (raw' + c'.adjustment)).along axis) := by
  -- an adjustment is an extent and adds to what is there
  have hadjusted : Scalar.GrowsBeyond ((raw + c.adjustment).along axis)
      ((raw' + c'.adjustment).along axis) := by
    rw [Size.along_add, Size.along_add]
    exact (hraw axis).add (Or.inl (Scalar.grows_of_isExtent (hvalid.adjustment_isExtent axis)
      (h.adjustment axis)))
  rw [along_clamp, along_clamp]
  exact ⟨Scalar.le_trans (hvalid.zero_le_min axis) (hvalid.clampAlong_mem axis _).1,
    hadjusted.clamp (h.min axis) (h.max axis) (hvalid.min_le_max axis)⟩

/-- Margins that grow side by side grow along each axis. -/
theorem Constraints.AtMost.margins_along {c c' : Constraints α} (h : c.AtMost c') (hvalid : c.Valid)
    (axis : Axis) : Scalar.Grows (c.margins.along axis) (c'.margins.along axis) := by
  cases axis with
  | horizontal =>
    exact (Scalar.grows_of_isExtent (hvalid.margin_isExtent .left) (h.margins .left)).add
      (Scalar.grows_of_isExtent (hvalid.margin_isExtent .right) (h.margins .right))
  | vertical =>
    exact (Scalar.grows_of_isExtent (hvalid.margin_isExtent .top) (h.margins .top)).add
      (Scalar.grows_of_isExtent (hvalid.margin_isExtent .bottom) (h.margins .bottom))

section

variable {p p' : Pass α} {R : ViewId → ViewId → Prop}
  (hcount : ∀ n, Scalar.zero ≤ (Scalar.ofCount n : α))

include hcount

/-- What a view asks for before its bounds are applied. One case for each thing that decides it: the
view's own flag, its children, its content. -/
theorem Pass.GrowsTo.rawSize (h : p.GrowsTo p' R) (id id' : ViewId) {v v' : View α}
    (hvalid : v.constraints.Valid) (hvalid' : v'.constraints.Valid) (hview : v.GrowsTo v' R)
    {mc mc' : Size α → Logged α (List (Cell α))} {proposed proposed' : Size α}
    (hcells : ∃ cells cells', (mc proposed).outcome = .ok cells ∧
      (mc' proposed').outcome = .ok cells' ∧ List.Forall₂ Cell.Grows cells cells') :
    ∃ raw raw', (p.rawSize id v mc proposed).outcome = .ok raw ∧
      (p'.rawSize id' v' mc' proposed').outcome = .ok raw' ∧
      ∀ axis, Scalar.GrowsBeyond (raw.along axis) (raw'.along axis) := by
  have hignores := hview.atMost.constraints.ignoreNatural
  -- matched lists of children are of one length, so both are empty or neither is
  have hchildren : v.hasChildren = v'.hasChildren := by
    have hR := hview.children
    unfold View.hasChildren
    generalize v.children = ids, v'.children = ids' at hR
    cases hR <;> rfl
  -- both views take the same one of the three ways to a raw size
  cases hignore : v.constraints.ignoreNatural with
  | true =>
    rw [hignore] at hignores
    refine ⟨_, _, rawSize_of_ignored hignore, rawSize_of_ignored hignores.symm,
      fun axis => Or.inl ?_⟩
    rw [Size.along_zero]
    exact Scalar.grows_self (Scalar.le_refl Scalar.zero_isNaN)
  | false =>
    rw [hignore] at hignores
    cases hhas : v.hasChildren with
    | true =>
      rw [hhas] at hchildren
      obtain ⟨cells, cells', hok, hok', hgrows⟩ := hcells
      refine ⟨_, _, (rawSize_eq_ok_iff_of_children hignore hhas).mpr ⟨cells, hok, rfl⟩,
        (rawSize_eq_ok_iff_of_children hignores.symm hchildren.symm).mpr ⟨cells', hok', rfl⟩, ?_⟩
      rw [hview.atMost.container]
      exact Container.growsBeyond_naturalSize hcount hvalid hvalid' hview.atMost.constraints hgrows _
    | false =>
      rw [hhas] at hchildren
      have hcontent := hview.sized.content_isExtent
      -- content, which has a size in both trees
      refine ⟨v.contentSize, v'.contentSize, ?_, ?_, fun axis => Or.inl ?_⟩
      · rw [rawSize_of_content h.stored hignore hhas, if_pos hcontent]
      · rw [rawSize_of_content h.stored' hignores.symm hchildren.symm,
          if_pos hview.sized'.content_isExtent]
      · exact Scalar.grows_of_isExtent (Size.isExtent_iff.mp hcontent axis)
          (hview.atMost.contentSize axis)

/-- **A view grows if its children do.** It is measured in both runs. -/
theorem Pass.GrowsTo.naturalSize (h : p.GrowsTo p' R) {id id' : ViewId} {v v' : View α}
    (hv : p.tree.get? id = some v) (hv' : p'.tree.get? id' = some v') (hview : v.GrowsTo v' R)
    {mc mc' : Size α → Logged α (List (Cell α))} {proposed proposed' : Size α}
    (hcells : ∃ cells cells', (mc proposed).outcome = .ok cells ∧
      (mc' proposed').outcome = .ok cells' ∧ List.Forall₂ Cell.Grows cells cells') :
    ∃ natural natural', (p.naturalSize id v mc proposed).outcome = .ok natural ∧
      (p'.naturalSize id' v' mc' proposed').outcome = .ok natural' ∧
      ∀ axis, Scalar.Grows (natural.along axis) (natural'.along axis) := by
  have hvalid := h.valid id v hv
  obtain ⟨raw, raw', hok, hok', hgrows⟩ :=
    h.rawSize hcount id id' hvalid (h.valid' id' v' hv') hview hcells
  exact ⟨_, _, naturalSize_eq_ok_iff.mpr ⟨raw, hok, rfl⟩,
    naturalSize_eq_ok_iff.mpr ⟨raw', hok', rfl⟩, hview.atMost.constraints.clamp hvalid hgrows⟩

/-- **All views of a shape grow**, and are measured in both runs. Induction on the shape that both
trees have. -/
theorem Forest.grows_cells (h : p.GrowsTo p' R) {ids ids' : List ViewId} {f f' : Forest}
    (hf : Unfolds p.tree ids f) (hf' : Unfolds p'.tree ids' f') (hids : List.Forall₂ R ids ids')
    (proposed proposed' : Size α) : ∃ cells cells', (f.cells p proposed).outcome = .ok cells ∧
      (f'.cells p' proposed').outcome = .ok cells' ∧ List.Forall₂ Cell.Grows cells cells' := by
  induction hf generalizing ids' f' proposed proposed' with
  | nil =>
    cases hids
    cases hf'
    exact ⟨[], [], rfl, rfl, .nil⟩
  | @cons id ids children rest _ _ ihc ihr =>
    cases hids with
    | @cons _ id' _ ids' hid hids =>
      cases hf' with
      | @cons _ _ children' rest' hc' hr' =>
        obtain ⟨v, v', hv, hv', hview⟩ := h.tree id id' hid
        -- children are matched with children, in order
        have hbelow := ihc hc' (by rw [children_of_get? hv, children_of_get? hv']; exact hview.children)
          (proposed.deflate v.margins) (proposed'.deflate v'.margins)
        obtain ⟨natural, natural', hnatural, hnatural', hgrows⟩ :=
          h.naturalSize hcount hv hv' hview hbelow
        obtain ⟨others, others', hothers, hothers', hrest⟩ := ihr hr' hids proposed proposed'
        refine ⟨_, _, cells_view_eq_ok_iff.mpr ⟨v, hv, natural, hnatural, others, hothers, rfl⟩,
          cells_view_eq_ok_iff.mpr ⟨v', hv', natural', hnatural', others', hothers', rfl⟩,
          .cons ⟨fun axis => ?_, hview.atMost.declaredOrigin, fun axis => ?_⟩ hrest⟩
        · -- a child takes up its natural extent and its margins
          exact (hgrows axis).add
            (hview.atMost.constraints.margins_along (h.valid id v hv) axis)
        · exact ⟨hview.sized.origin_isFinite axis, hview.sized'.origin_isFinite axis⟩

/-- Views that are matched are measured in both runs, and the second size is no smaller. -/
theorem Pass.GrowsTo.measure (h : p.GrowsTo p' R) (hwf : p.tree.WellFormed)
    (hwf' : p'.tree.WellFormed) {id id' : ViewId} (hid : R id id') (proposed proposed' : Size α) :
    ∃ natural natural', (p.measure id proposed).outcome = .ok natural ∧
      (p'.measure id' proposed').outcome = .ok natural' ∧
      ∀ axis, Scalar.Grows (natural.along axis) (natural'.along axis) := by
  obtain ⟨v, v', hv, hv', hview⟩ := h.tree id id' hid
  have hbelow := Forest.grows_cells hcount h (unfolds_forest hwf (p.tree.children id))
    (unfolds_forest hwf' (p'.tree.children id'))
    (by rw [children_of_get? hv, children_of_get? hv']; exact hview.children) proposed proposed'
  obtain ⟨natural, natural', hnatural, hnatural', hgrows⟩ :=
    h.naturalSize hcount hv hv' hview hbelow
  exact ⟨natural, natural', measure_eq_ok_iff.mpr ⟨v, hv, hnatural⟩,
    measure_eq_ok_iff.mpr ⟨v', hv', hnatural'⟩, hgrows⟩

end

/-- **More asked for is more granted.** Where the views of two trees are matched, children with
children in order, and each view of the second asks for no less than the one it is matched with, all
of them can be measured, and no size is smaller in the second tree, whatever sizes are proposed. -/
theorem growth_run (ops ops' : List (Operation Float32)) (settings settings' : Settings Float32)
    {R : ViewId → ViewId → Prop} (hR : (empty.run ops).GrowsTo (empty.run ops') R)
    {id id' : ViewId} (hid : R id id') (proposed proposed' : Size Float32) : ∃ size size',
      (Engine.measure ⟨settings, .stored⟩ (empty.run ops) id proposed).outcome = .ok size ∧
      (Engine.measure ⟨settings', .stored⟩ (empty.run ops') id' proposed').outcome = .ok size' ∧
      ∀ axis, size.along axis ≤ size'.along axis := by
  have h : (Pass.mk (empty.run ops) .stored settings).GrowsTo
      ⟨empty.run ops', .stored, settings'⟩ R :=
    ⟨rfl, rfl, validRecords_run ops, validRecords_run ops', hR⟩
  obtain ⟨size, size', hok, hok', hgrows⟩ := h.measure Single.zero_le_ofCount (wellFormed_run ops)
    (wellFormed_run ops') hid proposed proposed'
  exact ⟨size, size', hok, hok', fun axis => (hgrows axis).le⟩

/-- A row of two inside an overlay, from which it sticks out at the left. -/
def narrowPage : List (Operation Float32) :=
  let ten : Float32 := Float32.ofBits 0x41200000
  [.create .overlay .zero, .create .horizontal .zero, .create .overlay ⟨ten, ten⟩,
    .create .overlay ⟨ten, ten⟩, .insertBefore ⟨0, 1⟩ ⟨1, 1⟩ none,
    .insertBefore ⟨1, 1⟩ ⟨2, 1⟩ none, .insertBefore ⟨1, 1⟩ ⟨3, 1⟩ none,
    .write ⟨1, 1⟩ (.declaredOrigin ⟨-ten, Scalar.zero⟩), .edit ⟨3, 1⟩ [.maxSize ⟨ten, ten⟩]]

/-- The same, put together in another order, with more content, more room between, and no bound. -/
def widePage : List (Operation Float32) :=
  let ten : Float32 := Float32.ofBits 0x41200000
  [.create .overlay ⟨ten + ten, ten⟩, .create .overlay ⟨ten + ten, ten⟩, .create .horizontal .zero,
    .create .overlay .zero, .insertBefore ⟨2, 1⟩ ⟨1, 1⟩ none,
    .insertBefore ⟨2, 1⟩ ⟨0, 1⟩ (some ⟨1, 1⟩), .insertBefore ⟨3, 1⟩ ⟨2, 1⟩ none,
    .edit ⟨2, 1⟩ [.spacing Scalar.one, .margins Scalar.one]]

theorem growth_widePage :
    let matched : List (ViewId × ViewId) :=
      [(⟨0, 1⟩, ⟨3, 1⟩), (⟨1, 1⟩, ⟨2, 1⟩), (⟨2, 1⟩, ⟨0, 1⟩), (⟨3, 1⟩, ⟨1, 1⟩)]
    (empty.run narrowPage).GrowsTo (empty.run widePage) (fun id id' => (id, id') ∈ matched) ∧
      ∃ size size',
        (Engine.measure ⟨.standard, .stored⟩ (empty.run narrowPage) ⟨0, 1⟩ .zero).outcome =
          .ok size ∧
        (Engine.measure ⟨.standard, .stored⟩ (empty.run widePage) ⟨3, 1⟩ .unbounded).outcome =
          .ok size' ∧
        ∀ axis, size.along axis ≤ size'.along axis := by
  intro matched
  have hmatched : ∀ pair ∈ matched, ∃ v ∈ (empty.run narrowPage).get? pair.1,
      ∃ v' ∈ (empty.run widePage).get? pair.2, v.GrowsTo v' fun id id' => (id, id') ∈ matched := by
    decide +kernel
  have hgrows : (empty.run narrowPage).GrowsTo (empty.run widePage)
      (fun id id' => (id, id') ∈ matched) := by
    intro id id' hid
    obtain ⟨v, hv, v', hv', hviews⟩ := hmatched (id, id') hid
    exact ⟨v, v', hv, hv', hviews⟩
  exact ⟨hgrows, growth_run narrowPage widePage .standard .standard hgrows List.mem_cons_self
    .zero .unbounded⟩

end BoxLayout
