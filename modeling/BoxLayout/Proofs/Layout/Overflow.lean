import Mathlib
import BoxLayout.Proofs.Distribution.Finite
import BoxLayout.Proofs.Layout.Soundness

/-!
# Overflow

A pass rejects a rectangle whose size is no length. It hands out such rectangles itself: a share is a
product over a sum, and where the product overflows the share is infinite, however small it should
have been. So a pass can fail of nothing but the weights and sizes of valid records. Here it is said
when that happens, of what the pass fails then, and what rules it out.

## The architecture

* **`Stack.Tame`**, **`Overlay.Tame`**, **`Container.Tame`** — nothing overflows while the children of
  one view are placed.
* **`Stack.isFinite_place`**, **`Overlay.isFinite_place`**, **`Container.isExtent_place`** — their places
  are extents then.
* **`Engine.Hands`** — a pass goes on from a view to a child; **`Engine.Hands.spec`** is what one such
  step keeps.
* **`Pass.outcome_visit_cases`**, **`Forest.outcome_arrange_cases`** — how a visit and a pass end, by
  induction on the shape of the tree.
* **`Engine.isExtent_of_tame`** — a pass that overflows nowhere hands out extents, by induction on the
  way to a view.
* **`ViewTree.Confined`**, **`Engine.tameAt_of_confined`** — a condition on the records alone.
* **`outcome_run`** — the result, with **`overflow_heavyRow`**, where a weight is enough to fail.
-/

namespace BoxLayout

open Relation ViewTree

variable {α : Type} [Scalar α]

/-! ## Containers -/

/-- The cell of a child of a stack: its share along the axis, and across it all that its margins leave
of the bounds. -/
def Stack.cellSize (axis : Axis) (bounds : Size α) (c : Cell α) (main : α) : Size α :=
  .ofAxes axis main
    (Scalar.max (bounds.along axis.cross - c.margins.along axis.cross) Scalar.zero)

/-- Placing the children of a stack overflows nowhere: sharing out the extent along the axis does not,
and a child that is sized in its cell gets a number or has a bound that is one. -/
structure Stack.Tame (settings : Settings α) (axis : Axis) (container : View α)
    (cells : List (Cell α)) (bounds : Size α) : Prop where
  items : Item.Tame (bounds.along axis) (cells.map (item axis))
  sized : ∀ share ∈ cells.zip (distribution settings axis container cells bounds).sizes, ∀ size,
    container.constraints.cells.sizeInCell share.1.natural
      (cellSize axis bounds share.1 share.2) = some size → ∀ other,
        Scalar.isFinite (size.along other) = true ∨
          Scalar.isFinite (share.1.constraints.max.along other) = true

/-- Placing the children of an overlay overflows nowhere: every child has a natural size and a cell of
numbers, or else a bound that is one. -/
structure Overlay.Tame (container : View α) (cells : List (Cell α)) (bounds : Size α) : Prop where
  normal : container.constraints.cells = .normal → ∀ c ∈ cells, ∀ axis,
    Scalar.isFinite (c.natural.along axis) = true ∧
      Scalar.isFinite ((cellSize bounds c).along axis) = true ∨
        Scalar.isFinite (c.constraints.max.along axis) = true
  sized : ∀ c ∈ cells, ∀ size,
    container.constraints.cells.sizeInCell c.natural (cellSize bounds c) = some size → ∀ axis,
      Scalar.isFinite (size.along axis) = true ∨
        Scalar.isFinite (c.constraints.max.along axis) = true

/-- Placing the children of a view of the given kind overflows nowhere. -/
def Container.Tame (kind : Container) (settings : Settings α) (view : View α)
    (cells : List (Cell α)) (bounds : Size α) : Prop :=
  match kind.axis? with
  | some axis => Stack.Tame settings axis view cells bounds
  | none => Overlay.Tame view cells bounds

section

variable [Scalar.Rounded α] {c : Constraints α} {axis : Axis} {x y : α}

/-- What is brought within the bounds of a record is a number, if it was one or the bounds end. -/
theorem Constraints.Valid.isExtent_clampAlong_of_isFinite (h : c.Valid)
    (hx : Scalar.isFinite x = true ∨ Scalar.isFinite (c.max.along axis) = true) :
    Scalar.isExtent (c.clampAlong axis x) = true := by
  obtain ⟨hmin, hmax⟩ := h.clampAlong_mem axis x
  have hzero := Scalar.le_trans (h.zero_le_min axis) hmin
  rcases hx with hx | hbound
  · unfold clampAlong at hzero ⊢
    -- a number below the maximum stays, and a minimum is an extent
    rcases Scalar.max_eq_or (Scalar.min x (c.max.along axis)) (c.min.along axis) with heq | heq <;>
      rw [heq] at hzero ⊢
    · exact Scalar.isExtent_of_le hzero (Scalar.min_le_left (Scalar.isNaN_of_isFinite hx)) hx
    · exact h.min_isExtent axis
  · -- whatever it was, the maximum is above it
    exact Scalar.isExtent_of_le hzero hmax hbound

/-- A size brought within bounds is an extent, if along each axis it is a number or bounded by one. -/
theorem Constraints.Valid.isExtent_clamp (h : c.Valid) {size : Size α}
    (hsize : ∀ axis, Scalar.isFinite (size.along axis) = true ∨
      Scalar.isFinite (c.max.along axis) = true) : (c.clamp size).isExtent = true := by
  refine Size.isExtent_iff.mpr fun axis => ?_
  rw [Constraints.along_clamp]
  exact h.isExtent_clampAlong_of_isFinite (hsize axis)

/-- What is left of an extent between margins is one. -/
theorem Scalar.isExtent_max_sub (hx : Scalar.isExtent x = true) (hy : Scalar.zero ≤ y) :
    Scalar.isExtent (Scalar.max (x - y) Scalar.zero) = true := by
  obtain ⟨hfinite, -⟩ := Scalar.isExtent_iff.mp hx
  have hnan := Scalar.isNaN_of_isFinite hfinite
  -- a number less something that is no NaN and not negative: it may be minus infinity, but no NaN
  have hsub := (Scalar.isNaN_sub (Scalar.lt_infinity_of_le (Scalar.le_refl hnan) hfinite) hy).1
  have hzero := Scalar.le_max_right hsub (Scalar.zero_isNaN (α := α))
  rcases Scalar.max_eq_or (x - y) Scalar.zero with heq | heq
  · rw [heq] at hzero ⊢
    exact Scalar.isExtent_of_le hzero (Scalar.sub_le_of_nonneg hnan hy hsub) hfinite
  · rw [heq]
    exact Scalar.zero_isExtent

end

namespace Stack

variable {settings : Settings α} {axis : Axis} {container : View α} {cells : List (Cell α)}
  {bounds : Size α}

variable [Scalar.Rounded α]

omit [Scalar.Rounded α] in
/-- A measured child competes for room with bounds and a weight that are numbers. -/
theorem item_sound {c : Cell α} (h : c.Proper) : (item axis c).Sound where
  toProper := item_proper h axis
  min_isExtent := h.valid.min_isExtent axis
  weight_isExtent := h.valid.stretch_isExtent axis

/-- There is no more to share out than the bounds, unless there are more children than numbers. -/
theorem available_le (hcount : ∀ n, Scalar.zero ≤ (Scalar.ofCount n : α))
    (hcontainer : container.constraints.Valid) (hvalid : ∀ c ∈ cells, c.constraints.Valid)
    (hbounds : Scalar.isExtent (bounds.along axis) = true)
    (hnan : Scalar.isNaN (bounds.along axis -
      (Scalar.sum (cells.map fun c => c.margins.along axis) + gaps axis container cells)) = false) :
    bounds.along axis -
      (Scalar.sum (cells.map fun c => c.margins.along axis) + gaps axis container cells) ≤
        bounds.along axis := by
  obtain ⟨hfinite, -⟩ := Scalar.isExtent_iff.mp hbounds
  have hmargins : Scalar.zero ≤ Scalar.sum (cells.map fun c => c.margins.along axis) :=
    Scalar.sum_map_nonneg fun c hc => Scalar.add_nonneg
      (Scalar.isExtent_iff.mp ((hvalid c hc).leading_isExtent axis)).2
      (Scalar.isExtent_iff.mp ((hvalid c hc).trailing_isExtent axis)).2
  -- an infinite count of gaps times no spacing would be a NaN, and what is left is none
  have hgaps : Scalar.zero ≤ gaps axis container cells :=
    Scalar.mul_nonneg (hcount _) (Scalar.isExtent_iff.mp (hcontainer.spacing_isExtent axis)).2
      (Scalar.not_isNaN_of_add (Scalar.not_isNaN_of_sub hnan).2).2
  exact Scalar.sub_le_of_nonneg (Scalar.isNaN_of_isFinite hfinite)
    (Scalar.add_nonneg hmargins hgaps) hnan

/-- The room across a stack is an extent, and so is what a child takes of it. -/
theorem isExtent_across {c : Cell α} (h : c.Proper)
    (hbounds : Scalar.isExtent (bounds.along axis) = true) {p : Prop} [Decidable p] :
    let room := Scalar.max (bounds.along axis - c.margins.along axis) Scalar.zero
    Scalar.isExtent (c.constraints.clampAlong axis
      (if p then room else Scalar.min (c.natural.along axis) room)) = true := by
  intro room
  have hmargins := Scalar.add_nonneg (Scalar.isExtent_iff.mp (h.valid.leading_isExtent axis)).2
    (Scalar.isExtent_iff.mp (h.valid.trailing_isExtent axis)).2
  have hroom : Scalar.isExtent room = true := Scalar.isExtent_max_sub hbounds hmargins
  have hfinite := (Scalar.isExtent_iff.mp hroom).1
  refine h.valid.isExtent_clampAlong_of_isFinite (Or.inl ?_)
  split_ifs
  · exact hfinite
  · have hnatural := Scalar.le_trans (h.valid.zero_le_min axis) (h.natural_mem axis).1
    have hmin := Scalar.min_le_right (v := c.natural.along axis) (Scalar.isNaN_of_isFinite hfinite)
    rcases Scalar.min_eq_or (c.natural.along axis) room with heq | heq <;> rw [heq] at hmin ⊢
    · exact (Scalar.isExtent_iff.mp (Scalar.isExtent_of_le hnatural hmin hfinite)).1
    · exact hfinite

/-- **Every place in a stack has a size of numbers.** -/
theorem isFinite_place (hcount : ∀ n, Scalar.zero ≤ (Scalar.ofCount n : α))
    (hepsilon : ¬ settings.epsilon < Scalar.zero) (hcontainer : container.constraints.Valid)
    (hcells : ∀ c ∈ cells, c.Proper) (hbounds : bounds.isExtent = true)
    (htame : Tame settings axis container cells bounds) {p : Placement α}
    (hp : p ∈ place settings axis container cells bounds) (other : Axis) :
    Scalar.isFinite (p.2.size.along other) = true := by
  obtain ⟨c, main, start, hshare, rfl⟩ := exists_of_mem_pack hp
  have hbound := Size.isExtent_iff.mp hbounds
  obtain ⟨hc, hmain⟩ := List.of_mem_zip hshare
  dsimp only
  unfold frame
  dsimp only
  split
  -- sized in its cell: what the cell gives is brought within the bounds of the child
  case h_1 size hsize =>
    have hclamped := (hcells c hc).valid.isExtent_clamp (htame.sized _ hshare size hsize)
    have hextent := fun axis => (Scalar.isExtent_iff.mp (Size.isExtent_iff.mp hclamped axis)).1
    rw [Rect.size_ofAxes]
    rcases axis.eq_or_eq_cross other with rfl | rfl
    · rw [Size.along_ofAxes]
      exact hextent _
    · rw [Size.along_cross_ofAxes]
      exact hextent _
  -- a share along the axis, and across it what the room allows
  case h_2 =>
    rw [Rect.size_ofAxes]
    rcases axis.eq_or_eq_cross other with rfl | rfl
    · -- the distribution asks of its items what is known of the children
      have hsound : ∀ i ∈ cells.map (item other), i.Sound := by
        intro i hi
        obtain ⟨c, hc, rfl⟩ := List.mem_map.mp hi
        exact item_sound (hcells c hc)
      rw [Size.along_ofAxes]
      exact isFinite_distribute hepsilon hsound htame.items (hbound other)
        (available_le hcount hcontainer (fun c hc => (hcells c hc).valid) (hbound other)) main hmain
    · rw [Size.along_cross_ofAxes]
      exact (Scalar.isExtent_iff.mp (isExtent_across (hcells c hc) (hbound _))).1

end Stack

namespace Overlay

variable [Scalar.Rounded α] {container : View α} {cells : List (Cell α)} {bounds : Size α}

/-- **Every place in an overlay has a size of numbers.** -/
theorem isFinite_place (hcells : ∀ c ∈ cells, c.Proper) (htame : Tame container cells bounds)
    {p : Placement α} (hp : p ∈ place container cells bounds) (axis : Axis) :
    Scalar.isFinite (p.2.size.along axis) = true := by
  obtain ⟨c, hc, rfl⟩ := List.mem_map.mp hp
  dsimp only
  unfold frame
  dsimp only
  split
  case h_1 size hsize =>
    have hclamped := (hcells c hc).valid.isExtent_clamp (htame.sized c hc size hsize)
    exact (Scalar.isExtent_iff.mp (Size.isExtent_iff.mp hclamped axis)).1
  case h_2 hnone =>
    -- no size from the cell is given in one way of positioning only
    have hnormal : container.constraints.cells = .normal := by
      cases hkind : container.constraints.cells <;> rw [hkind] at hnone <;> first | rfl | nomatch hnone
    have hextent : Scalar.isFinite (extent container bounds c axis) = true := by
      have hchild := htame.normal hnormal c hc axis
      unfold extent
      split_ifs
      · exact (Scalar.isExtent_iff.mp ((hcells c hc).valid.isExtent_clampAlong_of_isFinite
          (hchild.imp And.right id))).1
      · -- not filling: the natural extent, which is a number or bounded by one
        rcases hchild with hchild | hmax
        · exact hchild.1
        · obtain ⟨hmin, hle⟩ := (hcells c hc).natural_mem axis
          exact (Scalar.isExtent_iff.mp (Scalar.isExtent_of_le
            (Scalar.le_trans ((hcells c hc).valid.zero_le_min axis) hmin) hle hmax)).1
    cases axis <;> exact hextent

end Overlay

variable [Scalar.Rounded α]

/-- **Every place is an extent**, if placing overflows nowhere. -/
theorem Container.isExtent_place (hcount : ∀ n, Scalar.zero ≤ (Scalar.ofCount n : α))
    {kind : Container} {settings : Settings α} {view : View α} {cells : List (Cell α)}
    {bounds : Size α} (hepsilon : ¬ settings.epsilon < Scalar.zero)
    (hcontainer : view.constraints.Valid) (hcells : ∀ c ∈ cells, c.Proper)
    (hbounds : bounds.isExtent = true) (htame : kind.Tame settings view cells bounds)
    {p : Placement α} (hp : p ∈ kind.place settings view cells bounds) :
    p.2.size.isExtent = true := by
  obtain ⟨c, hc, -, hadmits⟩ := admits_place hepsilon hcells hp
  have hfinite (axis : Axis) : Scalar.isFinite (p.2.size.along axis) = true := by
    unfold place at hp
    unfold Container.Tame at htame
    split at hp
    case h_1 main hmain =>
      rw [hmain] at htame
      exact Stack.isFinite_place hcount hepsilon hcontainer hcells hbounds htame hp axis
    case h_2 hnone =>
      rw [hnone] at htame
      exact Overlay.isFinite_place hcells htame hp axis
  refine Size.isExtent_iff.mpr fun axis => Scalar.isExtent_iff.mpr ⟨hfinite axis, ?_⟩
  -- a number within bounds is not negative, since no minimum is
  rcases hadmits axis with hnan | ⟨hmin, -⟩
  · exact absurd ((Scalar.isNaN_of_isFinite (hfinite axis)).symm.trans hnan) Bool.false_ne_true
  · exact Scalar.le_trans ((hcells c hc).valid.zero_le_min axis) hmin

/-! ## Passes -/

/-- All content of a tree has a size. -/
def Engine.Contents (e : Engine α) (t : ViewTree α) : Prop :=
  ∀ id v, t.get? id = some v → ∀ proposed, (e.measurer id v proposed).isExtent = true

/-- A pass that comes to a view with a rectangle for it goes on to each of its children with the place
that the visit of the view gives it. -/
def Engine.Hands (e : Engine α) (t : ViewTree α) (place next : Placement α) : Prop :=
  ∃ visit, ((e.pass t).visit place.1 (t.below place.1) place.2).outcome = .ok visit ∧
    next ∈ visit.placements

section

variable {e : Engine α} {t s : ViewTree α} {f : Forest} {placements : List (Placement α)}

omit [Scalar.Rounded α] in
/-- Where all content has a size, measuring succeeds. -/
theorem Forest.exists_cells (hcontents : e.Contents t) (hlive : ∀ id ∈ f.ids, (t.get? id).isSome)
    (proposed : Size α) : ∃ cells, (f.cells (e.pass t) proposed).outcome = .ok cells := by
  induction f generalizing proposed with
  | empty => exact ⟨[], rfl⟩
  | view id children rest ihc ihr =>
    simp only [Forest.ids, List.mem_cons, List.mem_append] at hlive
    obtain ⟨v, hv⟩ := Option.isSome_iff_exists.mp (hlive id (Or.inl rfl))
    have hraw : ∃ raw, ((e.pass t).rawSize id v (children.cells (e.pass t))
        (proposed.deflate v.margins)).outcome = .ok raw := by
      unfold Pass.rawSize
      -- the three ways to a raw size: none asked for, that of the children, that of the content
      split_ifs with hignore hchildren
      · exact ⟨_, rfl⟩
      · obtain ⟨cells, hcells⟩ := ihc (fun low hlow => hlive low (Or.inr (Or.inl hlow)))
          (proposed.deflate v.margins)
        refine ⟨v.container.naturalSize v cells, ?_⟩
        simp only [Logged.outcome_bind, Logged.outcome_pure]
        rw [hcells]
        rfl
      · have hcontent := hcontents id v hv (proposed.deflate v.margins)
        exact ⟨_, congrArg Logged.outcome (if_pos hcontent)⟩
    obtain ⟨raw, hraw⟩ := hraw
    obtain ⟨others, hothers⟩ := ihr (fun low hlow => hlive low (Or.inr (Or.inr hlow))) proposed
    exact ⟨_, Forest.cells_view_eq_ok_iff.mpr ⟨v, hv, _,
      Pass.naturalSize_eq_ok_iff.mpr ⟨raw, hraw, rfl⟩, others, hothers, rfl⟩⟩

omit [Scalar.Rounded α] in
/-- Where all content has a size, a visit fails only of a rectangle that has none. -/
theorem Pass.outcome_visit_cases (hcontents : e.Contents t) {id : ViewId}
    (hlive : ∀ low ∈ (Forest.view id f .empty).ids, (t.get? low).isSome) (allotted : Rect α) :
    (allotted.size.isExtent = true ∧ ∃ visit, ((e.pass t).visit id f allotted).outcome = .ok visit) ∨
      ∃ axis : Axis, Scalar.isExtent (allotted.size.along axis) = false ∧
        ((e.pass t).visit id f allotted).outcome =
          .error (.invalidExtent id axis.extentName (allotted.size.along axis)) := by
  simp only [Forest.ids, List.append_nil, List.mem_cons] at hlive
  obtain ⟨v, hv⟩ := Option.isSome_iff_exists.mp (hlive id (Or.inl rfl))
  cases hextent : allotted.size.isExtent with
  | true =>
    obtain ⟨cells, hcells⟩ := Forest.exists_cells hcontents (fun low hlow => hlive low (Or.inr hlow))
      (v.constraints.clamp allotted.size)
    have hplacements : ((e.pass t).placements v.container v f
        (v.constraints.clamp allotted.size)).outcome = .ok _ :=
      Pass.placements_eq_ok_iff.mpr ⟨cells, hcells, rfl⟩
    exact Or.inl ⟨rfl, ⟨.ofOriginSize allotted.origin (v.constraints.clamp allotted.size), _⟩,
      Pass.visit_eq_ok_iff.mpr ⟨v, hv, hextent, rfl, hplacements⟩⟩
  | false =>
    have hnode : t.node id = .ok v := node_eq_ok_iff.mpr hv
    right
    rw [Pass.outcome_visit, show (e.pass t).tree.node id = .ok v from hnode]
    -- the width is checked before the height, so the error names the first of the two that fails
    cases hwidth : Scalar.isExtent allotted.width with
    | false =>
      refine ⟨.horizontal, hwidth, ?_⟩
      unfold checkedSize checkedExtent
      rw [hwidth]
      rfl
    | true =>
      have hheight : Scalar.isExtent allotted.height = false := by
        have hboth : (Scalar.isExtent allotted.width && Scalar.isExtent allotted.height) = false :=
          hextent
        rwa [hwidth, Bool.true_and] at hboth
      refine ⟨.vertical, hheight, ?_⟩
      unfold checkedSize checkedExtent
      rw [hwidth, hheight]
      rfl

omit [Scalar.Rounded α] in
/-- **How a pass ends**, where all content has a size: well, or at a view that it comes to with a
rectangle that has none. Induction on the shape, over any tree `s` that differs from `t` in frames. -/
theorem Forest.outcome_arrange_cases (hwf : t.WellFormed) (hm : e.measurer.IgnoresFrames)
    (hcontents : e.Contents t) {ids : List ViewId} (hf : Unfolds t ids f)
    (hlive : ∀ id ∈ f.ids, (t.get? id).isSome) (hids : placements.map Prod.fst = ids)
    (hsame : t.SameButFrames s) :
    (f.arrange e placements s).result.outcome = .ok () ∧
        (∀ place ∈ placements, ∀ low, ReflTransGen (e.Hands t) place low →
          low.2.size.isExtent = true) ∨
      ∃ place ∈ placements, ∃ low axis, ReflTransGen (e.Hands t) place low ∧
        Scalar.isExtent (low.2.size.along axis) = false ∧
        (f.arrange e placements s).result.outcome =
          .error (.invalidExtent low.1 axis.extentName (low.2.size.along axis)) := by
  induction hf generalizing placements s with
  | nil =>
    obtain rfl := List.map_eq_nil_iff.mp hids
    exact Or.inl ⟨rfl, fun _ h => absurd h List.not_mem_nil⟩
  | @cons id ids children rest hc hr ihc ihr =>
    obtain ⟨⟨first, allotted⟩, others, rfl, hfirst, hothers⟩ := List.map_eq_cons_iff.mp hids
    obtain rfl : id = first := hfirst.symm
    obtain rfl : t.below id = children := (unfolds_forest hwf _).unique hc
    simp only [Forest.ids, List.mem_cons, List.mem_append] at hlive
    have hwithin : ∀ low ∈ (Forest.view id (t.below id) .empty).ids, (t.get? low).isSome := by
      simp only [Forest.ids, List.append_nil, List.mem_cons]
      exact fun low hlow => hlive low (hlow.imp_right Or.inl)
    have hview := Pass.outcome_visit_cases hcontents hwithin allotted
    rw [Forest.arrange, Arranged.outcome_andThen]
    dsimp only
    rw [← Pass.visit_congr hm hsame]
    rcases hview with ⟨hextent, visit, hvisit⟩ | ⟨axis, hbad, herror⟩
    · rw [hvisit]
      dsimp only [Except.bind]
      have hfst := (Pass.map_fst_visit hvisit).trans hc.tops_eq
      have hset := hsame.setFrame id visit.frame
      have hstep {next : Placement α} (hnext : next ∈ visit.placements) :
          e.Hands t (id, allotted) next := ⟨visit, hvisit, hnext⟩
      rw [Arranged.outcome_andThen]
      -- the pass goes on below the view first, and its outcome is decided there if it stops
      rcases ihc (fun low hlow => hlive low (Or.inr (Or.inl hlow))) hfst hset with
        ⟨hok, hbelow⟩ | ⟨place, hplace, low, axis, hreach, hbad, herror⟩
      · rw [hok]
        dsimp only [Except.bind]
        rcases ihr (fun low hlow => hlive low (Or.inr (Or.inr hlow))) hothers
          (Forest.sameButFrames_arrange hset) with
          ⟨hok, hrest⟩ | ⟨place, hplace, low, axis, hreach, hbad, herror⟩
        · refine Or.inl ⟨hok, fun place hplace low hreach => ?_⟩
          rcases List.mem_cons.mp hplace with rfl | hplace
          · -- what the view hands on is the view itself or comes by way of its first level
            rcases hreach.cases_head with rfl | ⟨next, ⟨other, hother, hnext⟩, hreach⟩
            · exact hextent
            · obtain rfl := Except.ok.inj (hvisit.symm.trans hother)
              exact hbelow next hnext low hreach
          · exact hrest place hplace low hreach
        · exact Or.inr ⟨place, List.mem_cons_of_mem _ hplace, low, axis, hreach, hbad, herror⟩
      · rw [herror]
        exact Or.inr ⟨_, List.mem_cons_self, low, axis, .head (hstep hplace) hreach, hbad, rfl⟩
    · rw [herror]
      -- the extent of the view itself is refused
      exact Or.inr ⟨_, List.mem_cons_self, _, axis, .refl, hbad, rfl⟩

/-- The child of a view that a pass goes on to lies below the view, and admits its place. -/
theorem Engine.Hands.spec (hwf : t.WellFormed) (hvalid : t.ValidRecords)
    (hepsilon : ¬ e.settings.epsilon < Scalar.zero) {place next : Placement α}
    (h : e.Hands t place next) : next.1 ∈ t.children place.1 ∧
      ∃ w, t.get? next.1 = some w ∧ w.constraints.Valid ∧ w.constraints.Admits next.2.size := by
  obtain ⟨visit, hvisit, hnext⟩ := h
  obtain ⟨v, -, -, -, hplacements⟩ := Pass.visit_eq_ok_iff.mp hvisit
  obtain ⟨hids, hadmits⟩ := Pass.placements_of_ok (p := e.pass t) hvalid hepsilon
    (unfolds_forest hwf _) hplacements
  obtain ⟨w, hw, hadmits⟩ := hadmits next hnext
  exact ⟨hids ▸ List.mem_map_of_mem hnext, w, hw, hvalid _ w hw, hadmits⟩

/-- What a pass goes on to in some steps lies below the view it came from. -/
theorem Engine.mem_below_of_hands (hwf : t.WellFormed) (hvalid : t.ValidRecords)
    (hepsilon : ¬ e.settings.epsilon < Scalar.zero) {place low : Placement α}
    (h : TransGen (e.Hands t) place low) : low.1 ∈ (t.below place.1).ids := by
  have hshape : Unfolds t (t.children place.1) (t.below place.1) := unfolds_forest hwf _
  rw [hshape.mem_ids_children_iff]
  induction h with
  | single h => exact .single (h.spec hwf hvalid hepsilon).1
  | tail _ h ih => exact .head (h.spec hwf hvalid hepsilon).1 ih

/-- An extent that a record admits is one, unless it is no number or infinite. -/
theorem Constraints.Valid.isNaN_or_value_eq {c : Constraints α} (h : c.Valid) {axis : Axis} {x : α}
    (hadmits : c.AdmitsAlong axis x) (hbad : Scalar.isExtent x = false) :
    Scalar.isNaN x = true ∨ Scalar.Rounded.value x = .infinity := by
  rcases hadmits with hnan | ⟨hmin, -⟩
  · exact Or.inl hnan
  · have hzero := Scalar.le_trans (h.zero_le_min axis) hmin
    have hle := hzero
    rw [Scalar.Rounded.le_iff, Scalar.Rounded.value_zero] at hzero
    cases hvalue : Scalar.Rounded.value x with
    | infinity => exact Or.inr rfl
    -- a number at or above the minimum would have been an extent
    | finite q =>
      have hextent : Scalar.isExtent x = true :=
        Scalar.isExtent_iff.mpr ⟨Scalar.Rounded.isFinite_iff.mpr ⟨q, hvalue⟩, hle⟩
      exact absurd (hbad.symm.trans hextent) Bool.false_ne_true
    | nan | negInfinity => simp [hvalue, LE.le, Exact.ble] at hzero

/-- Where a pass comes to a view, placing the children of the view overflows nowhere. -/
def Engine.TameAt (e : Engine α) (t : ViewTree α) (place : Placement α) : Prop :=
  ∀ v cells, t.get? place.1 = some v →
    ((t.below place.1).cells (e.pass t) (v.constraints.clamp place.2.size)).outcome = .ok cells →
      v.container.Tame e.settings v cells (v.constraints.clamp place.2.size)

/-- **A pass that overflows nowhere hands out extents only.** Induction on the way to a view. -/
theorem Engine.isExtent_of_tame (hcount : ∀ n, Scalar.zero ≤ (Scalar.ofCount n : α))
    (hvalid : t.ValidRecords) (hepsilon : ¬ e.settings.epsilon < Scalar.zero)
    {place low : Placement α} (hreach : ReflTransGen (e.Hands t) place low)
    (hextent : place.2.size.isExtent = true)
    (htame : ∀ next, ReflTransGen (e.Hands t) place next → e.TameAt t next) :
    low.2.size.isExtent = true := by
  induction hreach with
  | refl => exact hextent
  | @tail next low hreach hstep ih =>
    obtain ⟨visit, hvisit, hlow⟩ := hstep
    obtain ⟨v, hv, -, hframe, hplacements⟩ := Pass.visit_eq_ok_iff.mp hvisit
    obtain ⟨cells, hcells, hplaces⟩ := Pass.placements_eq_ok_iff.mp hplacements
    rw [hframe, Rect.size_ofOriginSize] at hcells hplaces
    rw [hplaces] at hlow
    have hrecord : v.constraints.Valid := hvalid _ v hv
    -- the view on the way was handed an extent, and keeps to its bounds in it
    have hbounds : (v.constraints.clamp next.2.size).isExtent = true :=
      hrecord.isExtent_clamp fun axis =>
        Or.inl (Scalar.isExtent_iff.mp (Size.isExtent_iff.mp ih axis)).1
    exact Container.isExtent_place hcount hepsilon hrecord (Forest.proper_cells hvalid hcells)
      hbounds (htame next hreach v cells hv hcells) hlow

omit [Scalar.Rounded α] in
/-- **How arranging a live view ends**, where all content has a size. -/
theorem Engine.outcome_arrange_cases (hwf : t.WellFormed) (hm : e.measurer.IgnoresFrames)
    (hcontents : e.Contents t) {start : ViewId} (hlive : (t.get? start).isSome)
    (allotted : Rect α) :
    (e.arrange t start allotted).result.outcome = .ok () ∧
        (∀ low, ReflTransGen (e.Hands t) (start, allotted) low → low.2.size.isExtent = true) ∨
      ∃ low axis, ReflTransGen (e.Hands t) (start, allotted) low ∧
        Scalar.isExtent (low.2.size.along axis) = false ∧
        (e.arrange t start allotted).result.outcome =
          .error (.invalidExtent low.1 axis.extentName (low.2.size.along axis)) := by
  -- below a view that is there all views are
  have hall : ∀ id ∈ (t.forest [start]).ids, (t.get? id).isSome := by
    intro id hid
    obtain ⟨top, htop, hwithin⟩ := (mem_ids_forest_iff hwf).mp hid
    obtain rfl := List.mem_singleton.mp htop
    rcases hwithin.cases_head with rfl | ⟨parent, hlink, -⟩
    · exact hlive
    · obtain ⟨v, hv, -⟩ := ChildOf.live hlink
      exact Option.isSome_iff_exists.mpr ⟨v, hv⟩
  rw [Engine.outcome_arrange]
  have hfst : [(start, allotted)].map Prod.fst = [start] := rfl
  rcases Forest.outcome_arrange_cases hwf hm hcontents (unfolds_forest hwf [start]) hall hfst
    (.refl t) with ⟨hok, hreached⟩ | ⟨place, hplace, low, axis, hreach, hbad, herror⟩
  · exact Or.inl ⟨hok, hreached _ List.mem_cons_self⟩
  · obtain rfl := List.mem_singleton.mp hplace
    exact Or.inr ⟨low, axis, hreach, hbad, herror⟩

/-- The greatest sizes that the children of a view may have add up to a number along both axes, and so
do their weights. -/
def ViewTree.Confined (t : ViewTree α) (id : ViewId) : Prop :=
  ∀ axis : Axis,
    Scalar.isFinite (Scalar.sum (((t.children id).filterMap t.get?).map fun w =>
      w.constraints.max.along axis)) = true ∧
    Scalar.isFinite (Scalar.sum (((t.children id).filterMap t.get?).map fun w =>
      w.constraints.stretch.along axis)) = true

/-- **Children whose bounds and weights add up to numbers never overflow**, wherever the pass comes to
their container. -/
theorem Engine.tameAt_of_confined (hwf : t.WellFormed) (hvalid : t.ValidRecords)
    {place : Placement α} (hconfined : t.Confined place.1) : e.TameAt t place := by
  intro v cells hv hcells
  have hproper : ∀ c ∈ cells, c.Proper := Forest.proper_cells hvalid hcells
  obtain ⟨hids, hviews⟩ := Forest.cells_of_ok (p := e.pass t) (unfolds_forest hwf _) hcells
  -- the children that are summed up are those that are measured
  have hchildren : (t.children place.1).filterMap t.get? = cells.map Cell.view := by
    have hget : ∀ c ∈ cells, (t.get? ∘ Cell.id) c = (some ∘ Cell.view) c := fun c hc =>
      (hviews c hc).1
    rw [← hids, List.filterMap_map, List.filterMap_congr hget, List.filterMap_eq_map]
  have hsums (axis : Axis) := hconfined axis
  simp only [hchildren, List.map_map] at hsums
  have hnatural {c : Cell α} (hc : c ∈ cells) (axis : Axis) :
      Scalar.zero ≤ c.natural.along axis ∧
        c.natural.along axis ≤ c.constraints.max.along axis := by
    obtain ⟨hmin, hmax⟩ := (hproper c hc).natural_mem axis
    exact ⟨Scalar.le_trans ((hproper c hc).valid.zero_le_min axis) hmin, hmax⟩
  -- a maximum lies between zero and the sum of them all, which is finite
  have hbound {c : Cell α} (hc : c ∈ cells) (axis : Axis) :
      Scalar.isFinite (c.constraints.max.along axis) = true := by
    have hzero {c : Cell α} (hc : c ∈ cells) : Scalar.zero ≤ c.constraints.max.along axis :=
      Scalar.le_trans (hnatural hc axis).1 (hnatural hc axis).2
    exact (Scalar.isExtent_iff.mp (Scalar.isExtent_of_le (hzero hc)
      (Scalar.le_sum_map (fun c hc => hzero hc) hc) (hsums axis).1)).1
  unfold Container.Tame
  cases v.container.axis? with
  | none =>
    exact ⟨fun _ c hc axis => Or.inr (hbound hc axis), fun c hc _ _ axis => Or.inr (hbound hc axis)⟩
  | some axis =>
    refine ⟨⟨?_, fun i hi _ => ?_⟩, fun share hshare _ _ other => ?_⟩
    · -- natural extents add up to no more than the maxima do
      have hle := Scalar.sum_map_le fun c hc => hnatural hc axis
      rw [List.map_map]
      exact (Scalar.isExtent_iff.mp (Scalar.isExtent_of_le hle.1 hle.2 (hsums axis).1)).1
    · obtain ⟨c, hc, rfl⟩ := List.mem_map.mp hi
      rw [List.map_map]
      exact Or.inr ⟨hbound hc axis, (hsums axis).2⟩
    · exact Or.inr (hbound (List.of_mem_zip (a := share.1) (b := share.2) hshare).1 other)

omit [Scalar.Rounded α] in
/-- **A pass succeeds just if it hands out extents only**, where all content has a size. -/
theorem Engine.outcome_arrange_ok_iff (hwf : t.WellFormed) (hm : e.measurer.IgnoresFrames)
    (hcontents : e.Contents t) {start : ViewId} (hlive : (t.get? start).isSome)
    (allotted : Rect α) :
    (e.arrange t start allotted).result.outcome = .ok () ↔
      ∀ low, ReflTransGen (e.Hands t) (start, allotted) low → low.2.size.isExtent = true := by
  rcases outcome_arrange_cases hwf hm hcontents hlive allotted with
    ⟨hok, hall⟩ | ⟨low, axis, hreach, hbad, herror⟩
  · exact iff_of_true hok hall
  · refine iff_of_false (fun hok => nomatch herror.symm.trans hok) fun hall => ?_
    exact absurd (hbad.symm.trans (Size.isExtent_iff.mp (hall low hreach) axis)) Bool.false_ne_true

/-- **A pass with an extent for its start fails below it**, of a place that has overflowed. -/
theorem Engine.error_of_arrange (hwf : t.WellFormed) (hvalid : t.ValidRecords)
    (hm : e.measurer.IgnoresFrames) (hcontents : e.Contents t)
    (hepsilon : ¬ e.settings.epsilon < Scalar.zero) {start : ViewId}
    (hlive : (t.get? start).isSome) {allotted : Rect α} (hextent : allotted.size.isExtent = true)
    {error : LayoutError ViewId α} (herror : (e.arrange t start allotted).result.outcome = .error error) :
    ∃ low axis, TransGen (e.Hands t) (start, allotted) low ∧ low.1 ∈ (t.below start).ids ∧
      (Scalar.isNaN (low.2.size.along axis) = true ∨
        Scalar.Rounded.value (low.2.size.along axis) = .infinity) ∧
      error = .invalidExtent low.1 axis.extentName (low.2.size.along axis) := by
  rcases outcome_arrange_cases hwf hm hcontents hlive allotted with
    ⟨hok, -⟩ | ⟨low, axis, hreach, hbad, hfailed⟩
  · exact nomatch hok.symm.trans herror
  · obtain rfl := Except.error.inj (hfailed.symm.trans herror)
    rcases reflTransGen_iff_eq_or_transGen.mp hreach with rfl | hreach
    · -- the start itself has been given an extent
      exact absurd (hbad.symm.trans (Size.isExtent_iff.mp hextent axis)) Bool.false_ne_true
    · -- the last step handed the bad place to a view that admits it, so it is no length at all
      obtain ⟨place, -, hstep⟩ := TransGen.tail'_iff.mp hreach
      obtain ⟨-, w, -, hrecord, hadmits⟩ := hstep.spec hwf hvalid hepsilon
      exact ⟨low, axis, hreach, mem_below_of_hands hwf hvalid hepsilon hreach,
        hrecord.isNaN_or_value_eq (hadmits axis) hbad, rfl⟩

/-- A view that a pass comes to lies below its start. -/
theorem Engine.mem_subtree_of_hands (hwf : t.WellFormed) (hvalid : t.ValidRecords)
    (hepsilon : ¬ e.settings.epsilon < Scalar.zero) {place low : Placement α}
    (h : ReflTransGen (e.Hands t) place low) : low.1 ∈ t.subtree place.1 := by
  have hself : place.1 ∈ t.subtree place.1 := (mem_subtree_iff hwf).mpr .refl
  rcases reflTransGen_iff_eq_or_transGen.mp h with rfl | h
  · exact hself
  · exact mem_subtree_of_mem_below hwf hself (mem_below_of_hands hwf hvalid hepsilon h)

end

/-! ## Trees that operations lead to -/

/-- **When a pass over valid data fails, and of what.** Where the content of all views has a size, a
pass from a live view in a rectangle of numbers succeeds just if it hands out nothing but extents. If
it fails, then of a view below the start whose place is infinite or no number, because something
overflowed. It does not fail if nothing overflows in any container that it comes to; in particular if
the greatest sizes and the weights of all children of a view add up to numbers. -/
theorem outcome_run (ops : List (Operation Float32)) (settings : Settings Float32)
    (hepsilon : ¬ settings.epsilon < Scalar.zero)
    (hcontents : ∀ id v, (empty.run ops).get? id = some v → v.contentSize.isExtent = true)
    (start : ViewId) (hlive : ((empty.run ops).get? start).isSome = true)
    (allotted : Rect Float32) (hextent : allotted.size.isExtent = true) :
    let e : Engine Float32 := ⟨settings, .stored⟩
    let t := empty.run ops
    let outcome := (e.arrange t start allotted).result.outcome
    (outcome = .ok () ↔ ∀ place, ReflTransGen (e.Hands t) (start, allotted) place →
      place.2.size.isExtent = true) ∧
    (∀ error, outcome = .error error → ∃ place axis,
      TransGen (e.Hands t) (start, allotted) place ∧ place.1 ∈ (t.below start).ids ∧
        ((place.2.size.along axis).isNaN = true ∨ place.2.size.along axis = Scalar.infinity) ∧
          error = .invalidExtent place.1 axis.extentName (place.2.size.along axis)) ∧
    ((∀ place, ReflTransGen (e.Hands t) (start, allotted) place → e.TameAt t place) →
      outcome = .ok ()) ∧
    ((∀ id ∈ t.subtree start, t.Confined id) → outcome = .ok ()) := by
  have hwf : (empty.run ops).WellFormed := wellFormed_run ops
  have hvalid : (empty.run ops).ValidRecords := validRecords_run ops
  have hsizes : Engine.Contents ⟨settings, .stored⟩ (empty.run ops) :=
    fun id v hv _ => hcontents id v hv
  have hiff := Engine.outcome_arrange_ok_iff (e := ⟨settings, .stored⟩) hwf
    Measurer.ignoresFrames_stored hsizes hlive allotted
  have htame (h : ∀ place, ReflTransGen (Engine.Hands ⟨settings, .stored⟩ (empty.run ops))
      (start, allotted) place → Engine.TameAt ⟨settings, .stored⟩ (empty.run ops) place) :=
    hiff.mpr fun low hreach => Engine.isExtent_of_tame (e := ⟨settings, .stored⟩)
      Single.zero_le_ofCount hvalid hepsilon hreach hextent h
  refine ⟨hiff, fun error herror => ?_, htame, fun hconfined => htame fun place hreach => ?_⟩
  · obtain ⟨low, axis, hreach, hlow, hbad, rfl⟩ := Engine.error_of_arrange (e := ⟨settings, .stored⟩)
      hwf hvalid Measurer.ignoresFrames_stored hsizes hepsilon hlive hextent herror
    exact ⟨low, axis, hreach, hlow, hbad.imp_right Single.eq_infinity_of_value_eq, rfl⟩
  · exact Engine.tameAt_of_confined hwf hvalid (hconfined _ (Engine.mem_subtree_of_hands
      (e := ⟨settings, .stored⟩) hwf hvalid hepsilon hreach))

/-- Nothing overflows in a small row. -/
theorem outcome_rowOfTwo :
    let viewport : Rect Float32 := .ofOriginSize .zero ⟨Float32.ofBits 0x42C80000, 1⟩
    let e : Engine Float32 := ⟨.standard, .stored⟩
    (e.arrange (empty.run rowOfTwo) ⟨0, 1⟩ viewport).result.outcome = .ok () ∧
      ∀ place, ReflTransGen (e.Hands (empty.run rowOfTwo)) (⟨0, 1⟩, viewport) place →
        place.2.size.isExtent = true := by
  have hsizes : ∀ entry ∈ (empty.run rowOfTwo).views.entries,
      entry.2.contentSize.isExtent = true := by decide +kernel
  have hok : (Engine.arrange ⟨.standard, .stored⟩ (empty.run rowOfTwo) ⟨0, 1⟩
      (.ofOriginSize .zero ⟨Float32.ofBits 0x42C80000, 1⟩)).result.outcome = .ok () := by rfl
  refine ⟨hok, ?_⟩
  exact (outcome_run rowOfTwo .standard (by decide +kernel)
    (fun id v hv => hsizes (id, v) (Arena.mem_entries_iff.mpr hv)) ⟨0, 1⟩ (by decide +kernel)
    (.ofOriginSize .zero ⟨Float32.ofBits 0x42C80000, 1⟩) (by decide +kernel)).1.mp hok

/-- A row with a single small view, which stretches with the greatest weight there is. -/
def heavyRow : List (Operation Float32) :=
  let content : Size Float32 := ⟨Float32.ofBits 0x41200000, Float32.ofBits 0x41200000⟩
  [.create .horizontal .zero, .create .overlay content, .insertBefore ⟨0, 1⟩ ⟨1, 1⟩ none,
    .edit ⟨1, 1⟩ [.stretchAlong .horizontal (Float32.ofBits 0x7F7FFFFF)]]

/-- All space of the row is the view's. But the product of space and weight overflows before it is
divided by the weight again. -/
theorem overflow_heavyRow :
    let t := empty.run heavyRow
    let hundred : Float32 := Float32.ofBits 0x42C80000
    let allotted : Rect Float32 := ⟨0, 0, hundred, hundred⟩
    (∀ id v, t.get? id = some v → v.constraints.Valid ∧ v.contentSize.isExtent = true ∧
      Scalar.isFinite v.declaredOrigin.x = true ∧ Scalar.isFinite v.declaredOrigin.y = true) ∧
    (t.get? ⟨0, 1⟩).isSome = true ∧ allotted.size.isExtent = true ∧
    (Engine.arrange ⟨.standard, .stored⟩ t ⟨0, 1⟩ allotted).result.outcome =
      .error (.invalidExtent ⟨1, 1⟩ "width" Scalar.infinity) := by
  have hviews : ∀ entry ∈ (empty.run heavyRow).views.entries,
      entry.2.contentSize.isExtent = true ∧ Scalar.isFinite entry.2.declaredOrigin.x = true ∧
        Scalar.isFinite entry.2.declaredOrigin.y = true := by decide +kernel
  refine ⟨fun id v hv => ⟨validRecords_run heavyRow id v hv, ?_⟩, by decide +kernel,
    by decide +kernel, by rfl⟩
  exact hviews (id, v) (Arena.mem_entries_iff.mpr hv)

end BoxLayout
