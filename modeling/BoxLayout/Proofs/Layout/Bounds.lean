import Mathlib
import BoxLayout.Layout.Strategy
import BoxLayout.Proofs.Constraints.Valid
import BoxLayout.Proofs.Distribution.Bounds

/-!
# Places keep to bounds

Every container hands out sizes of its own making: shares of an extent, cells with their
proportions, rooms between margins. Each rule brings what it hands out within the bounds of the
child, so that the child takes it as it is.

* **`Admits`** — a size keeps to the bounds of a record, or is no number along an axis.
* **`Stack.admits_frame`**, **`Overlay.admits_frame`** — the two rules, each with all its cases.
* **`Container.admits_place`** — every place that a container gives is admitted by the child.
-/

namespace BoxLayout

variable {α : Type} [Scalar α]

/-! ## Admitted sizes -/

/-- An extent along an axis keeps to the bounds of a record, or is no number. -/
def Constraints.AdmitsAlong (c : Constraints α) (axis : Axis) (x : α) : Prop :=
  Scalar.isNaN x = true ∨ c.min.along axis ≤ x ∧ x ≤ c.max.along axis

/-- A size keeps to the bounds of a record, as far as it is one. -/
def Constraints.Admits (c : Constraints α) (size : Size α) : Prop :=
  ∀ axis, c.AdmitsAlong axis (size.along axis)

/-- A measured child whose record is valid and whose natural size keeps to it. -/
structure Cell.Proper (c : Cell α) : Prop where
  valid : c.constraints.Valid
  natural_mem : ∀ axis, c.constraints.min.along axis ≤ c.natural.along axis ∧
    c.natural.along axis ≤ c.constraints.max.along axis

/-- A size admitted along each axis is admitted. -/
theorem Constraints.admits_ofAxes {c : Constraints α} {axis : Axis} {main cross : α}
    (hmain : c.AdmitsAlong axis main) (hcross : c.AdmitsAlong axis.cross cross) :
    c.Admits (.ofAxes axis main cross) := by
  intro other
  cases axis <;> cases other <;> assumption

section

variable [Scalar.Rounded α]

theorem Constraints.Valid.admitsAlong_clamp {c : Constraints α} (h : c.Valid) (axis : Axis)
    (x : α) : c.AdmitsAlong axis (c.clampAlong axis x) :=
  Or.inr (h.clampAlong_mem axis x)

theorem Constraints.Valid.admits_clamp {c : Constraints α} (h : c.Valid) (size : Size α) :
    c.Admits (c.clamp size) := by
  intro axis
  cases axis <;> exact h.admitsAlong_clamp _ _

end

/-! ## Stacks -/

namespace Stack

/-- A measured child competes for room with its own bounds around its natural extent. -/
theorem item_proper {c : Cell α} (h : c.Proper) (axis : Axis) : (item axis c).Proper where
  min_le_natural := (h.natural_mem axis).1
  natural_le_max := (h.natural_mem axis).2
  zero_le_weight := (Scalar.isExtent_iff.mp (h.valid.stretch_isExtent axis)).2

/-- Every place in a stack is the frame of a child with its share, from some start on. -/
theorem exists_of_mem_pack {axis : Axis} {container : View α} {bounds : Size α} {position : α}
    {shares : List (Cell α × α)} {p : Placement α}
    (h : p ∈ pack axis container bounds position shares) :
    ∃ c main start, (c, main) ∈ shares ∧ p = (c.id, frame axis container bounds c start main) := by
  induction shares generalizing position with
  | nil => nomatch h
  | cons share shares ih =>
    obtain ⟨c, main⟩ := share
    rcases List.mem_cons.mp h with rfl | h
    · exact ⟨c, main, _, List.mem_cons_self, rfl⟩
    · obtain ⟨c', main', start, hmem, heq⟩ := ih h
      exact ⟨c', main', start, List.mem_cons_of_mem _ hmem, heq⟩

variable [Scalar.Rounded α]

/-- Whatever a child's cell, the extent along the axis is its share or brought within its bounds, and
the one across it is always brought within them. -/
theorem admits_frame {axis : Axis} {container : View α} {bounds : Size α} {c : Cell α}
    {start main : α} (h : c.constraints.Valid) (hmain : c.constraints.AdmitsAlong axis main) :
    c.constraints.Admits (frame axis container bounds c start main).size := by
  unfold frame
  dsimp only
  split
  case h_1 size _ =>
    rw [Rect.size_ofAxes]
    have hsize := h.admits_clamp size
    exact Constraints.admits_ofAxes (hsize axis) (hsize axis.cross)
  case h_2 =>
    rw [Rect.size_ofAxes]
    -- the share along the axis is not clamped again; that it fits comes from the distribution
    exact Constraints.admits_ofAxes hmain (h.admitsAlong_clamp _ _)

/-- Shares that the distribution hands out fit the children they are for. -/
theorem admits_place {settings : Settings α} {axis : Axis} {container : View α}
    {cells : List (Cell α)} {bounds : Size α} (hepsilon : ¬ settings.epsilon < Scalar.zero)
    (hcells : ∀ c ∈ cells, c.Proper) {p : Placement α}
    (hp : p ∈ place settings axis container cells bounds) :
    ∃ c ∈ cells, c.id = p.1 ∧ c.constraints.Admits p.2.size := by
  obtain ⟨c, main, start, hmem, rfl⟩ := exists_of_mem_pack hp
  have hc := (List.of_mem_zip hmem).1
  -- the distribution asks of its items what is known of the children
  have hproper : ∀ i ∈ cells.map (item axis), i.Proper := by
    intro i hi
    obtain ⟨c', hc', rfl⟩ := List.mem_map.mp hi
    exact item_proper (hcells c' hc') axis
  have hfits : List.Forall₂ Item.Fits (cells.map (item axis))
      (distribution settings axis container cells bounds).sizes :=
    fits_distribute _ hepsilon hproper
  -- fitting is known pairwise, so it holds of the pair at hand
  rw [List.forall₂_map_left_iff] at hfits
  have hmain : c.constraints.AdmitsAlong axis main := List.forall₂_zip hfits hmem
  exact ⟨c, hc, rfl, admits_frame (hcells c hc).valid hmain⟩

end Stack

/-! ## Overlays -/

namespace Overlay

/-- A cell starts after the leading margin, and ends before the trailing one if there is room. -/
theorem along_cellOrigin (c : Cell α) (axis : Axis) : (cellOrigin c).along axis =
    c.view.declaredOrigin.along axis + c.margins.leading axis := by
  cases axis <;> rfl

theorem along_cellSize (bounds : Size α) (c : Cell α) (axis : Axis) :
    (cellSize bounds c).along axis = Scalar.max (bounds.along axis - (cellOrigin c).along axis -
      c.margins.trailing axis) Scalar.zero := by
  cases axis <;> rfl

variable [Scalar.Rounded α]

theorem admits_frame {container : View α} {bounds : Size α} {c : Cell α} (h : c.Proper) :
    c.constraints.Admits (frame container bounds c).size := by
  unfold frame
  dsimp only
  split
  case h_1 size _ => exact h.valid.admits_clamp size
  case h_2 =>
    have hextent (axis : Axis) : c.constraints.AdmitsAlong axis (extent container bounds c axis) := by
      unfold extent
      split_ifs
      · exact h.valid.admitsAlong_clamp _ _
      · exact Or.inr (h.natural_mem axis)
    intro axis
    cases axis <;> exact hextent _

end Overlay

/-! ## All containers -/

variable [Scalar.Rounded α]

/-- **Every place that a container gives is admitted by the child it is for.** -/
theorem Container.admits_place {kind : Container} {settings : Settings α} {view : View α}
    {cells : List (Cell α)} {bounds : Size α} (hepsilon : ¬ settings.epsilon < Scalar.zero)
    (hcells : ∀ c ∈ cells, c.Proper) {p : Placement α}
    (hp : p ∈ kind.place settings view cells bounds) :
    ∃ c ∈ cells, c.id = p.1 ∧ c.constraints.Admits p.2.size := by
  unfold place at hp
  split at hp
  case h_1 axis _ => exact Stack.admits_place hepsilon hcells hp
  case h_2 =>
    obtain ⟨c, hc, rfl⟩ := List.mem_map.mp hp
    exact ⟨c, hc, rfl, Overlay.admits_frame (hcells c hc)⟩

/-! ## Taking a place -/

section

variable {c : Constraints α}

/-- An extent that is admitted and is a number is taken as it is. -/
theorem Constraints.clampAlong_eq_self {axis : Axis} {x : α} (hadmits : c.AdmitsAlong axis x)
    (hx : Scalar.isNaN x = false) : c.clampAlong axis x = x := by
  rcases hadmits with hnan | ⟨hmin, hmax⟩
  · rw [hx] at hnan
    -- no number: ruled out
    nomatch hnan
  · exact Scalar.clamp_eq_self hmin hmax

theorem Constraints.clamp_eq_self {size : Size α} (hadmits : c.Admits size)
    (hsize : ∀ axis, Scalar.isNaN (size.along axis) = false) : c.clamp size = size := by
  have hw := Constraints.clampAlong_eq_self (hadmits .horizontal) (hsize .horizontal)
  have hh := Constraints.clampAlong_eq_self (hadmits .vertical) (hsize .vertical)
  rw [clamp]
  change c.clampAlong .horizontal size.width = size.width at hw
  change c.clampAlong .vertical size.height = size.height at hh
  rw [hw, hh]

/-- Clamping an extent by a valid record gives an extent. -/
theorem Constraints.Valid.isExtent_clampAlong (h : c.Valid) {axis : Axis} {x : α}
    (hx : Scalar.isExtent x = true) : Scalar.isExtent (c.clampAlong axis x) = true := by
  have hmem := h.clampAlong_mem axis x
  have hzero := Scalar.le_trans (h.zero_le_min axis) hmem.1
  have hfin := (Scalar.isExtent_iff.mp hx).1
  unfold clampAlong at hzero ⊢
  -- below the minimum it becomes the minimum; else it is at most what it was
  rcases Scalar.max_eq_or (Scalar.min x (c.max.along axis)) (c.min.along axis) with heq | heq <;>
    rw [heq] at hzero ⊢
  · exact Scalar.isExtent_of_le hzero (Scalar.min_le_left (Scalar.isNaN_of_isFinite hfin)) hfin
  · exact h.min_isExtent axis

end

end BoxLayout
