import Mathlib
import BoxLayout.Proofs.Constraints.Refusal
import BoxLayout.Proofs.Scalar.Rounded

/-!
# Valid constraints

A record can hold any values, but an edit checks what it writes. So every record that edits lead to
from the usual one is valid: its bounds are in order and its lengths are lengths.

## The architecture

* **`Valid`** — the invariant, one field for each check.
* **`length_eq_ok_iff`, `maximum_eq_ok_iff`, `le_of_ordered`** — when the checks pass.
* **`Valid.perform`** — an accepted edit keeps the invariant, one case for each edit.
* **`Valid.edit`** — so does a chain of edits, also one that ends in a refusal.
* **`Valid.clampAlong_mem`** — what a valid record brings within its bounds lies within them.
-/

namespace BoxLayout

/-- A sequence succeeds just if both of its parts do. -/
theorem Except.bind_eq_ok_iff {ε β γ : Type} {x : Except ε β} {f : β → Except ε γ} {r : γ} :
    (x >>= f) = .ok r ↔ ∃ a, x = .ok a ∧ f a = .ok r := by
  cases x with
  | error e => simp [bind, Except.bind]
  | ok a => simp [bind, Except.bind]

theorem Except.ok_eq_ok_iff {ε β : Type} {a b : β} : (.ok a : Except ε β) = .ok b ↔ b = a :=
  ⟨fun h => (Except.ok.inj h).symm, fun h => congrArg Except.ok h.symm⟩

/-! ## Projections of what is written -/

theorem Size.along_set {α : Type} (s : Size α) (axis other : Axis) (value : α) :
    (s.set axis value).along other = if other = axis then value else s.along other := by
  cases axis <;> cases other <;> rfl

theorem PerAxis.along_set {β : Type} (p : PerAxis β) (axis other : Axis) (value : β) :
    (p.set axis value).along other = if other = axis then value else p.along other := by
  cases axis <;> cases other <;> rfl

theorem Edges.get_set {α : Type} (e : Edges α) (side other : Side) (value : α) :
    (e.set side value).get other = if other = side then value else e.get other := by
  cases side <;> cases other <;> rfl

/-- A side either lies at an end of the axis or keeps its length. -/
theorem Edges.get_setAlong {α : Type} (e : Edges α) (axis : Axis) (side : Side) (value : α) :
    (e.setAlong axis value).get side = value ∨ (e.setAlong axis value).get side = e.get side := by
  cases axis <;> cases side <;> first | exact Or.inl rfl | exact Or.inr rfl

namespace Constraints

variable {α : Type} [Scalar α]

/-- What the checks see to: bounds in order, and lengths everywhere else. -/
structure Valid (c : Constraints α) : Prop where
  min_isExtent : ∀ axis, Scalar.isExtent (c.min.along axis) = true
  min_le_max : ∀ axis, c.min.along axis ≤ c.max.along axis
  stretch_isExtent : ∀ axis, Scalar.isExtent (c.stretch.along axis) = true
  adjustment_isExtent : ∀ axis, Scalar.isExtent (c.adjustment.along axis) = true
  margin_isExtent : ∀ side, Scalar.isExtent (c.margins.get side) = true
  spacing_isExtent : ∀ axis, Scalar.isExtent (c.spacing.along axis) = true

/-- The bounds may be replaced by others that pass the checks. -/
theorem Valid.withBounds {c : Constraints α} (h : c.Valid) {min max : Size α}
    (hmin : ∀ axis, Scalar.isExtent (min.along axis) = true)
    (hle : ∀ axis, min.along axis ≤ max.along axis) : { c with min, max }.Valid :=
  { h with min_isExtent := hmin, min_le_max := hle }

theorem Valid.zero_le_min {c : Constraints α} (h : c.Valid) (axis : Axis) :
    Scalar.zero ≤ c.min.along axis :=
  (Scalar.isExtent_iff.mp (h.min_isExtent axis)).2

/-- The margin at the start of an axis is one of the four. -/
theorem Valid.leading_isExtent {c : Constraints α} (h : c.Valid) (axis : Axis) :
    Scalar.isExtent (c.margins.leading axis) = true := by
  cases axis
  · exact h.margin_isExtent .left
  · exact h.margin_isExtent .top

/-- So is the margin at its end. -/
theorem Valid.trailing_isExtent {c : Constraints α} (h : c.Valid) (axis : Axis) :
    Scalar.isExtent (c.margins.trailing axis) = true := by
  cases axis
  · exact h.margin_isExtent .right
  · exact h.margin_isExtent .bottom

/-- A length written among lengths leaves lengths only. -/
theorem isExtent_ite {ι : Type} [DecidableEq ι] {get : ι → α} {v : α}
    (hv : Scalar.isExtent v = true) (h : ∀ i, Scalar.isExtent (get i) = true) (i other : ι) :
    Scalar.isExtent (if other = i then v else get other) = true := by
  split_ifs
  · exact hv
  · exact h other

variable [Scalar.Rounded α]

/-! ## Checks -/

/-- A value passes as a length just if it is one, and is left as it is. -/
theorem length_eq_ok_iff {field : String} {v w : α} :
    length field v = .ok w ↔ Scalar.isExtent v = true ∧ w = v := by
  rw [Scalar.isExtent_iff]
  unfold length
  cases hfin : Scalar.isFinite v with
  | false => simp
  | true =>
    have hnan := Scalar.isNaN_of_isFinite hfin
    -- a number is not below zero just if it is from zero upwards
    have hlt : v < Scalar.zero ↔ ¬ Scalar.zero ≤ v := Scalar.lt_iff_not_le hnan Scalar.zero_isNaN
    by_cases hneg : v < Scalar.zero
    · simp [hneg, hlt.mp hneg]
    · have hle := Scalar.le_of_not_lt Scalar.zero_isNaN hnan hneg
      simp [hneg, hle, eq_comm]

/-- A value passes as a bound from above just if it is no less than zero. It may be infinite. -/
theorem maximum_eq_ok_iff {field : String} {v w : α} :
    maximum field v = .ok w ↔ Scalar.zero ≤ v ∧ w = v := by
  unfold maximum
  cases hnan : Scalar.isNaN v with
  | true =>
    have hle : ¬ (Scalar.zero : α) ≤ v := fun hle => by
      simp [(Scalar.not_isNaN_of_le hle).2] at hnan
    simp [hle]
  | false =>
    by_cases hneg : v < Scalar.zero
    · simp [hneg, (Scalar.lt_iff_not_le hnan Scalar.zero_isNaN).mp hneg]
    · have hle := Scalar.le_of_not_lt Scalar.zero_isNaN hnan hneg
      simp [hneg, hle, eq_comm]

/-- Bounds that pass as being in order are, if neither is a NaN; a NaN would pass unnoticed. -/
theorem le_of_ordered {axis : Axis} {m M : α} (hm : Scalar.isNaN m = false)
    (hM : Scalar.isNaN M = false) (h : ordered axis m M = .ok ()) : m ≤ M := by
  unfold ordered at h
  split at h
  case isTrue => nomatch h
  case isFalse hlt => exact Scalar.le_of_not_lt hm hM hlt

/-! ## Edits

Every edit takes apart into checks that have passed and the record that they leave. -/

theorem isNaN_of_isExtent {v : α} (h : Scalar.isExtent v = true) : Scalar.isNaN v = false :=
  Scalar.isNaN_of_isFinite (Scalar.isExtent_iff.mp h).1

theorem usualWeight_isExtent : Scalar.isExtent (usualWeight : α) = true := by
  have hvalue : Scalar.Rounded.value (Scalar.one : α) = .finite 1 := Scalar.Rounded.value_one
  refine Scalar.isExtent_iff.mpr ⟨Scalar.Rounded.isFinite_iff.mpr ⟨1, hvalue⟩, ?_⟩
  rw [Scalar.Rounded.le_iff, Scalar.Rounded.value_zero]
  show Exact.finite 0 ≤ Scalar.Rounded.value (Scalar.one : α)
  rw [hvalue, Exact.finite_le_finite]
  norm_num

/-- The usual record is valid. -/
theorem standard_valid : (standard : Constraints α).Valid where
  min_isExtent axis := by cases axis <;> exact Scalar.zero_isExtent
  min_le_max axis := by cases axis <;> exact Scalar.zero_le_infinity
  stretch_isExtent axis := by cases axis <;> exact Scalar.zero_isExtent
  adjustment_isExtent axis := by cases axis <;> exact Scalar.zero_isExtent
  margin_isExtent side := by cases side <;> exact Scalar.zero_isExtent
  spacing_isExtent axis := by cases axis <;> exact Scalar.zero_isExtent

namespace Valid

variable {c c' : Constraints α}

/-- The bounds can be compared with anything, for they are compared with each other. -/
theorem min_isNaN (h : c.Valid) (axis : Axis) : Scalar.isNaN (c.min.along axis) = false :=
  (Scalar.not_isNaN_of_le (h.min_le_max axis)).1

theorem max_isNaN (h : c.Valid) (axis : Axis) : Scalar.isNaN (c.max.along axis) = false :=
  (Scalar.not_isNaN_of_le (h.min_le_max axis)).2

/-- **An accepted edit keeps a record valid.** One case for each edit: what it writes has passed its
check, and what it leaves was valid before. -/
theorem perform {edit : Edit α} (h : c.Valid) (hok : edit.perform c = .ok () c') :
    c'.Valid := by
  cases edit <;>
    simp only [Edit.perform, Editing.bind_eq_ok_iff, Editing.check_eq_ok_iff,
      Editing.get_eq_ok_iff, Editing.modify_eq_ok_iff, length_eq_ok_iff, maximum_eq_ok_iff,
      and_assoc, exists_and_left, exists_eq_left, exists_const] at hok
  case minExtent axis v =>
    -- the new bound has been compared with the other one, which is no NaN
    obtain ⟨hv, _, hord, rfl⟩ := hok
    have hle := le_of_ordered (isNaN_of_isExtent hv) (h.max_isNaN axis) hord
    refine h.withBounds (fun other => ?_) (fun other => ?_) <;> rw [Size.along_set]
    · exact isExtent_ite hv h.min_isExtent axis other
    · split_ifs with heq
      · exact heq ▸ hle
      · exact h.min_le_max other
  case maxExtent axis v =>
    obtain ⟨hv, _, hord, rfl⟩ := hok
    have hle := le_of_ordered (h.min_isNaN axis) (Scalar.not_isNaN_of_le hv).2 hord
    refine h.withBounds h.min_isExtent (fun other => ?_)
    rw [Size.along_set]
    split_ifs with heq
    · exact heq ▸ hle
    · exact h.min_le_max other
  case minSize size =>
    obtain ⟨hw, hh, _, hordW, _, hordH, rfl⟩ := hok
    have hleW := le_of_ordered (isNaN_of_isExtent hw) (h.max_isNaN .horizontal) hordW
    have hleH := le_of_ordered (isNaN_of_isExtent hh) (h.max_isNaN .vertical) hordH
    exact h.withBounds (fun axis => by cases axis <;> assumption)
      (fun axis => by cases axis <;> assumption)
  case maxSize size =>
    obtain ⟨hw, hh, _, hordW, _, hordH, rfl⟩ := hok
    have hleW := le_of_ordered (h.min_isNaN .horizontal) (Scalar.not_isNaN_of_le hw).2 hordW
    have hleH := le_of_ordered (h.min_isNaN .vertical) (Scalar.not_isNaN_of_le hh).2 hordH
    exact h.withBounds h.min_isExtent (fun axis => by cases axis <;> assumption)
  case fixedExtent axis v =>
    obtain ⟨hv, rfl⟩ := hok
    -- both bounds are the same length, which is at most itself
    have hle := Scalar.le_refl (isNaN_of_isExtent hv)
    refine h.withBounds (fun other => ?_) (fun other => ?_) <;> simp only [Size.along_set]
    · exact isExtent_ite hv h.min_isExtent axis other
    · split_ifs
      · exact hle
      · exact h.min_le_max other
  case fixedSize size =>
    obtain ⟨hw, hh, rfl⟩ := hok
    have hleW := Scalar.le_refl (isNaN_of_isExtent hw)
    have hleH := Scalar.le_refl (isNaN_of_isExtent hh)
    exact h.withBounds (fun axis => by cases axis <;> assumption)
      (fun axis => by cases axis <;> assumption)
  case stretchAlong axis v =>
    obtain ⟨hv, rfl⟩ := hok
    refine { h with stretch_isExtent := fun other => ?_ }
    rw [PerAxis.along_set]
    exact isExtent_ite hv h.stretch_isExtent axis other
  case stretchWeight v =>
    obtain ⟨hv, rfl⟩ := hok
    exact { h with stretch_isExtent := fun axis => by cases axis <;> exact hv }
  case stretching | pureStretching =>
    subst hok
    exact { h with stretch_isExtent := fun axis => by cases axis <;> exact usualWeight_isExtent }
  case adjustment size =>
    obtain ⟨hw, hh, rfl⟩ := hok
    exact { h with adjustment_isExtent := fun axis => by cases axis <;> assumption }
  case marginAt side v =>
    obtain ⟨hv, rfl⟩ := hok
    refine { h with margin_isExtent := fun other => ?_ }
    rw [Edges.get_set]
    exact isExtent_ite hv h.margin_isExtent side other
  case marginsAlong axis v =>
    obtain ⟨hv, rfl⟩ := hok
    refine { h with margin_isExtent := fun side => ?_ }
    -- a margin along the axis is the one written, any other one is as before
    rcases Edges.get_setAlong c.margins axis side _ with heq | heq <;> rw [heq]
    · exact hv
    · exact h.margin_isExtent side
  case margins v =>
    obtain ⟨hv, rfl⟩ := hok
    exact { h with margin_isExtent := fun side => by cases side <;> exact hv }
  case spacingAlong axis v =>
    obtain ⟨hv, rfl⟩ := hok
    refine { h with spacing_isExtent := fun other => ?_ }
    rw [PerAxis.along_set]
    exact isExtent_ite hv h.spacing_isExtent axis other
  case spacing v =>
    obtain ⟨hv, rfl⟩ := hok
    exact { h with spacing_isExtent := fun axis => by cases axis <;> exact hv }
  -- the other edits write no length
  all_goals
    subst hok
    exact { h with }

/-- A chain of edits keeps a record valid, also if it ends in a refusal. -/
theorem edit (h : c.Valid) (edits : List (Edit α)) : (c.edit edits).record.Valid := by
  induction edits generalizing c with
  | nil => exact h
  | cons e edits ih =>
    unfold Constraints.edit
    split
    case h_1 c' hok => exact ih (h.perform hok)
    case h_2 refusal left hrefused => exact (e.atomic_perform c left refusal hrefused).symm ▸ h

/-! ## Clamping -/

/-- Whatever is brought within the bounds lies within them. -/
theorem clampAlong_mem (h : c.Valid) (axis : Axis) (v : α) :
    c.min.along axis ≤ c.clampAlong axis v ∧ c.clampAlong axis v ≤ c.max.along axis :=
  Scalar.clamp_mem (h.min_le_max axis)

end Valid

end Constraints

end BoxLayout
