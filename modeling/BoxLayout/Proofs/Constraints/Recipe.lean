import Mathlib
import BoxLayout.Proofs.Constraints.Calls

/-!
# Records that edits can build

There are two ways to a record: edit by edit, each checked against what the record holds at the time,
and all fields at once, checked as a whole. They lead to the same records. Where the whole is refused,
it is by the first of its checks that fails.

## The architecture

* **`Check`**, **`Check.inOrder`**, **`refusal?`** — the checks of a whole record as data, their order,
  and what each of them says of a record.
* **`validated_eq`**, **`validated_eq_error_iff`** — a refusal is that of the first check that fails.
* **`recipe`**, **`edit_recipe`** — edits that build a valid record, none of them refused.
* **`exists_after_eq_iff`** — so edits lead to the valid records, and to no others.
-/

namespace BoxLayout

/-- Why an outcome is none. -/
def Except.refusal? {ε β : Type} : Except ε β → Option ε
  | .ok _ => none
  | .error e => some e

/-- A sequence of checks ends in the first refusal, and otherwise goes on. -/
theorem Except.bind_eq_findSome? {ε β γ κ : Type} {x : Except ε β} {next : Except ε γ} {r : γ}
    {refusal : κ → Option ε} {check : κ} {checks : List κ}
    (hx : refusal check = Except.refusal? x)
    (hnext : next = (checks.findSome? refusal).elim (.ok r) .error) :
    (x >>= fun _ => next) = ((check :: checks).findSome? refusal).elim (.ok r) .error := by
  rw [List.findSome?_cons, hx]
  cases x with
  | error e => rfl
  | ok a => exact hnext

namespace Constraints

variable {α : Type} [Scalar α]

/-! ## The checks of a whole record -/

/-- One of the checks of a whole record. -/
inductive Check where
  | min (axis : Axis)
  | max (axis : Axis)
  /-- That the bounds are in order. -/
  | order (axis : Axis)
  | stretch (axis : Axis)
  | adjustment (axis : Axis)
  | margin (side : Side)
  | spacing (axis : Axis)

/-- The bounds, their orders, and the other lengths in the order of the fields. -/
def Check.inOrder : List Check :=
  [min .horizontal, min .vertical, max .horizontal, max .vertical,
    order .horizontal, order .vertical, stretch .horizontal, stretch .vertical,
    adjustment .horizontal, adjustment .vertical,
    margin .left, margin .right, margin .top, margin .bottom,
    spacing .horizontal, spacing .vertical]

/-- Why a record fails a check, if it does. -/
def refusal? (c : Constraints α) : Check → Option (ValidationError α)
  | .min axis => Except.refusal? (length s!"min {axis.extentName}" (c.min.along axis))
  | .max axis => Except.refusal? (maximum s!"max {axis.extentName}" (c.max.along axis))
  | .order axis => Except.refusal? (ordered axis (c.min.along axis) (c.max.along axis))
  | .stretch axis =>
    Except.refusal? (length s!"{axis.adjective} stretch weight" (c.stretch.along axis))
  | .adjustment axis =>
    Except.refusal? (length s!"desired {axis.extentName} adjustment" (c.adjustment.along axis))
  | .margin side => Except.refusal? (length s!"{side.name} margin" (c.margins.get side))
  | .spacing axis => Except.refusal? (length s!"{axis.adjective} spacing" (c.spacing.along axis))

/-- Why a record is refused as a whole, if it is: for the first check that it fails. -/
def firstRefusal? (c : Constraints α) : Option (ValidationError α) :=
  Check.inOrder.findSome? c.refusal?

/-- The checks are made one after another, in their order. -/
theorem validated_eq (c : Constraints α) : c.validated = c.firstRefusal?.elim (.ok c) .error := by
  unfold validated firstRefusal? Check.inOrder
  repeat refine Except.bind_eq_findSome? rfl ?_
  rfl

/-- **A record is refused for the first check that it fails.** -/
theorem validated_eq_error_iff {c : Constraints α} {refusal : ValidationError α} :
    c.validated = .error refusal ↔ ∃ before check after, Check.inOrder = before ++ check :: after ∧
      c.refusal? check = some refusal ∧ ∀ earlier ∈ before, c.refusal? earlier = none := by
  rw [← List.findSome?_eq_some_iff, validated_eq]
  unfold firstRefusal?
  cases Check.inOrder.findSome? c.refusal? <;> simp

/-! ## Building a record -/

/-- Edits that build a record from the usual one. The bounds from above come first, for they can be
compared with the bounds from below that the usual record has. -/
def recipe (c : Constraints α) : List (Edit α) :=
  [.maxSize c.max, .minSize c.min,
    .stretchAlong .horizontal c.stretch.horizontal, .stretchAlong .vertical c.stretch.vertical,
    .ignoreNatural c.ignoreNatural, .adjustment c.adjustment,
    .marginAt .left c.margins.left, .marginAt .right c.margins.right,
    .marginAt .top c.margins.top, .marginAt .bottom c.margins.bottom,
    .spacingAlong .horizontal c.spacing.horizontal, .spacingAlong .vertical c.spacing.vertical,
    .cells c.cells, .flags c.flags] ++
  (c.hAlign.map Edit.hAlign).toList ++ (c.vAlign.map Edit.vAlign).toList ++
  (c.name.map Edit.name).toList

theorem edit_cons {c c' : Constraints α} {e : Edit α} (h : e.perform c = .ok () c')
    (edits : List (Edit α)) : c.edit (e :: edits) = c'.edit edits := by
  rw [edit, h]

/-- What edits that are never refused lead to, they also lead to with refusals allowed. -/
theorem after_eq_of_edit {c c' : Constraints α} {edits : List (Edit α)}
    (h : c.edit edits = ⟨c', none⟩) : c.after edits = c' := by
  induction edits generalizing c with
  | nil => exact congrArg Edited.record h
  | cons e edits ih =>
    unfold edit at h
    unfold after
    cases hperform : e.perform c with rw [hperform] at h
    | ok done between => exact ih h
    | error refusal left => exact absurd (congrArg Edited.refusal h) (Option.some_ne_none refusal)

variable [Scalar.Rounded α] {c : Constraints α} {v : α} {size : Size α}

/-! Edits are accepted if their values pass the checks. -/

theorem perform_maxSize (hmax : ∀ axis, Scalar.zero ≤ size.along axis)
    (hle : ∀ axis, c.min.along axis ≤ size.along axis) :
    (Edit.maxSize size).perform c = .ok () { c with max := size } := by
  simp only [Edit.perform, Editing.bind_eq_ok_iff, Editing.check_eq_ok_iff,
    Editing.get_eq_ok_iff, Editing.modify_eq_ok_iff, maximum_eq_ok_iff, and_assoc, exists_and_left,
    exists_eq_left, exists_const]
  exact ⟨hmax .horizontal, hmax .vertical, (), ordered_of_le (hle .horizontal), (),
    ordered_of_le (hle .vertical), rfl⟩

theorem perform_minSize (hmin : ∀ axis, Scalar.isExtent (size.along axis) = true)
    (hle : ∀ axis, size.along axis ≤ c.max.along axis) :
    (Edit.minSize size).perform c = .ok () { c with min := size } := by
  simp only [Edit.perform, Editing.bind_eq_ok_iff, Editing.check_eq_ok_iff,
    Editing.get_eq_ok_iff, Editing.modify_eq_ok_iff, length_eq_ok_iff, and_assoc, exists_and_left,
    exists_eq_left, exists_const]
  exact ⟨hmin .horizontal, hmin .vertical, (), ordered_of_le (hle .horizontal), (),
    ordered_of_le (hle .vertical), rfl⟩

theorem perform_stretchAlong (axis : Axis) (hv : Scalar.isExtent v = true) :
    (Edit.stretchAlong axis v).perform c = .ok () { c with stretch := c.stretch.set axis v } := by
  simp only [Edit.perform, length_eq_ok_iff.mpr ⟨hv, rfl⟩]
  rfl

theorem perform_adjustment (hsize : ∀ axis, Scalar.isExtent (size.along axis) = true) :
    (Edit.adjustment size).perform c = .ok () { c with adjustment := size } := by
  have hwidth : length "desired width adjustment" size.width = .ok size.width :=
    length_eq_ok_iff.mpr ⟨hsize .horizontal, rfl⟩
  have hheight : length "desired height adjustment" size.height = .ok size.height :=
    length_eq_ok_iff.mpr ⟨hsize .vertical, rfl⟩
  rw [Edit.perform, hwidth, hheight]
  rfl

theorem perform_marginAt (side : Side) (hv : Scalar.isExtent v = true) :
    (Edit.marginAt side v).perform c = .ok () { c with margins := c.margins.set side v } := by
  simp only [Edit.perform, length_eq_ok_iff.mpr ⟨hv, rfl⟩]
  rfl

theorem perform_spacingAlong (axis : Axis) (hv : Scalar.isExtent v = true) :
    (Edit.spacingAlong axis v).perform c = .ok () { c with spacing := c.spacing.set axis v } := by
  simp only [Edit.perform, length_eq_ok_iff.mpr ⟨hv, rfl⟩]
  rfl

/-- **Edits build every valid record**, and none of them is refused. -/
theorem edit_recipe (h : c.Valid) : (standard : Constraints α).edit c.recipe = ⟨c, none⟩ := by
  have hmax := perform_maxSize (c := standard) h.zero_le_max fun axis => by
    cases axis
    · exact h.zero_le_max .horizontal
    · exact h.zero_le_max .vertical
  unfold recipe
  refine (edit_cons hmax _).trans ?_
  refine (edit_cons (perform_minSize (c := { standard with max := c.max }) h.min_isExtent
    h.min_le_max) _).trans ?_
  refine (edit_cons (perform_stretchAlong .horizontal (h.stretch_isExtent .horizontal)) _).trans ?_
  refine (edit_cons (perform_stretchAlong .vertical (h.stretch_isExtent .vertical)) _).trans ?_
  refine (edit_cons rfl _).trans ?_
  refine (edit_cons (perform_adjustment h.adjustment_isExtent) _).trans ?_
  refine (edit_cons (perform_marginAt .left (h.margin_isExtent .left)) _).trans ?_
  refine (edit_cons (perform_marginAt .right (h.margin_isExtent .right)) _).trans ?_
  refine (edit_cons (perform_marginAt .top (h.margin_isExtent .top)) _).trans ?_
  refine (edit_cons (perform_marginAt .bottom (h.margin_isExtent .bottom)) _).trans ?_
  refine (edit_cons (perform_spacingAlong .horizontal (h.spacing_isExtent .horizontal)) _).trans ?_
  refine (edit_cons (perform_spacingAlong .vertical (h.spacing_isExtent .vertical)) _).trans ?_
  refine (edit_cons rfl _).trans ((edit_cons rfl _).trans ?_)
  -- what is left are the fields that may be unset
  obtain ⟨_, _, _, _, _, _, _, hAlign, vAlign, _, name, _⟩ := c
  cases hAlign <;> cases vAlign <;> cases name <;> rfl

/-- **Edits lead to the valid records, and to no others.** -/
theorem exists_after_eq_iff : (∃ edits, (standard : Constraints α).after edits = c) ↔ c.Valid := by
  constructor
  · rintro ⟨edits, rfl⟩
    exact standard_valid.after edits
  · intro h
    exact ⟨c.recipe, after_eq_of_edit (edit_recipe h)⟩

end Constraints

end BoxLayout
