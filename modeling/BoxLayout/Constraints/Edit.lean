import BoxLayout.Constraints
import BoxLayout.Error

/-!
# Editing constraints

Every change of a record is an `Edit`. An edit is carried out on the record in place: it checks its
values, may end in a refusal, and writes one field after another.

* `Constraints.length`, `Constraints.maximum`, `Constraints.ordered` — the three checks.
* `Edit.perform` — a single edit, step by step; `Edit.apply` — what it yields.
* `Constraints.edit` — a chain of edits, which ends at the first refusal and keeps what was written.
* `Constraints.validated` — all checks on a whole record.
-/

namespace BoxLayout

variable {α : Type} [Scalar α]

namespace Constraints

/-! ## Checks -/

/-- A length: a number that is not negative. -/
def length (field : String) (value : α) : Except (ValidationError α) α :=
  if !Scalar.isFinite value then .error (.notFinite field value)
  else if value < Scalar.zero then .error (.negative field value)
  else .ok value

/-- A bound from above: a length, or `infinity`. -/
def maximum (field : String) (value : α) : Except (ValidationError α) α :=
  if Scalar.isNaN value then .error (.notFinite field value)
  else if value < Scalar.zero then .error (.negative field value)
  else .ok value

def ordered (axis : Axis) (min max : α) : Except (ValidationError α) Unit :=
  if max < min then .error (.minExceedsMax axis.extentName min max) else .ok ()

end Constraints

/-! ## Edits -/

/-- A change of a constraint record. -/
inductive Edit (α : Type) where
  | minExtent (axis : Axis) (value : α)
  | maxExtent (axis : Axis) (value : α)
  | minSize (size : Size α)
  | maxSize (size : Size α)
  /-- Both bounds along an axis. -/
  | fixedExtent (axis : Axis) (value : α)
  /-- Both bounds along both axes. -/
  | fixedSize (size : Size α)
  | stretchAlong (axis : Axis) (weight : α)
  | stretchWeight (weight : α)
  /-- Stretching along both axes with the usual weight. -/
  | stretching
  /-- Stretching along both axes from nothing. -/
  | pureStretching
  | ignoreNatural (value : Bool)
  | adjustment (size : Size α)
  | marginAt (side : Side) (value : α)
  | marginsAlong (axis : Axis) (value : α)
  | margins (value : α)
  | spacingAlong (axis : Axis) (value : α)
  | spacing (value : α)
  | hAlign (alignment : HAlign)
  | vAlign (alignment : VAlign)
  | clearAlignment
  | cells (positioning : CellPositioning)
  | name (text : String)
  | logLayout (value : Bool)
  | flags (switches : DebugFlags)

/-- The weight of a view that just stretches. -/
def usualWeight : α := Scalar.one

/-- An edit under way. It works on the record in place, so whatever it has written when it is refused
stays written. -/
abbrev Editing (α β : Type) := EStateM (ValidationError α) (Constraints α) β

namespace Editing

variable {β γ : Type} {c c' : Constraints α}

/-- The value that passed a check. Otherwise the edit ends here. -/
def check : Except (ValidationError α) β → Editing α β
  | .ok value => pure value
  | .error refusal => throw refusal

/-! An edit in steps succeeds just if all its steps do, and each step goes on with the record that the
one before it left. -/

omit [Scalar α] in
theorem bind_eq_ok_iff {x : Editing α β} {next : β → Editing α γ} {r : γ} :
    (x >>= next) c = .ok r c' ↔ ∃ a between, x c = .ok a between ∧ next a between = .ok r c' := by
  show EStateM.bind x next c = _ ↔ _
  unfold EStateM.bind
  cases x c with
  | ok a between => simp only [EStateM.Result.ok.injEq, and_assoc, exists_eq_left', exists_and_left]
  | error refusal left => simp

omit [Scalar α] in
theorem check_eq_ok_iff {outcome : Except (ValidationError α) β} {a : β} :
    check outcome c = .ok a c' ↔ outcome = .ok a ∧ c' = c := by
  cases outcome with
  | ok value =>
    show EStateM.Result.ok value c = .ok a c' ↔ _
    simp [eq_comm]
  | error refusal =>
    show EStateM.Result.error refusal c = .ok a c' ↔ _
    simp

omit [Scalar α] in
theorem get_eq_ok_iff {a : Constraints α} :
    (get : Editing α (Constraints α)) c = .ok a c' ↔ a = c ∧ c' = c := by
  show EStateM.Result.ok c c = .ok a c' ↔ _
  simp [eq_comm]

omit [Scalar α] in
theorem modify_eq_ok_iff {change : Constraints α → Constraints α} {r : Unit} :
    (modify change : Editing α Unit) c = .ok r c' ↔ c' = change c := by
  show EStateM.Result.ok () (change c) = .ok r c' ↔ _
  simp [eq_comm]

end Editing

namespace Edit

open Constraints Editing

/-- The edit of a record, step by step. An edit of both extents checks the two lengths before the two
orders, and the width before the height, and writes the width before the height. -/
def perform : Edit α → Editing α Unit
  | minExtent axis value => do
    let value ← check (length s!"min {axis.extentName}" value)
    check (ordered axis value ((← get).max.along axis))
    modify fun c => { c with min := c.min.set axis value }
  | maxExtent axis value => do
    let value ← check (maximum s!"max {axis.extentName}" value)
    check (ordered axis ((← get).min.along axis) value)
    modify fun c => { c with max := c.max.set axis value }
  | minSize size => do
    let width ← check (length "min width" size.width)
    let height ← check (length "min height" size.height)
    check (ordered .horizontal width (← get).max.width)
    check (ordered .vertical height (← get).max.height)
    modify fun c => { c with min := c.min.set .horizontal width }
    modify fun c => { c with min := c.min.set .vertical height }
  | maxSize size => do
    let width ← check (maximum "max width" size.width)
    let height ← check (maximum "max height" size.height)
    check (ordered .horizontal (← get).min.width width)
    check (ordered .vertical (← get).min.height height)
    modify fun c => { c with max := c.max.set .horizontal width }
    modify fun c => { c with max := c.max.set .vertical height }
  | fixedExtent axis value => do
    let value ← check (length s!"fixed {axis.extentName}" value)
    -- Equal bounds are in order.
    modify fun c => { c with min := c.min.set axis value }
    modify fun c => { c with max := c.max.set axis value }
  | fixedSize size => do
    let width ← check (length "fixed width" size.width)
    let height ← check (length "fixed height" size.height)
    modify fun c => { c with min := c.min.set .horizontal width }
    modify fun c => { c with max := c.max.set .horizontal width }
    modify fun c => { c with min := c.min.set .vertical height }
    modify fun c => { c with max := c.max.set .vertical height }
  | stretchAlong axis weight => do
    let weight ← check (length s!"{axis.adjective} stretch weight" weight)
    modify fun c => { c with stretch := c.stretch.set axis weight }
  | stretchWeight weight => do
    let weight ← check (length "stretch weight" weight)
    modify fun c => { c with stretch := c.stretch.set .horizontal weight }
    modify fun c => { c with stretch := c.stretch.set .vertical weight }
  | stretching => do
    modify fun c => { c with stretch := c.stretch.set .horizontal usualWeight }
    modify fun c => { c with stretch := c.stretch.set .vertical usualWeight }
  | pureStretching => do
    modify fun c => { c with stretch := c.stretch.set .horizontal usualWeight }
    modify fun c => { c with stretch := c.stretch.set .vertical usualWeight }
    modify fun c => { c with ignoreNatural := true }
  | ignoreNatural value => modify fun c => { c with ignoreNatural := value }
  | adjustment size => do
    let width ← check (length "desired width adjustment" size.width)
    let height ← check (length "desired height adjustment" size.height)
    modify fun c => { c with adjustment := c.adjustment.set .horizontal width }
    modify fun c => { c with adjustment := c.adjustment.set .vertical height }
  | marginAt side value => do
    let value ← check (length s!"{side.name} margin" value)
    modify fun c => { c with margins := c.margins.set side value }
  | marginsAlong axis value => do
    let value ← check (length s!"{axis.adjective} margin" value)
    modify fun c => { c with margins := c.margins.setAlong axis value }
  | margins value => do
    let value ← check (length "margin" value)
    modify fun c => { c with margins := c.margins.setAlong .horizontal value }
    modify fun c => { c with margins := c.margins.setAlong .vertical value }
  | spacingAlong axis value => do
    let value ← check (length s!"{axis.adjective} spacing" value)
    modify fun c => { c with spacing := c.spacing.set axis value }
  | spacing value => do
    let value ← check (length "spacing" value)
    modify fun c => { c with spacing := c.spacing.set .horizontal value }
    modify fun c => { c with spacing := c.spacing.set .vertical value }
  | hAlign alignment => modify fun c => { c with hAlign := some alignment }
  | vAlign alignment => modify fun c => { c with vAlign := some alignment }
  | clearAlignment => do
    modify fun c => { c with hAlign := none }
    modify fun c => { c with vAlign := none }
  | cells positioning => modify fun c => { c with cells := positioning }
  | name text => modify fun c => { c with name := some text }
  | logLayout value => modify fun c => { c with flags := c.flags.set .layout value }
  | flags switches => modify fun c => { c with flags := switches }

/-- The record after an edit, or why the edit is refused. -/
def apply (c : Constraints α) (e : Edit α) : Except (ValidationError α) (Constraints α) :=
  match e.perform c with
  | .ok _ c => .ok c
  | .error refusal _ => .error refusal

end Edit

namespace Constraints

/-- A record after a chain of edits, with the refusal that ended the chain, if one did. -/
structure Edited (α : Type) where
  record : Constraints α
  refusal : Option (ValidationError α)

/-- A chain of edits. It ends at the first refusal, and what has been written stays. -/
def edit (c : Constraints α) : List (Edit α) → Edited α
  | [] => ⟨c, none⟩
  | e :: edits =>
    match e.perform c with
    | .ok _ c => c.edit edits
    | .error refusal c => ⟨c, some refusal⟩

/-- The record itself if every field passes its check, otherwise the first failure: the four bounds,
their orders, then the other lengths. -/
def validated (c : Constraints α) : Except (ValidationError α) (Constraints α) := do
  let _ ← length "min width" c.min.width
  let _ ← length "min height" c.min.height
  let _ ← maximum "max width" c.max.width
  let _ ← maximum "max height" c.max.height
  ordered .horizontal c.min.width c.max.width
  ordered .vertical c.min.height c.max.height
  let _ ← length "horizontal stretch weight" c.stretch.horizontal
  let _ ← length "vertical stretch weight" c.stretch.vertical
  let _ ← length "desired width adjustment" c.adjustment.width
  let _ ← length "desired height adjustment" c.adjustment.height
  let _ ← length "left margin" c.margins.left
  let _ ← length "right margin" c.margins.right
  let _ ← length "top margin" c.margins.top
  let _ ← length "bottom margin" c.margins.bottom
  let _ ← length "horizontal spacing" c.spacing.horizontal
  let _ ← length "vertical spacing" c.spacing.vertical
  return c

end Constraints

end BoxLayout
