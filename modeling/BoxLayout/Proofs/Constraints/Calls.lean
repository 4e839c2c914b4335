import BoxLayout.Proofs.Constraints.Valid
import BoxLayout.Proofs.Scalar.Single

/-!
# Sequences of edits

A host edits a record for as long as the record lives, and goes on after a refusal with the record
that the refusal left. Whatever the sequence, the record stays valid, an accepted edit writes the
fields it names and no others, and a refused edit writes none.

## The architecture

* **`Constraints.Field`**, **`Constraints.entry`** — a record field by field, each switch of its
  diagnostics a field of its own. `entry_injective` says that nothing is left out.
* **`Edit.assigns`** — the fields an edit names, with what it says about them.
* **`Edit.entry_perform`** — an accepted edit writes those, and keeps every other field.
* **`Constraints.after`**, **`Valid.after`** — a sequence that goes on after refusals.
* **`validated_eq_ok_iff`** — the checks of a whole record accept just the valid ones.
* **`edits_of_standard`** — what every record that edits lead to satisfies, and what its next edit
  does.
-/

namespace BoxLayout

/-! ## A record by its fields -/

/-- Whether a switch is on. -/
def DebugFlags.test (flags : DebugFlags) (bit : Fin 8) : Bool := flags.bits.toBitVec[bit]

theorem DebugFlags.test_injective {flags others : DebugFlags}
    (h : ∀ bit, flags.test bit = others.test bit) : flags = others := by
  obtain ⟨⟨bits⟩⟩ := flags
  obtain ⟨⟨others⟩⟩ := others
  have hbits : bits = others := BitVec.eq_of_getElem_eq fun i hi => h ⟨i, hi⟩
  rw [hbits]

/-- Setting the layout switch leaves the other switches alone. -/
theorem DebugFlags.test_set_layout (flags : DebugFlags) (value : Bool) (bit : Fin 8) :
    (flags.set .layout value).test bit = if bit = 0 then value else flags.test bit := by
  obtain ⟨⟨bits⟩⟩ := flags
  cases value
  case false =>
    show (bits &&& ~~~1#8)[bit] = _
    fin_cases bit <;> simp [test]
  case true =>
    show (bits ||| 1#8)[bit] = _
    fin_cases bit <;> simp [test, BitVec.getElem_one]

namespace Constraints

/-- The fields of a record. -/
inductive Field where
  | min (axis : Axis)
  | max (axis : Axis)
  | stretch (axis : Axis)
  | ignoreNatural
  | adjustment (axis : Axis)
  | margin (side : Side)
  | spacing (axis : Axis)
  | hAlign
  | vAlign
  | cells
  | name
  /-- One switch of the diagnostics. -/
  | switch (bit : Fin 8)
  deriving DecidableEq

/-- What a field holds. -/
inductive Entry (α : Type) where
  | length (value : α)
  | switch (value : Bool)
  | hAlign (alignment : Option HAlign)
  | vAlign (alignment : Option VAlign)
  | cells (positioning : CellPositioning)
  | name (text : Option String)

/-- Case by case down to the single axis and side. -/
theorem Field.cases_each {P : Field → Prop} (f : Field)
    (minWidth : P (.min .horizontal)) (minHeight : P (.min .vertical))
    (maxWidth : P (.max .horizontal)) (maxHeight : P (.max .vertical))
    (stretchHorizontal : P (.stretch .horizontal)) (stretchVertical : P (.stretch .vertical))
    (ignoreNatural : P .ignoreNatural)
    (adjustmentWidth : P (.adjustment .horizontal)) (adjustmentHeight : P (.adjustment .vertical))
    (marginTop : P (.margin .top)) (marginRight : P (.margin .right))
    (marginBottom : P (.margin .bottom)) (marginLeft : P (.margin .left))
    (spacingHorizontal : P (.spacing .horizontal)) (spacingVertical : P (.spacing .vertical))
    (hAlign : P .hAlign) (vAlign : P .vAlign) (cells : P .cells) (name : P .name)
    (switch : ∀ bit, P (.switch bit)) : P f := by
  rcases f with (_ | _) | (_ | _) | (_ | _) | _ | (_ | _) | (_ | _ | _ | _) | (_ | _) |
    _ | _ | _ | _ | _ <;> first | assumption | exact switch _

variable {α : Type}

def entry (c : Constraints α) : Field → Entry α
  | .min axis => .length (c.min.along axis)
  | .max axis => .length (c.max.along axis)
  | .stretch axis => .length (c.stretch.along axis)
  | .ignoreNatural => .switch c.ignoreNatural
  | .adjustment axis => .length (c.adjustment.along axis)
  | .margin side => .length (c.margins.get side)
  | .spacing axis => .length (c.spacing.along axis)
  | .hAlign => .hAlign c.hAlign
  | .vAlign => .vAlign c.vAlign
  | .cells => .cells c.cells
  | .name => .name c.name
  | .switch bit => .switch (c.flags.test bit)

/-- A record is no more than its fields. -/
theorem entry_injective {c c' : Constraints α} (h : ∀ f, c.entry f = c'.entry f) : c = c' := by
  have hmin : c.min = c'.min := Size.ext_along fun axis => Entry.length.inj (h (.min axis))
  have hmax : c.max = c'.max := Size.ext_along fun axis => Entry.length.inj (h (.max axis))
  have hstretch : c.stretch = c'.stretch :=
    PerAxis.ext_along fun axis => Entry.length.inj (h (.stretch axis))
  have hignore : c.ignoreNatural = c'.ignoreNatural := Entry.switch.inj (h .ignoreNatural)
  have hadjustment : c.adjustment = c'.adjustment :=
    Size.ext_along fun axis => Entry.length.inj (h (.adjustment axis))
  have hmargins : c.margins = c'.margins :=
    Edges.ext_get fun side => Entry.length.inj (h (.margin side))
  have hspacing : c.spacing = c'.spacing :=
    PerAxis.ext_along fun axis => Entry.length.inj (h (.spacing axis))
  have hflags : c.flags = c'.flags :=
    DebugFlags.test_injective fun bit => Entry.switch.inj (h (.switch bit))
  cases c
  cases c'
  congr
  · exact Entry.hAlign.inj (h .hAlign)
  · exact Entry.vAlign.inj (h .vAlign)
  · exact Entry.cells.inj (h .cells)
  · exact Entry.name.inj (h .name)

end Constraints

/-! ## What an edit says -/

namespace Edit

open Constraints

variable {α : Type}

/-- The same said about the fields of both axes. -/
def bothAxes (field : Axis → Field) (entry : Axis → Entry α) : List (Field × Entry α) :=
  [(field .horizontal, entry .horizontal), (field .vertical, entry .vertical)]

/-- The fields that an edit names, each with what the edit says about it. -/
def assigns [Scalar α] : Edit α → List (Field × Entry α)
  | minExtent axis value => [(.min axis, .length value)]
  | maxExtent axis value => [(.max axis, .length value)]
  | minSize size => bothAxes .min fun axis => .length (size.along axis)
  | maxSize size => bothAxes .max fun axis => .length (size.along axis)
  | fixedExtent axis value => [(.min axis, .length value), (.max axis, .length value)]
  | fixedSize size =>
    (bothAxes .min fun axis => .length (size.along axis)) ++
      bothAxes .max fun axis => .length (size.along axis)
  | stretchAlong axis weight => [(.stretch axis, .length weight)]
  | stretchWeight weight => bothAxes .stretch fun _ => .length weight
  | stretching => bothAxes .stretch fun _ => .length usualWeight
  | pureStretching =>
    (.ignoreNatural, .switch true) :: bothAxes .stretch fun _ => .length usualWeight
  | ignoreNatural value => [(.ignoreNatural, .switch value)]
  | adjustment size => bothAxes .adjustment fun axis => .length (size.along axis)
  | marginAt side value => [(.margin side, .length value)]
  | marginsAlong .horizontal value =>
    [(.margin .left, .length value), (.margin .right, .length value)]
  | marginsAlong .vertical value =>
    [(.margin .top, .length value), (.margin .bottom, .length value)]
  | margins value =>
    [.left, .right, .top, .bottom].map fun side => (.margin side, .length value)
  | spacingAlong axis value => [(.spacing axis, .length value)]
  | spacing value => bothAxes .spacing fun _ => .length value
  | hAlign alignment => [(.hAlign, .hAlign (some alignment))]
  | vAlign alignment => [(.vAlign, .vAlign (some alignment))]
  | clearAlignment => [(.hAlign, .hAlign none), (.vAlign, .vAlign none)]
  | cells positioning => [(.cells, .cells positioning)]
  | name text => [(.name, .name (some text))]
  | logLayout value => [(.switch 0, .switch value)]
  | flags switches => (List.finRange 8).map fun bit => (.switch bit, .switch (switches.test bit))

variable [Scalar α] [Scalar.Rounded α]

/-- **An accepted edit writes what it says, and nothing else.** The checks yield the very values
they are given, so what is left of the edit are its writes, and these are compared field by field. -/
theorem entry_perform {e : Edit α} {c c' : Constraints α} (h : e.perform c = .ok () c')
    (f : Field) : c'.entry f = (e.assigns.lookup f).getD (c.entry f) := by
  cases e <;>
    simp only [perform, Editing.bind_eq_ok_iff, Editing.check_eq_ok_iff,
      Editing.get_eq_ok_iff, Editing.modify_eq_ok_iff, length_eq_ok_iff, maximum_eq_ok_iff,
      and_assoc, exists_and_left, exists_eq_left, exists_const] at h
  case logLayout value =>
    subst h
    cases f <;> try rfl
    case switch bit =>
      simp only [entry, DebugFlags.test_set_layout]
      fin_cases bit <;> rfl
  case flags switches =>
    subst h
    cases f <;> try rfl
    case switch bit => fin_cases bit <;> rfl
  -- edits along one axis or at one side
  case minExtent axis _ | maxExtent axis _ =>
    obtain ⟨-, -, -, rfl⟩ := h
    cases axis <;> cases f using Field.cases_each <;> rfl
  case fixedExtent axis _ | stretchAlong axis _ | marginsAlong axis _ | spacingAlong axis _ =>
    obtain ⟨-, rfl⟩ := h
    cases axis <;> cases f using Field.cases_each <;> rfl
  case marginAt side _ =>
    obtain ⟨-, rfl⟩ := h
    cases side <;> cases f using Field.cases_each <;> rfl
  -- edits of all axes and sides
  case minSize | maxSize =>
    obtain ⟨-, -, -, -, -, -, rfl⟩ := h
    cases f using Field.cases_each <;> rfl
  case fixedSize | adjustment =>
    obtain ⟨-, -, rfl⟩ := h
    cases f using Field.cases_each <;> rfl
  case stretchWeight | margins | spacing =>
    obtain ⟨-, rfl⟩ := h
    cases f using Field.cases_each <;> rfl
  -- the other edits check nothing
  all_goals
    subst h
    cases f using Field.cases_each <;> rfl

end Edit

/-! ## Sequences of edits -/

namespace Constraints

variable {α : Type} [Scalar α]

/-- The record after some edits, where each is made on what the one before it left, accepted or
refused. -/
def after (c : Constraints α) : List (Edit α) → Constraints α
  | [] => c
  | e :: edits =>
    match e.perform c with
    | .ok _ c => c.after edits
    | .error _ c => c.after edits

variable [Scalar.Rounded α]

theorem Valid.after {c : Constraints α} (h : c.Valid) (edits : List (Edit α)) :
    (c.after edits).Valid := by
  induction edits generalizing c with
  | nil => exact h
  | cons e edits ih =>
    unfold Constraints.after
    split
    case h_1 c' hok => exact ih (h.perform hok)
    case h_2 refusal left hrefused =>
      rw [e.atomic_perform c left refusal hrefused]
      exact ih h

/-! ## All checks at once -/

theorem Valid.zero_le_max {c : Constraints α} (h : c.Valid) (axis : Axis) :
    Scalar.zero ≤ c.max.along axis :=
  Scalar.le_trans (h.zero_le_min axis) (h.min_le_max axis)

theorem ordered_of_le {axis : Axis} {m M : α} (h : m ≤ M) : ordered axis m M = .ok () :=
  if_neg (Scalar.not_lt_of_le h)

/-- **The checks accept the valid records**, and leave them as they are. -/
theorem validated_eq_ok_iff {c c' : Constraints α} : c.validated = .ok c' ↔ c.Valid ∧ c' = c := by
  simp only [validated, Except.bind_eq_ok_iff, length_eq_ok_iff, maximum_eq_ok_iff, and_assoc,
    exists_and_left, exists_eq_left]
  constructor
  · rintro ⟨hminW, hminH, hmaxW, hmaxH, _, hordW, _, hordH, hstretchX, hstretchY, hadjW, hadjH,
      hleft, hright, htop, hbottom, hspacingX, hspacingY, hc⟩
    have hleW := le_of_ordered (isNaN_of_isExtent hminW) (Scalar.not_isNaN_of_le hmaxW).2 hordW
    have hleH := le_of_ordered (isNaN_of_isExtent hminH) (Scalar.not_isNaN_of_le hmaxH).2 hordH
    refine ⟨?_, (Except.ok.inj hc).symm⟩
    constructor <;> intro place <;> cases place <;> assumption
  · rintro ⟨h, rfl⟩
    exact ⟨h.min_isExtent .horizontal, h.min_isExtent .vertical, h.zero_le_max .horizontal,
      h.zero_le_max .vertical, (), ordered_of_le (h.min_le_max .horizontal), (),
      ordered_of_le (h.min_le_max .vertical), h.stretch_isExtent .horizontal,
      h.stretch_isExtent .vertical, h.adjustment_isExtent .horizontal,
      h.adjustment_isExtent .vertical, h.margin_isExtent .left, h.margin_isExtent .right,
      h.margin_isExtent .top, h.margin_isExtent .bottom, h.spacing_isExtent .horizontal,
      h.spacing_isExtent .vertical, rfl⟩

end Constraints

/-- **Whatever edits the usual record has been through**, accepted or refused, it is valid, and the
checks of a whole record yield it unchanged. The next edit writes the fields it names and no others
if it is accepted, and nothing if it is refused. -/
theorem edits_of_standard (edits : List (Edit Float32)) (e : Edit Float32) :
    let c := Constraints.standard.after edits
    c.Valid ∧
      (∀ axis, Scalar.isNaN (c.max.along axis) = false ∧ Scalar.zero ≤ c.max.along axis) ∧
      c.validated = .ok c ∧
      (∀ c', e.perform c = .ok () c' → ∀ f, c'.entry f = (e.assigns.lookup f).getD (c.entry f)) ∧
      ∀ left refusal, e.perform c = .error refusal left → left = c := by
  intro c
  have hc : c.Valid := Constraints.standard_valid.after edits
  exact ⟨hc, fun axis => ⟨hc.max_isNaN axis, hc.zero_le_max axis⟩,
    Constraints.validated_eq_ok_iff.mpr ⟨hc, rfl⟩,
    fun c' hok => Edit.entry_perform hok, e.atomic_perform c⟩

/-- The second edit is refused, for the bounds would not be in order. The next one is accepted, and writes
both extents. -/
example :
    let c : Constraints Float32 :=
      Constraints.standard.after [.maxExtent .horizontal 40, .minExtent .horizontal 50]
    c.min = .zero ∧ (Edit.minSize ⟨5, 7⟩).perform c = .ok () { c with min := ⟨5, 7⟩ } :=
  ⟨rfl, rfl⟩

end BoxLayout
