import BoxLayout.Wire.Geometry
import BoxLayout.Wire.Flags
import BoxLayout.Constraints.Edit

/-!
# Constraints as data

A record is an object of its fields. The bound that bounds nothing has no number and is written as
`null`, and so are an alignment and a name that are not set. Reading takes the standard value for a
missing field and ends with all the checks that edits make.

* `Unchecked` — a record as data, where a bound from above may be missing.
* `Unchecked.complete`, `Unchecked.checked` — the record that the data stand for, and the checks on it.
* `Constraints.toJson`, `Constraints.ofJson` — writing a record, and reading one.
-/

namespace BoxLayout

/-- The fields of a record as data, before any check. -/
structure Unchecked (α : Type) where
  min : Size α
  /-- The bounds from above, where there are any. -/
  max : Size (Option α)
  stretch : PerAxis α
  ignoreNatural : Bool
  adjustment : Size α
  margins : Edges α
  spacing : PerAxis α
  hAlign : Option HAlign
  vAlign : Option VAlign
  cells : CellPositioning
  name : Option String
  flags : DebugFlags
  deriving DecidableEq

namespace Unchecked

/-- What stands for the fields that are missing. -/
def standard : Unchecked Float32 where
  min := .zero
  max := ⟨none, none⟩
  stretch := .both Scalar.zero
  ignoreNatural := false
  adjustment := .zero
  margins := .zero
  spacing := .both Scalar.zero
  hAlign := none
  vAlign := none
  cells := .normal
  name := none
  flags := .off

/-- The record that the data stand for. A bound that is missing bounds nothing. -/
def complete (d : Unchecked Float32) : Constraints Float32 where
  min := d.min
  max := ⟨d.max.width.getD Scalar.infinity, d.max.height.getD Scalar.infinity⟩
  stretch := d.stretch
  ignoreNatural := d.ignoreNatural
  adjustment := d.adjustment
  margins := d.margins
  spacing := d.spacing
  hAlign := d.hAlign
  vAlign := d.vAlign
  cells := d.cells
  name := d.name
  flags := d.flags

/-- The record, if it passes all checks. -/
def checked (d : Unchecked Float32) : Except (ValidationError Float32) (Constraints Float32) :=
  d.complete.validated

def schema [NumberReader] : Schema (Unchecked Float32) where
  name := "UncheckedRecord"
  fields := [
    .single "min_width" (·.min.width) fun d v => { d with min := { d.min with width := v } },
    .of "max_width" (·.max.width) (fun d v => { d with max := { d.max with width := v } })
      (Json.ofOption Json.ofSingle) (Json.toOption Json.toSingle),
    .single "min_height" (·.min.height) fun d v => { d with min := { d.min with height := v } },
    .of "max_height" (·.max.height) (fun d v => { d with max := { d.max with height := v } })
      (Json.ofOption Json.ofSingle) (Json.toOption Json.toSingle),
    .single "h_stretch_weight" (·.stretch.horizontal)
      fun d v => { d with stretch := { d.stretch with horizontal := v } },
    .single "v_stretch_weight" (·.stretch.vertical)
      fun d v => { d with stretch := { d.stretch with vertical := v } },
    .of "ignore_natural_size" (·.ignoreNatural) (fun d v => { d with ignoreNatural := v })
      .bool Json.toBool,
    .single "desired_width_adjustment" (·.adjustment.width)
      fun d v => { d with adjustment := { d.adjustment with width := v } },
    .single "desired_height_adjustment" (·.adjustment.height)
      fun d v => { d with adjustment := { d.adjustment with height := v } },
    .single "left_margin" (·.margins.left)
      fun d v => { d with margins := { d.margins with left := v } },
    .single "right_margin" (·.margins.right)
      fun d v => { d with margins := { d.margins with right := v } },
    .single "top_margin" (·.margins.top)
      fun d v => { d with margins := { d.margins with top := v } },
    .single "bottom_margin" (·.margins.bottom)
      fun d v => { d with margins := { d.margins with bottom := v } },
    .single "h_spacing" (·.spacing.horizontal)
      fun d v => { d with spacing := { d.spacing with horizontal := v } },
    .single "v_spacing" (·.spacing.vertical)
      fun d v => { d with spacing := { d.spacing with vertical := v } },
    .of "h_align" (·.hAlign) (fun d v => { d with hAlign := v })
      (Json.ofOption fun a => .string a.name) (Json.toOption (Json.toVariant HAlign.named)),
    .of "v_align" (·.vAlign) (fun d v => { d with vAlign := v })
      (Json.ofOption fun a => .string a.name) (Json.toOption (Json.toVariant VAlign.named)),
    .of "cell_positioning" (·.cells) (fun d v => { d with cells := v })
      (fun p => .string p.name) (Json.toVariant CellPositioning.named),
    .of "debug_name" (·.name) (fun d v => { d with name := v })
      (Json.ofOption .string) (Json.toOption Json.toText),
    .of "debug_flags" (·.flags) (fun d v => { d with flags := v })
      DebugFlags.toJson DebugFlags.ofJson]
  base := .standard
  lenient := true

end Unchecked

namespace Constraints

/-- A bound from above as data: missing if it bounds nothing. -/
def bound? (value : Float32) : Option Float32 := if value.isInf then none else some value

/-- The fields of a record as data. -/
def unchecked (c : Constraints Float32) : Unchecked Float32 where
  min := c.min
  max := ⟨bound? c.max.width, bound? c.max.height⟩
  stretch := c.stretch
  ignoreNatural := c.ignoreNatural
  adjustment := c.adjustment
  margins := c.margins
  spacing := c.spacing
  hAlign := c.hAlign
  vAlign := c.vAlign
  cells := c.cells
  name := c.name
  flags := c.flags

def toJson [NumberReader] (c : Constraints Float32) : Json := Unchecked.schema.write c.unchecked

def ofJson [NumberReader] (v : Json) : Except WireError (Constraints Float32) := do
  match (← Unchecked.schema.read v).checked with
  | .ok c => return c
  | .error e => throw (.invalid e)

end Constraints

end BoxLayout
