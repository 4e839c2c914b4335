import Mathlib
import BoxLayout.Wire.Constraints
import BoxLayout.Proofs.Constraints.Calls
import BoxLayout.Proofs.Wire.Constraints
import BoxLayout.Proofs.Wire.Reading

/-!
# Constraints through text and back

A record that edits have built is saved as text and read again. If the reader of numbers gives floats back,
every field comes back as it was: lengths, bounds that bound nothing, alignments that are set and those
that are not, names of any characters, and switches without a name.

## The architecture

* **`bound?_cases`** — a bound is a number, or bounds nothing; **`complete_unchecked`** — so the data that
  are written of a valid record stand for it.
* **`comesBack_bound`**, **`readsTo_unchecked`** — the fields of a valid record come back as data.
* **`ofJson_text`**, **`reread_after`** — so it is what is read.
-/

namespace BoxLayout

open Json

/-! ## Bounds -/

namespace Single

variable {x : Float32}

/-- A number is not infinite. -/
theorem isInf_of_isFinite (h : Scalar.isFinite x = true) : x.isInf = false := by
  change x.toModel.unpack.isFinite = true at h
  change x.toModel.unpack.isInf = false
  cases hu : x.toModel.unpack with rw [hu] at h
  | infinity s => nomatch h
  | _ => rfl

/-- A bound is a number, or bounds nothing. -/
theorem eq_infinity_of_not_isFinite (hx : Scalar.zero ≤ x) (h : Scalar.isFinite x = false) :
    x = Scalar.infinity := by
  refine eq_infinity_of_value_eq ?_
  have hle : Scalar.Rounded.value (Scalar.zero : Float32) ≤ Scalar.Rounded.value x :=
    Scalar.Rounded.le_iff.mp hx
  change Exact.finite 0 ≤ value x at hle
  have hno : ¬ ∃ q, value x = .finite q := fun hq =>
    Bool.false_ne_true (h.symm.trans (Scalar.Rounded.isFinite_iff.mpr hq))
  -- it is not below zero, which leaves infinity
  cases hvalue : value x with
  | finite q => exact absurd ⟨q, hvalue⟩ hno
  | infinity => rfl
  | negInfinity => rw [hvalue] at hle; nomatch hle
  | nan => rw [hvalue] at hle; nomatch hle

end Single

namespace Constraints

variable {c : Constraints Float32}

/-- A bound as data is a number; where there is none, nothing is bound. -/
theorem bound?_cases {value : Float32} (h : Scalar.zero ≤ value) :
    value.isFinite = true ∧ bound? value = some value ∨
      value = Scalar.infinity ∧ bound? value = none := by
  cases hfinite : Scalar.isFinite value with
  | true => exact Or.inl ⟨hfinite, if_neg (by rw [Single.isInf_of_isFinite hfinite]; decide)⟩
  | false =>
    obtain rfl := Single.eq_infinity_of_not_isFinite h hfinite
    exact Or.inr ⟨rfl, if_pos (by decide +kernel)⟩

/-- A bound is what is put for it as data, with infinity where nothing is. -/
theorem getD_bound? {value : Float32} (h : Scalar.zero ≤ value) :
    (bound? value).getD Scalar.infinity = value := by
  rcases bound?_cases h with ⟨-, hbound⟩ | ⟨rfl, hbound⟩
  · rw [hbound, Option.getD_some]
  · rw [hbound, Option.getD_none]

/-- The data that are written of a valid record stand for it. -/
theorem complete_unchecked (h : c.Valid) : c.unchecked.complete = c := by
  have hwidth : (bound? c.max.width).getD Scalar.infinity = c.max.width :=
    getD_bound? (h.zero_le_max .horizontal)
  have hheight : (bound? c.max.height).getD Scalar.infinity = c.max.height :=
    getD_bound? (h.zero_le_max .vertical)
  -- but for the bounds from above both sides have the same fields
  simp only [Unchecked.complete, unchecked, hwidth, hheight]

/-! ## The fields of a record -/

section Fields

/-- An alignment that is set comes back by its name, and one that is not as `null`. -/
theorem comesBack_hAlign (value : Option HAlign) :
    ComesBack (toOption (toVariant HAlign.named)) (ofOption (fun a => .string a.name) value) value :=
  comesBack_option fun a _ => ⟨comesBack_name (fun a => by cases a <;> rfl) a, nofun⟩

theorem comesBack_vAlign (value : Option VAlign) :
    ComesBack (toOption (toVariant VAlign.named)) (ofOption (fun a => .string a.name) value) value :=
  comesBack_option fun a _ => ⟨comesBack_name (fun a => by cases a <;> rfl) a, nofun⟩

/-- A choice of cells comes back by its name. -/
theorem comesBack_cells (p : CellPositioning) :
    ComesBack (toVariant CellPositioning.named) (.string p.name) p :=
  comesBack_name (fun p => by cases p <;> rfl) p

/-- A name of any characters comes back, and so does its absence. -/
theorem comesBack_name? (value : Option String) :
    ComesBack (toOption toText) (ofOption .string value) value :=
  comesBack_option fun s _ => ⟨comesBack_text s, nofun⟩

variable [NumberReader]

variable (hreader : NumberReader.ReadsBack)

include hreader

/-- A length of a valid record is a number, so it comes back. -/
theorem comesBack_length {x : Float32} (h : Scalar.isExtent x = true) :
    ComesBack toSingle (Json.ofSingle x) x :=
  comesBack_single hreader (Scalar.isExtent_iff.mp h).1

/-- A bound comes back: a number as itself, and no bound as `null`. -/
theorem comesBack_bound {value : Float32} (h : Scalar.zero ≤ value) :
    ComesBack (toOption toSingle) (ofOption Json.ofSingle (bound? value)) (bound? value) := by
  refine comesBack_option fun x hx => ?_
  rcases bound?_cases h with ⟨hfinite, hbound⟩ | ⟨-, hbound⟩
  · obtain rfl := Option.some.inj (hbound.symm.trans hx)
    refine ⟨comesBack_single hreader hfinite, ?_⟩
    rw [ofSingle_of_isFinite hfinite]
    nofun
  · -- what bounds nothing is not written as a number
    exact absurd (hbound.symm.trans hx) nofun

/-- **What is written of a valid record comes back as data**, field by field. -/
theorem readsTo_unchecked (h : c.Valid) :
    Schema.ReadsTo c.unchecked Unchecked.schema.fields Unchecked.schema.base (.ok c.unchecked) := by
  have hlength {x : Float32} (hx : Scalar.isExtent x = true) := comesBack_length hreader hx
  have hbound (axis : Axis) := comesBack_bound hreader (h.zero_le_max axis)
  -- in the order of the fields, each read into what has been read before
  refine .of (hlength (h.min_isExtent .horizontal)) (.of (hbound .horizontal) ?_)
  refine .of (hlength (h.min_isExtent .vertical)) (.of (hbound .vertical) ?_)
  refine .of (hlength (h.stretch_isExtent .horizontal)) ?_
  refine .of (hlength (h.stretch_isExtent .vertical)) (.of (comesBack_bool _) ?_)
  refine .of (hlength (h.adjustment_isExtent .horizontal)) ?_
  refine .of (hlength (h.adjustment_isExtent .vertical)) ?_
  refine .of (hlength (h.margin_isExtent .left)) (.of (hlength (h.margin_isExtent .right)) ?_)
  refine .of (hlength (h.margin_isExtent .top)) (.of (hlength (h.margin_isExtent .bottom)) ?_)
  refine .of (hlength (h.spacing_isExtent .horizontal)) ?_
  refine .of (hlength (h.spacing_isExtent .vertical)) ?_
  refine .of (comesBack_hAlign c.hAlign) (.of (comesBack_vAlign c.vAlign) ?_)
  refine .of (comesBack_cells c.cells) (.of (comesBack_name? c.name) ?_)
  exact .of (DebugFlags.comesBack c.flags) .nil

/-! ## The whole record -/

/-- **A valid record is read back from its text.** -/
theorem ofJson_text (h : c.Valid) : (Json.read? c.toJson.text).map ofJson = some (.ok c) := by
  obtain ⟨v, hv, hread⟩ := (readsTo_unchecked hreader h).read Unchecked.nodup_keys
  -- the checks at the end of reading are those that a valid record passes
  have hchecked : c.unchecked.checked = .ok c := by
    rw [Unchecked.checked, complete_unchecked h]
    exact validated_eq_ok_iff.mpr ⟨h, rfl⟩
  rw [toJson, hv, Option.map_some, ofJson, hread]
  simp only [bind, Except.bind, hchecked]
  rfl

end Fields

/-- **Whatever edits have built is read back from its text**, always with success and with every field as
it was: lengths, bounds that bound nothing, alignments set and unset, names of any characters, and switches
with and without a name. All that is asked of the reader of numbers is that it gives floats back. -/
theorem reread_after [NumberReader] (hreader : NumberReader.ReadsBack) (edits : List (Edit Float32)) :
    let c := standard.after edits
    (Json.read? c.toJson.text).map ofJson = some (.ok c) :=
  ofJson_text hreader (standard_valid.after edits)

/-- Edits with a length whose digits lie next to a midpoint, a bound, a name and switches of all kinds. -/
def intricate : List (Edit Float32) :=
  [.minExtent .horizontal (Float32.ofBits 0x15AE43FD), .maxExtent .vertical (Float32.ofBits 0x42200000),
    .hAlign .center, .name "a \"b\"\n", .flags ⟨0xF5⟩]

/-- The record is built, and read back by a reader that computes in 64 bits. -/
theorem reread_intricate :
    NumberReader.ReadsBack ∧ (standard.after intricate).min.width = Float32.ofBits 0x15AE43FD ∧
      (Json.read? (standard.after intricate).toJson.text).map ofJson =
        some (.ok (standard.after intricate)) :=
  ⟨Single.readsBack_quotient, by decide +kernel, reread_after Single.readsBack_quotient intricate⟩

end Constraints

end BoxLayout
