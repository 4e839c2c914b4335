import Mathlib
import BoxLayout.Wire.Geometry
import BoxLayout.Proofs.Wire.Reading

/-!
# Figures and settings through text and back

A float that is no number is written as `null`, since the text has no word for it. Bounds read it back as
no bound, but a component of a figure has to be a number, and so has the tolerance of the settings. So
what is written of an unbounded size cannot be read again.

## The architecture

* **`Single.whenFinite`** — a result that waits for some floats to be numbers.
* **`Schema.ReadsTo.single`** — a float among the fields of a record, which waits for it.
* **`Schema.reload`** — a record that is written as text and read again.
* **`reload_figures`** — the result for figures and settings, with **`reload_unbounded`**, an unbounded
  size that is not read.
-/

namespace BoxLayout

open Json

/-! ## Floats -/

namespace Single

/-- A result for which some floats had to be read, and so had to be numbers. -/
def whenFinite {β : Type} (xs : List Float32) (result : β) : Except WireError β :=
  if ∀ x ∈ xs, Scalar.isFinite x = true then .ok result else .error (.wrongType .null .float)

variable {β γ : Type} {x : Float32} {xs : List Float32}

/-- Nothing is waited for. -/
theorem whenFinite_nil (result : β) : whenFinite [] result = .ok result := if_pos nofun

/-- A number does not hold up what comes after it. -/
theorem whenFinite_of_isFinite (h : Scalar.isFinite x = true) (result : β) :
    whenFinite (x :: xs) result = whenFinite xs result := by
  simp [whenFinite, h]

/-- The first float that is no number is the end. -/
theorem whenFinite_of_not_isFinite (h : Scalar.isFinite x = false) (result : β) :
    whenFinite (x :: xs) result = .error (.wrongType .null .float) := by
  simp [whenFinite, h]

/-- A float that is no number is written as `null`, and no float is read of that. -/
theorem toSingle_of_not_isFinite [NumberReader] (h : Scalar.isFinite x = false) :
    toSingle (Json.ofSingle x).respelled = .error (.wrongType .null .float) := by
  have hnull : Json.ofSingle x = .null := if_neg (Bool.not_eq_true _ ▸ h)
  rw [hnull]
  rfl

end Single

/-! ## Records -/

namespace Schema

open Single

variable {ρ : Type} {s : Schema ρ} {r base final : ρ} {fields : List (Field ρ)} {xs : List Float32}

/-- A float among the fields of a record. What is read after it waits for it as well. -/
theorem ReadsTo.single [NumberReader] (hreader : NumberReader.ReadsBack) {key : String}
    {get : ρ → Float32} {set : ρ → Float32 → ρ}
    (h : ReadsTo r fields (set base (get r)) (whenFinite xs final)) :
    ReadsTo r (.single key get set :: fields) base (whenFinite (get r :: xs) final) := by
  cases hfinite : Scalar.isFinite (get r) with
  | true =>
    rw [whenFinite_of_isFinite hfinite]
    exact .of (comesBack_single hreader hfinite) h
  -- the float is read first, so its error is that of the whole
  | false =>
    rw [whenFinite_of_not_isFinite hfinite]
    refine ⟨List.forall_mem_cons.mpr ⟨plain_ofSingle (get r), h.plain⟩, ?_⟩
    rw [readBack, List.foldlM_cons]
    show (toSingle (Json.ofSingle (get r)).respelled).map (set base) >>= _ = _
    rw [toSingle_of_not_isFinite hfinite]
    rfl

/-- A record that is written as text and read again. -/
def reload (s : Schema ρ) (r : ρ) : Option (Except WireError ρ) :=
  (Json.read? (s.write r).text).map s.read

/-- **A record comes back as its fields do**, if they have different names. -/
theorem reload_eq {result : Except WireError ρ} (h : ReadsTo r s.fields s.base result)
    (hkeys : (s.fields.map Field.key).Nodup) : s.reload r = some result := by
  obtain ⟨v, hv, hread⟩ := h.read hkeys
  rw [reload, hv, Option.map_some, hread]

end Schema

/-! ## Figures and settings -/

section Figures

open Schema Single

variable [NumberReader] (hreader : NumberReader.ReadsBack)

include hreader

/-- The coordinates are read one after the other. -/
theorem Point.reload_eq (p : Point Float32) : Point.schema.reload p = some (whenFinite [p.x, p.y] p) :=
  Schema.reload_eq (.single hreader (.single hreader (whenFinite_nil p ▸ .nil)))
    (show ["x", "y"].Nodup by decide)

theorem Size.reload_eq (s : Size Float32) :
    Size.schema.reload s = some (whenFinite [s.width, s.height] s) :=
  Schema.reload_eq (.single hreader (.single hreader (whenFinite_nil s ▸ .nil)))
    (show ["width", "height"].Nodup by decide)

theorem Rect.reload_eq (r : Rect Float32) :
    Rect.schema.reload r = some (whenFinite [r.x, r.y, r.width, r.height] r) :=
  Schema.reload_eq (.single hreader (.single hreader (.single hreader (.single hreader
    (whenFinite_nil r ▸ .nil))))) (show ["x", "y", "width", "height"].Nodup by decide)

theorem Edges.reload_eq (e : Edges Float32) :
    Edges.schema.reload e = some (whenFinite [e.top, e.right, e.bottom, e.left] e) :=
  Schema.reload_eq (.single hreader (.single hreader (.single hreader (.single hreader
    (whenFinite_nil e ▸ .nil))))) (show ["top", "right", "bottom", "left"].Nodup by decide)

/-- Only the tolerance of the settings is waited for; the count and the switch come back always. -/
theorem Settings.reload_eq (epsilon : Float32) (maxPasses : UInt64) (tracePasses : Bool) :
    Settings.schema.reload ⟨epsilon, maxPasses.toNat, tracePasses⟩ =
      some (whenFinite [epsilon] ⟨epsilon, maxPasses.toNat, tracePasses⟩) :=
  Schema.reload_eq
    (.single hreader (whenFinite_nil (⟨epsilon, maxPasses.toNat, tracePasses⟩ : Settings Float32) ▸
      .of (comesBack_count maxPasses) (.of (comesBack_bool tracePasses) .nil)))
    (show ["epsilon", "max_distribution_passes", "trace_passes"].Nodup by decide)

/-- **Figures and settings are read back just if all their floats are numbers**, and then just as they
were. A float that is no number, infinite or not, was written as `null`, and no float is read of that. -/
theorem reload_figures (p : Point Float32) (s : Size Float32) (r : Rect Float32) (e : Edges Float32)
    (epsilon : Float32) (maxPasses : UInt64) (tracePasses : Bool) :
    Point.schema.reload p = some (whenFinite [p.x, p.y] p) ∧
    Size.schema.reload s = some (whenFinite [s.width, s.height] s) ∧
    Rect.schema.reload r = some (whenFinite [r.x, r.y, r.width, r.height] r) ∧
    Edges.schema.reload e = some (whenFinite [e.top, e.right, e.bottom, e.left] e) ∧
    Settings.schema.reload ⟨epsilon, maxPasses.toNat, tracePasses⟩ =
      some (whenFinite [epsilon] ⟨epsilon, maxPasses.toNat, tracePasses⟩) :=
  ⟨p.reload_eq hreader, s.reload_eq hreader, r.reload_eq hreader, e.reload_eq hreader,
    Settings.reload_eq hreader epsilon maxPasses tracePasses⟩

end Figures

/-- A point whose numbers are written with an exponent and with a sign, and the usual settings. -/
theorem reload_usual :
    let p : Point Float32 := ⟨Float32.ofBits 0x15AE43FD, Float32.ofBits 0xC0A00000⟩
    Point.schema.reload p = some (.ok p) ∧
      Settings.schema.reload Settings.standard = some (.ok Settings.standard) := by
  intro p
  obtain ⟨hpoint, -, -, -, hsettings⟩ :=
    reload_figures Single.readsBack_quotient p Size.zero Rect.zero Edges.zero
      Settings.standard.epsilon 32 Settings.standard.tracePasses
  exact ⟨hpoint.trans (congrArg some (if_pos (by decide +kernel))),
    hsettings.trans (congrArg some (if_pos (by decide +kernel)))⟩

/-- The size that bounds nothing is written, and cannot be read again. -/
theorem reload_unbounded :
    (Size.schema.write Size.unbounded).text = "\x7b\"width\":null,\"height\":null\x7d" ∧
      Size.schema.reload Size.unbounded = some (.error (.wrongType .null .float)) := by
  refine ⟨by decide +kernel, ?_⟩
  rw [Size.reload_eq Single.readsBack_quotient]
  exact congrArg some (if_neg (by decide +kernel))

end BoxLayout
