import BoxLayout.Proofs.Layout.TwoRuns

/-!
# Passes do not read frames

Measuring and placing read constraints, containers, contents and declared origins. A frame is only
ever written, unless a host's measurer looks at it. So what a pass decides about a view is the same
before and after other frames have been written: the two are runs over like trees, compared by
equality.

## The architecture

* **`Comparison.same`** — equal lengths and the same axes. What is alike is equal then
  (`Rect.Alike.eq`, `Attempt.Alike.eq`).
* **`Measurer.IgnoresFrames`** — what must be asked of a measurer.
* **`Pass.placements_congr`**, **`Pass.visit_congr`** — placing and visiting give the same on trees
  that agree but for frames.
-/

namespace BoxLayout

open Scalar

variable {α : Type} [Scalar α]

/-! ## Equality -/

/-- Runs that are compared by equality. -/
def Comparison.same : Comparison α where
  toLikeness := Likeness.equal
  turn axis := axis
  turn_cross _ := rfl

/-- Equality does not turn the axes, so it is fair whatever its likeness is. -/
theorem Comparison.same_fair : (Comparison.same : Comparison α).Fair := Or.inl fun _ => rfl

/-- What is alike by equality is equal: sizes, points, rectangles, places and attempts. -/
theorem Size.Alike.eq {s s' : Size α} (h : s.Alike .same s') : s = s' := Size.ext_along h

theorem Point.Alike.eq {p p' : Point α} (h : p.Alike .same p') : p = p' := Point.ext_along h

theorem Rect.Alike.eq {r r' : Rect α} (h : r.Alike .same r') : r = r' := by
  have horigin := h.origin.eq
  have hsize := h.size.eq
  cases r
  cases r'
  -- the two halves of a rectangle, back to its four numbers
  simp only [Rect.origin, Rect.size, Point.mk.injEq, Size.mk.injEq] at horigin hsize
  rw [horigin.1, horigin.2, hsize.1, hsize.2]

theorem eq_of_placementsAlike {places places' : List (Placement α)}
    (h : List.Forall₂ (PlacementAlike .same) places places') : places = places' := by
  rw [← List.forall₂_eq_eq_eq]
  exact h.imp fun _ _ hplace => Prod.ext hplace.id hplace.frame.eq

/-- A comparison that does not turn the axes keeps the axis an error names, and so all of the error. -/
theorem LayoutError.Alike.eq {e e' : LayoutError ViewId α} (h : e.Alike .same e') : e = e' := by
  cases h with
  -- no axis is turned here, so the one that was refused is the same one
  | extent kept =>
    obtain ⟨haxis, hvalue⟩ := kept fun _ => rfl
    rw [haxis, show _ = _ from hvalue]
  | content hcontent => rw [hcontent.eq]
  | same => rfl

theorem Attempt.Alike.eq {β : Type} {R : β → β → Prop} {x y : Attempt α β}
    (h : Attempt.Alike .same R x y) (hR : ∀ b c, R b c → b = c) : x = y := by
  cases h with
  | ok hbc => rw [hR _ _ hbc]
  | error hee => rw [hee.eq]

/-- A view is like itself, whatever has become of its frame. -/
theorem View.Alike.refl (v : View α) : v.Alike .same v where
  constraints := ⟨fun _ => rfl, fun _ => rfl, fun _ => rfl, rfl, fun _ => rfl,
    ⟨fun _ => rfl, fun _ => rfl⟩, fun _ => rfl, fun _ => rfl, rfl⟩
  container := by
    show v.container.axis? = v.container.axis?.map fun axis => axis
    rw [Option.map_id']
  contentSize _ := rfl
  declaredOrigin _ := rfl
  children := rfl

/-! ## Trees that agree but for frames -/

/-- The sizes that a measurer reports do not depend on frames. -/
def Measurer.IgnoresFrames (m : Measurer α) : Prop :=
  ∀ id v frame proposed, m id { v with frame } proposed = m id v proposed

omit [Scalar α] in
theorem Measurer.ignoresFrames_stored : (Measurer.stored : Measurer α).IgnoresFrames :=
  fun _ _ _ _ => rfl

variable {e : Engine α} {t r : ViewTree α}

/-- An engine goes over trees that agree but for frames as over like trees. -/
theorem RunsAlike.of_sameButFrames (hm : e.measurer.IgnoresFrames) (htree : t.SameButFrames r) :
    RunsAlike .same e t e r where
  views id := by
    rcases htree.get?_cases id with ⟨ht, hr⟩ | ⟨v, frame, ht, hr⟩ <;> rw [ht, hr]
    · exact .none
    · -- the measurer sees two frames, and its answer depends on neither
      refine .some ⟨(View.Alike.refl v).reframe v.frame frame, ?_⟩
      intro frame frame' proposed proposed' hproposed
      rw [hproposed.eq, hm, hm id v frame']
      exact fun _ => rfl
  epsilon := rfl
  maxPasses := rfl

namespace Pass

/-- A container gives its children the same places, whatever frames they had. -/
theorem placements_congr (hm : e.measurer.IgnoresFrames) (htree : t.SameButFrames r)
    (kind : Container) (v : View α) (frame : Rect α) (children : Forest) (bounds : Size α) :
    ((e.pass t).placements kind v children bounds).outcome =
      ((e.pass r).placements kind { v with frame } children bounds).outcome := by
  have hkind : kind.axis? = kind.axis?.map fun axis => axis := Option.map_id'.symm
  refine (placements_alike Comparison.same_fair (.of_sameButFrames hm htree) hkind
    ((View.Alike.refl v).reframe v.frame frame) children fun _ => rfl).eq ?_
  exact fun _ _ => eq_of_placementsAlike

/-- **A visit decides the same on trees that agree but for frames.** -/
theorem visit_congr (hm : e.measurer.IgnoresFrames) (htree : t.SameButFrames r) (id : ViewId)
    (children : Forest) (allotted : Rect α) :
    ((e.pass t).visit id children allotted).outcome =
      ((e.pass r).visit id children allotted).outcome := by
  refine (visit_alike Comparison.same_fair (.of_sameButFrames hm htree) id children
    fun _ => rfl).eq ?_
  -- likeness by equality of the frame and of the places, each turned into an equation
  rintro ⟨frame, places⟩ ⟨frame', places'⟩ ⟨hframe, hplaces⟩
  rw [show frame = frame' from (hframe fun _ => rfl).eq,
    show places = places' from eq_of_placementsAlike hplaces]

end Pass

end BoxLayout
