import BoxLayout.Proofs.Layout.Soundness

/-!
# What layout does not depend on

Frames of earlier passes, links to parents, the root, names and switches take no part in layout, and
neither does the setting that logs all frames. Two runs that differ in nothing else measure the same
sizes, fail for the same reason, and leave the same frames.

## The architecture

* **`View.geometry`**, **`SameLayout`** — a view with the rest forgotten, and trees that agree so
  far.
* **`RunsAlike.of_sameLayout`** — passes over such trees go in step.
* **`layout_eq_of_sameLayout`** — equal outcomes and equal frames; below the start the frames do not
  depend either on where the start is put.
-/

namespace BoxLayout

open Relation ViewTree

variable {α : Type} [Scalar α]

/-! ## Results and diagnostics -/

/-- The view with its results and diagnostics forgotten: its frame, its parent, its name and its
switches. -/
def View.geometry (v : View α) : View α :=
  { v with
    frame := .zero
    parent := none
    constraints := { v.constraints with name := none, flags := .off } }

/-- Two trees hold views under the same ids, and these agree but for results and diagnostics. The
trees may have different roots. -/
def ViewTree.SameLayout (t t' : ViewTree α) : Prop :=
  ∀ id, (t.get? id).map View.geometry = (t'.get? id).map View.geometry

/-- Views with the same geometry agree in all that a rule reads. -/
theorem View.Alike.of_geometry {v v' : View α} (h : v.geometry = v'.geometry) :
    v.Alike .same v' := by
  -- what a rule reads of the views it reads of their geometries
  have hrefl := View.Alike.refl v.geometry
  have halike : v.geometry.Alike .same v'.geometry := h ▸ hrefl
  obtain ⟨⟨hmin, hmax, hstretch, hignore, hadjustment, hmargins, hspacing, halignment, hcells⟩,
    hcontainer, hcontent, horigin, hchildren⟩ := halike
  exact ⟨⟨hmin, hmax, hstretch, hignore, hadjustment, hmargins, hspacing, halignment, hcells⟩,
    hcontainer, hcontent, horigin, hchildren⟩

namespace ViewTree.SameLayout

variable {t t' : ViewTree α}

/-- Each tree holds a view just if the other one does. -/
theorem get?_rel (h : t.SameLayout t') (id : ViewId) :
    Option.Rel (fun v v' => v.geometry = v'.geometry) (t.get? id) (t'.get? id) := by
  have hid := h id
  cases hv : t.get? id with
  | none =>
    rw [hv, Option.map_none, eq_comm, Option.map_eq_none_iff] at hid
    rw [hid]
    exact .none
  | some v =>
    rw [hv, Option.map_some, eq_comm, Option.map_eq_some_iff] at hid
    obtain ⟨v', hv', heq⟩ := hid
    rw [hv']
    exact .some heq.symm

/-- Lists of children are part of the geometry. -/
theorem children_eq (h : t.SameLayout t') (id : ViewId) : t'.children id = t.children id := by
  have hviews := h.get?_rel id
  unfold children
  generalize t.get? id = v at hviews ⊢
  generalize t'.get? id = v' at hviews ⊢
  cases hviews with
  | none => rfl
  | some hview => exact (View.Alike.of_geometry hview).children.symm

/-- Whether lists of children end is a matter of those lists. -/
theorem ends (h : t.SameLayout t') {id : ViewId} (hends : t.Ends id) : t'.Ends id := by
  have hlisted : t'.Listed = t.Listed := by
    funext child parent
    unfold Listed
    rw [h.children_eq]
  rw [Ends, hlisted]
  exact hends

/-- The same shape lies below a view, as long as there is one. -/
theorem below_eq (h : t.SameLayout t') {id : ViewId} (hends : t.Ends id) :
    t'.below id = t.below id := by
  have hbelow := hends.unfolds_below.congr h.children_eq
  rw [← h.children_eq] at hbelow
  exact (h.ends hends).unfolds_below.unique hbelow

/-- A change of results or diagnostics. -/
theorem update (t : ViewTree α) (id : ViewId) {change : View α → View α}
    (hchange : ∀ v, (change v).geometry = v.geometry) : t.SameLayout (t.update id change) := by
  intro other
  rw [get?_update]
  split_ifs with heq
  · -- the view that is changed keeps its geometry; the others are not touched
    rw [heq, Option.map_map, show View.geometry ∘ change = View.geometry from funext hchange]
  · rfl

end ViewTree.SameLayout

/-! ## Two runs -/

/-- Trees with the same layout go in step, whether or not all frames are logged. -/
theorem RunsAlike.of_sameLayout {t t' : ViewTree α} (h : t.SameLayout t') (settings : Settings α)
    (trace : Bool) : RunsAlike .same ⟨settings, .stored⟩ t
      ⟨{ settings with tracePasses := trace }, .stored⟩ t' where
  views id := by
    have hviews := h.get?_rel id
    generalize t.get? id = v at hviews ⊢
    generalize t'.get? id = v' at hviews ⊢
    cases hviews with
    | none => exact .none
    | some hview =>
      have halike := View.Alike.of_geometry hview
      exact .some ⟨halike, fun _ _ _ _ _ => halike.contentSize⟩
  epsilon := rfl
  maxPasses := rfl

/-- The frame of a view after a pass, if there is such a view. -/
def Arranged.frameOf? {β : Type} (x : Arranged α β) (id : ViewId) : Option (Rect α) :=
  (x.tree.get? id).map View.frame

/-- Like frames of two passes are one frame. -/
theorem FramesAlike.exists_frame {β γ : Type} {x : Arranged α β} {x' : Arranged α γ} {id : ViewId}
    (h : FramesAlike .same x.tree x'.tree id) (hlive : (x.tree.get? id).isSome = true) :
    ∃ frame, x.frameOf? id = some frame ∧ x'.frameOf? id = some frame := by
  obtain ⟨v, v', hv, hv', hframe⟩ := h.exists_views hlive
  refine ⟨v.frame, ?_, ?_⟩
  · rw [Arranged.frameOf?, hv, Option.map_some]
  · rw [Arranged.frameOf?, hv', Option.map_some, hframe.eq]

/-- **Layout depends on neither results nor diagnostics.** Two trees with the same layout, laid out
from a view below which the lists of children end, with settings that differ in the log only: the
sizes measured are equal, passes end in the same way, and on success they leave equal frames at the
view and all below it. If the view is put elsewhere, in a rectangle of the same size, all below it
keep their frames. -/
theorem layout_eq_of_sameLayout (settings : Settings α) (trace : Bool) {t t' : ViewTree α}
    (h : t.SameLayout t') {id : ViewId} (hends : t.Ends id) :
    let e : Engine α := ⟨settings, .stored⟩
    let e' : Engine α := ⟨{ settings with tracePasses := trace }, .stored⟩
    (∀ proposed, (e.measure t id proposed).outcome = (e'.measure t' id proposed).outcome) ∧
    (∀ allotted, (e.arrange t id allotted).result.outcome =
      (e'.arrange t' id allotted).result.outcome) ∧
    (∀ allotted, (e.arrange t id allotted).result.outcome = .ok () →
      ∀ low, ReflTransGen t.Listed low id → ∃ frame,
        (e.arrange t id allotted).frameOf? low = some frame ∧
          (e'.arrange t' id allotted).frameOf? low = some frame) ∧
    ∀ allotted allotted' : Rect α, allotted.size = allotted'.size →
      (e.arrange t id allotted).result.outcome = (e'.arrange t' id allotted').result.outcome ∧
      ((e.arrange t id allotted).result.outcome = .ok () →
        ∀ low, TransGen t.Listed low id → ∃ frame,
          (e.arrange t id allotted).frameOf? low = some frame ∧
            (e'.arrange t' id allotted').frameOf? low = some frame) := by
  intro e e'
  have hruns : RunsAlike .same e t e' t' := .of_sameLayout h settings trace
  have hbelow := h.below_eq hends
  -- the same shape is visited in both trees
  have hshape : t'.forest [id] = t.forest [id] := by
    rw [hends.forest_eq, (h.ends hends).forest_eq, hbelow]
  -- only the sizes are compared here, so this covers both a start kept and one moved
  have houtcome (allotted allotted' : Rect α) (hsize : allotted.size = allotted'.size) :
      (e.arrange t id allotted).result.outcome = (e'.arrange t' id allotted').result.outcome :=
    (Engine.outcome_arrange_alike Comparison.same_fair hruns hshape
      fun axis => congrArg (Size.along · axis) hsize).eq fun _ _ _ => rfl
  refine ⟨fun proposed => ?_, fun allotted => houtcome _ _ rfl, fun allotted hok low hlow => ?_,
    fun allotted allotted' hsize => ⟨houtcome _ _ hsize, fun hok low hlow => ?_⟩⟩
  · -- sizes measured
    exact (Engine.measure_alike hruns hbelow.symm fun _ => rfl).eq fun _ _ => Size.Alike.eq
  · -- frames from a start kept
    have hmem := hends.unfolds.mem_ids_singleton_iff.mpr hlow
    exact (Engine.frames_alike Comparison.same_fair hruns hshape ⟨fun _ => rfl, fun _ => rfl⟩ hok
      hmem).exists_frame (Engine.live_of_ok hok hmem)
  · -- frames below a start moved
    have hmem := hends.unfolds.mem_ids_singleton_iff.mpr hlow.to_reflTransGen
    refine (Engine.frames_below_alike Comparison.same_fair hruns hshape hends.forest_eq
      (fun axis => congrArg (Size.along · axis) hsize) hok (houtcome _ _ hsize ▸ hok)
      ?_).exists_frame (Engine.live_of_ok hok hmem)
    exact hends.unfolds_below.mem_ids_children_iff.mpr hlow

/-- In a tree that operations lead to, the lists of children end below every view. -/
theorem ends_run (ops : List (Operation α)) (id : ViewId) : (empty.run ops).Ends id :=
  (wellFormed_run ops).ends id

/-- The row of two, with one view renamed, its switches set, its frame moved and its parent
forgotten, and with another root. -/
def relabeledRow : ViewTree Float32 :=
  ((empty.run rowOfTwo).update ⟨1, 1⟩ fun v =>
    { v with
      frame := ⟨1, 1, 1, 1⟩
      parent := none
      constraints := { v.constraints with name := some "aside", flags := .layout } }).setRoot ⟨2, 1⟩

theorem layout_relabeledRow :
    (empty.run rowOfTwo).SameLayout relabeledRow ∧ (empty.run rowOfTwo).Ends ⟨0, 1⟩ ∧
      (Engine.arrange ⟨.standard, .stored⟩ (empty.run rowOfTwo) ⟨0, 1⟩
        (.ofOriginSize .zero ⟨Float32.ofBits 0x42C80000, 1⟩)).result.outcome = .ok () ∧
      ∀ low, ReflTransGen (empty.run rowOfTwo).Listed low ⟨0, 1⟩ → ∃ frame,
        (Engine.arrange ⟨.standard, .stored⟩ (empty.run rowOfTwo) ⟨0, 1⟩
          (.ofOriginSize .zero ⟨Float32.ofBits 0x42C80000, 1⟩)).frameOf? low = some frame ∧
        (Engine.arrange ⟨.verbose, .stored⟩ relabeledRow ⟨0, 1⟩
          (.ofOriginSize .zero ⟨Float32.ofBits 0x42C80000, 1⟩)).frameOf? low = some frame := by
  have hsame : (empty.run rowOfTwo).SameLayout relabeledRow := SameLayout.update _ _ fun _ => rfl
  have hends : (empty.run rowOfTwo).Ends ⟨0, 1⟩ := ends_run _ _
  refine ⟨hsame, hends, by rfl, ?_⟩
  exact (layout_eq_of_sameLayout .standard true hsame hends).2.2.1 _ (by rfl)

end BoxLayout
