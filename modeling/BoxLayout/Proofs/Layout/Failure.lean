import Mathlib
import BoxLayout.Proofs.Layout.Writes
import BoxLayout.Proofs.ViewTree.Run
import BoxLayout.Proofs.ViewTree.Subtree

/-!
# What a failed pass leaves

A pass checks a view, and measures all that lies below it, before it writes the view's frame; but it
writes the frame before it visits the children. What measuring from above passes over, such as the
content below a view without a natural size of its own, is only met by the visit of a view further
down. So a pass that fails there leaves frames behind.

## The architecture

* **`setFrames_eq_self_iff`** — when writing frames changes nothing.
* **`Engine.Rewrites`** — all frames that a pass gets to write are there already.
* **`Engine.writes_eq_nil_iff`** — a pass writes nothing just if the visit of its start fails.
* **`unchanged_run_iff`** — when a pass leaves no trace, with **`trace_hiddenLeaf`**, which shows one
  that fails and does.
-/

namespace BoxLayout

open ViewTree

variable {α : Type}

/-! ## Writing what is there -/

namespace ViewTree

variable {t : ViewTree α}

/-- Writing the frame a view has changes nothing, and neither does writing to no view. -/
theorem setFrame_eq_self {id : ViewId} {frame : Rect α}
    (h : ∀ v, t.get? id = some v → v.frame = frame) : t.setFrame id frame = t := by
  have hviews : (t.views.update id fun v => { v with frame }) = t.views :=
    Arena.update_eq_self fun v hv => by rw [← h v hv]
  unfold setFrame update
  rw [hviews]

/-- Of frames written to each view once, every view has its own in the end. -/
theorem get?_setFrames_of_mem {writes : List (Placement α)}
    (hnodup : (writes.map Prod.fst).Nodup) {w : Placement α} (hw : w ∈ writes) :
    (t.setFrames writes).get? w.1 = (t.get? w.1).map fun v => { v with frame := w.2 } := by
  induction writes generalizing t with
  | nil => exact absurd hw List.not_mem_nil
  | cons first writes ih =>
    obtain ⟨hfirst, hrest⟩ := List.nodup_cons.mp hnodup
    show ((t.setFrame first.1 first.2).setFrames writes).get? w.1 = _
    rcases List.mem_cons.mp hw with rfl | hw
    · -- the frame written first is not written over
      rw [get?_setFrames_of_notMem hfirst, get?_setFrame]
      simp
    · have hne : w.1 ≠ first.1 := fun heq => hfirst (heq ▸ List.mem_map_of_mem hw)
      rw [ih hrest hw, get?_setFrame]
      simp [hne]

/-- **Writing frames, each view's once, changes nothing just if they are there already.** -/
theorem setFrames_eq_self_iff {writes : List (Placement α)}
    (hnodup : (writes.map Prod.fst).Nodup) :
    t.setFrames writes = t ↔ ∀ w ∈ writes, ∀ v, t.get? w.1 = some v → v.frame = w.2 := by
  constructor
  · intro heq w hw v hv
    have hget := get?_setFrames_of_mem (t := t) hnodup hw
    rw [heq, hv, Option.map_some, Option.some.injEq] at hget
    rw [hget]
  · intro h
    -- from here on each frame is written over itself
    clear hnodup
    induction writes with
    | nil => rfl
    | cons first writes ih =>
      show (t.setFrame first.1 first.2).setFrames writes = t
      rw [setFrame_eq_self (h first List.mem_cons_self)]
      exact ih fun w hw => h w (List.mem_cons_of_mem _ hw)

end ViewTree

/-! ## Passes -/

section

variable [Scalar α] {e : Engine α} {t : ViewTree α}

/-- Every frame that arranging a view gets to write is there already. -/
def Engine.Rewrites (e : Engine α) (t : ViewTree α) (start : ViewId) (allotted : Rect α) : Prop :=
  ∀ w ∈ e.writes t start allotted, ∀ v, t.get? w.1 = some v → v.frame = w.2

namespace Engine

/-- A pass writes nothing just if the visit of its start fails: nothing else comes before the first frame.
-/
theorem writes_eq_nil_iff (hwf : t.WellFormed) (start : ViewId) (allotted : Rect α) :
    e.writes t start allotted = [] ↔
      ∃ error, ((e.pass t).visit start (t.below start) allotted).outcome = .error error := by
  unfold writes
  rw [forest_cons hwf, Forest.writes]
  cases ((e.pass t).visit start (t.below start) allotted).outcome with
  | error error => exact ⟨fun _ => ⟨error, rfl⟩, fun _ => rfl⟩
  | ok visit => exact ⟨fun h => absurd h (List.cons_ne_nil _ _), fun ⟨_, h⟩ => nomatch h⟩

/-- No frame is written twice. -/
theorem nodup_writes (hwf : t.WellFormed) (start : ViewId) (allotted : Rect α) :
    ((e.writes t start allotted).map Prod.fst).Nodup :=
  (Forest.writes_sublist _ _ _).nodup (nodup_ids_forest hwf (apart_singleton t start))

/-- What a pass writes is what the tree holds in the end. -/
theorem get?_arrange_of_mem (hwf : t.WellFormed) {start : ViewId} {allotted : Rect α}
    {w : Placement α} (hw : w ∈ e.writes t start allotted) :
    (e.arrange t start allotted).tree.get? w.1 =
      (t.get? w.1).map fun v => { v with frame := w.2 } := by
  rw [tree_arrange]
  exact get?_setFrames_of_mem (nodup_writes hwf start allotted) hw

/-- A pass leaves no trace just if all it writes is there already. -/
theorem tree_arrange_eq_iff (hwf : t.WellFormed) (start : ViewId) (allotted : Rect α) :
    (e.arrange t start allotted).tree = t ↔ e.Rewrites t start allotted := by
  rw [tree_arrange]
  exact setFrames_eq_self_iff (nodup_writes hwf start allotted)

/-- Measuring writes nothing, so a layout leaves no trace if it does not come to arranging. -/
theorem tree_layout_eq_iff (hwf : t.WellFormed) (viewport : Rect α) :
    (e.layout t viewport).tree = t ↔ ∀ root natural, t.root = some root →
      (e.measure t root viewport.size).outcome = .ok natural → e.Rewrites t root viewport := by
  unfold layout Arranged.andThen
  cases hroot : t.root with
  | none => exact ⟨fun _ _ _ h => absurd h (Option.some_ne_none _).symm, fun _ => rfl⟩
  | some root =>
    dsimp only
    cases hmeasure : (e.measure t root viewport.size).outcome with
    | error error =>
      refine ⟨fun _ other natural hother hok => ?_, fun _ => rfl⟩
      -- the root could not be measured
      obtain rfl := Option.some.inj hother
      rw [hmeasure] at hok
      contradiction
    -- the root has been measured, so the tree that is left is that of arranging it
    | ok natural =>
      have htree : (e.arrange t root viewport).tree = t ↔ ∀ other natural, some root = some other →
          (e.measure t other viewport.size).outcome = .ok natural → e.Rewrites t other viewport := by
        rw [tree_arrange_eq_iff hwf]
        refine ⟨fun h other _ hother _ => ?_, fun h => h root natural rfl hmeasure⟩
        obtain rfl := Option.some.inj hother
        exact h
      dsimp only
      cases (e.arrange t root viewport).result.outcome <;> exact htree

end Engine

variable (e) in
/-- **When a pass leaves no trace**, whether it fails or not. -/
theorem unchanged_run_iff (ops : List (Operation α)) :
    (∀ start allotted, (e.arrange (empty.run ops) start allotted).tree = empty.run ops ↔
      e.Rewrites (empty.run ops) start allotted) ∧
    (∀ start allotted, e.writes (empty.run ops) start allotted = [] ↔
      ∃ error, ((e.pass (empty.run ops)).visit start ((empty.run ops).below start)
        allotted).outcome = .error error) ∧
    ∀ viewport, (e.layout (empty.run ops) viewport).tree = empty.run ops ↔
      ∀ root natural, (empty.run ops).root = some root →
        (e.measure (empty.run ops) root viewport.size).outcome = .ok natural →
          e.Rewrites (empty.run ops) root viewport :=
  ⟨fun _ _ => Engine.tree_arrange_eq_iff (wellFormed_run ops) _ _,
    fun _ _ => Engine.writes_eq_nil_iff (wellFormed_run ops) _ _,
    fun _ => Engine.tree_layout_eq_iff (wellFormed_run ops) _⟩

end

/-! ## A trace -/

/-- A view with a child that wants no size of its own, whose own child has content of no size. -/
def hiddenLeaf : List (Operation Float32) :=
  [.create .horizontal .zero, .create .horizontal .zero, .create .horizontal ⟨-1, 1⟩,
    .insertBefore ⟨0, 1⟩ ⟨1, 1⟩ none, .edit ⟨1, 1⟩ [.ignoreNatural true],
    .insertBefore ⟨1, 1⟩ ⟨2, 1⟩ none]

/-- The outer view is measured without the leaf and has its frame when the leaf is met. -/
theorem trace_hiddenLeaf :
    let after := Engine.arrange ⟨.standard, .stored⟩ (empty.run hiddenLeaf) ⟨0, 1⟩ ⟨0, 0, 1, 1⟩
    after.result.outcome = .error (.invalidContent ⟨2, 1⟩ (-1) 1) ∧
      after.tree ≠ empty.run hiddenLeaf := by
  refine ⟨by rfl, fun heq => ?_⟩
  -- an outer frame of some width is nothing the tree starts with
  have hframe := congrArg (fun t => (t.get? ⟨0, 1⟩).any fun v => decide (0 < v.frame.width)) heq
  revert hframe
  decide +kernel

end BoxLayout
