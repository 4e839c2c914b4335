import Mathlib
import BoxLayout.Proofs.ViewTree.Structure
import BoxLayout.Proofs.ViewTree.Touched

/-!
# Runs of operations

What a host does to a tree is a list of operations, each of which may name any ids, stale ones
included, and may fail. Every tree that such a run leads to from the empty one is well-formed and
holds valid constraints only.

## The architecture

* **`Operation`**, **`step`**, **`run`** — all that changes a tree, and any number of such changes.
* **`WellFormed.step`**, **`ValidRecords.step`** — what one operation preserves.
* **`wellFormed_run`**, **`validRecords_run`** — what a whole run preserves.
* **`consistent_run`** — what this says of the views of a tree and of the loops over them.
-/

namespace BoxLayout

open Relation

variable {α : Type}

/-! ## Operations -/

/-- A field that a host may write at a view as it likes. -/
inductive HostField (α : Type) where
  | container (kind : Container)
  | contentSize (size : Size α)
  | declaredOrigin (point : Point α)
  | frame (rect : Rect α)

/-- The view with one of these fields written. -/
def HostField.write (v : View α) : HostField α → View α
  | .container kind => { v with container := kind }
  | .contentSize size => { v with contentSize := size }
  | .declaredOrigin point => { v with declaredOrigin := point }
  | .frame rect => { v with frame := rect }

/-- A change of a tree. A record can be put at a view as a whole, but only checked edits make one. -/
inductive Operation (α : Type) [Scalar α] where
  | create (container : Container) (contentSize : Size α)
  | insertBefore (parent child : ViewId) (reference : Option ViewId)
  | remove (id : ViewId)
  | setRoot (id : ViewId)
  | edit (id : ViewId) (edits : List (Edit α))
  | replace (id : ViewId) (constraints : Constraints α) (valid : constraints.Valid)
  | write (id : ViewId) (field : HostField α)
  | move (id : ViewId) (move : Move α)
  | arrange (engine : Engine α) (id : ViewId) (allotted : Rect α)
  | layout (engine : Engine α) (viewport : Rect α)

namespace ViewTree

/-- The tree after an operation, whether it succeeds or fails. -/
def step [Scalar α] (t : ViewTree α) : Operation α → ViewTree α
  | .create container contentSize => (t.create (.new container contentSize)).2
  | .insertBefore parent child reference => t.after (t.insertBefore parent child reference)
  | .remove id => t.remove id
  | .setRoot id => t.setRoot id
  | .edit id edits => (t.editConstraints id fun c => c.edit edits).1
  | .replace id constraints _ => t.update id fun v => { v with constraints }
  | .write id field => t.update id fun v => field.write v
  | .move id move => t.after (t.moved id move)
  | .arrange engine id allotted => (engine.arrange t id allotted).tree
  | .layout engine viewport => (engine.layout t viewport).tree

/-- The tree after a list of operations. -/
def run [Scalar α] (t : ViewTree α) (ops : List (Operation α)) : ViewTree α := ops.foldl step t

/-! ## Links along a run -/

/-- The empty tree has no links. -/
theorem wellFormed_empty : (empty : ViewTree α).WellFormed := by
  have hnone (id : ViewId) : (empty : ViewTree α).parent? id = none := by
    rw [parent?, get?, empty, Arena.get?_empty]
    rfl
  have hno {child parent : ViewId} : ¬ (empty : ViewTree α).ChildOf child parent := by
    rw [ChildOf, hnone]
    exact Option.some_ne_none parent |>.symm
  refine ⟨Arena.sound_empty, ?_, fun hlink => absurd hlink hno, ?_⟩
  · intro parent child hmem
    rw [children, get?, empty, Arena.get?_empty] at hmem
    exact absurd hmem List.not_mem_nil
  · intro id hcycle
    obtain ⟨_, hlink, _⟩ := TransGen.head'_iff.mp hcycle
    exact hno hlink

/-- Changes that leave all links keep a tree well-formed. -/
theorem WellFormed.touched {t r : ViewTree α} (h : t.WellFormed) (htouched : Touched t r) :
    r.WellFormed := by
  induction htouched with
  | refl => exact h
  | update id hquiet _ ih => exact ih.update id hquiet.parent hquiet.children

theorem WellFormed.after {t : ViewTree α} (h : t.WellFormed) {attempt : Attempt α (ViewTree α)}
    (hok : ∀ r, attempt = .ok r → r.WellFormed) : (t.after attempt).WellFormed := by
  cases attempt with
  | ok r => exact hok r rfl
  | error _ => exact h

/-- Edits of constraints write no links, whether they are refused or not. -/
theorem WellFormed.editConstraints {t : ViewTree α} (h : t.WellFormed) (id : ViewId)
    (change : Constraints α → Constraints.Edited α) :
    (t.editConstraints id change).1.WellFormed := by
  unfold ViewTree.editConstraints
  split
  case h_1 => exact h
  case h_2 v _ =>
    have hupdate : (t.update id fun v' => { v' with constraints := (change v.constraints).record
        }).WellFormed := h.update id (fun _ => rfl) (fun _ => rfl)
    dsimp only
    split <;> exact hupdate

section

variable [Scalar α]

/-- **Every operation keeps a tree well-formed.** -/
theorem WellFormed.step {t : ViewTree α} (h : t.WellFormed) (op : Operation α) :
    (t.step op).WellFormed := by
  cases op with
  | create container contentSize => exact h.create rfl rfl
  | insertBefore parent child reference => exact h.after fun _ hok => h.insertBefore hok
  | remove id => exact h.remove id
  | setRoot id => exact h.of_links h.sound (fun _ => rfl) (fun _ => rfl)
  | edit id edits => exact h.editConstraints id _
  | replace id constraints _ => exact h.update id (fun _ => rfl) (fun _ => rfl)
  | write id field =>
    exact h.update id (fun _ => by cases field <;> rfl) (fun _ => by cases field <;> rfl)
  | move id move => exact h.touched (touched_after fun _ hok => touched_moved hok)
  | arrange engine id allotted => exact h.touched (touched_arrange engine t id allotted)
  | layout engine viewport => exact h.touched (touched_layout engine t viewport)

/-- So does every list of operations. -/
theorem WellFormed.run {t : ViewTree α} (h : t.WellFormed) (ops : List (Operation α)) :
    (t.run ops).WellFormed := by
  induction ops generalizing t with
  | nil => exact h
  | cons op ops ih => exact ih (h.step op)

theorem wellFormed_run (ops : List (Operation α)) : (empty.run ops).WellFormed :=
  wellFormed_empty.run ops

end

/-! ## Constraints along a run -/

/-- Every view holds a valid record. -/
def ValidRecords [Scalar α] (t : ViewTree α) : Prop :=
  ∀ id v, t.get? id = some v → v.constraints.Valid

section

variable [Scalar α] {t r : ViewTree α}

/-- Views with the constraints they had before. -/
theorem ValidRecords.of_get? (h : t.ValidRecords)
    (hget : ∀ id v, r.get? id = some v → ∃ u, t.get? id = some u ∧ v.constraints = u.constraints) :
    r.ValidRecords := by
  intro id v hv
  obtain ⟨u, hu, heq⟩ := hget id v hv
  exact heq ▸ h id u hu

/-- One view changed, and its record with it. -/
theorem ValidRecords.update (h : t.ValidRecords) (id : ViewId) {change : View α → View α}
    (hchange : ∀ v, v.constraints.Valid → (change v).constraints.Valid) :
    (t.update id change).ValidRecords := by
  intro other v hv
  rw [get?_update] at hv
  split_ifs at hv
  · obtain ⟨u, hu, rfl⟩ := Option.map_eq_some_iff.mp hv
    exact hchange u (h id u hu)
  · exact h other v hv

theorem ValidRecords.touched (h : t.ValidRecords) (htouched : Touched t r) : r.ValidRecords := by
  induction htouched with
  | refl => exact h
  | update id hquiet _ ih => exact ih.update id fun v hv => hquiet.constraints v ▸ hv

theorem ValidRecords.detach (h : t.ValidRecords) (hwf : t.WellFormed) (id : ViewId) :
    (t.detach id).ValidRecords := by
  refine h.of_get? fun other v hv => ?_
  rw [get?_detach hwf] at hv
  obtain ⟨u, hu, rfl⟩ := Option.map_eq_some_iff.mp hv
  exact ⟨u, hu, rfl⟩

theorem ValidRecords.insertBefore (h : t.ValidRecords) (hwf : t.WellFormed)
    {parent child : ViewId} {reference : Option ViewId}
    (hok : t.insertBefore parent child reference = .ok r) : r.ValidRecords := by
  obtain ⟨_, _, hcheck, rfl⟩ := insertBefore_eq_ok_iff.mp hok
  -- the check refuses a view as its own parent
  have hne : parent ≠ child := fun heq => hcheck (heq ▸ List.mem_cons_self)
  refine (h.detach hwf child).of_get? fun other v hv => ?_
  rw [get?_attach hne] at hv
  obtain ⟨u, hu, rfl⟩ := Option.map_eq_some_iff.mp hv
  exact ⟨u, hu, rfl⟩

theorem ValidRecords.remove (h : t.ValidRecords) (hwf : t.WellFormed) (id : ViewId) :
    (t.remove id).ValidRecords := by
  classical
  refine (h.detach hwf id).of_get? fun other v hv => ?_
  rw [get?_remove hwf] at hv
  split_ifs at hv
  exact ⟨v, hv, rfl⟩

variable [Scalar.Rounded α]

theorem ValidRecords.create (h : t.ValidRecords) (hwf : t.WellFormed) (container : Container)
    (contentSize : Size α) : (t.create (.new container contentSize)).2.ValidRecords := by
  intro id v hv
  have hget : (t.create (.new container contentSize)).2.get? id =
      if id = (t.create (.new container contentSize)).1 then some (.new container contentSize)
      else t.get? id := hwf.sound.get?_insert _ id
  rw [hget] at hv
  split_ifs at hv
  · obtain rfl := Option.some.inj hv
    -- the new view has the standard record
    exact Constraints.standard_valid
  · exact h id v hv

theorem ValidRecords.editConstraints (h : t.ValidRecords) (id : ViewId) (edits : List (Edit α)) :
    (t.editConstraints id fun c => c.edit edits).1.ValidRecords := by
  unfold ViewTree.editConstraints
  split
  case h_1 => exact h
  case h_2 v hnode =>
    -- an edit that is refused leaves the record as it was, so a run of edits leaves a valid one
    have hedited := (h id v (node_eq_ok_iff.mp hnode)).edit edits
    have hupdate : (t.update id fun v' =>
        { v' with constraints := (v.constraints.edit edits).record }).ValidRecords :=
      h.update id fun _ _ => hedited
    dsimp only
    split <;> exact hupdate

/-- **Every operation leaves valid records only.** -/
theorem ValidRecords.step (h : t.ValidRecords) (hwf : t.WellFormed) (op : Operation α) :
    (t.step op).ValidRecords := by
  cases op with
  | create container contentSize => exact h.create hwf container contentSize
  | insertBefore parent child reference =>
    show (t.after (t.insertBefore parent child reference)).ValidRecords
    cases hok : t.insertBefore parent child reference with
    | ok r => exact h.insertBefore hwf hok
    | error _ => exact h
  | remove id => exact h.remove hwf id
  | setRoot id => exact h
  | edit id edits => exact h.editConstraints id edits
  | replace id constraints hvalid => exact h.update id fun _ _ => hvalid
  | write id field => exact h.update id fun _ hv => by cases field <;> exact hv
  | move id move => exact h.touched (touched_after fun _ hok => touched_moved hok)
  | arrange engine id allotted => exact h.touched (touched_arrange engine t id allotted)
  | layout engine viewport => exact h.touched (touched_layout engine t viewport)

/-- Every reachable tree holds valid records only. -/
theorem validRecords_run (ops : List (Operation α)) : (empty.run ops).ValidRecords := by
  -- the invariant of the links goes along, since look-ups after a change rest on it
  have hall (t : ViewTree α) (hwf : t.WellFormed) (h : t.ValidRecords) :
      (t.run ops).ValidRecords := by
    induction ops generalizing t with
    | nil => exact h
    | cons op ops ih => exact ih (t.step op) (hwf.step op) (h.step hwf op)
  refine hall empty wellFormed_empty fun id v hv => ?_
  rw [get?, empty, Arena.get?_empty] at hv
  contradiction

end

/-! ## Every reachable tree -/

/-- What well-formedness says of the views of a tree and of the loops over them. -/
structure Consistent (t : ViewTree α) : Prop where
  /-- The children of a view are there, and name it as their parent. -/
  children_link : ∀ {id v child}, t.get? id = some v → child ∈ v.children →
    ∃ w, t.get? child = some w ∧ w.parent = some id
  /-- The parent of a view is there and lists the view once, and no other view lists it. -/
  parent_link : ∀ {id v parent}, t.get? id = some v → v.parent = some parent →
    ∃ w, t.get? parent = some w ∧ w.children.count id = 1 ∧
      ∀ other u, t.get? other = some u → id ∈ u.children → other = parent
  acyclic : ∀ id, ¬ TransGen t.ChildOf id id
  /-- Following parents comes to an end from every view. -/
  upwards : WellFounded fun parent child => t.ChildOf child parent
  /-- Following children comes to an end from every view, whichever are chosen. -/
  downwards : WellFounded t.ChildOf
  /-- The chain of parents is that of a loop without a bound. -/
  ancestors_eq : ∀ id, t.ancestors id =
    match t.parent? id with
    | some parent => parent :: t.ancestors parent
    | none => []
  /-- The shape below a view is that of a recursion without a bound. -/
  forest_eq : ∀ id ids, t.forest (id :: ids) =
    .view id (t.forest (t.children id)) (t.forest ids)

theorem WellFormed.consistent {t : ViewTree α} (h : t.WellFormed) : t.Consistent where
  children_link {id v child} hget hmem := by
    rw [← children_of_get? hget] at hmem
    exact (h.childOf_of_mem hmem).live
  parent_link {id v parent} hget hparent := by
    have hlink : t.ChildOf id parent := (parent?_of_get? hget).trans hparent
    -- the parent lists the view, so it is there
    obtain ⟨w, hw, -⟩ := live_of_mem_children (h.mem_children_iff.mpr hlink)
    refine ⟨w, hw, ?_, fun other u hu hmem => ?_⟩
    · rw [← children_of_get? hw]
      exact h.count_of_childOf hlink
    · rw [← children_of_get? hu] at hmem
      exact (h.childOf_of_mem hmem).unique hlink
  acyclic := h.acyclic
  upwards := h.wellFounded_parentOf
  downwards := h.wellFounded_childOf
  ancestors_eq := h.ancestors_eq
  forest_eq id ids := forest_cons h id ids

/-- **After any operations, with any ids and any failures among them, a tree is consistent.** -/
theorem consistent_run [Scalar α] (ops : List (Operation α)) : (empty.run ops).Consistent :=
  (wellFormed_run ops).consistent

end ViewTree

end BoxLayout
