import Mathlib
import BoxLayout.Proofs.ViewTree.Run

/-!
# What a removal takes away

Removing a view takes it from its parent and then takes away the view with all that lies below it. The
loop that collects these views walks a list that it makes longer as it goes; that it ends and meets no
view twice rests on the links of a well-formed tree.

The root is unset when it is the view that is removed, and is not looked for below that view. So a
removal can leave a root that is gone.

## The architecture

* **`Removed`**, **`removed_remove`** — what is left, view by view and link by link.
* **`removal_run`** — this for any tree that operations lead to, with the loop of the removal.
* **`Rooted`**, **`rooted_remove_iff`** — the root is a view of the tree, and when it stays one.
* **`rooted_run_remove_iff`** — this for any tree that operations lead to, with
  **`dangling_nestedRoot`**, where a removal leaves a root that is gone.
-/

namespace BoxLayout.ViewTree

open Relation

variable {α : Type} {t r : ViewTree α} {id : ViewId}

/-! ## The views that are left -/

/-- The tree `r` is `t` without a view and all below it. -/
structure Removed (t r : ViewTree α) (id : ViewId) : Prop where
  live_iff : ∀ other, (r.get? other).isSome = true ↔
    (t.get? other).isSome = true ∧ ¬ t.Within other id
  /-- The tree gets smaller by the view and all below it. -/
  size_add : (t.get? id).isSome = true → r.size + {low | t.Within low id}.ncard = t.size
  size_unknown : t.get? id = none → r.size = t.size
  /-- The parent loses the view and keeps its other children in their order. -/
  children_parent : ∀ parent, t.ChildOf id parent →
    r.children parent = (t.children parent).filter (· != id)
  children_other : ∀ other, ¬ t.Within other id → ¬ t.ChildOf id other →
    r.children other = t.children other
  /-- Every view that is left is as it was but for its children. -/
  get?_eq : ∀ other, ¬ t.Within other id → r.get? other = (t.get? other).map fun v =>
    { v with children := r.children other }

/-- Below a view that is there all views are. -/
theorem Within.live {low : ViewId} (hwithin : t.Within low id) (hid : (t.get? id).isSome = true) :
    (t.get? low).isSome = true := by
  rcases ReflTransGen.cases_head hwithin with rfl | ⟨next, hlink, -⟩
  · exact hid
  · obtain ⟨v, hv, -⟩ := hlink.live
    rw [hv]
    rfl

/-- Nothing lies below a view that is not there. -/
theorem WellFormed.eq_of_within (h : t.WellFormed) {low : ViewId} (hwithin : t.Within low id)
    (hid : t.get? id = none) : low = id := by
  rcases ReflTransGen.cases_tail hwithin with heq | ⟨last, -, hlink⟩
  · exact heq.symm
  · have hlive := h.parent_live hlink
    rw [hid] at hlive
    nomatch hlive

theorem size_eq_ncard (t : ViewTree α) : t.size = {id | (t.get? id).isSome = true}.ncard :=
  t.views.size_eq_ncard

/-- If a tree has lost some views and has no others, these make up the difference in size. -/
theorem size_add_ncard {gone : ViewId → Prop}
    (hlive : ∀ other, (r.get? other).isSome = true ↔ (t.get? other).isSome = true ∧ ¬ gone other) :
    r.size + {other | (t.get? other).isSome = true ∧ gone other}.ncard = t.size := by
  -- the views that were there are those that are left and those that are gone
  have hsplit : {other | (t.get? other).isSome = true} =
      {other | (r.get? other).isSome = true} ∪
        {other | (t.get? other).isSome = true ∧ gone other} := by
    ext other
    have := hlive other
    simp only [Set.mem_ofPred_eq, Set.mem_union]
    tauto
  have hdisjoint : Disjoint {other | (r.get? other).isSome = true}
      {other | (t.get? other).isSome = true ∧ gone other} :=
    Set.disjoint_left.mpr fun other hr hgone => ((hlive other).mp hr).2 hgone.2
  rw [size_eq_ncard, size_eq_ncard, hsplit, Set.ncard_union_eq hdisjoint r.views.finite_live
    (t.views.finite_live.subset fun _ hother => hother.1)]

section

variable (h : t.WellFormed)

include h

/-- A view that lies outside stays, with the one removed gone from its list. -/
theorem get?_remove_of_outside {other : ViewId} (hother : ¬ t.Within other id) :
    (t.remove id).get? other =
      (t.get? other).map fun v => { v with children := v.children.filter (· != id) } := by
  classical
  have hne : other ≠ id := fun heq => hother (heq ▸ ReflTransGen.refl)
  rw [get?_remove h, if_neg hother, get?_detach h]
  simp only [if_neg hne]

/-- What is left is what was there and lies outside. -/
theorem isSome_get?_remove_iff (other : ViewId) : ((t.remove id).get? other).isSome = true ↔
    (t.get? other).isSome = true ∧ ¬ t.Within other id := by
  classical
  by_cases hother : t.Within other id
  · rw [get?_remove h, if_pos hother]
    simp [hother]
  · rw [get?_remove_of_outside h hother, Option.isSome_map]
    simp [hother]

theorem children_remove_of_outside {other : ViewId} (hother : ¬ t.Within other id) :
    (t.remove id).children other = (t.children other).filter (· != id) := by
  rw [children, children, get?_remove_of_outside h hother]
  cases t.get? other <;> rfl

/-- The size goes down by as many views as lie within. -/
theorem size_remove_add (hid : (t.get? id).isSome = true) :
    (t.remove id).size + {low | t.Within low id}.ncard = t.size := by
  have hset : {other | (t.get? other).isSome = true ∧ t.Within other id} = {low | t.Within low id} :=
    Set.ext fun other => ⟨And.right, fun hwithin => ⟨hwithin.live hid, hwithin⟩⟩
  rw [← size_add_ncard (isSome_get?_remove_iff h), hset]

/-- Removing a view that is not there takes nothing away. -/
theorem size_remove_of_unknown (hid : t.get? id = none) : (t.remove id).size = t.size := by
  have hset : {other | (t.get? other).isSome = true ∧ t.Within other id} = ∅ := by
    refine Set.eq_empty_of_forall_notMem fun other hmem => ?_
    obtain ⟨hother, hwithin⟩ := hmem
    rw [h.eq_of_within hwithin hid, hid] at hother
    exact absurd hother Bool.false_ne_true
  rw [← size_add_ncard (isSome_get?_remove_iff h), hset, Set.ncard_empty, Nat.add_zero]

/-- A removal leaves the tree without the view and all below it. -/
theorem removed_remove (id : ViewId) : Removed t (t.remove id) id where
  live_iff := isSome_get?_remove_iff h
  size_add := size_remove_add h
  size_unknown := size_remove_of_unknown h
  children_parent parent hlink := by
    -- the parent lies outside, since no link leads back to the view
    refine children_remove_of_outside h fun hwithin => ?_
    exact h.acyclic id (TransGen.head' hlink hwithin)
  children_other other hother hnot := by
    rw [children_remove_of_outside h hother, h.filter_children hnot]
  get?_eq other hother := by
    rw [get?_remove_of_outside h hother, children, get?_remove_of_outside h hother]
    cases t.get? other <;> rfl

end

/-- **What a removal takes away**, in any tree that operations lead to and with any id: the view and
all below it. Its loop goes through these views until none is left and meets each of them once. -/
theorem removal_run [Scalar α] (ops : List (Operation α)) (id : ViewId) :
    let t := empty.run ops
    Removed t (t.remove id) id ∧
    ∃ taken, (t.detach id).Drains [id] taken ∧
      taken.Nodup ∧ (∀ other, other ∈ taken ↔ t.Within other id) ∧
      (t.remove id).views = taken.foldl Arena.erase (t.detach id).views := by
  intro t
  have h : t.WellFormed := wellFormed_run ops
  have hd := h.detach id
  -- the loop runs after the view has left its parent, which changes nothing below it
  refine ⟨removed_remove h id, (t.detach id).subtree id, drains_subtree hd id, nodup_subtree hd id,
    fun other => ?_, rfl⟩
  rw [mem_subtree_iff hd, within_detach_iff h]

/-! ## The root -/

/-- The root, if one is set, is a view of the tree. -/
def Rooted (t : ViewTree α) : Prop :=
  ∀ root, t.root = some root → (t.get? root).isSome = true

/-- A root stays the root unless it is the view that is removed itself. -/
theorem root_remove_eq_some_iff {root : ViewId} :
    (t.remove id).root = some root ↔ t.root = some root ∧ root ≠ id := by
  show (if t.root = some id then none else t.root) = some root ↔ _
  split_ifs with hroot
  · rw [hroot]
    exact ⟨False.elim, fun h => absurd (Option.some.inj h.1).symm h.2⟩
  · exact ⟨fun h => ⟨h, fun heq => hroot (heq ▸ h)⟩, And.left⟩

/-- **A removal leaves a root that is a view just if the root was not below the view removed.** -/
theorem rooted_remove_iff (h : t.WellFormed) (hrooted : t.Rooted) (id : ViewId) :
    (t.remove id).Rooted ↔ ∀ root, t.root = some root → ¬ TransGen t.ChildOf root id := by
  constructor
  · -- a root below the view stays the root, though it is gone
    intro hafter root hroot hbelow
    have hne : root ≠ id := fun heq => h.acyclic id (heq ▸ hbelow)
    have hstays := hafter root (root_remove_eq_some_iff.mpr ⟨hroot, hne⟩)
    exact ((isSome_get?_remove_iff h root).mp hstays).2 hbelow.to_reflTransGen
  · -- a root that is left lies outside, unless it is the view itself, which is unset
    intro hbelow root hroot
    obtain ⟨hroot, hne⟩ := root_remove_eq_some_iff.mp hroot
    refine (isSome_get?_remove_iff h root).mpr ⟨hrooted root hroot, fun hwithin => ?_⟩
    rcases reflTransGen_iff_eq_or_transGen.mp hwithin with heq | hpath
    · exact hne heq.symm
    · exact hbelow root hroot hpath

/-- If the root is not below the view removed, it is unset just if it is that view. -/
theorem root_remove_eq_none_iff (hbelow : ∀ root, t.root = some root → ¬ TransGen t.ChildOf root id) :
    (t.remove id).root = none ↔ ∀ root, t.root = some root → t.Within root id := by
  rw [Option.eq_none_iff_forall_ne_some]
  constructor
  · intro hnone root hroot
    by_contra hwithin
    have hne : root ≠ id := fun heq => hwithin (heq ▸ ReflTransGen.refl)
    exact hnone root (root_remove_eq_some_iff.mpr ⟨hroot, hne⟩)
  · intro hwithin root hafter
    obtain ⟨hroot, hne⟩ := root_remove_eq_some_iff.mp hafter
    rcases reflTransGen_iff_eq_or_transGen.mp (hwithin root hroot) with heq | hpath
    · exact hne heq.symm
    · exact hbelow root hroot hpath

/-- **When the root never dangles.** In any tree that operations lead to whose root is a view, a
removal leaves a root that is a view, unset just if it was the view removed or below it, exactly if it
was not below that view. A root that was below it stays the root when it is gone. -/
theorem rooted_run_remove_iff [Scalar α] (ops : List (Operation α)) (id : ViewId)
    (hrooted : (empty.run ops).Rooted) :
    let t := empty.run ops
    ((t.remove id).Rooted ∧
        ((t.remove id).root = none ↔ ∀ root, t.root = some root → t.Within root id) ↔
      ∀ root, t.root = some root → ¬ TransGen t.ChildOf root id) ∧
    ∀ root, t.root = some root → TransGen t.ChildOf root id →
      (t.remove id).root = some root ∧ (t.remove id).get? root = none := by
  intro t
  have h : t.WellFormed := wellFormed_run ops
  refine ⟨⟨fun hafter => (rooted_remove_iff h hrooted id).mp hafter.1, fun hbelow =>
    ⟨(rooted_remove_iff h hrooted id).mpr hbelow, root_remove_eq_none_iff hbelow⟩⟩, ?_⟩
  intro root hroot hpath
  have hne : root ≠ id := fun heq => h.acyclic id (heq ▸ hpath)
  refine ⟨root_remove_eq_some_iff.mpr ⟨hroot, hne⟩, Option.not_isSome_iff_eq_none.mp fun hlive => ?_⟩
  exact ((isSome_get?_remove_iff h root).mp hlive).2 hpath.to_reflTransGen

/-- Three views inside each other, the middle one of which is the root. -/
def nestedRoot : List (Operation Float32) :=
  [.create .horizontal .zero, .create .horizontal .zero, .create .horizontal ⟨1, 1⟩,
    .insertBefore ⟨0, 1⟩ ⟨1, 1⟩ none, .insertBefore ⟨1, 1⟩ ⟨2, 1⟩ none, .setRoot ⟨1, 1⟩]

theorem rooted_nestedRoot : (empty.run nestedRoot).Rooted := by
  intro root hroot
  obtain rfl : ⟨1, 1⟩ = root := Option.some.inj hroot
  rfl

/-- The view below the root can go. -/
theorem rooted_nestedRoot_remove :
    (empty.run nestedRoot).Rooted ∧ ((empty.run nestedRoot).remove ⟨2, 1⟩).Rooted := by
  refine ⟨rooted_nestedRoot, ((rooted_run_remove_iff nestedRoot ⟨2, 1⟩ rooted_nestedRoot).1.mpr ?_).1⟩
  intro root hroot hpath
  obtain rfl : ⟨1, 1⟩ = root := Option.some.inj hroot
  have hlink : (empty.run nestedRoot).ChildOf ⟨2, 1⟩ ⟨1, 1⟩ := rfl
  exact (wellFormed_run nestedRoot).acyclic _ (hpath.tail hlink)

/-- The view around the root takes it away, but it stays the root. -/
theorem dangling_nestedRoot :
    (empty.run nestedRoot).Rooted ∧ (empty.run nestedRoot).ChildOf ⟨1, 1⟩ ⟨0, 1⟩ ∧
      ((empty.run nestedRoot).remove ⟨0, 1⟩).root = some ⟨1, 1⟩ ∧
      ((empty.run nestedRoot).remove ⟨0, 1⟩).size = 0 ∧
      ¬ ((empty.run nestedRoot).remove ⟨0, 1⟩).Rooted := by
  refine ⟨rooted_nestedRoot, rfl, rfl, rfl, fun hrooted => ?_⟩
  exact absurd (hrooted ⟨1, 1⟩ rfl) (by decide +kernel)

end BoxLayout.ViewTree
