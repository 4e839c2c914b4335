import Mathlib
import BoxLayout.Proofs.Arena
import BoxLayout.ViewTree.Structure

/-!
# Well-formed trees

Every link of a tree is stored twice, at the child and at the parent, and every loop over a tree
follows links until they end. `WellFormed` says that the two stores agree and that no chain of links
closes. It is what all operations keep and what all loops rest on.

## The architecture

* **`ChildOf`**, **`Within`** — one link upwards, and any number of them.
* **`WellFormed`** — the invariant.
* **`depth_lt`**, **`countBelow_lt`** — the number of views above a view and the number of views below
  it. Each of them gets smaller along a link, one upwards and the other downwards, so that links end
  in both directions.
* **`ancestors_eq`** — the bounded loop over parents is the unbounded one, and it finds just the
  views above (`mem_ancestors_iff`).
-/

namespace BoxLayout.ViewTree

open Relation

variable {α : Type}

/-- A view names another one as its parent. -/
def ChildOf (t : ViewTree α) (child parent : ViewId) : Prop := t.parent? child = some parent

/-- A view is another one or lies somewhere below it. -/
def Within (t : ViewTree α) : ViewId → ViewId → Prop := ReflTransGen t.ChildOf

/-- The links of a tree agree in both directions, and no chain of them closes. -/
structure WellFormed (t : ViewTree α) : Prop where
  sound : t.views.Sound
  childOf_of_mem : ∀ {parent child}, child ∈ t.children parent → t.ChildOf child parent
  count_of_childOf : ∀ {child parent}, t.ChildOf child parent →
    (t.children parent).count child = 1
  acyclic : ∀ id, ¬ TransGen t.ChildOf id id

variable {t : ViewTree α}

/-! ## Links -/

/-- The links of a view that is there are those that it stores. -/
theorem children_of_get? {id : ViewId} {v : View α} (h : t.get? id = some v) :
    t.children id = v.children := by
  rw [children, h]
  rfl

theorem parent?_of_get? {id : ViewId} {v : View α} (h : t.get? id = some v) :
    t.parent? id = v.parent := by
  rw [parent?, h]
  rfl

theorem children_of_get?_none {id : ViewId} (h : t.get? id = none) : t.children id = [] := by
  rw [children, h]
  rfl

/-- A view with a parent is there. -/
theorem ChildOf.live {child parent : ViewId} (h : t.ChildOf child parent) :
    ∃ v, t.get? child = some v ∧ v.parent = some parent :=
  Option.bind_eq_some_iff.mp h

/-- A view with children is there. -/
theorem live_of_mem_children {child parent : ViewId} (h : child ∈ t.children parent) :
    ∃ v, t.get? parent = some v ∧ child ∈ v.children := by
  cases hget : t.get? parent with
  | none =>
    rw [children_of_get?_none hget] at h
    nomatch h
  | some v =>
    rw [children_of_get? hget] at h
    exact ⟨v, rfl, h⟩

/-- A view has one parent at most. -/
theorem ChildOf.unique {child p q : ViewId} (hp : t.ChildOf child p) (hq : t.ChildOf child q) :
    p = q :=
  Option.some.inj (hp.symm.trans hq)

theorem rightUnique_childOf (t : ViewTree α) : Relator.RightUnique t.ChildOf :=
  fun _ _ _ hp hq => hp.unique hq

namespace WellFormed

/-- Both directions of a link say the same. -/
theorem mem_children_iff (h : t.WellFormed) {child parent : ViewId} :
    child ∈ t.children parent ↔ t.ChildOf child parent := by
  refine ⟨h.childOf_of_mem, fun hlink => ?_⟩
  rw [← List.count_pos_iff, h.count_of_childOf hlink]
  exact Nat.one_pos

/-- No view is listed twice. -/
theorem nodup_children (h : t.WellFormed) (id : ViewId) : (t.children id).Nodup := by
  rw [List.nodup_iff_count_le_one]
  intro child
  by_cases hmem : child ∈ t.children id
  · exact (h.count_of_childOf (h.childOf_of_mem hmem)).le
  · rw [List.count_eq_zero_of_not_mem hmem]
    exact Nat.zero_le 1

theorem parent_live (h : t.WellFormed) {child parent : ViewId} (hlink : t.ChildOf child parent) :
    (t.get? parent).isSome := by
  obtain ⟨v, hget, -⟩ := live_of_mem_children (h.mem_children_iff.mpr hlink)
  rw [hget]
  rfl

/-- No view is its own parent. -/
theorem ne_of_childOf (h : t.WellFormed) {child parent : ViewId} (hlink : t.ChildOf child parent) :
    parent ≠ child := by
  rintro rfl
  exact h.acyclic parent (TransGen.single hlink)

end WellFormed

/-! ## Counting along links

A chain of links cannot be longer than there are views, because it never comes back. -/

/-- The number of views above a view. -/
noncomputable def depth (t : ViewTree α) (id : ViewId) : ℕ :=
  {top | TransGen t.ChildOf id top}.ncard

/-- The number of views below a view. -/
noncomputable def countBelow (t : ViewTree α) (id : ViewId) : ℕ :=
  {low | TransGen t.ChildOf low id}.ncard

namespace WellFormed

/-- All views above a view are there. -/
theorem above_subset_live (h : t.WellFormed) (id : ViewId) :
    {top | TransGen t.ChildOf id top} ⊆ {top | (t.get? top).isSome} := by
  intro top htop
  obtain ⟨last, -, hlink⟩ := TransGen.tail'_iff.mp htop
  exact h.parent_live hlink

theorem below_subset_live (id : ViewId) :
    {low | TransGen t.ChildOf low id} ⊆ {low | (t.get? low).isSome} := by
  intro low hlow
  obtain ⟨next, hlink, -⟩ := TransGen.head'_iff.mp hlow
  obtain ⟨v, hget, -⟩ := hlink.live
  show (t.get? low).isSome = true
  rw [hget]
  rfl

theorem depth_le (h : t.WellFormed) (id : ViewId) : t.depth id ≤ t.views.slots.size :=
  (Set.ncard_le_ncard (h.above_subset_live id) t.views.finite_live).trans t.views.ncard_live_le

/-- A parent has fewer views above it: all of its own are above its child, and it is one more. -/
theorem depth_lt (h : t.WellFormed) {child parent : ViewId} (hlink : t.ChildOf child parent) :
    t.depth parent < t.depth child := by
  refine Set.ncard_lt_ncard ⟨fun top htop => TransGen.head hlink htop, fun hsub => ?_⟩
    (t.views.finite_live.subset (h.above_subset_live child))
  -- the parent is above its child and not above itself
  exact h.acyclic parent (hsub (TransGen.single hlink))

theorem countBelow_lt (h : t.WellFormed) {child parent : ViewId} (hlink : t.ChildOf child parent) :
    t.countBelow child < t.countBelow parent := by
  refine Set.ncard_lt_ncard ⟨fun low hlow => TransGen.tail hlow hlink, fun hsub => ?_⟩
    (t.views.finite_live.subset (below_subset_live parent))
  exact h.acyclic child (hsub (TransGen.single hlink))

/-- **Every recursion over children ends.** -/
theorem wellFounded_childOf (h : t.WellFormed) : WellFounded t.ChildOf :=
  Subrelation.wf (fun hlink => h.countBelow_lt hlink) (measure t.countBelow).wf

/-- **Every loop over parents ends.** -/
theorem wellFounded_parentOf (h : t.WellFormed) : WellFounded (Function.swap t.ChildOf) :=
  Subrelation.wf (fun hlink => h.depth_lt hlink) (measure t.depth).wf

/-! ## Ancestors -/

/-- A loop over parents that is allowed as many steps as there are views above has no use for one
more. Induction on the bound: a step upwards uses one up and leaves one view fewer above. -/
theorem ancestorsTo_succ (h : t.WellFormed) {n : ℕ} {id : ViewId} (hdepth : t.depth id ≤ n) :
    t.ancestorsTo (n + 1) id = t.ancestorsTo n id := by
  induction n generalizing id with
  | zero =>
    -- no view is above, so there is no parent
    have hnone : t.parent? id = none := by
      by_contra hsome
      obtain ⟨parent, hlink⟩ := Option.ne_none_iff_exists'.mp hsome
      have := h.depth_lt hlink
      omega
    simp only [ancestorsTo, hnone]
  | succ n ih =>
    rw [ancestorsTo, ancestorsTo]
    cases hparent : t.parent? id with
    | none => rfl
    | some parent =>
      have := h.depth_lt hparent
      show parent :: t.ancestorsTo (n + 1) parent = parent :: t.ancestorsTo n parent
      rw [ih (by omega)]

/-- **The loop over parents, without its bound.** -/
theorem ancestors_eq (h : t.WellFormed) (id : ViewId) :
    t.ancestors id =
      match t.parent? id with
      | some parent => parent :: t.ancestors parent
      | none => [] := by
  rw [ancestors, levels, ancestorsTo]
  cases t.parent? id with
  | none => rfl
  | some parent =>
    show _ = parent :: t.ancestorsTo (t.views.slots.size + 1) parent
    -- one step has been used up, and the parent has no need of it
    rw [h.ancestorsTo_succ (h.depth_le parent)]

/-- One step of the loop over parents. -/
theorem ancestors_of_childOf (h : t.WellFormed) {child parent : ViewId}
    (hlink : t.ChildOf child parent) : t.ancestors child = parent :: t.ancestors parent := by
  rw [h.ancestors_eq, hlink]

theorem transGen_of_mem_ancestorsTo {n : ℕ} {id top : ViewId} (hmem : top ∈ t.ancestorsTo n id) :
    TransGen t.ChildOf id top := by
  induction n generalizing id with
  | zero => nomatch hmem
  | succ n ih =>
    rw [ancestorsTo] at hmem
    split at hmem
    case h_1 parent hlink =>
      rcases List.mem_cons.mp hmem with rfl | hmem
      · exact TransGen.single hlink
      · exact TransGen.head hlink (ih hmem)
    case h_2 => nomatch hmem

/-- The loop over parents finds the views above, and no other. -/
theorem mem_ancestors_iff (h : t.WellFormed) {id top : ViewId} :
    top ∈ t.ancestors id ↔ TransGen t.ChildOf id top := by
  refine ⟨transGen_of_mem_ancestorsTo, fun hpath => ?_⟩
  induction hpath using TransGen.head_induction_on with
  | single hlink =>
    rw [h.ancestors_of_childOf hlink]
    exact List.mem_cons_self
  | head hlink _ ih =>
    rw [h.ancestors_of_childOf hlink]
    exact List.mem_cons_of_mem _ ih

/-- The check of an insertion: whether a view is another one or lies above it. -/
theorem mem_cons_ancestors_iff (h : t.WellFormed) {id top : ViewId} :
    top ∈ id :: t.ancestors id ↔ t.Within id top := by
  rw [List.mem_cons, h.mem_ancestors_iff, Within, reflTransGen_iff_eq_or_transGen]

end WellFormed

end BoxLayout.ViewTree
