import Mathlib
import BoxLayout.ViewTree.Walk
import BoxLayout.Proofs.ViewTree.Subtree

/-!
# What a walk visits

A walk keeps the views that are still to come in a stack and knows nothing of the tree's depth. It is
told here without the bound that the library gives it: the visits until nothing is pending. In a
well-formed tree there is such an end, and the visits are the shape below the start in pre-order.

## The architecture

* **`Walk.Visits`** — a walk to its end; `Visits.take_eq` says that the bound is enough for it.
* **`Unfolds.visits_append`** — the invariant of the stack: what is pending in front is visited with
  all below it, and what lies behind is visited afterwards as if nothing had been in front.
* **`walk_eq_preorder`**, **`walk_eq`** — the visits as the pre-order of a shape, and as a recursion on
  children.
* **`mem_preorder_iff`**, **`mem_walk_iff`** — the depth of a visit counts the parents up to the start.
-/

namespace BoxLayout

open Relation

variable {α : Type}

/-! ## Walks to their end -/

/-- The visits of a walk from now on until nothing is pending. -/
inductive Walk.Visits (t : ViewTree α) : Walk → List (ViewId × ℕ) → Prop
  | done {w : Walk} : w.next? t = none → Visits t w []
  | next {w later : Walk} {visit : ViewId × ℕ} {visits : List (ViewId × ℕ)} :
      w.next? t = some (visit, later) → Visits t later visits → Visits t w (visit :: visits)

namespace Walk.Visits

variable {t : ViewTree α} {w : Walk} {visits others : List (ViewId × ℕ)}

/-- A walk has one end: what comes next is computed. -/
theorem unique (h : Visits t w visits) (h' : Visits t w others) : visits = others := by
  induction h generalizing others with
  | done hnone =>
    cases h' with
    | done => rfl
    | next hsome => simp [hnone] at hsome
  | next hsome _ ih =>
    cases h' with
    | done hnone => simp [hnone] at hsome
    | next hsome' hrest =>
      rw [hsome, Option.some.injEq, Prod.mk.injEq] at hsome'
      obtain ⟨rfl, rfl⟩ := hsome'
      rw [ih hrest]

/-- A bound that is no smaller than the number of visits cuts none of them off. -/
theorem take_eq (h : Visits t w visits) {bound : ℕ} (hbound : visits.length ≤ bound) :
    w.take t bound = visits := by
  induction h generalizing bound with
  | done hnone =>
    cases bound with
    | zero => rfl
    | succ bound => simp only [take, hnone]
  -- a visit uses up one of the bound, and there is one visit less to come
  | next hsome _ ih =>
    cases bound with
    | zero => simp at hbound
    | succ bound =>
      rw [List.length_cons] at hbound
      simp only [take, hsome]
      rw [ih (by omega)]

end Walk.Visits

/-! ## Pre-order -/

/-- One level deeper the same views come in the same order. -/
theorem Forest.preorder_succ (f : Forest) (depth : ℕ) :
    f.preorder (depth + 1) = (f.preorder depth).map fun visit => (visit.1, visit.2 + 1) := by
  induction f generalizing depth with
  | empty => rfl
  | view id children rest ihc ihr => simp [preorder, ihc, ihr]

namespace ViewTree

variable {t : ViewTree α}

namespace Unfolds

variable {ids : List ViewId} {f : Forest}

/-- **What is pending in front is visited first, with all below it.** Induction on the shape, for any
depth and anything behind: a visit puts the children in front of the views after it, and both parts are
then in front of something. -/
theorem visits_append (hf : Unfolds t ids f) (depth : ℕ) {pending visits : List (ViewId × ℕ)}
    (hvisits : Walk.Visits t ⟨pending⟩ visits) :
    Walk.Visits t ⟨ids.map (·, depth) ++ pending⟩ (f.preorder depth ++ visits) := by
  induction hf generalizing depth pending visits with
  | nil => exact hvisits
  | cons _ _ ihc ihr =>
    rw [Forest.preorder, List.cons_append, List.append_assoc]
    -- the view is visited; its children stand in front of the views after it, and these in front of the
    -- rest
    exact .next rfl (ihc (depth + 1) (ihr depth hvisits))

/-- The pre-order of views that follow each other is that of each of them in turn. -/
theorem preorder_eq_flatMap (h : t.WellFormed) (hf : Unfolds t ids f) (depth : ℕ) :
    f.preorder depth = ids.flatMap fun id => (t.forest [id]).preorder depth := by
  induction hf generalizing depth with
  | nil => rfl
  | @cons id ids children rest hc _ _ ihr =>
    -- a shape is that of its views, so the one at hand is the one below the first view
    obtain rfl : t.below id = children := (unfolds_forest h _).unique hc
    rw [List.flatMap_cons, (h.ends id).forest_eq, Forest.preorder, Forest.preorder, Forest.preorder,
      ihr, List.append_nil, List.cons_append]

end Unfolds

/-! ## Walks through a tree -/

section

variable (h : t.WellFormed) (start : ViewId)

include h

/-- The walk from a view goes through the shape below it and ends. -/
theorem visits_start : (Walk.start start).Visits t ((t.forest [start]).preorder 0) := by
  -- nothing lies behind the start
  have hvisits := (unfolds_forest h [start]).visits_append 0 (.done (w := ⟨[]⟩) rfl)
  simp only [List.append_nil] at hvisits
  exact hvisits

/-- **A walk visits the shape below its start in pre-order.** -/
theorem walk_eq_preorder : t.walk start = (t.forest [start]).preorder 0 :=
  (visits_start h start).take_eq (Forest.length_preorder _ _).le

theorem visits_iff {visits : List (ViewId × ℕ)} :
    (Walk.start start).Visits t visits ↔ visits = t.walk start := by
  rw [walk_eq_preorder h]
  refine ⟨fun hvisits => hvisits.unique (visits_start h start), ?_⟩
  rintro rfl
  exact visits_start h start

/-- **A walk as a recursion on children**: the start, then the walks from its children in their order,
each one level deeper. -/
theorem walk_eq : t.walk start = (start, 0) :: (t.children start).flatMap fun child =>
    (t.walk child).map fun visit => (visit.1, visit.2 + 1) := by
  have hbelow := (unfolds_forest h (t.children start)).preorder_eq_flatMap h 1
  simp only [walk_eq_preorder h, ← Forest.preorder_succ]
  rw [(h.ends start).forest_eq, Forest.preorder, Forest.preorder, List.append_nil]
  exact congrArg _ hbelow

/-- Without the depths, a walk is the list of the views below its start. -/
theorem map_fst_walk : (t.walk start).map Prod.fst = (t.forest [start]).ids := by
  rw [walk_eq_preorder h, Forest.map_fst_preorder]

/-- A walk visits no view twice. -/
theorem nodup_walk : ((t.walk start).map Prod.fst).Nodup := by
  rw [map_fst_walk h]
  exact nodup_ids_forest h (apart_singleton t start)

end

/-! ## Depths -/

/-- Going up from a view, one link more leads on to the parent of where one is. Induction on the
number of links, along the chain from the view itself. -/
theorem WellFormed.getElem?_chain_succ_iff (h : t.WellFormed) {n : ℕ} {low top : ViewId} :
    (low :: t.ancestors low)[n + 1]? = some top ↔
      ∃ child, (low :: t.ancestors low)[n]? = some child ∧ t.ChildOf child top := by
  induction n generalizing low with
  -- one link up from the view itself
  | zero =>
    rw [h.ancestors_eq]
    cases hparent : t.parent? low <;> simp [ChildOf, hparent]
  | succ n ih =>
    cases hparent : t.parent? low with
    | none =>
      have hnone : t.ancestors low = [] := by rw [h.ancestors_eq, hparent]
      simp [hnone]
    | some parent =>
      rw [h.ancestors_of_childOf hparent, List.getElem?_cons_succ, List.getElem?_cons_succ]
      exact ih

/-- **The depth of a view in a pre-order counts the links up to the view that the order begins with.** -/
theorem Unfolds.mem_preorder_iff (h : t.WellFormed) {ids : List ViewId} {f : Forest}
    (hf : Unfolds t ids f) {depth : ℕ} {low : ViewId} {n : ℕ} :
    (low, n) ∈ f.preorder depth ↔
      ∃ top ∈ ids, ∃ k, n = depth + k ∧ (low :: t.ancestors low)[k]? = some top := by
  induction hf generalizing depth with
  | nil => simp [Forest.preorder]
  | @cons id ids children rest _ _ ihc ihr =>
    rw [Forest.preorder, List.mem_cons, List.mem_append, ihc, ihr, List.exists_mem_cons_iff, ← or_assoc]
    refine or_congr_left ⟨?_, ?_⟩
    · rintro (heq | ⟨child, hchild, k, rfl, hchain⟩)
      · obtain ⟨rfl, rfl⟩ := Prod.mk.inj heq
        exact ⟨0, rfl, rfl⟩
      · -- below a child: one link more leads from the child to the view
        refine ⟨k + 1, by omega, ?_⟩
        exact h.getElem?_chain_succ_iff.mpr ⟨child, hchain, h.childOf_of_mem hchild⟩
    · rintro ⟨k, rfl, hchain⟩
      cases k with
      | zero => exact Or.inl (Prod.ext (Option.some.inj hchain) rfl)
      | succ k =>
        obtain ⟨child, hchild, hlink⟩ := h.getElem?_chain_succ_iff.mp hchain
        exact Or.inr ⟨child, h.mem_children_iff.mpr hlink, k, by omega, hchild⟩

/-- **A walk visits every view from which parents lead up to its start**, at the depth that counts
them. -/
theorem mem_walk_iff (h : t.WellFormed) {start low : ViewId} {n : ℕ} :
    (low, n) ∈ t.walk start ↔ (low :: t.ancestors low)[n]? = some start := by
  rw [walk_eq_preorder h, (unfolds_forest h [start]).mem_preorder_iff h]
  simp

/-- From a view of the tree a walk meets views of the tree only. -/
theorem live_of_mem_walk (h : t.WellFormed) {start : ViewId} (hlive : (t.get? start).isSome = true)
    {visit : ViewId × ℕ} (hmem : visit ∈ t.walk start) : (t.get? visit.1).isSome = true := by
  have hids : visit.1 ∈ (t.forest [start]).ids := by
    rw [← map_fst_walk h]
    exact List.mem_map_of_mem hmem
  rcases ReflTransGen.cases_head ((mem_ids_forest_singleton_iff h).mp hids) with heq | ⟨_, hlink, -⟩
  · rwa [heq]
  · -- the first link on the way up is a view's own
    obtain ⟨v, hv, -⟩ := hlink.live
    rw [hv]
    rfl

end ViewTree

end BoxLayout
