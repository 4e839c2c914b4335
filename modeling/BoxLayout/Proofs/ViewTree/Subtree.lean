import Mathlib
import BoxLayout.Proofs.ViewTree.WellFormed

/-!
# The views below a view

The shape below some views is unfolded to a bounded number of levels. In a well-formed tree the
bound is never met, so the shape is that of the unbounded recursion over children, and it holds
every view below just once.

## The architecture

* **`Unfolds`** — the shape below some views, by the recursion over children without a bound.
* **`Listed`**, **`Ends`** — the lists of children, and where following them comes to an end.
* **`unfolds_forest`** — the bounded recursion yields it; `forest_cons` is the equation to use.
* **`mem_ids_forest_iff`** — a shape holds the views below its start, and no other.
* **`nodup_ids_forest`** — it holds each of them once, if the start lists views that lie apart.
* **`Drains`** — the loop that goes through a subtree level by level, without a bound.
* **`drains_levelOrder`** — it comes to its end; `Drains.perm` — it meets the views of the shape.
-/

namespace BoxLayout

open Relation

/-- A shape lists as many views as it counts. -/
theorem Forest.length_ids (f : Forest) : f.ids.length = f.size := by
  rw [← f.map_fst_preorder 0, List.length_map, f.length_preorder]

namespace ViewTree

variable {α : Type} {t : ViewTree α}

/-! ## Unfolding -/

/-- The shape below some views, with all their children and children's children. -/
inductive Unfolds (t : ViewTree α) : List ViewId → Forest → Prop
  | nil : Unfolds t [] .empty
  | cons {id : ViewId} {ids : List ViewId} {children rest : Forest} :
      Unfolds t (t.children id) children → Unfolds t ids rest →
        Unfolds t (id :: ids) (.view id children rest)

namespace Unfolds

/-- The recursion over children has one outcome. -/
theorem unique {ids : List ViewId} {f g : Forest} (hf : Unfolds t ids f) (hg : Unfolds t ids g) :
    f = g := by
  induction hf generalizing g with
  | nil =>
    cases hg
    rfl
  | cons _ _ ihc ihr =>
    cases hg with
    | cons hc hr => rw [ihc hc, ihr hr]

/-- Views that follow each other have their shapes after each other. -/
theorem ids_append {xs ys : List ViewId} {f g h : Forest} (hf : Unfolds t xs f)
    (hg : Unfolds t ys g) (hh : Unfolds t (xs ++ ys) h) : h.ids = f.ids ++ g.ids := by
  induction hf generalizing h with
  | nil => rw [hh.unique hg, Forest.ids, List.nil_append]
  | cons hc hr _ ihr =>
    cases hh with
    | cons hc' hr' =>
      rw [Forest.ids, Forest.ids, hc'.unique hc, ihr hr', List.cons_append, List.append_assoc]

/-- Trees with the same lists of children unfold alike. -/
theorem congr {r : ViewTree α} (hchildren : ∀ id, r.children id = t.children id)
    {ids : List ViewId} {f : Forest} (hf : Unfolds t ids f) : Unfolds r ids f := by
  induction hf with
  | nil => exact .nil
  | cons _ _ ihc ihr => exact .cons ((hchildren _).symm ▸ ihc) ihr

end Unfolds

/-! ## Lists of children

What lies below a view is told by the lists of children alone, also where the links back to the
parents say something else. -/

/-- A view is listed among the children of another one. -/
def Listed (t : ViewTree α) (child parent : ViewId) : Prop := child ∈ t.children parent

/-- The recursion over children comes to an end below a view. -/
def Ends (t : ViewTree α) (id : ViewId) : Prop := Acc t.Listed id

/-- The number of views that are a view or lie below it. -/
noncomputable def countWithin (t : ViewTree α) (id : ViewId) : ℕ :=
  {low | ReflTransGen t.Listed low id ∧ (t.get? low).isSome}.ncard

/-- In a well-formed tree both directions of the links say the same. -/
theorem WellFormed.listed_eq (h : t.WellFormed) : t.Listed = t.ChildOf := by
  funext child parent
  exact propext h.mem_children_iff

theorem WellFormed.ends (h : t.WellFormed) (id : ViewId) : t.Ends id := by
  rw [Ends, h.listed_eq]
  exact h.wellFounded_childOf.apply id

/-- Where the recursion ends, no view is below itself. -/
theorem Ends.not_transGen {id : ViewId} (h : t.Ends id) : ¬ TransGen t.Listed id id := by
  -- the chains of links are well-founded where the links are, and then none closes
  have hacc : Acc (TransGen t.Listed) id := Acc.transGen h
  clear h
  induction hacc with
  | intro id _ ih => exact fun hcycle => ih id hcycle hcycle

theorem finite_within (id : ViewId) :
    {low | ReflTransGen t.Listed low id ∧ (t.get? low).isSome}.Finite :=
  t.views.finite_live.subset fun _ hlow => hlow.2

theorem countWithin_le (id : ViewId) : t.countWithin id ≤ t.views.slots.size :=
  (Set.ncard_le_ncard (fun _ hlow => hlow.2) t.views.finite_live).trans t.views.ncard_live_le

/-- A child has fewer views within: its parent has all of them, and itself. -/
theorem Ends.countWithin_lt {id child : ViewId} (h : t.Ends id) (hchild : t.Listed child id) :
    t.countWithin child < t.countWithin id := by
  refine Set.ncard_lt_ncard ⟨fun low hlow => ⟨hlow.1.tail hchild, hlow.2⟩, fun hsub => ?_⟩
    (finite_within id)
  obtain ⟨v, hv, -⟩ := live_of_mem_children hchild
  have hself : id ∈ {low | ReflTransGen t.Listed low id ∧ (t.get? low).isSome} :=
    ⟨ReflTransGen.refl, by rw [hv]; rfl⟩
  exact h.not_transGen (TransGen.tail' (hsub hself).1 hchild)

/-- A number of levels above the number of views within each start is enough. Induction on the
number of levels: a child has fewer views within it. -/
theorem unfolds_forestTo {n : ℕ} {ids : List ViewId} (hends : ∀ id ∈ ids, t.Ends id)
    (hbound : ∀ id ∈ ids, t.countWithin id < n) : Unfolds t ids (t.forestTo n ids) := by
  induction n generalizing ids with
  | zero =>
    cases ids with
    | nil => exact .nil
    | cons id ids =>
      have := hbound id List.mem_cons_self
      omega
  | succ n ih =>
    rw [forestTo]
    induction ids with
    | nil => exact .nil
    | cons id ids ihids =>
      have hid := hends id List.mem_cons_self
      refine .cons (ih (fun child hchild => hid.inv hchild) fun child hchild => ?_)
        (ihids (fun other hother => hends other (List.mem_cons_of_mem _ hother))
          fun other hother => hbound other (List.mem_cons_of_mem _ hother))
      -- one level fewer is left, and one view fewer at least
      have hlt := hid.countWithin_lt hchild
      have := hbound id List.mem_cons_self
      omega

/-- **The recursion over children, without its bound.** -/
theorem unfolds_forest_of_ends {ids : List ViewId} (hends : ∀ id ∈ ids, t.Ends id) :
    Unfolds t ids (t.forest ids) := by
  refine unfolds_forestTo hends fun id _ => ?_
  have := countWithin_le (t := t) id
  unfold levels
  omega

theorem unfolds_forest (h : t.WellFormed) (ids : List ViewId) : Unfolds t ids (t.forest ids) :=
  unfolds_forest_of_ends fun id _ => h.ends id

/-- The equation of the recursion, with no bound in sight. -/
theorem forest_cons (h : t.WellFormed) (id : ViewId) (ids : List ViewId) :
    t.forest (id :: ids) = .view id (t.below id) (t.forest ids) :=
  (unfolds_forest h _).unique (.cons (unfolds_forest h _) (unfolds_forest h _))

/-! ### A single start -/

section

variable {id : ViewId} (h : t.Ends id)

include h

theorem Ends.unfolds : Unfolds t [id] (t.forest [id]) :=
  unfolds_forest_of_ends fun _ hother => List.mem_singleton.mp hother ▸ h

theorem Ends.unfolds_below : Unfolds t (t.children id) (t.below id) :=
  unfolds_forest_of_ends fun _ hchild => h.inv hchild

theorem Ends.forest_eq : t.forest [id] = .view id (t.below id) .empty :=
  h.unfolds.unique (.cons h.unfolds_below .nil)

end

/-! ## What a shape holds -/

namespace Unfolds

/-- A shape holds the views it starts from. -/
theorem subset_ids {ids : List ViewId} {f : Forest} (hf : Unfolds t ids f) : ids ⊆ f.ids := by
  induction hf with
  | nil => exact List.nil_subset _
  | cons _ _ _ ihr =>
    rw [Forest.ids]
    exact List.cons_subset_cons _ (List.subset_append_of_subset_right _ ihr)

/-- With a view a shape holds the children of the view. -/
theorem mem_of_listed {ids : List ViewId} {f : Forest} (hf : Unfolds t ids f)
    {child parent : ViewId} (hlink : t.Listed child parent) (hmem : parent ∈ f.ids) :
    child ∈ f.ids := by
  induction hf with
  | nil => nomatch hmem
  | cons hc hr ihc ihr =>
    rw [Forest.ids, List.mem_cons, List.mem_append] at hmem ⊢
    -- the parent is the view at hand, below it, or in the rest
    rcases hmem with rfl | hmem | hmem
    · exact Or.inr (Or.inl (hc.subset_ids hlink))
    · exact Or.inr (Or.inl (ihc hmem))
    · exact Or.inr (Or.inr (ihr hmem))

/-- From every view of a shape the links lead up to one that it starts from. -/
theorem reaches_of_mem {ids : List ViewId} {f : Forest} (hf : Unfolds t ids f) {low : ViewId}
    (hmem : low ∈ f.ids) : ∃ id ∈ ids, ReflTransGen t.Listed low id := by
  induction hf with
  | nil => nomatch hmem
  | @cons id ids children rest _ _ ihc ihr =>
    rw [Forest.ids, List.mem_cons, List.mem_append] at hmem
    rcases hmem with rfl | hmem | hmem
    · exact ⟨low, List.mem_cons_self, ReflTransGen.refl⟩
    · obtain ⟨child, hchild, hreaches⟩ := ihc hmem
      exact ⟨id, List.mem_cons_self, hreaches.tail hchild⟩
    · obtain ⟨other, hother, hreaches⟩ := ihr hmem
      exact ⟨other, List.mem_cons_of_mem _ hother, hreaches⟩

/-- A shape holds the views that the lists of children lead to, and no other. -/
theorem mem_ids_iff {ids : List ViewId} {f : Forest} (hf : Unfolds t ids f) {low : ViewId} :
    low ∈ f.ids ↔ ∃ id ∈ ids, ReflTransGen t.Listed low id := by
  refine ⟨hf.reaches_of_mem, ?_⟩
  rintro ⟨id, hid, hreaches⟩
  induction hreaches using ReflTransGen.head_induction_on with
  | refl => exact hf.subset_ids hid
  | head hlink _ ih => exact hf.mem_of_listed hlink ih

/-- The shape below one view holds the view and all that the lists lead to from it. -/
theorem mem_ids_singleton_iff {id : ViewId} {f : Forest} (hf : Unfolds t [id] f) {low : ViewId} :
    low ∈ f.ids ↔ ReflTransGen t.Listed low id := by
  rw [hf.mem_ids_iff]
  simp

theorem mem_ids_children_iff {id : ViewId} {f : Forest} (hf : Unfolds t (t.children id) f)
    {low : ViewId} : low ∈ f.ids ↔ TransGen t.Listed low id := by
  rw [hf.mem_ids_iff, TransGen.tail'_iff]
  exact exists_congr fun child => and_comm

theorem within_of_mem (h : t.WellFormed) {ids : List ViewId} {f : Forest} (hf : Unfolds t ids f)
    {low : ViewId} (hmem : low ∈ f.ids) : ∃ id ∈ ids, t.Within low id := by
  rw [Within, ← h.listed_eq]
  exact hf.reaches_of_mem hmem

end Unfolds

/-- A shape holds the views below its start, and no other. -/
theorem mem_ids_forest_iff (h : t.WellFormed) {ids : List ViewId} {low : ViewId} :
    low ∈ (t.forest ids).ids ↔ ∃ id ∈ ids, t.Within low id := by
  rw [Within, ← h.listed_eq]
  exact (unfolds_forest h ids).mem_ids_iff

theorem mem_ids_forest_singleton_iff (h : t.WellFormed) {id low : ViewId} :
    low ∈ (t.forest [id]).ids ↔ t.Within low id := by
  rw [mem_ids_forest_iff h]
  simp

/-! ## Each view once -/

/-- No view lies below two of the views, or is listed twice. -/
structure Apart (t : ViewTree α) (ids : List ViewId) : Prop where
  nodup : ids.Nodup
  eq_of_within : ∀ {low id other}, id ∈ ids → other ∈ ids → t.Within low id →
    t.Within low other → id = other

theorem apart_singleton (t : ViewTree α) (id : ViewId) : t.Apart [id] where
  nodup := List.nodup_singleton id
  eq_of_within hid hother _ _ := (List.mem_singleton.mp hid).trans (List.mem_singleton.mp hother).symm

/-- Siblings lie apart: from a view below two of them the links would lead through one to the other
and so from the parent back to itself. -/
theorem apart_children (h : t.WellFormed) (id : ViewId) : t.Apart (t.children id) where
  nodup := h.nodup_children id
  eq_of_within {low child other} hchild hother hlow hlow' := by
    -- of two siblings none is below the other
    have hnot {a b : ViewId} (ha : a ∈ t.children id) (hb : b ∈ t.children id)
        (hab : t.Within a b) : a = b := by
      rcases ReflTransGen.cases_head hab with heq | ⟨next, hlink, hrest⟩
      · exact heq
      · obtain rfl := (h.childOf_of_mem ha).unique hlink
        exact absurd (TransGen.tail' hrest (h.childOf_of_mem hb)) (h.acyclic id)
    -- both lie on the one way up from the view, so one lies below the other
    rcases ReflTransGen.total_of_right_unique t.rightUnique_childOf hlow hlow' with hup | hup
    · exact hnot hchild hother hup
    · exact (hnot hother hchild hup).symm

/-- Below views that lie apart no view is met twice. -/
theorem Unfolds.nodup_ids (h : t.WellFormed) {ids : List ViewId} {f : Forest}
    (hf : Unfolds t ids f) (ha : t.Apart ids) : f.ids.Nodup := by
  induction hf with
  | nil => exact List.nodup_nil
  | @cons id ids children rest hc hr ihc ihr =>
    have hid := List.nodup_cons.mp ha.nodup
    have hrest : t.Apart ids :=
      ⟨hid.2, fun h₁ h₂ => ha.eq_of_within (List.mem_cons_of_mem _ h₁) (List.mem_cons_of_mem _ h₂)⟩
    -- what is below the first view is below none of the others
    have hbelow {low : ViewId} (hlow : low ∈ children.ids) : TransGen t.ChildOf low id := by
      obtain ⟨child, hchild, hwithin⟩ := hc.within_of_mem h hlow
      exact TransGen.tail' hwithin (h.childOf_of_mem hchild)
    have hapart {low : ViewId} (hlow : t.Within low id) : low ∉ rest.ids := fun hmem => by
      obtain ⟨other, hother, hwithin⟩ := hr.within_of_mem h hmem
      have heq := ha.eq_of_within List.mem_cons_self (List.mem_cons_of_mem _ hother) hlow hwithin
      exact hid.1 (heq ▸ hother)
    rw [Forest.ids, List.nodup_cons, List.mem_append, List.nodup_append']
    refine ⟨fun hmem => ?_, ihc (apart_children h id), ihr hrest, fun low hlow => ?_⟩
    · rcases hmem with hmem | hmem
      · exact h.acyclic id (hbelow hmem)
      · exact hapart ReflTransGen.refl hmem
    · exact hapart (hbelow hlow).to_reflTransGen

theorem nodup_ids_forest (h : t.WellFormed) {ids : List ViewId} (ha : t.Apart ids) :
    (t.forest ids).ids.Nodup :=
  (unfolds_forest h ids).nodup_ids h ha

/-! ## Level by level

The loop that goes through a subtree walks a queue that it makes longer as it goes. It is allowed as
many steps as there are views in the subtree, and with these it comes to its end. -/

/-- The loop without its bound: the views of a queue are taken one by one, and the children of each
join the end of the queue, until none is left. The second list is what is taken, in order. -/
inductive Drains (t : ViewTree α) : List ViewId → List ViewId → Prop
  | nil : Drains t [] []
  | cons {id : ViewId} {queue taken : List ViewId} :
      Drains t (queue ++ t.children id) taken → Drains t (id :: queue) (id :: taken)

/-- Shapes below two lists of views, one after the other. -/
theorem ids_forest_append (h : t.WellFormed) (xs ys : List ViewId) :
    (t.forest (xs ++ ys)).ids = (t.forest xs).ids ++ (t.forest ys).ids :=
  (unfolds_forest h xs).ids_append (unfolds_forest h ys) (unfolds_forest h (xs ++ ys))

/-- The loop takes every view of the shape below its queue once. -/
theorem Drains.perm (h : t.WellFormed) {queue taken : List ViewId} (hdrains : t.Drains queue taken) :
    taken.Perm (t.forest queue).ids := by
  induction hdrains with
  | nil => exact List.Perm.refl _
  | @cons id queue taken _ ih =>
    rw [ids_forest_append h] at ih
    rw [forest_cons h, Forest.ids]
    exact (ih.trans List.perm_append_comm).cons id

/-- **With enough steps the loop comes to its end.** Induction on the number of steps: what joins the
queue was below the view that is taken, so one view fewer is left. -/
theorem drains_levelOrder (h : t.WellFormed) {n : ℕ} {queue : List ViewId}
    (hsize : (t.forest queue).size ≤ n) : t.Drains queue (t.levelOrder n queue) := by
  induction n generalizing queue with
  | zero =>
    cases queue with
    | nil => exact .nil
    | cons id queue =>
      rw [forest_cons h, Forest.size] at hsize
      omega
  | succ n ih =>
    cases queue with
    | nil => exact .nil
    | cons id queue =>
      refine .cons (ih ?_)
      rw [forest_cons h, Forest.size] at hsize
      -- the children move from below the view to the end of the queue, the view is gone
      rw [← Forest.length_ids, ids_forest_append h, List.length_append, Forest.length_ids,
        Forest.length_ids]
      have : (t.below id).size = (t.forest (t.children id)).size := rfl
      omega

theorem drains_subtree (h : t.WellFormed) (id : ViewId) : t.Drains [id] (t.subtree id) :=
  drains_levelOrder h le_rfl

/-- The loop through a subtree meets no view twice. -/
theorem nodup_subtree (h : t.WellFormed) (id : ViewId) : (t.subtree id).Nodup :=
  ((drains_subtree h id).perm h).nodup_iff.mpr (nodup_ids_forest h (apart_singleton t id))

/-- The subtree of a view is the view with all that lies below it. -/
theorem mem_subtree_iff (h : t.WellFormed) {id low : ViewId} :
    low ∈ t.subtree id ↔ t.Within low id := by
  rw [((drains_subtree h id).perm h).mem_iff, mem_ids_forest_singleton_iff h]

/-- What lies below a view of a subtree belongs to the subtree. -/
theorem mem_subtree_of_mem_below (h : t.WellFormed) {id low start : ViewId}
    (hid : id ∈ t.subtree start) (hlow : low ∈ (t.below id).ids) : low ∈ t.subtree start := by
  rw [mem_subtree_iff h] at hid ⊢
  obtain ⟨child, hchild, hwithin⟩ := (unfolds_forest h _).within_of_mem h hlow
  exact (hwithin.tail (h.childOf_of_mem hchild)).trans hid

end ViewTree

end BoxLayout
