import Mathlib
import BoxLayout.Proofs.ViewTree.Subtree

/-!
# Changes of the structure keep trees well-formed

Inserting a view rewires three views at once and removing one takes away a whole subtree. Each of
these is described here by what it does to every look-up, and from that by what it does to links.

## The architecture

* **`WellFormed.of_links`** — a tree with the same links is well-formed too, which settles
  everything that only writes other fields.
* **`get?_detach`**, **`get?_attach`**, **`get?_remove`** — every look-up after a change, in a
  well-formed tree.
* **`WellFormed.detach`**, **`WellFormed.attach`**, **`WellFormed.remove`** — the invariant is kept.
  For `attach` this is where the check of an insertion is needed: a cycle through the one new link
  would lead from the parent to the child along the old ones.
* **`WellFormed.insertBefore`** — the two halves of an insertion together.
-/

namespace BoxLayout.ViewTree

open Relation

variable {α : Type} {t r : ViewTree α}

/-! ## Fewer links, the same links -/

/-- Where there are fewer links there are fewer chains of links. -/
theorem transGen_mono (hlinks : ∀ {a b}, r.ChildOf a b → t.ChildOf a b) {low top : ViewId}
    (h : TransGen r.ChildOf low top) : TransGen t.ChildOf low top :=
  TransGen.mono (fun _ _ => hlinks) _ _ h

theorem within_mono (hlinks : ∀ {a b}, r.ChildOf a b → t.ChildOf a b) {low top : ViewId}
    (h : r.Within low top) : t.Within low top :=
  ReflTransGen.mono (fun _ _ => hlinks) _ _ h

/-- A tree with the same links is well-formed too. -/
theorem WellFormed.of_links (h : t.WellFormed) (hsound : r.views.Sound)
    (hparent : ∀ id, r.parent? id = t.parent? id) (hchildren : ∀ id, r.children id = t.children id) :
    r.WellFormed := by
  have hlink : r.ChildOf = t.ChildOf := by
    funext child parent
    rw [ChildOf, ChildOf, hparent]
  refine ⟨hsound, ?_, ?_, ?_⟩
  · intro parent child hmem
    rw [hchildren] at hmem
    rw [hlink]
    exact h.childOf_of_mem hmem
  · intro child parent hchild
    rw [hlink] at hchild
    rw [hchildren]
    exact h.count_of_childOf hchild
  · rw [hlink]
    exact h.acyclic

/-- A change of other fields of one view keeps the links. -/
theorem WellFormed.update (h : t.WellFormed) (id : ViewId) {change : View α → View α}
    (hparent : ∀ v, (change v).parent = v.parent)
    (hchildren : ∀ v, (change v).children = v.children) : (t.update id change).WellFormed := by
  refine h.of_links (h.sound.update id change) (fun other => ?_) (fun other => ?_)
  · rw [parent?, parent?, get?_update]
    split_ifs with heq
    · -- the view that is changed, if it is there
      subst heq
      cases t.get? other <;> simp [hparent]
    · rfl
  · rw [children, children, get?_update]
    split_ifs with heq
    · subst heq
      cases t.get? other <;> simp [hchildren]
    · rfl

/-- A new view has no links, and its id is one that was not in use. -/
theorem WellFormed.create (h : t.WellFormed) {v : View α} (hparent : v.parent = none)
    (hchildren : v.children = []) : (t.create v).2.WellFormed := by
  -- the id is new, so it had no links before
  have hnone : t.get? (t.create v).1 = none := h.sound.get?_insert_id v
  have hget (other : ViewId) : (t.create v).2.get? other =
      if other = (t.create v).1 then some v else t.get? other := h.sound.get?_insert v other
  refine h.of_links (h.sound.insert v) (fun other => ?_) (fun other => ?_)
  · rw [parent?, parent?, hget]
    split_ifs with heq
    · rw [heq, hnone]
      exact hparent
    · rfl
  · rw [children, children, hget]
    split_ifs with heq
    · rw [heq, hnone]
      exact hchildren
    · rfl

/-! ## Taking a view out -/

/-- In a well-formed tree only the parent lists a view. -/
theorem WellFormed.filter_children (h : t.WellFormed) {id other : ViewId}
    (hother : ¬ t.ChildOf id other) :
    (t.children other).filter (· != id) = t.children other := by
  rw [List.filter_eq_self]
  intro child hchild
  rw [bne_iff_ne]
  rintro rfl
  exact hother (h.childOf_of_mem hchild)

theorem WellFormed.filter_children_eq (h : t.WellFormed) {id other : ViewId} {v : View α}
    (hget : t.get? other = some v) (hother : t.parent? id ≠ some other) :
    v.children.filter (· != id) = v.children := by
  rw [← children_of_get? hget]
  exact h.filter_children hother

/-- It makes no difference that a view is taken out of no list but its parent's. -/
theorem get?_detach (h : t.WellFormed) (id other : ViewId) :
    (t.detach id).get? other = (t.get? other).map fun v =>
      { v with
        parent := if other = id then none else v.parent
        children := v.children.filter (· != id) } := by
  unfold detach
  split
  case h_1 hnone =>
    cases hget : t.get? other with
    | none => rfl
    | some v =>
      rw [Option.map_some, h.filter_children_eq hget (by rw [hnone]; nofun)]
      have hparent : (if other = id then none else v.parent) = v.parent := by
        split_ifs with heq
        · rw [← parent?_of_get? hget, heq, hnone]
        · rfl
      rw [hparent]
  case h_2 parent hlink =>
    -- a view is not its own parent, so the two updates change two views
    have hne : parent ≠ id := h.ne_of_childOf hlink
    rw [get?_update, get?_update, get?_update, if_neg hne]
    by_cases hparent : other = parent
    · -- the parent, which loses the view from its list
      subst hparent
      rw [if_pos rfl]
      simp [hne]
    · rw [if_neg hparent]
      have hlist {v : View α} (hget : t.get? other = some v) :
          v.children.filter (· != id) = v.children :=
        h.filter_children_eq hget fun heq => hparent (Option.some.inj (heq.symm.trans hlink))
      by_cases hid : other = id
      · -- the view itself, which loses its parent
        subst hid
        rw [if_pos rfl]
        cases hget : t.get? other with
        | none => rfl
        | some v => simp [hlist hget]
      · rw [if_neg hid]
        -- any other view, whose list does not have it
        cases hget : t.get? other with
        | none => rfl
        | some v => simp [hlist hget, hid]

theorem parent?_detach (h : t.WellFormed) (id other : ViewId) :
    (t.detach id).parent? other = if other = id then none else t.parent? other := by
  rw [parent?, parent?, get?_detach h]
  cases t.get? other with
  | none => simp
  | some v => rfl

theorem children_detach (h : t.WellFormed) (id other : ViewId) :
    (t.detach id).children other = (t.children other).filter (· != id) := by
  rw [children, children, get?_detach h]
  cases t.get? other with
  | none => rfl
  | some v => rfl

/-- All links stay but the one from the view upwards. -/
theorem childOf_detach_iff (h : t.WellFormed) {id child parent : ViewId} :
    (t.detach id).ChildOf child parent ↔ child ≠ id ∧ t.ChildOf child parent := by
  rw [ChildOf, ChildOf, parent?_detach h]
  split_ifs with heq <;> simp [heq]

theorem sound_detach (h : t.WellFormed) (id : ViewId) : (t.detach id).views.Sound := by
  unfold detach
  split
  case h_1 => exact h.sound
  case h_2 parent _ => exact (h.sound.update id _).update parent _

/-- A view taken out of its place leaves a well-formed tree. -/
theorem WellFormed.detach (h : t.WellFormed) (id : ViewId) : (t.detach id).WellFormed where
  sound := sound_detach h id
  childOf_of_mem hmem := by
    rw [children_detach h, List.mem_filter, bne_iff_ne] at hmem
    exact (childOf_detach_iff h).mpr ⟨hmem.2, h.childOf_of_mem hmem.1⟩
  count_of_childOf hlink := by
    obtain ⟨hne, hlink⟩ := (childOf_detach_iff h).mp hlink
    rw [children_detach h, List.count_filter (by rw [bne_iff_ne]; exact hne)]
    exact h.count_of_childOf hlink
  acyclic other hcycle :=
    h.acyclic other (transGen_mono (fun hlink => ((childOf_detach_iff h).mp hlink).2) hcycle)

/-! ## Putting a view under a parent -/

/-- The second half of an insertion, for a view that has no parent. -/
def attach (t : ViewTree α) (parent child : ViewId) (reference : Option ViewId) : ViewTree α :=
  (t.update parent fun v => { v with children := placeBefore reference child v.children }).update
    child fun v => { v with parent := some parent }

/-- An insertion succeeds just if both views are there and the parent is not below the child; then it
detaches and attaches. -/
theorem insertBefore_eq_ok_iff {parent child : ViewId} {reference : Option ViewId} :
    t.insertBefore parent child reference = .ok r ↔
      (t.get? child).isSome ∧ (t.get? parent).isSome ∧ child ∉ parent :: t.ancestors parent ∧
        r = (t.detach child).attach parent child reference := by
  unfold insertBefore node
  cases hchild : t.get? child with
  | none => simp [bind, Except.bind]
  | some v =>
    cases hparent : t.get? parent with
    | none => simp [bind, Except.bind]
    | some w =>
      by_cases hcycle : child ∈ parent :: t.ancestors parent
      · simp [bind, Except.bind, hcycle]
      · simp [bind, Except.bind, hcycle, pure, Except.pure, attach, eq_comm]

/-- Every look-up after the second half of an insertion. -/
theorem get?_attach {parent child : ViewId} (hne : parent ≠ child) (reference : Option ViewId)
    (other : ViewId) :
    (t.attach parent child reference).get? other = (t.get? other).map fun v =>
      { v with
        parent := if other = child then some parent else v.parent
        children := if other = parent then placeBefore reference child v.children
          else v.children } := by
  unfold attach
  rw [get?_update, get?_update, get?_update]
  by_cases hchild : other = child
  · subst hchild
    rw [if_pos rfl, if_neg hne.symm]
    simp [hne.symm]
  · rw [if_neg hchild]
    by_cases hparent : other = parent
    · subst hparent
      simp [hchild]
    · cases t.get? other <;> simp [hchild, hparent]

theorem parent?_attach {parent child : ViewId} (hne : parent ≠ child)
    (hlive : (t.get? child).isSome) (reference : Option ViewId) (other : ViewId) :
    (t.attach parent child reference).parent? other =
      if other = child then some parent else t.parent? other := by
  rw [parent?, parent?, get?_attach hne]
  cases hget : t.get? other with
  | none =>
    have hother : other ≠ child := by
      rintro rfl
      rw [hget] at hlive
      contradiction
    rw [if_neg hother]
    rfl
  | some v => rfl

theorem children_attach {parent child : ViewId} (hne : parent ≠ child)
    (hlive : (t.get? parent).isSome) (reference : Option ViewId) (other : ViewId) :
    (t.attach parent child reference).children other =
      if other = parent then placeBefore reference child (t.children other)
      else t.children other := by
  rw [children, children, get?_attach hne]
  cases hget : t.get? other with
  | none =>
    have hother : other ≠ parent := by
      rintro rfl
      rw [hget] at hlive
      contradiction
    rw [if_neg hother]
    rfl
  | some v => rfl

/-- A list with an item put in has that item once more, and all others as often as before. -/
theorem count_placeBefore (reference : Option ViewId) (id other : ViewId) (ids : List ViewId) :
    (placeBefore reference id ids).count other = ids.count other + if other = id then 1 else 0 := by
  have hone : [id].count other = if other = id then 1 else 0 := by
    simp [List.count_singleton, eq_comm (a := id)]
  cases reference with
  | none => rw [placeBefore, List.count_append, hone]
  | some before =>
    -- the reference cuts the list in two, and the item goes in between
    have hparts := List.takeWhile_append_dropWhile (p := (· != before)) (l := ids)
    have hcount := congrArg (List.count other) hparts
    rw [List.count_append] at hcount
    rw [placeBefore, ← List.singleton_append, List.count_append, List.count_append, hone]
    omega

/-- One new link makes a path that was there before, or one that runs through the new link and so
leads up to the child and on from the parent. -/
theorem transGen_attach {parent child : ViewId} (hlinks : ∀ {a b}, r.ChildOf a b →
    t.ChildOf a b ∨ a = child ∧ b = parent) {low top : ViewId} (h : TransGen r.ChildOf low top) :
    TransGen t.ChildOf low top ∨ t.Within low child ∧ t.Within parent top := by
  induction h with
  | single hlink =>
    rcases hlinks hlink with hold | ⟨rfl, rfl⟩
    · exact Or.inl (TransGen.single hold)
    · exact Or.inr ⟨ReflTransGen.refl, ReflTransGen.refl⟩
  -- old link or new one at the end, after a path of old links or one through the new link
  | tail _ hlink ih =>
    rcases hlinks hlink with hold | ⟨rfl, rfl⟩ <;> rcases ih with hpath | ⟨hlow, htop⟩
    · exact Or.inl (hpath.tail hold)
    · exact Or.inr ⟨hlow, htop.tail hold⟩
    · exact Or.inr ⟨hpath.to_reflTransGen, ReflTransGen.refl⟩
    · exact Or.inr ⟨hlow, ReflTransGen.refl⟩

/-- The one new link leads from the child to the parent. -/
theorem childOf_attach_iff {parent child a b : ViewId} (hne : parent ≠ child)
    (hlive : (t.get? child).isSome) (reference : Option ViewId) :
    (t.attach parent child reference).ChildOf a b ↔
      if a = child then b = parent else t.ChildOf a b := by
  rw [ChildOf, parent?_attach hne hlive]
  split_ifs
  · rw [Option.some_inj, eq_comm]
  · rfl

/-- A cycle through the new link would put the parent below the child. -/
theorem WellFormed.acyclic_attach (h : t.WellFormed) {parent child : ViewId}
    (hlive : (t.get? child).isSome) (hwithin : ¬ t.Within parent child)
    (reference : Option ViewId) (id : ViewId) :
    ¬ TransGen (t.attach parent child reference).ChildOf id id := by
  have hne : parent ≠ child := fun heq => hwithin (heq ▸ ReflTransGen.refl)
  intro hcycle
  have hlinks {a b : ViewId} (hab : (t.attach parent child reference).ChildOf a b) :
      t.ChildOf a b ∨ a = child ∧ b = parent := by
    rw [childOf_attach_iff hne hlive] at hab
    split_ifs at hab with ha
    · exact Or.inr ⟨ha, hab⟩
    · exact Or.inl hab
  -- a cycle of old links, or one that leads from the parent down to the child
  rcases transGen_attach hlinks hcycle with hold | ⟨hlow, htop⟩
  · exact h.acyclic id hold
  · exact hwithin (htop.trans hlow)

/-- **A view without a parent can be put under any view that does not lie below it.** -/
theorem WellFormed.attach (h : t.WellFormed) {parent child : ViewId}
    (hchild : (t.get? child).isSome) (hparent : (t.get? parent).isSome)
    (hfree : t.parent? child = none) (hwithin : ¬ t.Within parent child)
    (reference : Option ViewId) : (t.attach parent child reference).WellFormed := by
  have hne : parent ≠ child := fun heq => hwithin (heq ▸ ReflTransGen.refl)
  -- nobody lists a view that has no parent
  have hnotMem (id : ViewId) : child ∉ t.children id := fun hmem => by
    have hlink := h.childOf_of_mem hmem
    rw [ChildOf, hfree] at hlink
    nomatch hlink
  refine ⟨(h.sound.update parent _).update child _, ?_, ?_,
    h.acyclic_attach hchild hwithin reference⟩
  · intro p c hmem
    rw [children_attach hne hparent] at hmem
    rw [childOf_attach_iff hne hchild]
    -- listed after the change: under the new parent or another one, the new child or another view
    by_cases hp : p = parent <;> by_cases hc : c = child
    · rw [if_pos hc, hp]
    · rw [if_pos hp, mem_placeBefore] at hmem
      rw [if_neg hc]
      exact h.childOf_of_mem (hmem.resolve_left hc)
    · rw [if_neg hp] at hmem
      exact absurd (hc ▸ hmem) (hnotMem p)
    · rw [if_neg hp] at hmem
      rw [if_neg hc]
      exact h.childOf_of_mem hmem
  · intro c p hlink
    rw [childOf_attach_iff hne hchild] at hlink
    rw [children_attach hne hparent]
    by_cases hc : c = child
    · rw [if_pos hc] at hlink
      rw [if_pos hlink, count_placeBefore, if_pos hc, hc,
        List.count_eq_zero_of_not_mem (hnotMem p)]
    · rw [if_neg hc] at hlink
      split_ifs
      · rw [count_placeBefore, if_neg hc, h.count_of_childOf hlink]
      · exact h.count_of_childOf hlink

/-- **An insertion keeps a tree well-formed.** -/
theorem WellFormed.insertBefore (h : t.WellFormed) {parent child : ViewId}
    {reference : Option ViewId} (hok : t.insertBefore parent child reference = .ok r) :
    r.WellFormed := by
  obtain ⟨hchild, hparent, hcheck, rfl⟩ := insertBefore_eq_ok_iff.mp hok
  have hlive {id : ViewId} (hid : (t.get? id).isSome) : ((t.detach child).get? id).isSome := by
    rw [get?_detach h, Option.isSome_map]
    exact hid
  refine (h.detach child).attach (hlive hchild) (hlive hparent) ?_ (fun hwithin => ?_) reference
  · rw [parent?_detach h, if_pos rfl]
  · -- what lies below the child without its link up lay below it before
    rw [h.mem_cons_ancestors_iff] at hcheck
    exact hcheck (within_mono (fun hlink => ((childOf_detach_iff h).mp hlink).2) hwithin)

/-! ## Removing a subtree -/

/-- What lies below a view does not depend on what is above it. -/
theorem within_detach_iff (h : t.WellFormed) {id low : ViewId} :
    (t.detach id).Within low id ↔ t.Within low id := by
  refine ⟨within_mono fun hlink => ((childOf_detach_iff h).mp hlink).2, fun hwithin => ?_⟩
  induction hwithin using ReflTransGen.head_induction_on with
  | refl => exact ReflTransGen.refl
  | @head child parent hlink hrest ih =>
    refine ih.head ((childOf_detach_iff h).mpr ⟨?_, hlink⟩)
    -- the link that goes starts at the view, and no chain comes back to the view through it
    rintro rfl
    exact h.acyclic child (TransGen.head' hlink hrest)

/-- **A removal takes away a view with all below it, and the links to it.** -/
theorem get?_remove (h : t.WellFormed) (id other : ViewId) [Decidable (t.Within other id)] :
    (t.remove id).get? other =
      if t.Within other id then none else (t.detach id).get? other := by
  show ((t.detach id).subtree id |>.foldl Arena.erase (t.detach id).views).get? other = _
  rw [Arena.get?_foldl_erase]
  simp only [mem_subtree_iff (h.detach id), within_detach_iff h]
  rfl

/-- A removal keeps a tree well-formed: the links that are left are among views that are left. -/
theorem WellFormed.remove (h : t.WellFormed) (id : ViewId) : (t.remove id).WellFormed := by
  classical
  have hd := h.detach id
  have hparent (other : ViewId) : (t.remove id).parent? other =
      if t.Within other id then none else (t.detach id).parent? other := by
    rw [parent?, get?_remove h]
    split_ifs <;> rfl
  have hchildren (other : ViewId) : (t.remove id).children other =
      if t.Within other id then [] else (t.detach id).children other := by
    rw [children, get?_remove h]
    split_ifs <;> rfl
  have hlink {child parent : ViewId} : (t.remove id).ChildOf child parent ↔
      ¬ t.Within child id ∧ (t.detach id).ChildOf child parent := by
    rw [ChildOf, hparent]
    split_ifs with hwithin <;> simp [hwithin, ChildOf]
  -- along a link that is left, both views go or both stay
  have hboth {child parent : ViewId} (hold : (t.detach id).ChildOf child parent) :
      t.Within child id ↔ t.Within parent id := by
    obtain ⟨hne, hold⟩ := (childOf_detach_iff h).mp hold
    refine ⟨fun hwithin => ?_, fun hwithin => hwithin.head hold⟩
    rcases ReflTransGen.cases_head hwithin with heq | ⟨next, hnext, hrest⟩
    · exact absurd heq hne
    · exact (hold.unique hnext) ▸ hrest
  refine ⟨hd.sound.foldl_erase _, ?_, ?_, ?_⟩
  · intro parent child hmem
    rw [hchildren] at hmem
    split_ifs at hmem with hwithin
    · exact absurd hmem List.not_mem_nil
    · have hold := hd.childOf_of_mem hmem
      exact hlink.mpr ⟨fun hc => hwithin ((hboth hold).mp hc), hold⟩
  · intro child parent hchild
    obtain ⟨hnot, hold⟩ := hlink.mp hchild
    rw [hchildren, if_neg fun hp => hnot ((hboth hold).mpr hp)]
    exact hd.count_of_childOf hold
  · exact fun other hcycle => hd.acyclic other (transGen_mono (fun hc => (hlink.mp hc).2) hcycle)

end BoxLayout.ViewTree
