import Mathlib
import BoxLayout.Proofs.ViewTree.Run
import BoxLayout.ViewTree.Rewiring

/-!
# What an insertion does

An insertion takes a view from its old place, if it has one, and puts it among the children of a
parent. The position is looked up once the view has left its old place, so a view can be moved under
the same parent, and a reference that is the view itself counts as none. All that can refuse an
insertion is looked at before anything is written.

## The architecture

* **`RefusesInsertion`**, **`insertBefore_eq_error_iff`** — the reasons why an insertion is refused, and
  that there are no others.
* **`Rewiring.insertBefore_eq`** — carried out in place, an insertion leaves the tree it yields, and a
  refused one leaves the tree as it was.
* **`PutBefore`**, **`putBefore_placeBefore`** — where a list gets its new item.
* **`Inserted`**, **`inserted_attach`** — what an insertion leaves, view by view and link by link.
* **`insertion_run`** — all of it, in any tree that operations lead to.
-/

namespace BoxLayout

open Relation ViewTree

variable {α : Type} {t r : ViewTree α} {parent child : ViewId} {reference : Option ViewId}

/-! ## Refusals -/

namespace ViewTree

/-- Why an insertion is refused: the first of three reasons that applies. -/
inductive RefusesInsertion (t : ViewTree α) (parent child : ViewId) :
    LayoutError ViewId α → Prop
  | unknownChild (hchild : t.get? child = none) :
      RefusesInsertion t parent child (.unknownView child)
  | unknownParent (hchild : (t.get? child).isSome = true) (hparent : t.get? parent = none) :
      RefusesInsertion t parent child (.unknownView parent)
  /-- The child is the parent or lies above it. -/
  | cycle (hchild : (t.get? child).isSome = true) (hparent : (t.get? parent).isSome = true)
      (hwithin : t.Within parent child) :
      RefusesInsertion t parent child (.cycle parent child)

theorem insertBefore_of_refuses (h : t.WellFormed) {error : LayoutError ViewId α}
    (hrefuses : t.RefusesInsertion parent child error) :
    t.insertBefore parent child reference = .error error := by
  unfold insertBefore node
  cases hrefuses with
  | unknownChild hchild => rw [hchild]; rfl
  | unknownParent hchild hparent =>
    obtain ⟨v, hv⟩ := Option.isSome_iff_exists.mp hchild
    rw [hv, hparent]
    rfl
  | cycle hchild hparent hwithin =>
    obtain ⟨v, hv⟩ := Option.isSome_iff_exists.mp hchild
    obtain ⟨w, hw⟩ := Option.isSome_iff_exists.mp hparent
    have hcheck := h.mem_cons_ancestors_iff.mpr hwithin
    rw [hv, hw]
    simp only [bind, Except.bind, if_pos hcheck]
    rfl

/-- An insertion that nothing refuses has two live views and makes no cycle. -/
theorem exists_refusesInsertion_or (t : ViewTree α) (parent child : ViewId) :
    (∃ error, t.RefusesInsertion parent child error) ∨
      (t.get? child).isSome = true ∧ (t.get? parent).isSome = true ∧ ¬ t.Within parent child := by
  -- the reasons in the order in which they are looked at
  by_cases hchild : (t.get? child).isSome = true
  case neg => exact Or.inl ⟨_, .unknownChild (Option.not_isSome_iff_eq_none.mp hchild)⟩
  by_cases hparent : (t.get? parent).isSome = true
  case neg => exact Or.inl ⟨_, .unknownParent hchild (Option.not_isSome_iff_eq_none.mp hparent)⟩
  by_cases hwithin : t.Within parent child
  · exact Or.inl ⟨_, .cycle hchild hparent hwithin⟩
  · exact Or.inr ⟨hchild, hparent, hwithin⟩

theorem insertBefore_of_live (h : t.WellFormed) (hchild : (t.get? child).isSome = true)
    (hparent : (t.get? parent).isSome = true) (hwithin : ¬ t.Within parent child) :
    t.insertBefore parent child reference = .ok ((t.detach child).attach parent child reference) :=
  insertBefore_eq_ok_iff.mpr
    ⟨hchild, hparent, fun hcheck => hwithin (h.mem_cons_ancestors_iff.mp hcheck), rfl⟩

/-- **An insertion fails for one of the three reasons, and names it.** -/
theorem insertBefore_eq_error_iff (h : t.WellFormed) {error : LayoutError ViewId α} :
    t.insertBefore parent child reference = .error error ↔
      t.RefusesInsertion parent child error := by
  refine ⟨fun herror => ?_, insertBefore_of_refuses h⟩
  rcases t.exists_refusesInsertion_or parent child with ⟨other, hother⟩ | ⟨hchild, hparent, hwithin⟩
  · rw [insertBefore_of_refuses h hother] at herror
    exact Except.error.inj herror ▸ hother
  · rw [insertBefore_of_live h hchild hparent hwithin] at herror
    nomatch herror

/-! ## In place

An insertion looks its views up again after it has detached the child. It finds them, because
detaching adds no view and removes none. -/

/-- A change of a view adds none and removes none. -/
theorem isSome_get?_update (t : ViewTree α) (id other : ViewId) (change : View α → View α) :
    ((t.update id change).get? other).isSome = (t.get? other).isSome := by
  rw [get?_update]
  split_ifs with heq
  · rw [heq, Option.isSome_map]
  · rfl

theorem isSome_get?_detach (t : ViewTree α) (id other : ViewId) :
    ((t.detach id).get? other).isSome = (t.get? other).isSome := by
  unfold detach
  split
  case h_1 => rfl
  case h_2 => rw [isSome_get?_update, isSome_get?_update]

end ViewTree

namespace Rewiring

variable {β γ : Type} {s : ViewTree α}

/-- One step of a rewiring, and what follows it in the tree it leaves. -/
theorem bind_of_ok {x : Rewiring α β} {a : β} (h : x t = .ok a s) (next : β → Rewiring α γ) :
    (x >>= next) t = next a s := by
  show EStateM.bind x next t = _
  rw [EStateM.bind, h]

theorem bind_of_error {x : Rewiring α β} {error : LayoutError ViewId α} (h : x t = .error error s)
    (next : β → Rewiring α γ) : (x >>= next) t = .error error s := by
  show EStateM.bind x next t = _
  rw [EStateM.bind, h]

theorem get_run (t : ViewTree α) : (get : Rewiring α _) t = .ok t t := rfl

/-- A look-up leaves the tree as it is. -/
theorem node_of_isSome {id : ViewId} (h : (t.get? id).isSome = true) :
    ∃ v, (node id : Rewiring α (View α)) t = .ok v t := by
  obtain ⟨v, hv⟩ := Option.isSome_iff_exists.mp h
  refine ⟨v, ?_⟩
  unfold node
  rw [bind_of_ok (get_run t), node_eq_ok_iff.mpr hv]
  rfl

theorem node_of_none {id : ViewId} (h : t.get? id = none) :
    (node id : Rewiring α (View α)) t = .error (.unknownView id) t := by
  have hnode : t.node id = .error (.unknownView id) := by
    rw [ViewTree.node, h]
  unfold node
  rw [bind_of_ok (get_run t), hnode]
  rfl

/-- Carried out in place, a refusal comes before the first write. -/
theorem insertBefore_of_refuses (h : t.WellFormed) {error : LayoutError ViewId α}
    (hrefuses : t.RefusesInsertion parent child error) :
    Rewiring.insertBefore parent child reference t = .error error t := by
  unfold Rewiring.insertBefore
  cases hrefuses with
  | unknownChild hchild => rw [bind_of_error (node_of_none hchild)]
  | unknownParent hchild hparent =>
    obtain ⟨v, hv⟩ := node_of_isSome hchild
    rw [bind_of_ok hv, bind_of_error (node_of_none hparent)]
  | cycle hchild hparent hwithin =>
    obtain ⟨v, hv⟩ := node_of_isSome hchild
    obtain ⟨w, hw⟩ := node_of_isSome hparent
    have hcheck := h.mem_cons_ancestors_iff.mpr hwithin
    rw [bind_of_ok hv, bind_of_ok hw, bind_of_ok (get_run t), if_pos hcheck]
    rfl

/-- Carried out in place, an insertion that nothing refuses detaches and attaches. -/
theorem insertBefore_of_live (h : t.WellFormed) (hchild : (t.get? child).isSome = true)
    (hparent : (t.get? parent).isSome = true) (hwithin : ¬ t.Within parent child) :
    Rewiring.insertBefore parent child reference t =
      .ok () ((t.detach child).attach parent child reference) := by
  have hcheck : child ∉ parent :: t.ancestors parent := fun hcheck =>
    hwithin (h.mem_cons_ancestors_iff.mp hcheck)
  have hmodify (s : ViewTree α) (change : ViewTree α → ViewTree α) :
      (modify change : Rewiring α Unit) s = .ok () (change s) := rfl
  -- the four look-ups, two of them after writes
  obtain ⟨v, hv⟩ := node_of_isSome hchild
  obtain ⟨w, hw⟩ := node_of_isSome hparent
  obtain ⟨w', hw'⟩ := node_of_isSome ((isSome_get?_detach t child parent).trans hparent)
  have hlast (change : View α → View α) :
      (((t.detach child).update parent change).get? child).isSome = true :=
    ((isSome_get?_update _ _ _ _).trans (isSome_get?_detach t child child)).trans hchild
  obtain ⟨v', hv'⟩ := node_of_isSome (hlast fun v =>
    { v with children := placeBefore reference child v.children })
  unfold Rewiring.insertBefore
  rw [bind_of_ok hv, bind_of_ok hw, bind_of_ok (get_run t), if_neg hcheck]
  beta_reduce
  rw [bind_of_ok (hmodify _ _), bind_of_ok hw', bind_of_ok (hmodify _ _), bind_of_ok hv']
  rfl

/-- **An insertion in place leaves the tree it yields, or the tree as it was if it is refused.** -/
theorem insertBefore_eq (h : t.WellFormed) (parent child : ViewId) (reference : Option ViewId) :
    Rewiring.insertBefore parent child reference t =
      match t.insertBefore parent child reference with
      | .ok r => .ok () r
      | .error error => .error error t := by
  rcases t.exists_refusesInsertion_or parent child with ⟨error, herror⟩ | ⟨hchild, hparent, hwithin⟩
  · rw [insertBefore_of_refuses h herror, ViewTree.insertBefore_of_refuses h herror]
  · rw [insertBefore_of_live h hchild hparent hwithin,
      ViewTree.insertBefore_of_live h hchild hparent hwithin]

end Rewiring

/-! ## Places among siblings -/

/-- A list with an item put right before the first occurrence of a reference, and at the end if the
reference is not in the list or there is none. -/
inductive PutBefore (reference : Option ViewId) (id : ViewId) (ids : List ViewId) :
    List ViewId → Prop
  | before {other : ViewId} {front back : List ViewId} (hreference : reference = some other)
      (hids : ids = front ++ other :: back) (hfront : other ∉ front) :
      PutBefore reference id ids (front ++ id :: other :: back)
  | last (habsent : ∀ other, reference = some other → other ∉ ids) :
      PutBefore reference id ids (ids ++ [id])

/-- Where a list gets its new item: the reference is found or it is not. -/
theorem putBefore_placeBefore (reference : Option ViewId) (id : ViewId) (ids : List ViewId) :
    PutBefore reference id ids (placeBefore reference id ids) := by
  cases reference with
  | none => exact .last fun other hother => nomatch hother
  | some other =>
    unfold placeBefore
    dsimp only
    by_cases hmem : other ∈ ids
    · obtain ⟨front, back, rfl, hfront⟩ := List.eq_append_cons_of_mem hmem
      have hkeep : ∀ x ∈ front, (x != other) = true := fun x hx =>
        bne_iff_ne.mpr fun heq => hfront (heq ▸ hx)
      -- the list is cut where the first occurrence is
      rw [List.takeWhile_append_of_pos hkeep, List.dropWhile_append_of_pos hkeep]
      have hput : PutBefore (some other) id (front ++ other :: back) (front ++ id :: other :: back) :=
        .before rfl rfl hfront
      simpa using hput
    · have hkeep : ∀ x ∈ ids, (x != other) = true := fun x hx =>
        bne_iff_ne.mpr fun heq => hmem (heq ▸ hx)
      -- nothing comes after the cut
      rw [List.takeWhile_eq_self_iff.mpr hkeep, List.dropWhile_eq_nil_iff.mpr hkeep]
      exact .last fun _ heq => Option.some.inj heq ▸ hmem

/-! ## What is left -/

namespace ViewTree

/-- The tree `r` is `t` with a view put under a parent. -/
structure Inserted (t r : ViewTree α) (parent child : ViewId) (reference : Option ViewId) :
    Prop where
  /-- The parent lists its other children as before, with the child among them. -/
  children_parent :
    PutBefore reference child ((t.children parent).filter (· != child)) (r.children parent)
  /-- A former parent loses the child and keeps the others in their order. -/
  children_former : ∀ former, t.ChildOf child former → former ≠ parent →
    r.children former = (t.children former).filter (· != child)
  children_other : ∀ id, id ≠ parent → ¬ t.ChildOf child id → r.children id = t.children id
  parent_child : r.parent? child = some parent
  parent_other : ∀ id, id ≠ child → r.parent? id = t.parent? id
  /-- The same views are there, and each is as it was but for these links. -/
  get?_eq : ∀ id, r.get? id = (t.get? id).map fun v =>
    { v with parent := r.parent? id, children := r.children id }
  root_eq : r.root = t.root

theorem root_detach (t : ViewTree α) (id : ViewId) : (t.detach id).root = t.root := by
  unfold detach
  split <;> rfl

/-- What is left of a tree when a view has been detached and attached. -/
theorem inserted_attach (h : t.WellFormed) (hchild : (t.get? child).isSome = true)
    (hparent : (t.get? parent).isSome = true) (hwithin : ¬ t.Within parent child)
    (reference : Option ViewId) :
    Inserted t ((t.detach child).attach parent child reference) parent child reference := by
  have hne : parent ≠ child := fun heq => hwithin (heq ▸ ReflTransGen.refl)
  have hchild' := (isSome_get?_detach t child child).trans hchild
  have hparent' := (isSome_get?_detach t child parent).trans hparent
  set r := (t.detach child).attach parent child reference with hr
  -- only a former parent lists the child, so the filter leaves every other list as it is
  have hlist (id : ViewId) : r.children id =
      if id = parent then placeBefore reference child ((t.children id).filter (· != child))
      else (t.children id).filter (· != child) := by
    rw [hr, children_attach hne hparent', children_detach h]
  -- every other view keeps its parent
  have hlink (id : ViewId) : r.parent? id = if id = child then some parent else t.parent? id := by
    rw [hr, parent?_attach hne hchild', parent?_detach h]
    split_ifs <;> rfl
  refine ⟨?_, fun former _ hformer => ?_, fun id hid hnot => ?_, ?_, fun id hid => ?_, fun id => ?_, ?_⟩
  · rw [hlist, if_pos rfl]
    exact putBefore_placeBefore _ _ _
  · rw [hlist, if_neg hformer]
  · rw [hlist, if_neg hid, h.filter_children hnot]
  · rw [hlink, if_pos rfl]
  · rw [hlink, if_neg hid]
  · have hget := get?_attach (t := t.detach child) hne reference id
    rw [get?_detach h, ← hr] at hget
    cases hv : t.get? id with
    | none => rw [hget, hv]; rfl
    | some v =>
      rw [hv] at hget
      rw [hget, parent?_of_get? hget, children_of_get? hget]
      rfl
  · exact root_detach t child

end ViewTree

/-! ## Every reachable tree -/

/-- **What an insertion does**, in any tree that operations lead to and with any ids: it fails for one
of three reasons and leaves the tree as it was, or it puts the child where it is asked to and changes
nothing else. Appending is inserting without a reference. -/
theorem insertion_run [Scalar α] (ops : List (Operation α)) (parent child : ViewId)
    (reference : Option ViewId) :
    let t := empty.run ops
    (∀ error, t.insertBefore parent child reference = .error error ↔
      t.RefusesInsertion parent child error) ∧
    ((∀ error, ¬ t.RefusesInsertion parent child error) → ∃ r,
      t.insertBefore parent child reference = .ok r ∧ Inserted t r parent child reference) ∧
    (Rewiring.insertBefore parent child reference t =
      match t.insertBefore parent child reference with
      | .ok r => .ok () r
      | .error error => .error error t) ∧
    t.append parent child = t.insertBefore parent child none := by
  intro t
  have h : t.WellFormed := wellFormed_run ops
  refine ⟨fun error => insertBefore_eq_error_iff h, fun hnone => ?_,
    Rewiring.insertBefore_eq h parent child reference, rfl⟩
  rcases t.exists_refusesInsertion_or parent child with ⟨error, herror⟩ | ⟨hchild, hparent, hwithin⟩
  · exact absurd herror (hnone error)
  · exact ⟨_, insertBefore_of_live h hchild hparent hwithin,
      inserted_attach h hchild hparent hwithin reference⟩

end BoxLayout
