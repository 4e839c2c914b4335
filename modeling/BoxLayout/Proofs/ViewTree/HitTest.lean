import Mathlib
import BoxLayout.ViewTree.HitTest
import BoxLayout.Proofs.ViewTree.Run
import BoxLayout.Proofs.Scalar.Single

/-!
# What a point hits

The search for the topmost view goes through a tree from its end and stops at the first view it may
take. Whoever paints goes through the tree from its start and paints every view that shows at the
point over those before. The last one painted is the one that is hit.

Nothing is asked of frames: they may lie outside their parents, overlap, or be no rectangles at all.

## The architecture

* **`VisibleAt`** — a view that contains a point, as all above it do, with the point as it arrives
  there; `visibleAt_iff` takes it apart at the top.
* **`Forest.painted`** — the views of a shape that show at a point, in the order of painting.
* **`Forest.hit_eq`** — the view that is hit is the last one painted.
* **`Unfolds.mem_painted_iff`**, **`Forest.painted_sublist`** — painted are the visible views, in
  pre-order.
* **`hitTest_run`** — the result, for trees that operations lead to.
-/

namespace BoxLayout

open ViewTree

variable {α : Type} [Scalar α]

/-! ## Visible views -/

namespace ViewTree

/-- The way of a point down from a view: each view on it contains the point as it arrives there, and
passes it on with its own origin subtracted. -/
inductive VisibleAt (t : ViewTree α) (top : ViewId) (p : Point α) : ViewId → Point α → Prop
  | start {v : View α} : t.get? top = some v → v.frame.contains p = true →
      VisibleAt t top p top p
  | child {parent id : ViewId} {q : Point α} {u v : View α} : VisibleAt t top p parent q →
      t.get? parent = some u → id ∈ u.children → t.get? id = some v →
        v.frame.contains (q - u.frame.origin) = true →
          VisibleAt t top p id (q - u.frame.origin)

/-- A view that a point reaches on its way down from another one. -/
def Visible (t : ViewTree α) (top : ViewId) (p : Point α) (id : ViewId) : Prop :=
  ∃ q, t.VisibleAt top p id q

variable {t : ViewTree α} {top low : ViewId} {p q : Point α}

/-- The way of a point begins with the start, and goes on from one of its children. -/
theorem visibleAt_iff : t.VisibleAt top p low q ↔ ∃ v, t.get? top = some v ∧
    v.frame.contains p = true ∧ (low = top ∧ q = p ∨
      ∃ child ∈ v.children, t.VisibleAt child (p - v.frame.origin) low q) := by
  constructor
  · intro h
    induction h with
    | start hv hp => exact ⟨_, hv, hp, Or.inl ⟨rfl, rfl⟩⟩
    | child _ hu hmem hid hq ih =>
      obtain ⟨v, hv, hp, ⟨rfl, rfl⟩ | ⟨child, hchild, hvisible⟩⟩ := ih
      · -- the way ended at the start so far, and the next view is a child of it
        obtain rfl := Option.some.inj (hv.symm.trans hu)
        exact ⟨v, hv, hp, Or.inr ⟨_, hmem, .start hid hq⟩⟩
      · exact ⟨v, hv, hp, Or.inr ⟨child, hchild, .child hvisible hu hmem hid hq⟩⟩
  · rintro ⟨v, hv, hp, ⟨rfl, rfl⟩ | ⟨child, hchild, hvisible⟩⟩
    · exact .start hv hp
    · -- put the start in front of a way that begins at its child
      induction hvisible with
      | start hid hq => exact .child (.start hv hp) hv hchild hid hq
      | child _ hu hmem hid hq ih => exact .child ih hu hmem hid hq

/-- A view contains the point as it arrives there. -/
theorem VisibleAt.contains {v : View α} (h : t.VisibleAt top p low q) (hv : t.get? low = some v) :
    v.frame.contains q = true := by
  cases h with
  | start hv' hp => exact Option.some.inj (hv'.symm.trans hv) ▸ hp
  | child _ _ _ hv' hq => exact Option.some.inj (hv'.symm.trans hv) ▸ hq

/-- A view that is visible is the start, or is visible from one of its children. -/
theorem visible_iff : t.Visible top p low ↔ ∃ v, t.get? top = some v ∧
    v.frame.contains p = true ∧
      (low = top ∨ ∃ child ∈ v.children, t.Visible child (p - v.frame.origin) low) := by
  constructor
  · rintro ⟨q, hq⟩
    obtain ⟨v, hv, hp, hlow⟩ := visibleAt_iff.mp hq
    exact ⟨v, hv, hp, hlow.imp And.left fun ⟨child, hchild, hvisible⟩ =>
      ⟨child, hchild, q, hvisible⟩⟩
  · rintro ⟨v, hv, hp, rfl | ⟨child, hchild, q, hvisible⟩⟩
    · exact ⟨p, .start hv hp⟩
    · exact ⟨q, visibleAt_iff.mpr ⟨v, hv, hp, Or.inr ⟨child, hchild, hvisible⟩⟩⟩

/-- Where anything is visible, the start is. -/
theorem Visible.start (h : t.Visible top p low) : t.Visible top p top := by
  obtain ⟨v, hv, hp, -⟩ := visible_iff.mp h
  exact ⟨p, .start hv hp⟩

end ViewTree

/-! ## Painting -/

/-- The views of a shape that show at a point, in the order in which they are painted: a view before
its children, and these before the views after it. -/
def Forest.painted (t : ViewTree α) : Forest → Point α → List ViewId
  | .empty, _ => []
  | .view id children rest, p =>
    (match t.get? id with
    | none => []
    | some v =>
      if v.frame.contains p then id :: children.painted t (p - v.frame.origin) else []) ++
      rest.painted t p

/-- **The view that is hit is the last one painted.** -/
theorem Forest.hit_eq (t : ViewTree α) (f : Forest) (p : Point α) :
    f.hit t p = (f.painted t p).getLast? := by
  induction f generalizing p with
  | empty => rfl
  | view id children rest ihc ihr =>
    rw [hit, painted, List.getLast?_append, ihr]
    -- the search asks the views after this one first, which are painted last
    cases (rest.painted t p).getLast? with
    | some top => rfl
    | none =>
      cases t.get? id with
      | none => rfl
      | some v =>
        dsimp only [Option.or]
        split_ifs
        · rw [List.getLast?_cons, ihc]
        · rfl

/-- Painting leaves views out and keeps the others in pre-order. -/
theorem Forest.painted_sublist (t : ViewTree α) (f : Forest) (p : Point α) :
    (f.painted t p).Sublist f.ids := by
  induction f generalizing p with
  | empty => exact List.Sublist.refl _
  | view id children rest ihc ihr =>
    rw [painted, ids, ← List.cons_append]
    refine List.Sublist.append ?_ (ihr p)
    cases t.get? id with
    | none => exact List.nil_sublist _
    | some v =>
      dsimp only
      split_ifs
      · exact (ihc _).cons_cons id
      · -- with the view, all below it is left out
        exact List.nil_sublist _

/-- **Painted are the views that the point reaches** from one of the views that the shape starts
with. -/
theorem ViewTree.Unfolds.mem_painted_iff {t : ViewTree α} {ids : List ViewId} {f : Forest}
    (hf : Unfolds t ids f) {low : ViewId} (p : Point α) :
    low ∈ f.painted t p ↔ ∃ id ∈ ids, t.Visible id p low := by
  induction hf generalizing p with
  | nil => simp [Forest.painted]
  | @cons id ids children rest _ _ ihc ihr =>
    rw [Forest.painted, List.mem_append, ihr, List.exists_mem_cons_iff]
    refine or_congr_left ?_
    rw [visible_iff]
    cases hv : t.get? id with
    | none => simp
    | some v =>
      -- the shape below a view starts with its children
      rw [children_of_get? hv] at ihc
      cases hp : v.frame.contains p with
      | false => simp [hp]
      | true => simp [hp, ihc]

/-! ## The last one painted -/

/-- The last item of a part of a list without duplicates is followed there by no item of the part. -/
theorem exists_split_of_getLast? {β : Type} {part whole : List β} {last : β}
    (hsub : part.Sublist whole) (hnodup : whole.Nodup) (hlast : part.getLast? = some last) :
    ∃ before after, whole = before ++ last :: after ∧ ∀ x ∈ after, x ∉ part := by
  obtain ⟨init, rfl⟩ := List.getLast?_eq_some_iff.mp hlast
  obtain ⟨front, back, rfl, hfront, hback⟩ := List.append_sublist_iff.mp hsub
  -- the part before its last item is found in front, and the last item in what comes behind
  obtain ⟨before, after, rfl⟩ := List.append_of_mem (List.singleton_sublist.mp hback)
  refine ⟨front ++ before, after, (List.append_assoc _ _ _).symm, fun x hx hpart => ?_⟩
  rcases List.mem_append.mp hpart with hinit | hx'
  · refine List.disjoint_of_nodup_append hnodup (hfront.subset hinit) ?_
    exact List.mem_append_right _ (List.mem_cons_of_mem _ hx)
  · obtain rfl := List.mem_singleton.mp hx'
    exact (List.nodup_cons.mp hnodup.of_append_right.of_append_right).1 hx

namespace ViewTree

variable {t : ViewTree α}

/-- **What is hit.** Nothing, if the start does not contain the point; otherwise the view that comes
last among those that the point reaches. -/
theorem hit_forest (hwf : t.WellFormed) (top : ViewId) (p : Point α) :
    ((t.forest [top]).hit t p = none ↔ ¬ t.Visible top p top) ∧
    ∀ id, (t.forest [top]).hit t p = some id → t.Visible top p id ∧
      ∃ before after, (t.forest [top]).ids = before ++ id :: after ∧
        ∀ low ∈ after, ¬ t.Visible top p low := by
  have hmem {low : ViewId} : low ∈ (t.forest [top]).painted t p ↔ t.Visible top p low := by
    rw [(unfolds_forest hwf [top]).mem_painted_iff]
    simp
  -- what is hit is the last view of the painted ones, which are a part of the pre-order
  rw [Forest.hit_eq]
  refine ⟨?_, fun id hid => ?_⟩
  · rw [List.getLast?_eq_none_iff, List.eq_nil_iff_forall_not_mem]
    exact ⟨fun h => mt hmem.mpr (h top), fun h low hlow => h (hmem.mp hlow).start⟩
  · obtain ⟨before, after, hsplit, hafter⟩ := exists_split_of_getLast?
      ((t.forest [top]).painted_sublist t p) (nodup_ids_forest hwf (apart_singleton t top)) hid
    exact ⟨hmem.mp (List.mem_of_getLast? hid), before, after, hsplit,
      fun low hlow => mt hmem.mpr (hafter low hlow)⟩

end ViewTree

/-- **The view that is hit is the topmost one.** In any tree that operations lead to and at any point,
nothing is hit just if the root does not contain the point. Otherwise the view that is hit is visible,
and none of the views that come after it in pre-order is. -/
theorem hitTest_run (ops : List (Operation α)) {root : ViewId}
    (hroot : (empty.run ops).root = some root) (p : Point α) :
    let t := empty.run ops
    (t.hitTest p = none ↔ ¬ t.Visible root p root) ∧
    ∀ id, t.hitTest p = some id → t.Visible root p id ∧
      ∃ before after, (t.forest [root]).ids = before ++ id :: after ∧
        ∀ low ∈ after, ¬ t.Visible root p low := by
  intro t
  have hhit : t.hitTest p = (t.forest [root]).hit t p := by rw [hitTest, hroot]
  rw [hhit]
  exact hit_forest (wellFormed_run ops) root p

/-- Two cards in a corner of a page, the second of which covers a part of the first. -/
def overlappingCards : List (Operation Float32) :=
  let ten : Float32 := Float32.ofBits 0x41200000
  let five : Float32 := Float32.ofBits 0x40A00000
  [.create .overlay .zero, .create .overlay .zero, .create .overlay .zero,
    .insertBefore ⟨0, 1⟩ ⟨1, 1⟩ none, .insertBefore ⟨0, 1⟩ ⟨2, 1⟩ none, .setRoot ⟨0, 1⟩,
    .write ⟨0, 1⟩ (.frame ⟨five, five, ten + ten, ten + ten⟩),
    .write ⟨1, 1⟩ (.frame ⟨Scalar.zero, Scalar.zero, ten, ten⟩),
    .write ⟨2, 1⟩ (.frame ⟨five, five, ten, ten⟩)]

/-- At a point of both cards the second one is hit, as the last in pre-order. -/
theorem hit_overlappingCards :
    let t := empty.run overlappingCards
    let p : Point Float32 := ⟨Float32.ofBits 0x41300000, Float32.ofBits 0x41300000⟩
    t.hitTest p = some ⟨2, 1⟩ ∧ t.Visible ⟨0, 1⟩ p ⟨1, 1⟩ ∧ t.Visible ⟨0, 1⟩ p ⟨2, 1⟩ ∧
      ∃ before after, (t.forest [⟨0, 1⟩]).ids = before ++ ⟨2, 1⟩ :: after ∧
        ∀ low ∈ after, ¬ t.Visible ⟨0, 1⟩ p low := by
  intro t p
  have hhit : t.hitTest p = some ⟨2, 1⟩ := by decide +kernel
  have hcovered : t.Visible ⟨0, 1⟩ p ⟨1, 1⟩ :=
    ⟨_, .child (.start rfl (by decide +kernel)) rfl (by decide +kernel) rfl (by decide +kernel)⟩
  exact ⟨hhit, hcovered, (hitTest_run overlappingCards (by rfl) p).2 _ hhit⟩

end BoxLayout
