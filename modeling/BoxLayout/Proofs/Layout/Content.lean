import Mathlib
import BoxLayout.Proofs.Layout.Visits
import BoxLayout.Proofs.Scalar.Single

/-!
# When measuring fails

Sizes are added up from the content of views without children, and whatever overflows on the way, the
sum is brought within bounds in the end. So only content can make measuring fail, and only content
that counts: what lies below a view that ignores its natural size is never looked at. Views are
measured before those after them, so the first view in pre-order whose content has no size is the one
that is refused.

## The architecture

* **`View.Unmeasurable`** — a view that is measured by its content, which has no size.
* **`Forest.counted`** — a shape cut off below every view that ignores its natural size;
  `mem_ids_counted_iff` says what is left, and `ids_counted_sublist` that it is in order.
* **`Attempt.error?`** — why an attempt failed; of a sequence, why the first of its parts did.
* **`Forest.error?_cells`** — measuring a shape is refused as the first view of the counted shape is
  that is refused on its own account (`ViewTree.refusal?`).
* **`Pass.exists_measure_ok_iff`**, **`Pass.exists_split_of_measure`**, **`Pass.measure_mem`** — when
  a view is measured, which view is named if it is not, and the bounds that hold if it is.
* **`measure_run`** — all three, for trees that operations lead to.
-/

namespace BoxLayout

open Relation ViewTree

variable {α : Type}

/-! ## Errors of a sequence -/

/-- Why an attempt failed, if it did. -/
def Attempt.error? {β : Type} : Attempt α β → Option (LayoutError ViewId α)
  | .ok _ => none
  | .error error => some error

/-- An attempt has an error just if it failed with it. -/
theorem Attempt.error?_eq_some_iff {β : Type} {x : Attempt α β} {error : LayoutError ViewId α} :
    x.error? = some error ↔ x = .error error := by
  cases x <;> simp [error?]

theorem Attempt.error?_eq_none_iff {β : Type} {x : Attempt α β} :
    x.error? = none ↔ ∃ value, x = .ok value := by
  cases x <;> simp [error?]

/-- A sequence fails as its first part does, or else as the part after it. -/
theorem Attempt.error?_bind {β γ : Type} {x : Attempt α β} {next : β → Attempt α γ}
    {late : Option (LayoutError ViewId α)} (h : ∀ value, x = .ok value → (next value).error? = late) :
    Attempt.error? (x.bind next) = x.error?.or late := by
  cases x with
  | ok value => exact h value rfl
  | error error => rfl

/-- What cannot fail adds no error. -/
theorem Attempt.error?_bind_of_total {β γ : Type} {x : Attempt α β} {next : β → Attempt α γ}
    (h : ∀ value, (next value).error? = none) : Attempt.error? (x.bind next) = x.error? := by
  rw [error?_bind fun value _ => h value, Option.or_none]

/-! ## What counts -/

/-- A view that is measured by its content, while the content has an extent that is negative or no
number. -/
structure View.Unmeasurable [Scalar α] (v : View α) : Prop where
  childless : v.children = []
  counts : v.constraints.ignoreNatural = false
  spoiled : ∃ axis, v.contentSize.along axis < Scalar.zero ∨
    Scalar.isFinite (v.contentSize.along axis) = false

/-- Whether the view is there and does not count. -/
def ViewTree.ignoresNatural (t : ViewTree α) (id : ViewId) : Bool :=
  (t.get? id).any fun v => v.constraints.ignoreNatural

theorem ViewTree.ignoresNatural_of_get? {t : ViewTree α} {id : ViewId} {v : View α}
    (hv : t.get? id = some v) : t.ignoresNatural id = v.constraints.ignoreNatural := by
  rw [ignoresNatural, hv, Option.any_some]

/-- The shape cut off below every view that ignores its natural size. -/
def Forest.counted (t : ViewTree α) : Forest → Forest
  | empty => empty
  | view id children rest =>
    view id (if t.ignoresNatural id = true then empty else children.counted t) (rest.counted t)

/-- What counts comes in the order of the whole shape. -/
theorem Forest.ids_counted_sublist (t : ViewTree α) (f : Forest) :
    (f.counted t).ids.Sublist f.ids := by
  induction f with
  | empty => exact List.Sublist.refl _
  | view id children rest ihc ihr =>
    refine List.Sublist.cons_cons id (List.Sublist.append ?_ ihr)
    split_ifs
    · exact List.nil_sublist _
    · exact ihc

/-- A view is listed among the children of another one that does not ignore what is in it. -/
def ViewTree.CountedIn (t : ViewTree α) (child parent : ViewId) : Prop :=
  t.Listed child parent ∧ t.ignoresNatural parent = false

/-- **What counts** are the views from which every step up leads to a view that does not ignore its
natural size, until the start is reached. -/
theorem ViewTree.Unfolds.mem_ids_counted_iff {t : ViewTree α} {ids : List ViewId} {f : Forest}
    (hf : Unfolds t ids f) {low : ViewId} :
    low ∈ (f.counted t).ids ↔ ∃ id ∈ ids, ReflTransGen t.CountedIn low id := by
  induction hf with
  | nil => simp [Forest.counted, Forest.ids]
  | @cons id ids children rest _ _ ihc ihr =>
    -- below a view that ignores its natural size there is nothing left, below any other the children are
    have hbelow : low ∈ (if t.ignoresNatural id = true then Forest.empty else
        children.counted t).ids ↔ ∃ child, ReflTransGen t.CountedIn low child ∧
          t.CountedIn child id := by
      cases hid : t.ignoresNatural id with
      | true => simp [Forest.ids, CountedIn, hid]
      | false =>
        rw [if_neg Bool.false_ne_true, ihc]
        exact exists_congr fun child => by rw [CountedIn, hid, Listed]; tauto
    rw [Forest.counted, Forest.ids, List.mem_cons, List.mem_append, hbelow, ihr,
      List.exists_mem_cons_iff, ReflTransGen.cases_tail_iff, ← or_assoc, eq_comm (a := low)]

section

variable [Scalar α]

/-! ## Refusals -/

/-- Why measuring refuses a view on the view's own account. -/
def ViewTree.refusal? (t : ViewTree α) (id : ViewId) : Option (LayoutError ViewId α) :=
  match t.get? id with
  | none => some (.unknownView id)
  | some v =>
    if v.constraints.ignoreNatural = true ∨ v.hasChildren = true ∨ v.contentSize.isExtent = true then
      none
    else some (.invalidContent id v.contentSize.width v.contentSize.height)

namespace Pass

variable {p : Pass α}

/-- A view is measured without an error unless it is refused itself, or one that counts below it is. -/
theorem error?_naturalSize (hm : p.measurer = .stored) {id : ViewId} {v : View α}
    (hv : p.tree.get? id = some v) {children : Forest}
    (hchildren : Unfolds p.tree (p.tree.children id) children)
    (hbelow : ∀ s, (children.cells p s).outcome.error? =
      (children.counted p.tree).ids.findSome? p.tree.refusal?) (proposed : Size α) :
    (p.naturalSize id v (children.cells p) proposed).outcome.error? =
      ((Forest.view id children .empty).counted p.tree).ids.findSome? p.tree.refusal? := by
  -- adjusting and clamping cannot fail
  have hraw : (p.naturalSize id v (children.cells p) proposed).outcome.error? =
      (p.rawSize id v (children.cells p) proposed).outcome.error? := by
    unfold naturalSize
    simp only [Logged.outcome_bind, Logged.outcome_report, Logged.outcome_pure]
    exact Attempt.error?_bind_of_total fun _ => rfl
  rw [hraw, Forest.counted, Forest.ids, Forest.counted, Forest.ids, List.append_nil,
    List.findSome?_cons, ignoresNatural_of_get? hv]
  cases hignore : v.constraints.ignoreNatural with
  | true =>
    -- nothing below is asked, and nothing below counts
    have hself : p.tree.refusal? id = none := by
      rw [refusal?, hv]
      exact if_pos (Or.inl hignore)
    rw [hself, rawSize_of_ignored hignore]
    rfl
  | false =>
    cases hhas : v.hasChildren with
    | true =>
      -- the size is computed from the children's, which cannot fail by itself
      have hself : p.tree.refusal? id = none := by
        rw [refusal?, hv]
        exact if_pos (Or.inr (Or.inl hhas))
      unfold rawSize
      rw [hself, hignore, if_neg Bool.false_ne_true, if_neg Bool.false_ne_true, if_pos hhas,
        Logged.outcome_bind]
      exact (Attempt.error?_bind_of_total fun _ => rfl).trans (hbelow proposed)
    | false =>
      -- the content decides, and there is no shape below
      have hnil : p.tree.children id = [] := by
        rw [children_of_get? hv]
        simpa [View.hasChildren] using hhas
      obtain rfl : children = .empty := by
        rw [hnil] at hchildren
        exact hchildren.unique .nil
      have hself : p.tree.refusal? id = if v.contentSize.isExtent = true then none
          else some (.invalidContent id v.contentSize.width v.contentSize.height) := by
        rw [refusal?, hv]
        simp only [hignore, hhas, Bool.false_eq_true, false_or]
      rw [hself, rawSize_of_content hm hignore hhas]
      split_ifs <;> rfl

end Pass

/-- **Measuring a shape is refused as the first of its counted views is.** Induction on the shape: a
view is measured before those after it, and asks for its children first. -/
theorem Forest.error?_cells {p : Pass α} (hm : p.measurer = .stored) {ids : List ViewId} {f : Forest}
    (hf : Unfolds p.tree ids f) (proposed : Size α) :
    (f.cells p proposed).outcome.error? = (f.counted p.tree).ids.findSome? p.tree.refusal? := by
  induction hf generalizing proposed with
  | nil => rfl
  | @cons id ids children rest hchildren _ ihc ihr =>
    -- the first tree is asked before the others, so its refusal is the one that is found
    have hids : ((view id children rest).counted p.tree).ids =
        ((view id children empty).counted p.tree).ids ++ (rest.counted p.tree).ids := by
      rw [counted, Forest.ids, counted, Forest.ids, counted, Forest.ids, List.append_nil,
        List.cons_append]
    unfold cells Pass.node
    simp only [Logged.outcome_bind, Logged.outcome_ofAttempt, Logged.outcome_pure]
    rw [hids, List.findSome?_append]
    cases hv : p.tree.get? id with
    | none =>
      -- a view that is not there is refused by name
      have hself : p.tree.refusal? id = some (.unknownView id) := by rw [refusal?, hv]
      rw [counted, Forest.ids, List.findSome?_cons, hself, ViewTree.node, hv]
      rfl
    | some v =>
      rw [node_eq_ok_iff.mpr hv, ← Pass.error?_naturalSize hm hv hchildren ihc (proposed.deflate v.margins)]
      change Attempt.error? (Except.bind (p.naturalSize id v (children.cells p)
        (proposed.deflate v.margins)).outcome _) = _
      -- the view has been measured; what comes next is the rest
      refine Attempt.error?_bind fun natural _ => ?_
      exact (Attempt.error?_bind_of_total fun _ => rfl).trans (ihr proposed)

namespace Pass

variable {p : Pass α}

/-- Measuring a view is refused as the first of the views that count below it is, itself included. -/
theorem error?_measure (hm : p.measurer = .stored) (hwf : p.tree.WellFormed) {id : ViewId}
    {v : View α} (hv : p.tree.get? id = some v) (proposed : Size α) :
    (p.measure id proposed).outcome.error? =
      ((p.tree.forest [id]).counted p.tree).ids.findSome? p.tree.refusal? := by
  have hbelow : Unfolds p.tree (p.tree.children id) (p.tree.below id) := unfolds_forest hwf _
  unfold measure node
  simp only [Logged.outcome_bind, Logged.outcome_ofAttempt]
  rw [node_eq_ok_iff.mpr hv, (hwf.ends id).forest_eq]
  exact error?_naturalSize hm hv hbelow (Forest.error?_cells hm hbelow) proposed

end Pass

variable [Scalar.Rounded α]

/-- What is wrong with a size: an extent that is negative or no finite number. -/
theorem Size.isExtent_eq_false_iff {s : Size α} : s.isExtent = false ↔
    ∃ axis, s.along axis < Scalar.zero ∨ Scalar.isFinite (s.along axis) = false := by
  rw [← Bool.not_eq_true, isExtent_iff, not_forall]
  refine exists_congr fun axis => ?_
  rw [Scalar.isExtent_iff]
  cases hfinite : Scalar.isFinite (s.along axis) with
  | false => simp
  -- among finite numbers what is not at least zero is below it
  | true =>
    rw [Scalar.lt_iff_not_le (Scalar.isNaN_of_isFinite hfinite) Scalar.zero_isNaN]
    simp

namespace ViewTree

variable {t : ViewTree α} {id : ViewId} {v : View α}

/-- A view of the tree whose content cannot be measured. -/
def Spoils (t : ViewTree α) (id : ViewId) : Prop := ∃ v, t.get? id = some v ∧ v.Unmeasurable

/-- A view that is there is refused just if it cannot be measured. -/
theorem refusal?_eq_some_iff (hv : t.get? id = some v) {error : LayoutError ViewId α} :
    t.refusal? id = some error ↔ v.Unmeasurable ∧
      error = .invalidContent id v.contentSize.width v.contentSize.height := by
  rw [refusal?, hv]
  dsimp only
  rw [Option.ite_none_left_eq_some]
  simp only [not_or, Bool.not_eq_true, Option.some.injEq, eq_comm (a := error)]
  refine and_congr_left fun _ => ⟨fun ⟨hignore, hhas, hcontent⟩ => ?_, fun h => ?_⟩
  · exact ⟨by simpa [View.hasChildren] using hhas, hignore, Size.isExtent_eq_false_iff.mp hcontent⟩
  · exact ⟨h.counts, by rw [View.hasChildren, h.childless]; rfl,
      Size.isExtent_eq_false_iff.mpr h.spoiled⟩

/-- A view that is there is passed over just if it does not spoil. -/
theorem refusal?_eq_none_iff (hv : t.get? id = some v) :
    t.refusal? id = none ↔ ¬ t.Spoils id := by
  rw [Option.eq_none_iff_forall_ne_some]
  refine ⟨fun h ⟨w, hw, hspoiled⟩ => ?_, fun h error heq => h ⟨v, hv, ?_⟩⟩
  · exact h _ ((refusal?_eq_some_iff hw).mpr ⟨hspoiled, rfl⟩)
  · exact ((refusal?_eq_some_iff hv).mp heq).1

omit [Scalar α] [Scalar.Rounded α] in
/-- All that counts below a view that is there is there as well. -/
theorem live_of_counted (hwf : t.WellFormed) (hv : t.get? id = some v) {low : ViewId}
    (hlow : low ∈ ((t.forest [id]).counted t).ids) : ∃ w, t.get? low = some w := by
  have hwithin : t.Within low id :=
    (mem_ids_forest_singleton_iff hwf).mp ((Forest.ids_counted_sublist t _).subset hlow)
  -- a view below another one has a parent, and a parent is a link of a view that is there
  rcases ReflTransGen.cases_head hwithin with rfl | ⟨parent, hlink, -⟩
  · exact ⟨v, hv⟩
  · obtain ⟨w, hw, -⟩ := hlink.live
    exact ⟨w, hw⟩

end ViewTree

/-! ## Measuring a view -/

namespace Pass

variable {p : Pass α} {id : ViewId} {v : View α} {proposed : Size α}

/-- **When a view is measured**: if all that counts below it can be. -/
theorem exists_measure_ok_iff (hm : p.measurer = .stored) (hwf : p.tree.WellFormed)
    (hv : p.tree.get? id = some v) : (∃ size, (p.measure id proposed).outcome = .ok size) ↔
      ∀ low ∈ ((p.tree.forest [id]).counted p.tree).ids, ¬ p.tree.Spoils low := by
  rw [← Attempt.error?_eq_none_iff, error?_measure hm hwf hv, List.findSome?_eq_none_iff]
  refine forall₂_congr fun low hlow => ?_
  obtain ⟨w, hw⟩ := live_of_counted hwf hv hlow
  exact refusal?_eq_none_iff hw

/-- **What a refusal names**: the first of the views that count and cannot be measured. -/
theorem exists_split_of_measure (hm : p.measurer = .stored) (hwf : p.tree.WellFormed)
    (hv : p.tree.get? id = some v) {error : LayoutError ViewId α}
    (herror : (p.measure id proposed).outcome = .error error) : ∃ before low after w,
      ((p.tree.forest [id]).counted p.tree).ids = before ++ low :: after ∧
      (∀ other ∈ before, ¬ p.tree.Spoils other) ∧ p.tree.get? low = some w ∧ w.Unmeasurable ∧
      error = .invalidContent low w.contentSize.width w.contentSize.height := by
  rw [← Attempt.error?_eq_some_iff, error?_measure hm hwf hv,
    List.findSome?_eq_some_iff] at herror
  obtain ⟨before, low, after, hsplit, hlow, hbefore⟩ := herror
  -- the views that count are all there, so a refusal is about content
  have hlive {other : ViewId} (hother : other ∈ before ++ low :: after) :
      ∃ w, p.tree.get? other = some w := live_of_counted hwf hv (hsplit ▸ hother)
  obtain ⟨w, hw⟩ := hlive (List.mem_append_right before List.mem_cons_self)
  obtain ⟨hunmeasurable, rfl⟩ := (refusal?_eq_some_iff hw).mp hlow
  refine ⟨before, low, after, w, hsplit, fun other hother => ?_, hw, hunmeasurable, rfl⟩
  obtain ⟨u, hu⟩ := hlive (List.mem_append_left _ hother)
  exact (refusal?_eq_none_iff hu).mp (hbefore other hother)

/-- **What is measured keeps to the bounds of the view.** They come last, so nothing is asked of what
they are applied to. -/
theorem measure_mem (hvalid : p.tree.ValidRecords) (hv : p.tree.get? id = some v) {size : Size α}
    (hok : (p.measure id proposed).outcome = .ok size) (axis : Axis) :
    v.constraints.min.along axis ≤ size.along axis ∧
      size.along axis ≤ v.constraints.max.along axis := by
  obtain ⟨w, hw, hnatural⟩ := measure_eq_ok_iff.mp hok
  obtain rfl := Option.some.inj (hv.symm.trans hw)
  obtain ⟨raw, -, rfl⟩ := naturalSize_eq_ok_iff.mp hnatural
  rw [Constraints.along_clamp]
  exact (hvalid id v hv).clampAlong_mem axis _

end Pass

/-- **When measuring fails, and what it yields otherwise.** In any tree that operations lead to, a view
that is there can be measured just if all that counts below it can. If not, the error names the first
view in pre-order that cannot, with its content. If so, the size keeps to the bounds of the view, so
it is never a NaN, whatever overflows on the way. -/
theorem measure_run (ops : List (Operation α)) (settings : Settings α) {id : ViewId} {v : View α}
    (hv : (empty.run ops).get? id = some v) (proposed : Size α) :
    let t := empty.run ops
    let outcome := (Engine.measure ⟨settings, .stored⟩ t id proposed).outcome
    let counted := ((t.forest [id]).counted t).ids
    ((∃ error, outcome = .error error) ↔ ∃ low ∈ counted, t.Spoils low) ∧
    (∀ error, outcome = .error error → ∃ before low after w, counted = before ++ low :: after ∧
      (∀ other ∈ before, ¬ t.Spoils other) ∧ t.get? low = some w ∧ w.Unmeasurable ∧
      error = .invalidContent low w.contentSize.width w.contentSize.height) ∧
    ((∀ low ∈ counted, ¬ t.Spoils low) → ∃ size, outcome = .ok size ∧ ∀ axis,
      v.constraints.min.along axis ≤ size.along axis ∧
      size.along axis ≤ v.constraints.max.along axis ∧ Scalar.isNaN (size.along axis) = false) := by
  intro t outcome counted
  have hwf : t.WellFormed := wellFormed_run ops
  have hm : (Pass.mk t .stored settings).measurer = .stored := rfl
  have hok : (∃ size, outcome = .ok size) ↔ ∀ low ∈ counted, ¬ t.Spoils low :=
    Pass.exists_measure_ok_iff hm hwf hv
  refine ⟨?_, fun error herror => Pass.exists_split_of_measure hm hwf hv herror, fun hall => ?_⟩
  · -- an outcome is an error just if it is no size
    have hnot : (∃ error, outcome = .error error) ↔ ¬ ∃ size, outcome = .ok size := by
      cases outcome <;> simp
    rw [hnot, hok]
    simp only [not_forall, not_not, exists_prop]
  · obtain ⟨size, hsize⟩ := hok.mpr hall
    refine ⟨size, hsize, fun axis => ?_⟩
    obtain ⟨hmin, hmax⟩ := Pass.measure_mem (validRecords_run ops) hv hsize axis
    exact ⟨hmin, hmax, (Scalar.not_isNaN_of_le hmin).2⟩

end

/-- A row of three: content of a size, a column that ignores its natural size around content of a
negative width, and a column around content of an infinite one. -/
def spoiledRow : List (Operation Float32) :=
  let ten : Float32 := Float32.ofBits 0x41200000
  [.create .horizontal .zero, .create .overlay ⟨ten, ten⟩, .create .vertical .zero,
    .create .overlay ⟨-ten, ten⟩, .create .vertical .zero, .create .overlay ⟨Scalar.infinity, ten⟩,
    .insertBefore ⟨0, 1⟩ ⟨1, 1⟩ none, .insertBefore ⟨0, 1⟩ ⟨2, 1⟩ none,
    .insertBefore ⟨2, 1⟩ ⟨3, 1⟩ none, .insertBefore ⟨0, 1⟩ ⟨4, 1⟩ none,
    .insertBefore ⟨4, 1⟩ ⟨5, 1⟩ none, .edit ⟨2, 1⟩ [.ignoreNatural true]]

/-- The content that does not count is passed over, and the row is refused for the one after it. -/
theorem refused_spoiledRow :
    let t := empty.run spoiledRow
    let outcome := (Engine.measure ⟨.standard, .stored⟩ t ⟨0, 1⟩ .zero).outcome
    outcome = .error (.invalidContent ⟨5, 1⟩ Scalar.infinity (Float32.ofBits 0x41200000)) ∧
      ∃ low ∈ ((t.forest [⟨0, 1⟩]).counted t).ids, t.Spoils low := by
  have hrefused : (Engine.measure ⟨.standard, .stored⟩ (empty.run spoiledRow) ⟨0, 1⟩ .zero).outcome =
      .error (.invalidContent ⟨5, 1⟩ Scalar.infinity (Float32.ofBits 0x41200000)) := by rfl
  obtain ⟨v, hv⟩ := Option.isSome_iff_exists.mp
    (show ((empty.run spoiledRow).get? ⟨0, 1⟩).isSome = true by decide +kernel)
  exact ⟨hrefused, (measure_run spoiledRow .standard hv .zero).1.mp ⟨_, hrefused⟩⟩

end BoxLayout
