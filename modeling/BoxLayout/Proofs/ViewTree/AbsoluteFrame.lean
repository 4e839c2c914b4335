import Mathlib
import BoxLayout.Proofs.ViewTree.HitTest

/-!
# Points and frames meet

The search for a view takes a point down the tree and subtracts origins; the absolute frame of a view
is its frame taken up the tree, with origins added. Where nothing is rounded on either way the two
meet: the point lies in the frame as it arrives below just if it lies, above, in the absolute frame.

## The architecture

* **`Lifted`** — a frame on its way up; `absoluteFrame?_eq_some_iff` says that it ends at the top.
* **`ExactAt`** — nothing is rounded when a view is tested, below or above.
* **`absoluteFrame?_child`** — the absolute origin of a child is its own origin and that of its parent.
* **`Aligned`** — the point that a view passes on is the point less the absolute origin of the view;
  `Aligned.child` is the step down.
* **`visible_iff_absoluteFrame?`** — visible are the views whose absolute frames contain the point, as
  those of all views above do.
* **`exactAt_of_whole`** — frames and points of small whole numbers are tested exactly.
* **`coordinates_run`** — the result, for trees that operations lead to.
-/

namespace BoxLayout

open Relation ViewTree Scalar.Rounded

variable {α : Type} [Scalar α]

/-! ## The way up -/

namespace ViewTree

/-- The frame of a view on its way up, in the coordinates of the parent of a view above. -/
inductive Lifted (t : ViewTree α) (id : ViewId) : ViewId → Rect α → Prop
  | own {v : View α} : t.get? id = some v → Lifted t id id v.frame
  | up {low parent : ViewId} {r : Rect α} {u : View α} : Lifted t id low r → t.ChildOf low parent →
      t.get? parent = some u → Lifted t id parent (r.translate u.frame.x u.frame.y)

variable {t : ViewTree α} {id parent low : ViewId} {r : Rect α}

/-- What is left of the loop once it has come to a view above. -/
theorem Lifted.absoluteFrame?_eq (hwf : t.WellFormed) (h : t.Lifted id low r) :
    t.absoluteFrame? id = (t.ancestors low).foldlM
      (fun frame parent => (t.get? parent).map fun p => frame.translate p.frame.x p.frame.y) r := by
  induction h with
  | own hv => rw [absoluteFrame?, hv]; rfl
  | up _ hlink hu ih =>
    rw [ih, hwf.ancestors_of_childOf hlink, List.foldlM_cons, hu]
    rfl

/-- On its way up a frame keeps its extents. -/
theorem Lifted.size_eq (h : t.Lifted id low r) : ∃ v, t.get? id = some v ∧ r.size = v.frame.size := by
  induction h with
  | own hv => exact ⟨_, hv, rfl⟩
  | up _ _ _ ih => exact ih

/-- The way up leads to a view without a parent. -/
theorem Lifted.exists_top (hwf : t.WellFormed) (h : t.Lifted id low r) :
    ∃ top r', t.Lifted id top r' ∧ t.parent? top = none := by
  -- the links upwards are well-founded, so the way up has an end
  induction low using hwf.wellFounded_parentOf.induction generalizing r with
  | _ low ih =>
    cases hparent : t.parent? low with
    | none => exact ⟨low, r, h, hparent⟩
    | some parent =>
      obtain ⟨u, hu⟩ := Option.isSome_iff_exists.mp (hwf.parent_live hparent)
      exact ih parent hparent (h.up hparent hu)

theorem Lifted.absoluteFrame?_of_top (hwf : t.WellFormed) (h : t.Lifted id low r)
    (htop : t.parent? low = none) : t.absoluteFrame? id = some r := by
  rw [h.absoluteFrame?_eq hwf, hwf.ancestors_eq, htop]
  rfl

/-- **The absolute frame of a view is its frame taken up to the top.** -/
theorem absoluteFrame?_eq_some_iff (hwf : t.WellFormed) :
    t.absoluteFrame? id = some r ↔ ∃ top, t.Lifted id top r ∧ t.parent? top = none := by
  refine ⟨fun h => ?_, fun ⟨top, hlifted, htop⟩ => hlifted.absoluteFrame?_of_top hwf htop⟩
  obtain ⟨v, hv, -⟩ := Option.bind_eq_some_iff.mp h
  -- the loop starts at the view itself, and the way up from there has an end
  obtain ⟨top, r', hlifted, htop⟩ := (Lifted.own hv).exists_top hwf
  obtain rfl := Option.some.inj (h.symm.trans (hlifted.absoluteFrame?_of_top hwf htop))
  exact ⟨top, hlifted, htop⟩

/-- Every view that is there has an absolute frame. -/
theorem isSome_absoluteFrame? (hwf : t.WellFormed) {v : View α} (hv : t.get? id = some v) :
    (t.absoluteFrame? id).isSome = true := by
  obtain ⟨top, r, hlifted, htop⟩ := (Lifted.own hv).exists_top hwf
  rw [hlifted.absoluteFrame?_of_top hwf htop]
  rfl

end ViewTree

/-! ## Containment along the axes -/

/-- The test of a point against a rectangle, one axis like the other. -/
theorem Rect.contains_iff_along {r : Rect α} {p : Point α} : r.contains p = true ↔
    ∀ axis, r.origin.along axis ≤ p.along axis ∧
      p.along axis < r.origin.along axis + r.size.along axis := by
  rw [contains_iff]
  constructor
  · rintro ⟨hx, hy⟩ axis
    cases axis
    · exact hx
    · exact hy
  · intro h
    exact ⟨h .horizontal, h .vertical⟩

theorem Rect.along_origin_translate (r : Rect α) (other : Rect α) (axis : Axis) :
    (r.translate other.x other.y).origin.along axis =
      r.origin.along axis + other.origin.along axis := by cases axis <;> rfl

theorem Point.along_sub (p q : Point α) (axis : Axis) :
    (p - q).along axis = p.along axis - q.along axis := by cases axis <;> rfl

variable [Scalar.Rounded α]

/-! ## Exact steps -/

/-- The sum of two lengths is not rounded. -/
def Scalar.ExactSum (a b : α) : Prop := value (a + b) = value a + value b

/-- The difference of two lengths is not rounded. -/
def Scalar.ExactDifference (a b : α) : Prop := value (a - b) = value a - value b

/-- The ends of a rectangle are not rounded. -/
def Rect.ExactEnds (r : Rect α) : Prop :=
  ∀ axis, Scalar.ExactSum (r.origin.along axis) (r.size.along axis)

/-- Nothing is rounded when a point is tested against a view: neither where the parent passes the
point on, nor at the ends of the frame, if the search comes to test it; and neither on the way up to
the absolute frame, nor at the ends of that. -/
structure ViewTree.ExactAt (t : ViewTree α) (root : ViewId) (p : Point α) (id : ViewId) : Prop where
  passed : ∀ {parent q u}, t.ChildOf id parent → t.VisibleAt root p parent q →
    t.get? parent = some u → ∀ axis, Scalar.ExactDifference (q.along axis) (u.frame.origin.along axis)
  ends : ∀ {v}, (∀ parent, t.ChildOf id parent → t.Visible root p parent) → t.get? id = some v →
    v.frame.ExactEnds
  lifted : ∀ {low parent r u}, t.Lifted id low r → t.ChildOf low parent → t.get? parent = some u →
    ∀ axis, Scalar.ExactSum (r.origin.along axis) (u.frame.origin.along axis)
  absoluteEnds : ∀ {r}, t.absoluteFrame? id = some r → r.ExactEnds

namespace ViewTree

variable {t : ViewTree α} {root id parent low : ViewId} {p q : Point α} {r : Rect α} {v : View α}

/-- A child goes the way of its parent, ahead of it by its own origin. -/
theorem Lifted.child (h : t.Lifted parent low r) (hlink : t.ChildOf id parent)
    (hv : t.get? id = some v) (hexact : t.ExactAt root p id) (hexact' : t.ExactAt root p parent) :
    ∃ r', t.Lifted id low r' ∧ r'.size = v.frame.size ∧ ∀ axis,
      value (r'.origin.along axis) = value (v.frame.origin.along axis) + value (r.origin.along axis) := by
  induction h with
  | own hu =>
    refine ⟨_, .up (.own hv) hlink hu, rfl, fun axis => ?_⟩
    rw [Rect.along_origin_translate]
    exact hexact.lifted (.own hv) hlink hu axis
  | @up low above r u hlow hup hu ih =>
    obtain ⟨r', hr', hsize, horigin⟩ := ih
    -- both frames take the same step, and the exact sums differ by the origin of the child as before
    refine ⟨_, hr'.up hup hu, hsize, fun axis => ?_⟩
    rw [Rect.along_origin_translate, Rect.along_origin_translate, hexact.lifted hr' hup hu axis,
      hexact'.lifted hlow hup hu axis, horigin, Exact.add_assoc]

/-- **The absolute origin of a child** is its own origin and that of its parent. -/
theorem absoluteFrame?_child (hwf : t.WellFormed) (hlink : t.ChildOf id parent)
    (hv : t.get? id = some v) (hexact : t.ExactAt root p id) (hexact' : t.ExactAt root p parent)
    (hr : t.absoluteFrame? parent = some r) :
    ∃ r', t.absoluteFrame? id = some r' ∧ r'.size = v.frame.size ∧ ∀ axis,
      value (r'.origin.along axis) = value (v.frame.origin.along axis) + value (r.origin.along axis) := by
  obtain ⟨top, hlifted, htop⟩ := (absoluteFrame?_eq_some_iff hwf).mp hr
  obtain ⟨r', hr', hspec⟩ := hlifted.child hlink hv hexact hexact'
  exact ⟨r', hr'.absoluteFrame?_of_top hwf htop, hspec⟩

end ViewTree

/-! ## The same test in both places -/

/-- A rectangle that contains a point has numbers for its origin, and so has the point. -/
theorem Rect.exists_finite_of_contains {r : Rect α} {p : Point α} (hr : r.ExactEnds)
    (h : r.contains p = true) (axis : Axis) : ∃ origin point : Rat,
      value (r.origin.along axis) = .finite origin ∧ value (p.along axis) = .finite point := by
  obtain ⟨hstart, hend⟩ := contains_iff_along.mp h axis
  rw [le_iff] at hstart
  rw [lt_iff, hr axis] at hend
  exact Exact.exists_finite_of_between hstart hend

/-- A rectangle contains a point just if the rectangle moved away contains the point moved with it. -/
theorem Rect.contains_eq_of_offset {r r' : Rect α} {p q : Point α} (hr : r.ExactEnds)
    (hr' : r'.ExactEnds) (hsize : r'.size = r.size) {offset : Axis → Rat}
    (horigin : ∀ axis, value (r'.origin.along axis) =
      value (r.origin.along axis) + .finite (offset axis)) {point : Axis → Rat}
    (hp : ∀ axis, value (p.along axis) = .finite (point axis))
    (hq : ∀ axis, value (q.along axis) = .finite (point axis - offset axis)) :
    r'.contains p = r.contains q := by
  rw [Bool.eq_iff_iff, contains_iff_along, contains_iff_along]
  refine forall_congr' fun axis => ?_
  -- moved to one side, the offset is the same on both sides of every comparison
  rw [le_iff (α := α), le_iff (α := α), lt_iff (α := α), lt_iff (α := α), hr axis, hr' axis, hsize,
    horigin, hp, hq, Exact.le_finite_sub_iff, Exact.finite_sub_lt_iff, Exact.add_assoc,
    Exact.add_assoc, Exact.add_comm (.finite (offset axis))]

namespace ViewTree

variable {t : ViewTree α} {root id parent low : ViewId} {p q : Point α} {r : Rect α} {v : View α}

/-- What a view takes from a point that arrives there leaves the point less the absolute origin of the
view. -/
def Aligned (t : ViewTree α) (p : Point α) (id : ViewId) (q : Point α) : Prop :=
  ∃ v r, t.get? id = some v ∧ t.absoluteFrame? id = some r ∧ ∀ axis, ∃ point origin : Rat,
    value (p.along axis) = .finite point ∧ value (r.origin.along axis) = .finite origin ∧
      value (q.along axis) - value (v.frame.origin.along axis) = .finite (point - origin)

/-- At the top nothing has been subtracted yet. -/
theorem aligned_root (hwf : t.WellFormed) (hroot : t.parent? root = none) (hv : t.get? root = some v)
    (hends : v.frame.ExactEnds) (hp : v.frame.contains p = true) : t.Aligned p root p := by
  refine ⟨v, v.frame, hv, (Lifted.own hv).absoluteFrame?_of_top hwf hroot, fun axis => ?_⟩
  obtain ⟨origin, point, horigin, hpoint⟩ := Rect.exists_finite_of_contains hends hp axis
  exact ⟨point, origin, hpoint, horigin, by rw [hpoint, horigin, Exact.finite_sub]⟩

/-- **The step down.** The point that a visible view passes on to a child lies in the frame of the child
just if the point lies in the absolute frame of the child, and if so the child passes it on in turn. -/
theorem Aligned.child (hwf : t.WellFormed) (h : t.Aligned p parent q)
    (hvisible : t.VisibleAt root p parent q) (hlink : t.ChildOf id parent) {u : View α}
    (hu : t.get? parent = some u) (hv : t.get? id = some v) (hexact : t.ExactAt root p id)
    (hexact' : t.ExactAt root p parent) : ∃ r, t.absoluteFrame? id = some r ∧
      r.contains p = v.frame.contains (q - u.frame.origin) ∧
      (r.contains p = true → t.Aligned p id (q - u.frame.origin)) := by
  obtain ⟨u', above, hu', habove, halong⟩ := h
  obtain rfl := Option.some.inj (hu'.symm.trans hu)
  obtain ⟨r, hr, hsize, horigin⟩ := absoluteFrame?_child hwf hlink hv hexact hexact' habove
  choose point offset hpoint hoffset hdifference using halong
  have hends : v.frame.ExactEnds := hexact.ends (fun other hother =>
    ⟨q, hother.unique hlink ▸ hvisible⟩) hv
  -- what the parent passes on is the point less what the absolute origin of the child adds to its own
  have hq (axis : Axis) : value ((q - u'.frame.origin).along axis) =
      .finite (point axis - offset axis) := by
    rw [Point.along_sub, hexact.passed hlink hvisible hu axis, hdifference]
  simp only [hoffset] at horigin
  have hcontains := Rect.contains_eq_of_offset hends (hexact.absoluteEnds hr) hsize horigin hpoint hq
  refine ⟨r, hr, hcontains, fun hp => ⟨v, r, hv, hr, fun axis => ?_⟩⟩
  obtain ⟨origin, -, horigin', -⟩ := Rect.exists_finite_of_contains hends (hcontains ▸ hp) axis
  refine ⟨point axis, origin + offset axis, hpoint axis, ?_, ?_⟩
  · rw [horigin, horigin', Exact.finite_add]
  · rw [hq, horigin', Exact.finite_sub]
    congr 1
    ring

/-- **A visible view and all above it have absolute frames that contain the point.** Induction on the
way of the point down. -/
theorem VisibleAt.aligned (hwf : t.WellFormed) (hroot : t.parent? root = none)
    (h : t.VisibleAt root p id q) (hexact : ∀ view ∈ id :: t.ancestors id, t.ExactAt root p view) :
    t.Aligned p id q ∧ ∀ view ∈ id :: t.ancestors id,
      ∃ r, t.absoluteFrame? view = some r ∧ r.contains p = true := by
  induction h with
  | @start v hv hp =>
    -- the root is tested whatever shows above it, for there is nothing
    have hends : v.frame.ExactEnds := (hexact root List.mem_cons_self).ends
      (fun parent hlink => nomatch hroot.symm.trans hlink) hv
    refine ⟨aligned_root hwf hroot hv hends hp, fun view hview => ?_⟩
    rw [hwf.ancestors_eq, hroot, List.mem_singleton] at hview
    subst hview
    exact ⟨v.frame, (Lifted.own hv).absoluteFrame?_of_top hwf hroot, hp⟩
  | @child parent id q u v hvisible hu hmem hv hp ih =>
    have hlink : t.ChildOf id parent := by
      rw [← hwf.mem_children_iff, children_of_get? hu]
      exact hmem
    rw [hwf.ancestors_of_childOf hlink, List.forall_mem_cons] at hexact ⊢
    obtain ⟨haligned, habove⟩ := ih hexact.2
    obtain ⟨r, hr, hcontains, hnext⟩ := haligned.child hwf hvisible hlink hu hv hexact.1
      (hexact.2 parent List.mem_cons_self)
    have hrp : r.contains p = true := hcontains.trans hp
    exact ⟨hnext hrp, ⟨r, hr, hrp⟩, habove⟩

/-- **Visible are the views whose absolute frames contain the point, as those of all views above do.**
Towards visibility, induction on the links from the root down. -/
theorem visible_iff_absoluteFrame? (hwf : t.WellFormed) (hroot : t.parent? root = none)
    (hwithin : t.Within id root) (hexact : ∀ view ∈ id :: t.ancestors id, t.ExactAt root p view) :
    t.Visible root p id ↔ ∀ view ∈ id :: t.ancestors id,
      ∃ r, t.absoluteFrame? view = some r ∧ r.contains p = true := by
  refine ⟨fun ⟨q, hq⟩ => (hq.aligned hwf hroot hexact).2, fun habsolute => ?_⟩
  induction hwithin using ReflTransGen.head_induction_on with
  | refl =>
    obtain ⟨r, hr, hp⟩ := habsolute root List.mem_cons_self
    obtain ⟨v, hv, -⟩ := Option.bind_eq_some_iff.mp hr
    obtain rfl := Option.some.inj (hr.symm.trans ((Lifted.own hv).absoluteFrame?_of_top hwf hroot))
    exact ⟨p, .start hv hp⟩
  | @head id parent hlink _ ih =>
    rw [hwf.ancestors_of_childOf hlink, List.forall_mem_cons] at hexact habsolute
    obtain ⟨q, hvisible⟩ := ih hexact.2 habsolute.2
    obtain ⟨u, hu⟩ := Option.isSome_iff_exists.mp (hwf.parent_live hlink)
    obtain ⟨v, hv, -⟩ := hlink.live
    -- the parent is visible already, and the frame below is tested as the one above is
    obtain ⟨r, hr, hcontains, -⟩ := (hvisible.aligned hwf hroot hexact.2).1.child hwf hvisible hlink
      hu hv hexact.1 (hexact.2 parent List.mem_cons_self)
    obtain ⟨r', hr', hp⟩ := habsolute.1
    obtain rfl := Option.some.inj (hr.symm.trans hr')
    exact ⟨_, .child hvisible hu (children_of_get? hu ▸ hwf.mem_children_iff.mpr hlink) hv
      (hcontains.symm.trans hp)⟩

end ViewTree

/-! ## Whole numbers

32-bit lengths that are whole numbers of 24 bits are added and subtracted exactly. -/

/-- A length that stands for a whole number no larger than a given one, of either sign. -/
def Scalar.WholeWithin (bound : ℕ) (a : α) : Prop :=
  ∃ z : ℤ, |z| ≤ bound ∧ value a = .finite z

theorem Scalar.wholeWithin_iff {bound : ℕ} {a : α} :
    WholeWithin bound a ↔ ∃ q, value a = .finite q ∧ q.den = 1 ∧ |q.num| ≤ bound := by
  constructor
  · rintro ⟨z, hz, ha⟩
    exact ⟨z, ha, rfl, hz⟩
  · rintro ⟨q, ha, hden, hnum⟩
    exact ⟨q.num, hnum, by rw [ha, Rat.coe_int_num_of_den_eq_one hden]⟩

instance {bound : ℕ} {a : α} : Decidable (Scalar.WholeWithin bound a) :=
  match h : value a with
  | .finite q => decidable_of_iff (q.den = 1 ∧ |q.num| ≤ bound) (by simp [Scalar.wholeWithin_iff, h])
  | .nan | .negInfinity | .infinity => isFalse (by simp [Scalar.wholeWithin_iff, h])

/-- Origin and extents are whole numbers no larger than a given one. -/
@[mk_iff]
structure Rect.WholeWithin (bound : ℕ) (r : Rect α) : Prop where
  origin : ∀ axis, Scalar.WholeWithin bound (r.origin.along axis)
  size : ∀ axis, Scalar.WholeWithin bound (r.size.along axis)

instance {bound : ℕ} {r : Rect α} : Decidable (r.WholeWithin bound) :=
  decidable_of_iff _ (r.wholeWithin_iff bound).symm

namespace Scalar

variable {a b : Float32} {y z : ℤ}

theorem value_add_of_whole (ha : value a = .finite y) (hb : value b = .finite z)
    (h : |y + z| < 2 ^ 24) : value (a + b) = .finite (y + z : ℤ) := by
  rw [value_add, ha, hb, Exact.finite_add, ← Int.cast_add]
  exact Single.round_intCast h

theorem value_sub_of_whole (ha : value a = .finite y) (hb : value b = .finite z)
    (h : |y - z| < 2 ^ 24) : value (a - b) = .finite (y - z : ℤ) := by
  rw [value_sub, ha, hb, Exact.finite_sub, ← Int.cast_sub]
  exact Single.round_intCast h

theorem exactSum_of_whole (ha : value a = .finite y) (hb : value b = .finite z)
    (h : |y + z| < 2 ^ 24) : ExactSum a b := by
  rw [ExactSum, value_add_of_whole ha hb h, ha, hb, Exact.finite_add, Int.cast_add]

theorem exactDifference_of_whole (ha : value a = .finite y) (hb : value b = .finite z)
    (h : |y - z| < 2 ^ 24) : ExactDifference a b := by
  rw [ExactDifference, value_sub_of_whole ha hb h, ha, hb, Exact.finite_sub, Int.cast_sub]

end Scalar

theorem Rect.WholeWithin.exactEnds {bound : ℕ} {r : Rect Float32} (h : r.WholeWithin bound)
    (hbound : 2 * bound < 2 ^ 24) : r.ExactEnds := by
  intro axis
  obtain ⟨x, hx, horigin⟩ := h.origin axis
  obtain ⟨w, hw, hsize⟩ := h.size axis
  refine Scalar.exactSum_of_whole horigin hsize ?_
  have := abs_add_le x w
  omega

namespace ViewTree

variable {t : ViewTree Float32} {root id low : ViewId} {p q : Point Float32} {r : Rect Float32}
  {bound : ℕ}

/-- A point that arrives at a view is as small as the frames are: the parent contains it, so what is
left of it is no more than the extent of the parent. -/
theorem VisibleAt.wholeWithin (hbound : 2 * bound < 2 ^ 24)
    (hframes : ∀ view v, t.get? view = some v → v.frame.WholeWithin bound)
    (hp : ∀ axis, Scalar.WholeWithin bound (p.along axis)) (h : t.VisibleAt root p id q)
    (axis : Axis) : Scalar.WholeWithin bound (q.along axis) := by
  induction h with
  | start => exact hp axis
  | @child parent id q u v hvisible hu _ _ _ ih =>
    obtain ⟨y, hy, hq⟩ := ih
    obtain ⟨x, hx, horigin⟩ := (hframes parent u hu).origin axis
    obtain ⟨w, hw, hsize⟩ := (hframes parent u hu).size axis
    obtain ⟨hstart, hend⟩ := Rect.contains_iff_along.mp (hvisible.contains hu) axis
    rw [le_iff, horigin, hq, Exact.finite_le_finite, Int.cast_le] at hstart
    rw [lt_iff, (hframes parent u hu).exactEnds hbound axis, horigin, hsize, hq, Exact.finite_add,
      Exact.finite_lt_finite, ← Int.cast_add, Int.cast_lt] at hend
    -- the parent contains the point: it is not before the origin, and not beyond the extent
    have hbetween : |y - x| ≤ bound := abs_le.mpr ⟨by omega, by linarith [le_abs_self w]⟩
    refine ⟨y - x, hbetween, ?_⟩
    rw [Point.along_sub]
    exact Scalar.value_sub_of_whole hq horigin (by omega)

/-- What leaves room for the bound at each view above leaves room for one more at the next of them. -/
theorem abs_add_of_childOf (hwf : t.WellFormed) {above : ViewId} (hlink : t.ChildOf low above)
    {y z total : ℤ} (hy : |y| + (t.ancestors low).length * bound ≤ total) (hz : |z| ≤ bound) :
    |y + z| + (t.ancestors above).length * bound ≤ total := by
  have hlength : ((t.ancestors low).length : ℤ) = (t.ancestors above).length + 1 := by
    rw [hwf.ancestors_of_childOf hlink]
    rfl
  rw [hlength] at hy
  linarith [abs_add_le y z]

/-- A frame on its way up grows by at most the bound at every view that it comes to. -/
theorem Lifted.wholeWithin (hwf : t.WellFormed)
    (hframes : ∀ view v, t.get? view = some v → v.frame.WholeWithin bound)
    (hbound : ((t.ancestors id).length + 1) * (bound : ℤ) < 2 ^ 24) (h : t.Lifted id low r)
    (axis : Axis) : ∃ z : ℤ, value (r.origin.along axis) = .finite z ∧
      |z| + (t.ancestors low).length * bound ≤ ((t.ancestors id).length + 1) * bound := by
  induction h with
  | own hv =>
    obtain ⟨z, hz, horigin⟩ := (hframes _ _ hv).origin axis
    exact ⟨z, horigin, by linarith⟩
  | @up low above r u _ hup hu ih =>
    obtain ⟨y, hr, hy⟩ := ih
    obtain ⟨z, hz, horigin⟩ := (hframes _ _ hu).origin axis
    have hsum := abs_add_of_childOf hwf hup hy hz
    have hnonneg : (0 : ℤ) ≤ (t.ancestors above).length * bound := by positivity
    refine ⟨y + z, ?_, hsum⟩
    rw [Rect.along_origin_translate]
    exact Scalar.value_add_of_whole hr horigin (by linarith)

/-- **Small whole numbers are exact.** Where all frames and the point are whole numbers up to a bound,
a view is tested exactly if the bound, taken once for the view, for its parent and so on, stays below
`2 ^ 24`. -/
theorem exactAt_of_whole (hwf : t.WellFormed)
    (hframes : ∀ view v, t.get? view = some v → v.frame.WholeWithin bound)
    (hp : ∀ axis, Scalar.WholeWithin bound (p.along axis))
    (hbound : ((t.ancestors id).length + 2) * bound < 2 ^ 24) : t.ExactAt root p id := by
  have htwo : 2 * bound < 2 ^ 24 := by nlinarith
  -- the last sum adds the extent of the view to the origins above it
  have htotal : (((t.ancestors id).length + 1) * bound + bound : ℤ) < 2 ^ 24 := by
    have hcast : (((t.ancestors id).length + 2) * bound : ℤ) < 2 ^ 24 := by exact_mod_cast hbound
    linarith
  have hone : ((t.ancestors id).length + 1) * (bound : ℤ) < 2 ^ 24 := by
    linarith [Int.natCast_nonneg bound]
  constructor
  case passed =>
    intro parent q u _ hvisible hu axis
    obtain ⟨y, hy, hq⟩ := hvisible.wholeWithin htwo hframes hp axis
    obtain ⟨x, hx, horigin⟩ := (hframes parent u hu).origin axis
    refine Scalar.exactDifference_of_whole hq horigin ?_
    have := abs_sub y x
    omega
  case ends => exact fun _ hv => (hframes _ _ hv).exactEnds htwo
  case lifted =>
    intro low parent r u hlifted hlink hu axis
    -- the frame below has the bound for each view so far, and the next origin adds one more
    obtain ⟨y, hr, hy⟩ := hlifted.wholeWithin hwf hframes hone axis
    obtain ⟨z, hz, horigin⟩ := (hframes parent u hu).origin axis
    have hsum := abs_add_of_childOf hwf hlink hy hz
    have hnonneg : (0 : ℤ) ≤ (t.ancestors parent).length * bound := by positivity
    exact Scalar.exactSum_of_whole hr horigin (by linarith)
  case absoluteEnds =>
    intro r hr axis
    obtain ⟨top, hlifted, -⟩ := (absoluteFrame?_eq_some_iff hwf).mp hr
    obtain ⟨v, hv, hsize⟩ := hlifted.size_eq
    obtain ⟨y, horigin, hy⟩ := hlifted.wholeWithin hwf hframes hone axis
    obtain ⟨w, hw, hextent⟩ := (hframes id v hv).size axis
    have hnonneg : (0 : ℤ) ≤ (t.ancestors top).length * bound := by positivity
    exact Scalar.exactSum_of_whole horigin (hsize ▸ hextent) (by linarith [abs_add_le y w])

end ViewTree

/-! ## In trees that operations lead to -/

/-- **Points and frames meet.** In any tree that operations lead to and whose root has no parent, every
view that is there has an absolute frame. Where a point is tested exactly against a view below the
root and all above it, the view is visible just if all their absolute frames contain the point. In
particular the absolute frame of the view that is hit does. -/
theorem coordinates_run (ops : List (Operation α)) {root : ViewId}
    (hroot : (empty.run ops).root = some root) (hparent : (empty.run ops).parent? root = none)
    (p : Point α) :
    let t := empty.run ops
    (∀ id, (t.get? id).isSome = true → (t.absoluteFrame? id).isSome = true) ∧
    (∀ id, t.Within id root → (∀ view ∈ id :: t.ancestors id, t.ExactAt root p view) →
      (t.Visible root p id ↔ ∀ view ∈ id :: t.ancestors id,
        ∃ r, t.absoluteFrame? view = some r ∧ r.contains p = true)) ∧
    (∀ id, t.hitTest p = some id → (∀ view ∈ id :: t.ancestors id, t.ExactAt root p view) →
      ∃ r, t.absoluteFrame? id = some r ∧ r.contains p = true) := by
  intro t
  have hwf : t.WellFormed := wellFormed_run ops
  refine ⟨fun id hid => ?_, fun id hwithin hexact => ?_, fun id hhit hexact => ?_⟩
  · obtain ⟨v, hv⟩ := Option.isSome_iff_exists.mp hid
    exact isSome_absoluteFrame? hwf hv
  · exact visible_iff_absoluteFrame? hwf hparent hwithin hexact
  · rw [hitTest, hroot] at hhit
    obtain ⟨⟨q, hq⟩, -⟩ := (hit_forest hwf root p).2 id hhit
    exact (hq.aligned hwf hparent hexact).2 id List.mem_cons_self

/-- A badge on a card on a page, each a little inside the one below. -/
def stackedFrames : List (Operation Float32) :=
  let one : Float32 := Scalar.one
  let two : Float32 := Scalar.two
  let five : Float32 := Float32.ofBits 0x40A00000
  let ten : Float32 := Float32.ofBits 0x41200000
  [.create .overlay .zero, .create .overlay .zero, .create .overlay .zero,
    .insertBefore ⟨0, 1⟩ ⟨1, 1⟩ none, .insertBefore ⟨1, 1⟩ ⟨2, 1⟩ none, .setRoot ⟨0, 1⟩,
    .write ⟨0, 1⟩ (.frame ⟨five, five, ten + ten, ten + ten⟩),
    .write ⟨1, 1⟩ (.frame ⟨two, two, ten, ten⟩), .write ⟨2, 1⟩ (.frame ⟨one, one, five, five⟩)]

/-- The badge is hit at a point nine from the left and from above, and all three absolute frames
contain it. -/
theorem coordinates_stackedFrames :
    let t := empty.run stackedFrames
    let p : Point Float32 := ⟨Float32.ofBits 0x41100000, Float32.ofBits 0x41100000⟩
    t.hitTest p = some ⟨2, 1⟩ ∧ (∃ r, t.absoluteFrame? ⟨2, 1⟩ = some r ∧ r.contains p = true) ∧
      (t.Visible ⟨0, 1⟩ p ⟨2, 1⟩ ↔ ∀ view ∈ ⟨2, 1⟩ :: t.ancestors ⟨2, 1⟩,
        ∃ r, t.absoluteFrame? view = some r ∧ r.contains p = true) := by
  intro t p
  have hhit : t.hitTest p = some ⟨2, 1⟩ := by decide +kernel
  have hentries : ∀ entry ∈ t.views.entries, entry.2.frame.WholeWithin 20 := by decide +kernel
  have hpoint : ∀ axis, Scalar.WholeWithin 20 (p.along axis) := by decide +kernel
  have hdepth : ∀ view ∈ ⟨2, 1⟩ :: t.ancestors ⟨2, 1⟩, (t.ancestors view).length ≤ 2 := by
    decide +kernel
  have hexact : ∀ view ∈ ⟨2, 1⟩ :: t.ancestors ⟨2, 1⟩, t.ExactAt ⟨0, 1⟩ p view := by
    intro view hview
    have hlength := hdepth view hview
    exact exactAt_of_whole (wellFormed_run stackedFrames)
      (fun id v hv => hentries (id, v) (Arena.mem_entries_iff.mpr hv)) hpoint (by omega)
  have hwithin : t.Within ⟨2, 1⟩ ⟨0, 1⟩ :=
    (WellFormed.mem_cons_ancestors_iff (wellFormed_run stackedFrames)).mp (by decide +kernel)
  have hroot : t.root = some ⟨0, 1⟩ := by rfl
  obtain ⟨-, hvisible, hcontains⟩ := coordinates_run stackedFrames hroot (by decide +kernel) p
  exact ⟨hhit, hcontains ⟨2, 1⟩ hhit hexact, hvisible ⟨2, 1⟩ hwithin hexact⟩

end BoxLayout
