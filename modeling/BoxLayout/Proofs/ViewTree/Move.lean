import Mathlib
import BoxLayout.Proofs.Arena
import BoxLayout.Proofs.ViewTree.Touched

/-!
# What a move does

A view can be placed by hand in eight ways: by its corner, by one coordinate of it, by its far edges,
and in the middle of its parent. All of them work out a corner from the frame that the view has, and
move the view there. So a move along one axis writes the other coordinate as well: the one that the
frame shows, and a declared origin to go with it.

* **`Move.corner`** — where a move leads.
* **`moved_eq_ok`**, **`exists_of_moved`** — a move that places a view is one update to that corner,
  when it succeeds and only then.
* **`others_of_moved`** — it changes no other view.
* **`Move.axis?`**, **`View.Shifted`**, **`shifted_of_moved`** — a move along one axis, and what it
  leaves of a view.
-/

namespace BoxLayout

variable {α : Type} [Scalar α]

/-! ## Corners -/

namespace Move

/-- The moves that place a view. The others resize it. -/
def places : Move α → Bool
  | size _ | width _ | height _ => false
  | _ => true

/-- The moves that need to know how large the parent is. -/
def centers : Move α → Bool
  | centerHorizontally | centerVertically | center => true
  | _ => false

/-- The corner that a move gives to a view with a frame, inside a parent of a size. -/
def corner (frame : Rect α) (room : Size α) : Move α → Point α
  | origin point => point
  | x value => ⟨value, frame.y⟩
  | y value => ⟨frame.x, value⟩
  | right value => ⟨value - frame.width, frame.y⟩
  | bottom value => ⟨frame.x, value - frame.height⟩
  | centerHorizontally => ⟨(room.width - frame.width) / Scalar.two, frame.y⟩
  | centerVertically => ⟨frame.x, (room.height - frame.height) / Scalar.two⟩
  | center => ⟨(room.width - frame.width) / Scalar.two, (room.height - frame.height) / Scalar.two⟩
  | size _ | width _ | height _ => frame.origin

/-- The axis of a move that places a view along one axis only. -/
def axis? : Move α → Option Axis
  | x _ | right _ | centerHorizontally => some .horizontal
  | y _ | bottom _ | centerVertically => some .vertical
  | _ => none

variable {move : Move α} {axis : Axis}

omit [Scalar α] in
/-- A move along one axis places the view. -/
theorem places_of_axis? (h : move.axis? = some axis) : move.places = true := by
  cases move with
  | x _ | y _ | right _ | bottom _ | centerHorizontally | centerVertically => rfl
  | origin _ | size _ | width _ | height _ | center => nomatch h

/-- A move along one axis starts from where the frame is along the other. -/
theorem along_cross_corner (h : move.axis? = some axis) (frame : Rect α) (room : Size α) :
    (move.corner frame room).along axis.cross = frame.origin.along axis.cross := by
  cases move with
  | x _ | y _ | right _ | bottom _ | centerHorizontally | centerVertically =>
    obtain rfl := Option.some.inj h
    rfl
  | origin _ | size _ | width _ | height _ | center => nomatch h

end Move

namespace View

variable (v : View α) (p : Point α)

@[simp] theorem origin_moveTo : (v.moveTo p).frame.origin = p := rfl

/-- A view that is moved declares the point less its leading margin. -/
theorem declaredOrigin_moveTo (axis : Axis) :
    (v.moveTo p).declaredOrigin.along axis = p.along axis - v.margins.leading axis := by
  cases axis <;> rfl

/-- What a view keeps that is placed along one axis: its place along the other one. The declared
origin is written anew there, as what lies before the margin. -/
structure Shifted (axis : Axis) (v w : View α) : Prop where
  rest : w = { v with frame := w.frame, declaredOrigin := w.declaredOrigin }
  size : w.frame.size = v.frame.size
  origin : w.frame.origin.along axis.cross = v.frame.origin.along axis.cross
  declared : w.declaredOrigin.along axis.cross =
    v.frame.origin.along axis.cross - v.margins.leading axis.cross

end View

namespace ViewTree

variable {t r : ViewTree α} {id : ViewId} {v : View α}

omit [Scalar α] in
/-- The view that is changed, looked up again. -/
theorem get?_update_self (h : t.get? id = some v) (change : View α → View α) :
    (t.update id change).get? id = some (change v) := by
  rw [get?_update, if_pos rfl, h, Option.map_some]

/-! ## One update

Every coordinate and every edge is turned into a corner behind look-ups of the same view. -/

/-- Each way of placing a view that is there, as one update. -/
theorem setOrigin_of_get? (h : t.get? id = some v) (p : Point α) :
    t.setOrigin id p = .ok (t.update id fun u => u.moveTo p) := by
  unfold setOrigin modify
  rw [node_eq_ok_iff.mpr h]
  rfl

theorem setX_of_get? (h : t.get? id = some v) (x : α) :
    t.setX id x = .ok (t.update id fun u => u.moveTo ⟨x, v.frame.y⟩) := by
  unfold setX
  rw [node_eq_ok_iff.mpr h]
  exact setOrigin_of_get? h _

theorem setY_of_get? (h : t.get? id = some v) (y : α) :
    t.setY id y = .ok (t.update id fun u => u.moveTo ⟨v.frame.x, y⟩) := by
  unfold setY
  rw [node_eq_ok_iff.mpr h]
  exact setOrigin_of_get? h _

theorem centerHorizontally_of_get? (h : t.get? id = some v) {room : Size α}
    (hroom : t.superviewSize id = .ok room) : t.centerHorizontally id =
      .ok (t.update id fun u => u.moveTo ⟨(room.width - v.frame.width) / Scalar.two, v.frame.y⟩) := by
  unfold centerHorizontally
  rw [hroom, node_eq_ok_iff.mpr h]
  exact setX_of_get? h _

theorem centerVertically_of_get? (h : t.get? id = some v) {room : Size α}
    (hroom : t.superviewSize id = .ok room) : t.centerVertically id =
      .ok (t.update id fun u => u.moveTo ⟨v.frame.x, (room.height - v.frame.height) / Scalar.two⟩) := by
  unfold centerVertically
  rw [hroom, node_eq_ok_iff.mpr h]
  exact setY_of_get? h _

omit [Scalar α] in
/-- The size of a parent is found just if the view, its parent and that view are there. -/
theorem superviewSize_eq_ok_iff {room : Size α} : t.superviewSize id = .ok room ↔
    ∃ v parent u, t.get? id = some v ∧ v.parent = some parent ∧ t.get? parent = some u ∧
      room = u.frame.size := by
  unfold superviewSize
  rw [Except.bind_eq_ok_iff]
  constructor
  · rintro ⟨v, hv, h⟩
    cases hparent : v.parent with
    | none =>
      rw [hparent] at h
      nomatch h
    | some parent =>
      rw [hparent] at h
      obtain ⟨u, hu, h⟩ := Except.bind_eq_ok_iff.mp h
      exact ⟨v, parent, u, node_eq_ok_iff.mp hv, hparent, node_eq_ok_iff.mp hu,
        (Except.ok.inj h).symm⟩
  · rintro ⟨v, parent, u, hv, hparent, hu, rfl⟩
    refine ⟨v, node_eq_ok_iff.mpr hv, ?_⟩
    rw [hparent]
    exact Except.bind_eq_ok_iff.mpr ⟨u, node_eq_ok_iff.mpr hu, rfl⟩

/-- Moving a view leaves the size of its parent, even if that were the view itself. -/
theorem superviewSize_update_moveTo (h : t.get? id = some v) {room : Size α}
    (hroom : t.superviewSize id = .ok room) (p : Point α) :
    (t.update id fun u => u.moveTo p).superviewSize id = .ok room := by
  obtain ⟨w, parent, u, hw, hparent, hu, rfl⟩ := superviewSize_eq_ok_iff.mp hroom
  have hself := get?_update_self hw fun u => u.moveTo p
  by_cases heq : parent = id
  · -- a view that is its own parent: the move changes the frame that is asked for, but not its size
    subst heq
    obtain rfl := Option.some.inj (hw.symm.trans hu)
    exact superviewSize_eq_ok_iff.mpr ⟨_, parent, _, hself, hparent, hself, rfl⟩
  · -- the parent is another view, which the move leaves alone
    have hother : (t.update id fun u => u.moveTo p).get? parent = some u := by
      rw [get?_update, if_neg heq, hu]
    exact superviewSize_eq_ok_iff.mpr ⟨_, parent, u, hself, hparent, hother, rfl⟩

/-- **A move that places a view is one update to its corner.** Centering is two moves, of which the
second leaves the coordinate of the first. -/
theorem moved_eq_ok (h : t.get? id = some v) {move : Move α} (hplaces : move.places = true)
    {room : Size α} (hroom : move.centers = true → t.superviewSize id = .ok room) :
    t.moved id move = .ok (t.update id fun u => u.moveTo (move.corner v.frame room)) := by
  cases move with
  | origin point => exact setOrigin_of_get? h point
  | x value => exact setX_of_get? h value
  | y value => exact setY_of_get? h value
  | right value =>
    show t.setRight id value = _
    rw [setRight, node_eq_ok_iff.mpr h]
    exact setX_of_get? h _
  | bottom value =>
    show t.setBottom id value = _
    rw [setBottom, node_eq_ok_iff.mpr h]
    exact setY_of_get? h _
  | size _ | width _ | height _ => nomatch hplaces
  | centerHorizontally => exact centerHorizontally_of_get? h (hroom rfl)
  | centerVertically => exact centerVertically_of_get? h (hroom rfl)
  | center =>
    show t.center id = _
    -- centering is two moves, of which the second overwrites the origin that the first has set
    have hfirst := centerHorizontally_of_get? h (hroom rfl)
    have hsecond (p : Point α) := centerVertically_of_get? (get?_update_self h fun u => u.moveTo p)
      (superviewSize_update_moveTo h (hroom rfl) p)
    have hboth (p q : Point α) : (t.update id fun u => u.moveTo p).update id (fun u => u.moveTo q) =
        t.update id fun u => u.moveTo q :=
      congrArg (ViewTree.mk · t.root) (Arena.update_update t.views id _ _)
    rw [center, hfirst]
    exact (hsecond _).trans (congrArg Except.ok (hboth _ _))

/-- A move that succeeds has found the view, and the size of its parent where it needs it. -/
theorem exists_of_moved {move : Move α} (hplaces : move.places = true)
    (h : t.moved id move = .ok r) :
    ∃ v room, t.get? id = some v ∧ r = t.update id fun u => u.moveTo (move.corner v.frame room) := by
  -- centering asks for the size of the parent before anything else
  have hroom : move.centers = true → ∃ room, t.superviewSize id = .ok room := by
    intro hcenters
    cases move with
    | centerHorizontally | centerVertically =>
      obtain ⟨room, hroom, -⟩ := Except.bind_eq_ok_iff.mp h
      exact ⟨room, hroom⟩
    | center =>
      obtain ⟨_, hfirst, -⟩ := Except.bind_eq_ok_iff.mp h
      obtain ⟨room, hroom, -⟩ := Except.bind_eq_ok_iff.mp hfirst
      exact ⟨room, hroom⟩
    | _ => nomatch hcenters
  -- every other way looks the view up
  have hlive : ∃ v, t.get? id = some v := by
    cases move with
    | origin _ | x _ | y _ | right _ | bottom _ =>
      obtain ⟨v, hv, -⟩ := Except.bind_eq_ok_iff.mp h
      exact ⟨v, node_eq_ok_iff.mp hv⟩
    | centerHorizontally | centerVertically | center =>
      obtain ⟨room, hroom⟩ := hroom rfl
      obtain ⟨v, -, -, hv, -⟩ := superviewSize_eq_ok_iff.mp hroom
      exact ⟨v, hv⟩
    | size _ | width _ | height _ => nomatch hplaces
  obtain ⟨v, hv⟩ := hlive
  by_cases hcenters : move.centers = true
  · obtain ⟨room, hroom⟩ := hroom hcenters
    have hok := moved_eq_ok hv hplaces fun _ => hroom
    exact ⟨v, room, hv, Except.ok.inj (h.symm.trans hok)⟩
  · -- The room is not read, so any will do.
    have hok : t.moved id move = .ok (t.update id fun u => u.moveTo (move.corner v.frame .zero)) :=
      moved_eq_ok hv hplaces fun h => absurd h hcenters
    exact ⟨v, .zero, hv, Except.ok.inj (h.symm.trans hok)⟩

/-- A move that places a view changes no other view, and not the root. -/
theorem others_of_moved {move : Move α} (hplaces : move.places = true)
    (h : t.moved id move = .ok r) :
    r.root = t.root ∧ ∀ other, other ≠ id → r.get? other = t.get? other := by
  obtain ⟨v, room, -, rfl⟩ := exists_of_moved hplaces h
  exact ⟨rfl, fun other hne => by rw [get?_update, if_neg hne]⟩

/-- **What a move along one axis leaves of a view.** -/
theorem shifted_of_moved {move : Move α} {axis : Axis} (haxis : move.axis? = some axis)
    (h : t.moved id move = .ok r) :
    ∃ v w, t.get? id = some v ∧ r.get? id = some w ∧ v.Shifted axis w := by
  obtain ⟨v, room, hv, rfl⟩ := exists_of_moved (Move.places_of_axis? haxis) h
  have hget := get?_update_self hv fun u => u.moveTo (move.corner v.frame room)
  have hcorner := Move.along_cross_corner haxis v.frame room
  refine ⟨v, _, hv, hget, rfl, rfl, ?_, ?_⟩
  · rw [View.origin_moveTo, hcorner]
  · rw [View.declaredOrigin_moveTo, hcorner]

end ViewTree

end BoxLayout
