import Mathlib
import BoxLayout.Proofs.Distribution.Deficit
import BoxLayout.Proofs.Layout.Order
import BoxLayout.Proofs.Layout.Regular

/-!
# The geometry of a stack

Where the children of a stack come to lie, read off the frames alone. Without rounding the cursor is
a sum of lengths, whatever order it adds them in, so all distances along the run can be stated as
equations, and what the distribution leaves over is what the frames leave of the bounds.

## The architecture

* **`RunAligned`**, **`runExtent`**, **`Cell.Seated`** — where a run sits, what it takes up, and where
  a child sits across the axis.
* **`RunGeometry`** — all that is said of a run of children with their frames.
* **`Stack.seated_frame`** — one child across the axis, in each of its alignments.
* **`Stack.packed`**, **`Stack.spaced_packed`**, **`Stack.stop_packed`**, **`Stack.runExtent_packed`**
  — the run that a position and a list of extents give, by induction on the children.
* **`Stack.exists_packed`** — every stack packs such a run, with extents that use no more than there
  is.
* **`Stack.geometry_place`**, **`geometry_run`** — the result, for measured cells and for the views of
  a tree.
-/

namespace BoxLayout

open ViewTree

/-! ## What is said of a run -/

/-- The alignment of a run: the container's own, or else the one that all children have, or else the
start. -/
inductive RunAligned (axis : Axis) (container : View Exact) (cells : List (Cell Exact)) :
    Alignment → Prop
  | own {alignment : Alignment} :
      container.constraints.alignmentAlong axis = some alignment → RunAligned axis container cells alignment
  | shared {alignment : Alignment} : container.constraints.alignmentAlong axis = none →
      (∀ c ∈ cells, c.constraints.alignmentAlong axis = some alignment) →
        RunAligned axis container cells alignment
  | mixed : container.constraints.alignmentAlong axis = none →
      (∀ alignment, ∃ c ∈ cells, c.constraints.alignmentAlong axis ≠ some alignment) →
        RunAligned axis container cells .start

/-- The part of what is left over that comes before a run. -/
def Alignment.before (leftover : Exact) : Alignment → Exact
  | start | fill => Scalar.zero
  | center => leftover / Scalar.two
  | stop => leftover

/-- What a run of children takes up along an axis, with the margins of all and the spacing between
them. -/
def runExtent (axis : Axis) (container : View Exact) (run : List (Cell Exact × Rect Exact)) : Exact :=
  Scalar.sum (run.map fun p => p.1.margins.along axis + p.2.size.along axis) +
    Scalar.ofCount (run.length - 1) * container.constraints.spacing.along axis

/-- A child lies between its margins along an axis and touches the sides that its alignment names. One
that fills the axis touches both, unless it is as large as it may be. -/
structure Cell.Seated (axis : Axis) (container : View Exact) (bounds : Size Exact) (c : Cell Exact)
    (frame : Rect Exact) : Prop where
  leading_le : c.margins.leading axis ≤ frame.origin.along axis
  stop_le : frame.stop axis + c.margins.trailing axis ≤ bounds.along axis
  at_start : c.alignment container axis = .start →
    frame.origin.along axis = c.margins.leading axis
  at_center : c.alignment container axis = .center →
    frame.origin.along axis - c.margins.leading axis =
      bounds.along axis - c.margins.trailing axis - frame.stop axis
  at_stop : c.alignment container axis = .stop →
    frame.stop axis + c.margins.trailing axis = bounds.along axis
  filling : c.alignment container axis = .fill →
    frame.origin.along axis = c.margins.leading axis ∧
      (frame.stop axis + c.margins.trailing axis = bounds.along axis ∨
        frame.size.along axis = c.constraints.max.along axis)

/-- Where the children of a stack lie, along its axis and across it. -/
structure RunGeometry (settings : Settings Exact) (axis : Axis) (container : View Exact)
    (bounds : Size Exact) (run : List (Cell Exact × Rect Exact)) : Prop where
  /-- Between two children are their margins and the spacing, and nothing else. -/
  spaced : run.IsChain fun p q => q.2.origin.along axis - p.2.stop axis =
    p.1.margins.trailing axis + container.constraints.spacing.along axis + q.1.margins.leading axis
  /-- Before the run is the part of what it leaves over that its alignment says, if that is more than
  the tolerance. -/
  start : ∃ alignment, RunAligned axis container (run.map Prod.fst) alignment ∧ ∀ p ∈ run.head?,
    p.2.origin.along axis - p.1.margins.leading axis =
      if settings.epsilon < bounds.along axis - runExtent axis container run then
        alignment.before (bounds.along axis - runExtent axis container run)
      else Scalar.zero
  /-- The run ends inside the bounds, up to the tolerance, or nothing in it can shrink. -/
  far_edge : (∀ p ∈ run.getLast?,
      p.2.stop axis + p.1.margins.trailing axis ≤ bounds.along axis + settings.epsilon) ∨
    ∀ p ∈ run, p.2.size.along axis = p.1.constraints.min.along axis
  /-- Across the axis every child is seated that has the room for it. -/
  across : ∀ p ∈ run, p.1.margins.leading axis.cross + p.1.constraints.min.along axis.cross +
      p.1.margins.trailing axis.cross ≤ bounds.along axis.cross →
    p.1.Seated axis.cross container bounds p.2

namespace Stack

variable {axis : Axis} {container : View Exact} {bounds : Size Exact} {c : Cell Exact}

/-! ## Across the axis -/

/-- Above the maximum a length is brought down to it. -/
theorem clampAlong_of_max_lt {c : Constraints Exact} (h : c.Valid) {axis : Axis} {x : Exact}
    (hx : c.max.along axis < x) : c.clampAlong axis x = c.max.along axis := by
  have hn := Scalar.not_isNaN_of_lt hx
  have hmin : Scalar.min x (c.max.along axis) = c.max.along axis := by
    unfold Scalar.min
    rw [hn.1, hn.2, if_neg Bool.false_ne_true, if_neg Bool.false_ne_true, if_pos hx]
  have hself := Scalar.clamp_eq_self (h.min_le_max axis) (Scalar.le_refl hn.1)
  rw [Scalar.min_eq_left (Scalar.le_refl hn.1)] at hself
  unfold Constraints.clampAlong
  rw [hmin, hself]

variable (container) in
/-- The extent of a child across the axis: no more than the room there, and all of it or all that the
child may have if the child fills the axis. -/
theorem exists_extent (h : c.Regular) {room min : Rat} (hroom : 0 ≤ room)
    (hm : c.constraints.min.along axis = .finite min) (hmin : min ≤ room) (stretches : Prop)
    [Decidable stretches] :
    ∃ extent : Rat, extent ≤ room ∧
      (c.alignment container axis = .fill →
        extent = room ∨ .finite extent = c.constraints.max.along axis) ∧
      c.constraints.clampAlong axis
        (if c.alignment container axis = .fill ∨ stretches then .finite room
          else Scalar.min (c.natural.along axis) (.finite room)) = .finite extent := by
  obtain ⟨natural, hnatural0, hn⟩ := Exact.isExtent_iff.mp (h.natural_isExtent axis)
  -- the extent before the child's own bounds
  obtain ⟨wanted, hwanted0, hwanted, hfills, hw⟩ : ∃ wanted : Rat, 0 ≤ wanted ∧ wanted ≤ room ∧
      (c.alignment container axis = .fill → wanted = room) ∧
      (if c.alignment container axis = .fill ∨ stretches then .finite room
        else Scalar.min (c.natural.along axis) (.finite room)) = Exact.finite wanted := by
    split_ifs with hfill
    · exact ⟨room, hroom, le_refl room, fun _ => rfl, rfl⟩
    · refine ⟨_, le_min hnatural0 hroom, min_le_right natural room,
        fun halign => absurd (Or.inl halign) hfill, ?_⟩
      rw [hn, Exact.finite_min]
  have hisExtent : Scalar.isExtent (c.constraints.clampAlong axis (.finite wanted)) = true :=
    h.valid.isExtent_clampAlong (Exact.isExtent_iff.mpr ⟨wanted, hwanted0, rfl⟩)
  obtain ⟨extent, -, hextent⟩ := Exact.isExtent_iff.mp hisExtent
  have hle : c.constraints.min.along axis ≤ .finite room := hm ▸ Exact.finite_le_finite.mpr hmin
  refine ⟨extent, ?_, fun halign => ?_, hw ▸ hextent⟩
  · -- the bounds can only raise it to the minimum, for which there is room
    refine Exact.finite_le_finite.mp (hextent ▸ ?_)
    unfold Constraints.clampAlong
    rcases Scalar.max_eq_or (Scalar.min (.finite wanted) (c.constraints.max.along axis))
      (c.constraints.min.along axis) with heq | heq <;> rw [heq]
    · exact Exact.le_trans (Scalar.min_le_left rfl) (Exact.finite_le_finite.mpr hwanted)
    · exact hle
  · -- a child that fills wants the room, and gets it unless its maximum is below
    rw [hfills halign] at hextent
    by_cases hmax : c.constraints.max.along axis < .finite room
    · exact Or.inr (hextent.symm.trans (clampAlong_of_max_lt h.valid hmax))
    · have hmax := Scalar.le_of_not_lt rfl (h.valid.max_isNaN axis) hmax
      rw [Constraints.clampAlong_eq_self (Or.inr ⟨hle, hmax⟩) rfl] at hextent
      exact Or.inl (Exact.finite.inj hextent.symm)

/-- The frame of a child that has the room across the axis, as rationals. -/
theorem exists_offset (h : c.Regular) (hnormal : container.constraints.cells = .normal)
    {cross leading min trailing : Rat} (hcross : bounds.along axis.cross = .finite cross)
    (hl : c.margins.leading axis.cross = .finite leading)
    (hm : c.constraints.min.along axis.cross = .finite min)
    (ht : c.margins.trailing axis.cross = .finite trailing) (hmin : 0 ≤ min)
    (hfits : leading + min + trailing ≤ cross) (start main : Exact) :
    ∃ offset extent : Rat, 0 ≤ offset ∧ leading + offset + extent + trailing ≤ cross ∧
      frame axis container bounds c start main =
        .ofAxes axis start (.finite (leading + offset)) main (.finite extent) ∧
      match c.alignment container axis.cross with
        | .start => offset = 0
        | .center => 2 * offset = cross - leading - trailing - extent
        | .stop => leading + offset + extent + trailing = cross
        | .fill => offset = 0 ∧ (leading + extent + trailing = cross ∨
            .finite extent = c.constraints.max.along axis.cross) := by
  -- the margins fit, so the room is what they leave
  have hcell : Scalar.max (bounds.along axis.cross - c.margins.along axis.cross) Scalar.zero =
      .finite (cross - leading - trailing) := by
    rw [hcross, Edges.along, hl, ht, Exact.finite_add, Exact.finite_sub, Exact.zero_eq,
      Exact.finite_max, max_eq_left (by linarith), sub_sub]
  have hroom : 0 ≤ cross - leading - trailing := by linarith
  obtain ⟨extent, hextent, hfill, hclamp⟩ := exists_extent container h hroom hm (by linarith)
    (c.stretches axis.cross = true)
  -- given the offset of the alignment, the frame is a pair of rationals across the axis
  have hframe (offset : Rat) (hoffset : (match c.alignment container axis.cross with
      | .start | .fill => Scalar.zero
      | .center => (.finite (cross - leading - trailing) - .finite extent) / Scalar.two
      | .stop => .finite (cross - leading - trailing) - .finite extent) = Exact.finite offset) :
      frame axis container bounds c start main =
        .ofAxes axis start (.finite (leading + offset)) main (.finite extent) := by
    unfold frame
    rw [hnormal]
    dsimp only [CellPositioning.sizeInCell]
    rw [hcell, hclamp, hl, ← Exact.finite_add]
    refine congrArg (fun offset => Rect.ofAxes axis start (.finite leading + offset) main
      (.finite extent)) (Eq.trans ?_ hoffset)
    cases c.alignment container axis.cross <;> rfl
  -- each alignment has an offset of its own, and all leave the cell within the room
  cases halign : c.alignment container axis.cross with
  | start =>
    refine ⟨0, extent, le_refl 0, by linarith, hframe 0 ?_, rfl⟩
    rw [halign]
    rfl
  | center =>
    refine ⟨(cross - leading - trailing - extent) / 2, extent, by linarith, by linarith,
      hframe _ ?_, by ring⟩
    rw [halign, Exact.two_eq, Exact.finite_sub, Exact.finite_div _ two_ne_zero]
  | stop =>
    refine ⟨cross - leading - trailing - extent, extent, by linarith, by linarith,
      hframe _ ?_, by ring⟩
    rw [halign, Exact.finite_sub]
  | fill =>
    refine ⟨0, extent, le_refl 0, by linarith, hframe 0 ?_, rfl, (hfill halign).imp_left fun heq => ?_⟩
    · rw [halign]
      rfl
    · linarith

/-- **Across the axis a child that has the room is seated**, whatever its alignment. -/
theorem seated_frame (h : c.Regular) (hnormal : container.constraints.cells = .normal)
    {cross : Rat} (hcross : bounds.along axis.cross = .finite cross)
    (hfits : c.margins.leading axis.cross + c.constraints.min.along axis.cross +
      c.margins.trailing axis.cross ≤ bounds.along axis.cross) (start main : Exact) :
    c.Seated axis.cross container bounds (frame axis container bounds c start main) := by
  obtain ⟨leading, hleading0, hl⟩ := Exact.isExtent_iff.mp (h.valid.leading_isExtent axis.cross)
  obtain ⟨min, hmin0, hm⟩ := Exact.isExtent_iff.mp (h.valid.min_isExtent axis.cross)
  obtain ⟨trailing, htrailing0, ht⟩ := Exact.isExtent_iff.mp (h.valid.trailing_isExtent axis.cross)
  change c.margins.leading axis.cross = _ at hl
  change c.margins.trailing axis.cross = _ at ht
  rw [hl, hm, ht, hcross, Exact.finite_add, Exact.finite_add, Exact.finite_le_finite] at hfits
  obtain ⟨offset, extent, hoffset, hend, hframe, halign⟩ :=
    exists_offset h hnormal hcross hl hm ht hmin0 hfits start main
  have hstop : (frame axis container bounds c start main).stop axis.cross =
      .finite (leading + offset + extent) := by
    rw [hframe]
    cases axis <;> rfl
  have hsize : (frame axis container bounds c start main).size.along axis.cross = .finite extent := by
    rw [hframe, Rect.size_ofAxes, Size.along_cross_ofAxes]
  have horigin : (frame axis container bounds c start main).origin.along axis.cross =
      .finite (leading + offset) := by
    rw [hframe, Rect.along_cross_origin_ofAxes]
  -- in rationals every part of the statement is a linear fact about offset and extent
  constructor <;> simp only [hstop, hsize, horigin, hl, ht, hcross, Exact.finite_add,
    Exact.finite_sub, Exact.finite_le_finite, Exact.finite.injEq]
  case leading_le => linarith
  case stop_le => exact hend
  case at_start =>
    intro heq
    rw [heq] at halign
    linarith
  case at_center =>
    intro heq
    rw [heq] at halign
    linarith
  case at_stop =>
    intro heq
    rwa [heq] at halign
  case filling =>
    intro heq
    rw [heq] at halign
    obtain ⟨rfl, hfill⟩ := halign
    exact ⟨add_zero leading, by rwa [add_zero]⟩

/-! ## Along the axis -/

/-- The cells of a run with their frames, packed from a position with given extents. -/
def packed (axis : Axis) (container : View Exact) (bounds : Size Exact) (position : Rat)
    (shares : List (Cell Exact × Rat)) : List (Cell Exact × Rect Exact) :=
  (shares.map Prod.fst).zip ((pack axis container bounds (.finite position)
    (shares.map fun s => (s.1, .finite s.2))).map Prod.snd)

/-- What a child with a given extent takes up along the axis, margins included. -/
def outer (axis : Axis) (s : Cell Exact × Rat) : Rat :=
  (s.1.margins.leading axis).toRat + s.2 + (s.1.margins.trailing axis).toRat

variable {position spacing : Rat} {shares : List (Cell Exact × Rat)}

/-- The cursor after a child, as one rational: what the child takes up and the spacing. -/
theorem packed_cons {s : Cell Exact × Rat} (h : s.1.Regular)
    (hspacing : container.constraints.spacing.along axis = .finite spacing) :
    packed axis container bounds position (s :: shares) =
      (s.1, frame axis container bounds s.1
        (.finite (position + (s.1.margins.leading axis).toRat)) (.finite s.2)) ::
      packed axis container bounds (position + outer axis s + spacing) shares := by
  obtain ⟨leading, -, trailing, hl, -, ht, -⟩ := h.exists_lengths axis
  have hnext : Exact.finite position + s.1.margins.leading axis +
      (.finite s.2 + s.1.margins.trailing axis + container.constraints.spacing.along axis) =
        .finite (position + outer axis s + spacing) := by
    rw [outer, hl, ht, hspacing]
    simp only [Exact.finite_add, Exact.toRat]
    congr 1
    ring
  have hstart : Exact.finite position + s.1.margins.leading axis =
      .finite (position + (s.1.margins.leading axis).toRat) := by
    rw [hl, Exact.finite_add]
    rfl
  rw [packed, List.map_cons, List.map_cons, pack, hnext, hstart]
  rfl

@[simp] theorem packed_nil : packed axis container bounds position [] = [] := rfl

section

variable (hnormal : container.constraints.cells = .normal)
  (hspacing : container.constraints.spacing.along axis = .finite spacing)
  (hshares : ∀ s ∈ shares, s.1.Regular)

include hspacing hshares

/-- Every frame of a run is that of a child with its extent. -/
theorem exists_of_mem_packed {p : Cell Exact × Rect Exact}
    (hp : p ∈ packed axis container bounds position shares) :
    ∃ s ∈ shares, ∃ start, p = (s.1, frame axis container bounds s.1 start (.finite s.2)) := by
  induction shares generalizing position with
  | nil => nomatch hp
  | cons s shares ih =>
    obtain ⟨hs, hshares⟩ := List.forall_mem_cons.mp hshares
    rw [packed_cons hs hspacing] at hp
    rcases List.mem_cons.mp hp with rfl | hp
    · exact ⟨s, List.mem_cons_self, _, rfl⟩
    · obtain ⟨s', hs', h⟩ := ih hshares hp
      exact ⟨s', List.mem_cons_of_mem _ hs', h⟩

include hnormal

variable (bounds position) in
/-- A run consists of the children, each with the extent it was given. -/
theorem map_packed : (packed axis container bounds position shares).map
    (fun p => (p.1, p.2.size.along axis)) = shares.map fun s => (s.1, .finite s.2) := by
  induction shares generalizing position with
  | nil => rfl
  | cons s shares ih =>
    obtain ⟨hs, hshares⟩ := List.forall_mem_cons.mp hshares
    obtain ⟨crossStart, cross, hframe⟩ := exists_frame_eq axis bounds hnormal
      s.1 (.finite (position + (s.1.margins.leading axis).toRat)) (.finite s.2)
    rw [packed_cons hs hspacing, List.map_cons, List.map_cons, ih _ hshares, hframe, Rect.size_ofAxes,
      Size.along_ofAxes]

variable (bounds position) in
/-- **Along a run the distances are the lengths in between**, and the run starts at its position.
Induction on the children, with the position as it moves on. -/
theorem spaced_packed :
    ((packed axis container bounds position shares).IsChain fun p q =>
      q.2.origin.along axis - p.2.stop axis = p.1.margins.trailing axis +
        container.constraints.spacing.along axis + q.1.margins.leading axis) ∧
      ∀ p ∈ (packed axis container bounds position shares).head?,
        p.2.origin.along axis - p.1.margins.leading axis = .finite position := by
  induction shares generalizing position with
  | nil => simp
  | cons s shares ih =>
    obtain ⟨hs, hshares⟩ := List.forall_mem_cons.mp hshares
    obtain ⟨leading, -, trailing, hl, -, ht, -⟩ := hs.exists_lengths axis
    obtain ⟨crossStart, cross, hframe⟩ := exists_frame_eq axis bounds hnormal
      s.1 (.finite (position + (s.1.margins.leading axis).toRat)) (.finite s.2)
    rw [packed_cons hs hspacing, hframe]
    obtain ⟨hchain, hhead⟩ := ih (position + outer axis s + spacing) hshares
    refine ⟨hchain.cons fun q hq => ?_, fun p hp => ?_⟩
    · obtain ⟨r, hr, start, rfl⟩ :=
        exists_of_mem_packed hspacing hshares (List.mem_of_mem_head? hq)
      obtain ⟨leading', -, -, hl', -⟩ := (hshares r hr).exists_lengths axis
      obtain ⟨crossStart', cross', hframe'⟩ := exists_frame_eq axis bounds
        hnormal r.1 start (.finite r.2)
      -- the gap is measured from the head of the rest, which the induction places
      have hfirst := hhead _ hq
      dsimp only at hfirst ⊢
      rw [hframe', Rect.along_origin_ofAxes] at hfirst ⊢
      rw [hl'] at hfirst ⊢
      obtain ⟨q, rfl⟩ := Exact.exists_finite_of_sub hfirst
      rw [Exact.finite_sub, Exact.finite.injEq] at hfirst
      rw [Rect.stop_ofAxes, ht, hspacing, hl]
      simp only [Exact.finite_add, Exact.finite_sub, Exact.toRat, Exact.finite.injEq]
      rw [outer, hl, ht] at hfirst
      simp only [Exact.toRat] at hfirst
      linarith
    · -- the first child starts one leading margin behind the position
      rw [List.head?_cons, Option.mem_some_iff] at hp
      subst hp
      rw [Rect.along_origin_ofAxes, hl, Exact.finite_sub]
      simp [Exact.toRat]

/-- What the children take up, and the spacing between them. -/
def total (axis : Axis) (spacing : Rat) (shares : List (Cell Exact × Rat)) : Rat :=
  (shares.map (outer axis)).sum + (shares.length - 1 : ℕ) * spacing

/-- A run ends where all that it takes up ends. -/
theorem stop_packed : ∀ p ∈ (packed axis container bounds position shares).getLast?,
    p.2.stop axis + p.1.margins.trailing axis = .finite (position + total axis spacing shares) := by
  induction shares generalizing position with
  | nil => simp
  | cons s shares ih =>
    obtain ⟨hs, hshares⟩ := List.forall_mem_cons.mp hshares
    rw [packed_cons hs hspacing]
    cases shares with
    | nil =>
      obtain ⟨leading, -, trailing, hl, -, ht, -⟩ := hs.exists_lengths axis
      obtain ⟨crossStart, cross, hframe⟩ := exists_frame_eq axis bounds hnormal
        s.1 (.finite (position + (s.1.margins.leading axis).toRat)) (.finite s.2)
      intro p hp
      rw [packed_nil, List.getLast?_singleton, Option.mem_some_iff] at hp
      subst hp
      dsimp only
      rw [hframe, Rect.stop_ofAxes, hl, ht]
      simp [total, outer, hl, ht, Exact.toRat]
      ring
    | cons s' shares =>
      intro p hp
      -- the last child of the rest; the run is unfolded far enough to see that there is one
      rw [packed_cons (List.forall_mem_cons.mp hshares).1 hspacing, List.getLast?_cons_cons] at hp
      rw [← packed_cons (List.forall_mem_cons.mp hshares).1 hspacing] at hp
      rw [ih hshares p hp]
      simp only [total, List.map_cons, List.sum_cons, List.length_cons, Nat.add_sub_cancel,
        Nat.cast_add, Nat.cast_one, Exact.finite.injEq]
      ring

/-- What the frames of a run take up is what the children were given. -/
theorem runExtent_packed : runExtent axis container (packed axis container bounds position shares) =
    .finite (total axis spacing shares) := by
  have hmap := map_packed bounds position hnormal hspacing hshares
  -- margins and extent of a frame are those of the share it was packed from
  have houter : (packed axis container bounds position shares).map
      (fun p => p.1.margins.along axis + p.2.size.along axis) =
        shares.map fun s => .finite (outer axis s) := by
    have h := congrArg (List.map fun q : Cell Exact × Exact => q.1.margins.along axis + q.2) hmap
    rw [List.map_map, List.map_map] at h
    refine h.trans (List.map_congr_left fun s hs => ?_)
    obtain ⟨leading, -, trailing, hl, -, ht, -⟩ := (hshares s hs).exists_lengths axis
    show s.1.margins.along axis + .finite s.2 = .finite (outer axis s)
    rw [Edges.along, outer, hl, ht]
    simp only [Exact.finite_add, Exact.toRat]
    congr 1
    ring
  have hlength : (packed axis container bounds position shares).length = shares.length := by
    simpa using congrArg List.length hmap
  rw [runExtent, houter, hlength, hspacing, Exact.sum_map_finite]
  rfl

end

/-! ## The whole run -/

/-- Items share an alignment just if every one of them has it. -/
theorem shared?_eq_some_iff {xs : List (Option Alignment)} (hne : xs ≠ []) {alignment : Alignment} :
    shared? xs = some alignment ↔ ∀ x ∈ xs, x = some alignment := by
  cases xs with
  | nil => exact absurd rfl hne
  | cons x xs =>
    rw [shared?]
    split_ifs with hall
    · simp only [List.all_eq_true, beq_iff_eq] at hall
      refine ⟨fun hx y hy => ?_, fun h => h x List.mem_cons_self⟩
      -- the first one, or one that has been compared with it
      rcases List.mem_cons.mp hy with rfl | hy
      · exact hx
      · exact (hall y hy).trans hx
    · -- they differ, so there is none they all have
      refine ⟨nofun, fun h => absurd (List.all_eq_true.mpr fun y hy => ?_) hall⟩
      rw [h y (List.mem_cons_of_mem _ hy), h x List.mem_cons_self, beq_self_eq_true]

/-- The alignment by which a stack places its run is that of the run. -/
theorem runAligned_runAlignment (axis : Axis) (container : View Exact) {cells : List (Cell Exact)}
    (hne : cells ≠ []) : RunAligned axis container cells (runAlignment axis container cells) := by
  have hmap : cells.map (fun c => c.constraints.alignmentAlong axis) ≠ [] :=
    fun h => hne (List.map_eq_nil_iff.mp h)
  unfold runAlignment
  cases hown : container.constraints.alignmentAlong axis with
  | some alignment => exact .own hown
  | none =>
    rw [Option.none_or]
    cases hshared : shared? (cells.map fun c => c.constraints.alignmentAlong axis) with
    | some alignment =>
      exact .shared hown fun c hc =>
        (shared?_eq_some_iff hmap).mp hshared _ (List.mem_map_of_mem hc)
    | none =>
      refine .mixed hown fun alignment => ?_
      -- if no cell differed from an alignment, the cells would share it
      by_contra hall
      have hall : ∀ x ∈ cells.map fun c => c.constraints.alignmentAlong axis, x = some alignment := by
        intro x hx
        obtain ⟨c, hc, rfl⟩ := List.mem_map.mp hx
        exact not_not.mp fun hx => hall ⟨c, hc, hx⟩
      rw [(shared?_eq_some_iff hmap).mpr hall] at hshared
      nomatch hshared

variable (axis container) in
/-- Where a run starts, with what is left over as a rational. -/
theorem exists_runStart {settings : Settings Exact} (hepsilon : Scalar.zero ≤ settings.epsilon)
    (cells : List (Cell Exact)) (leftover : Rat) :
    ∃ position : Rat, runStart settings axis container cells (.finite leftover) = .finite position ∧
      .finite position = (if settings.epsilon < .finite leftover then
        (runAlignment axis container cells).before (.finite leftover) else Scalar.zero) ∧
      (position ≤ leftover ∨ position = 0) := by
  unfold runStart
  split_ifs with hlt
  · have hpos : 0 ≤ leftover :=
      Exact.finite_le_finite.mp (Exact.le_trans hepsilon (Exact.le_of_lt hlt))
    -- what is left over is above the tolerance, so it is no negative length
    have hfree : Scalar.max (.finite leftover - Scalar.zero) Scalar.zero = Exact.finite leftover := by
      rw [Exact.zero_eq, Exact.finite_sub, Exact.finite_max, sub_zero, max_eq_left hpos]
    unfold Alignment.offset Alignment.before
    dsimp only
    rw [hfree]
    cases runAlignment axis container cells with
    | start | fill => exact ⟨0, rfl, rfl, Or.inr rfl⟩
    | center =>
      rw [Exact.two_eq, Exact.finite_div _ two_ne_zero]
      exact ⟨leftover / 2, rfl, rfl, Or.inl (half_le_self hpos)⟩
    | stop => exact ⟨leftover, rfl, rfl, Or.inl (le_refl _)⟩
  · exact ⟨0, rfl, rfl, Or.inr rfl⟩

/-- A regular child competes for room with numbers only. -/
theorem item_regular (h : c.Regular) (axis : Axis) : (item axis c).Regular :=
  { item_proper h.toProper axis with
    zero_le_min := h.valid.zero_le_min axis
    natural_isFinite := (Scalar.isExtent_iff.mp (h.natural_isExtent axis)).1
    weight_isFinite := (Scalar.isExtent_iff.mp (h.valid.stretch_isExtent axis)).1 }

/-- What the children take up is their margins, the spacing and their extents. -/
theorem total_eq (hshares : ∀ s ∈ shares, s.1.Regular) :
    total axis spacing shares = (shares.map fun s => (s.1.margins.along axis).toRat).sum +
      (shares.length - 1 : ℕ) * spacing + (shares.map Prod.snd).sum := by
  have houter : shares.map (outer axis) =
      shares.map fun s => (s.1.margins.along axis).toRat + s.2 := by
    refine List.map_congr_left fun s hs => ?_
    obtain ⟨leading, -, trailing, hl, -, ht, -⟩ := (hshares s hs).exists_lengths axis
    rw [outer, Edges.along, hl, ht]
    simp only [Exact.finite_add, Exact.toRat]
    ring
  rw [total, houter, List.sum_map_add]
  ring

/-- What a stack shares out are the bounds, less the margins and the spacing. -/
theorem distribution_eq (settings : Settings Exact) {cells : List (Cell Exact)}
    (hcells : ∀ c ∈ cells, c.Regular)
    (hspacing : container.constraints.spacing.along axis = .finite spacing) {main : Rat}
    (hmain : bounds.along axis = .finite main) :
    distribution settings axis container cells bounds =
      distribute settings (cells.map (item axis)) (.finite (main -
        ((cells.map fun c => (c.margins.along axis).toRat).sum +
          (cells.length - 1 : ℕ) * spacing))) := by
  have hmargins : cells.map (fun c => c.margins.along axis) =
      cells.map fun c => .finite (c.margins.along axis).toRat := by
    refine List.map_congr_left fun c hc => ?_
    obtain ⟨leading, -, trailing, hl, -, ht, -⟩ := (hcells c hc).exists_lengths axis
    rw [Edges.along, hl, ht]
    rfl
  unfold distribution gaps
  dsimp only
  rw [hmargins, Exact.sum_map_finite, hmain, hspacing]
  show distribute settings _ (.finite _ - (.finite _ + .finite _ * .finite spacing)) = _
  rw [Exact.finite_mul, Exact.finite_add, Exact.finite_sub]

/-- A stack packs its children from a position that its leftover determines, with extents that use no
more than there is, up to the tolerance, or are all the least possible. -/
theorem exists_packed {settings : Settings Exact} {cells : List (Cell Exact)}
    (hepsilon : Scalar.zero ≤ settings.epsilon) (hpasses : 1 ≤ settings.maxPasses)
    (hspacing : container.constraints.spacing.along axis = .finite spacing)
    (hcells : ∀ c ∈ cells, c.Regular) {main : Rat} (hmain : bounds.along axis = .finite main) :
    ∃ (shares : List (Cell Exact × Rat)) (position : Rat),
      cells.zip ((place settings axis container cells bounds).map Prod.snd) =
          packed axis container bounds position shares ∧
        shares.map Prod.fst = cells ∧
        runStart settings axis container cells (.finite (main - total axis spacing shares)) =
          .finite position ∧
        (.finite (total axis spacing shares - main) ≤ settings.epsilon ∨
          ∀ s ∈ shares, .finite s.2 = s.1.constraints.min.along axis) := by
  have hitems : ∀ i ∈ cells.map (item axis), i.Regular := by
    intro i hi
    obtain ⟨c, hc, rfl⟩ := List.mem_map.mp hi
    exact item_regular (hcells c hc) axis
  -- what is handed out: the extent without margins and gaps
  set available := main - ((cells.map fun c => (c.margins.along axis).toRat).sum +
    (cells.length - 1 : ℕ) * spacing) with havailable
  obtain ⟨sizes, hsizes, hleftover, hends⟩ :=
    le_available_distribute hitems hepsilon hpasses available
  have hlength : sizes.length = cells.length := by
    have h := length_sizes_distribute settings (cells.map (item axis)) (.finite available)
    rwa [hsizes, List.length_map, List.length_map] at h
  have hfst : (cells.zip sizes).map Prod.fst = cells := List.map_fst_zip hlength.ge
  have hsnd : (cells.zip sizes).map Prod.snd = sizes := List.map_snd_zip hlength.le
  have hregular : ∀ s ∈ cells.zip sizes, s.1.Regular := fun s hs =>
    hcells s.1 (hfst ▸ List.mem_map_of_mem hs)
  have htotal : total axis spacing (cells.zip sizes) = main - available + sizes.sum := by
    rw [total_eq hregular, hsnd, List.length_zip, hlength, min_self, havailable, sub_sub_cancel]
    congr 2
    conv_rhs => rw [← hfst, List.map_map]
    rfl
  have hdistribution := distribution_eq settings hcells hspacing hmain
  obtain ⟨position, hstart, -⟩ := exists_runStart axis container hepsilon
    cells (main - total axis spacing (cells.zip sizes))
  refine ⟨cells.zip sizes, position, ?_, hfst, hstart, hends.imp (fun hle => ?_) fun hmin => ?_⟩
  · -- the leftover of the distribution is what the run leaves of the extent
    have hleft : available - sizes.sum = main - total axis spacing (cells.zip sizes) := by
      rw [htotal]
      ring
    have hzip : cells.zip (sizes.map Exact.finite) =
        (cells.zip sizes).map fun s => (s.1, .finite s.2) := List.zip_map_right
    rw [place, packed, hfst, hdistribution, hsizes, hleftover, hleft, hstart, hzip]
  · rwa [htotal, show main - available + sizes.sum - main = sizes.sum - available by ring]
  · intro s hs
    have hmap : (cells.zip sizes).map (fun s => Exact.finite s.2) =
        (cells.zip sizes).map fun s => s.1.constraints.min.along axis := by
      have hmin' : sizes.map Exact.finite = cells.map fun c => c.constraints.min.along axis := by
        rw [← hsizes, hmin, List.map_map]
        rfl
      conv_lhs at hmin' => rw [← hsnd, List.map_map]
      conv_rhs at hmin' => rw [← hfst, List.map_map]
      exact hmin'
    exact List.map_inj_left.mp hmap s hs

/-- **The geometry of a stack.** -/
theorem geometry_place {settings : Settings Exact} {cells : List (Cell Exact)}
    (hepsilon : Scalar.zero ≤ settings.epsilon) (hpasses : 1 ≤ settings.maxPasses)
    (hvalid : container.constraints.Valid) (hnormal : container.constraints.cells = .normal)
    (hne : cells ≠ []) (hcells : ∀ c ∈ cells, c.Regular)
    (hbounds : ∀ axis, Scalar.isFinite (bounds.along axis) = true) :
    RunGeometry settings axis container bounds
      (cells.zip ((place settings axis container cells bounds).map Prod.snd)) := by
  obtain ⟨spacing, -, hspacing⟩ := Exact.isExtent_iff.mp (hvalid.spacing_isExtent axis)
  obtain ⟨main, hmain⟩ := Exact.isFinite_iff.mp (hbounds axis)
  obtain ⟨cross, hcross⟩ := Exact.isFinite_iff.mp (hbounds axis.cross)
  obtain ⟨shares, position, hrun, hfst, hstart, hends⟩ :=
    exists_packed hepsilon hpasses hspacing hcells hmain
  have hshares : ∀ s ∈ shares, s.1.Regular := fun s hs =>
    hcells s.1 (hfst ▸ List.mem_map_of_mem hs)
  obtain ⟨position', hstart', hbefore, hposition⟩ := exists_runStart axis container
    hepsilon cells (main - total axis spacing shares)
  obtain rfl : position = position' := Exact.finite.inj (hstart.symm.trans hstart')
  obtain ⟨hspaced, hhead⟩ :=
    spaced_packed bounds position hnormal hspacing hshares
  have hmap := map_packed bounds position hnormal hspacing hshares
  rw [hrun]
  refine ⟨hspaced, ⟨runAlignment axis container cells, ?_, fun p hp => ?_⟩, ?_, fun p hp hfits => ?_⟩
  · -- the alignment is read off the children that the run consists of
    have hcells : (packed axis container bounds position shares).map Prod.fst = cells := by
      have h := congrArg (List.map Prod.fst) hmap
      rw [List.map_map, List.map_map] at h
      exact h.trans hfst
    rw [hcells]
    exact runAligned_runAlignment axis container hne
  · rw [hhead p hp, runExtent_packed hnormal hspacing hshares, hmain, Exact.finite_sub, hbefore]
  · -- the far edge: the leftover covers the position, or all have their least extents
    refine hends.imp (fun hle p hp => ?_) fun hmin p hp => ?_
    · rw [stop_packed hnormal hspacing hshares p hp, hmain]
      refine Exact.le_add_of_sub_le ?_
      rcases hposition with hposition | rfl
      · exact Exact.le_trans (Exact.finite_le_finite.mpr (by linarith)) hepsilon
      · rwa [zero_add]
    · have hmem := List.mem_map_of_mem (f := fun p => (p.1, p.2.size.along axis)) hp
      rw [hmap] at hmem
      obtain ⟨s, hs, heq⟩ := List.mem_map.mp hmem
      rw [Prod.mk.injEq] at heq
      rw [← heq.1, ← heq.2]
      exact hmin s hs
  · -- across the axis each child is on its own
    obtain ⟨s, hs, start, rfl⟩ := exists_of_mem_packed hspacing hshares hp
    exact seated_frame (hshares s hs) hnormal hcross hfits _ _

end Stack

/-- **Where the children of a stack lie**, in any tree that operations lead to and with any measurer.
Nothing is asked of the bounds and of the origins in overlays but that they are numbers. -/
theorem geometry_run (ops : List (Operation Exact)) (e : Engine Exact)
    (hepsilon : Scalar.zero ≤ e.settings.epsilon) (hpasses : 1 ≤ e.settings.maxPasses)
    {kind : Container} {axis : Axis} (haxis : kind.axis? = some axis) {id : ViewId} {v : View Exact}
    (hv : (empty.run ops).get? id = some v) (hnormal : v.constraints.cells = .normal)
    (hne : v.children ≠ [])
    (hanchored : ∀ low ∈ ((empty.run ops).below id).ids, (e.pass (empty.run ops)).Anchored low)
    {bounds : Size Exact} (hbounds : ∀ axis, Scalar.isFinite (bounds.along axis) = true)
    {placements : List (Placement Exact)}
    (hok : ((e.pass (empty.run ops)).childPlacements kind id bounds).outcome = .ok placements) :
    ∃ cells : List (Cell Exact), cells.map Cell.id = v.children ∧
      (∀ c ∈ cells, (empty.run ops).get? c.id = some c.view) ∧
      placements.map Prod.fst = v.children ∧
      RunGeometry e.settings axis v bounds (cells.zip (placements.map Prod.snd)) := by
  have hvalid : (empty.run ops).ValidRecords := validRecords_run ops
  obtain ⟨cells, -, hids, hviews, hregular, rfl⟩ := Pass.exists_regular_cells
    (p := e.pass (empty.run ops)) (wellFormed_run ops) hvalid hv hanchored hok
  have hplace : kind.place e.settings v cells bounds =
      Stack.place e.settings axis v cells bounds := by
    rw [Container.place, haxis]
  refine ⟨cells, hids, hviews, (kind.map_fst_place _ _ _ _).trans hids, ?_⟩
  show RunGeometry e.settings axis v bounds
    (cells.zip ((kind.place e.settings v cells bounds).map Prod.snd))
  rw [hplace]
  refine Stack.geometry_place hepsilon hpasses (hvalid id v hv) hnormal ?_ hregular hbounds
  rintro rfl
  exact hne hids.symm

/-- A row whose children, one of which grows up to a bound, are to sit in its middle. -/
def centeredRow : List (Operation Exact) :=
  let content : Size Exact := ⟨.finite 10, .finite 10⟩
  [.create .horizontal .zero, .create .horizontal content, .create .horizontal content,
    .insertBefore ⟨0, 1⟩ ⟨1, 1⟩ none, .insertBefore ⟨0, 1⟩ ⟨2, 1⟩ none,
    .edit ⟨0, 1⟩ [.spacing (.finite 2), .hAlign .center], .edit ⟨1, 1⟩ [.margins (.finite 1)],
    .edit ⟨2, 1⟩ [.stretching, .maxExtent .horizontal (.finite 30)]]

theorem geometry_centeredRow :
    let e : Engine Exact := ⟨⟨.finite (1 / 100), 32, false⟩, .stored⟩
    let bounds : Size Exact := ⟨.finite 100, .finite 20⟩
    ∃ (v : View Exact) (cells : List (Cell Exact)),
      (empty.run centeredRow).get? ⟨0, 1⟩ = some v ∧ cells.map Cell.id = v.children ∧
      RunGeometry e.settings .horizontal v bounds (cells.zip
        [⟨.finite 29, .finite 1, .finite 10, .finite 10⟩,
          ⟨.finite 42, .finite 0, .finite 30, .finite 20⟩]) := by
  have hleaves : ∀ low ∈ ((empty.run centeredRow).below ⟨0, 1⟩).ids,
      ∀ v ∈ (empty.run centeredRow).get? low, v.children = [] := by decide +kernel
  have hrow : ∀ v ∈ (empty.run centeredRow).get? ⟨0, 1⟩,
      v.constraints.cells = .normal ∧ v.children ≠ [] := by decide +kernel
  obtain ⟨v, hv⟩ : ∃ v, (empty.run centeredRow).get? ⟨0, 1⟩ = some v := ⟨_, rfl⟩
  have hplaces : ((Engine.pass ⟨⟨.finite (1 / 100), 32, false⟩, .stored⟩
      (empty.run centeredRow)).childPlacements .horizontal ⟨0, 1⟩
        ⟨.finite 100, .finite 20⟩).outcome = .ok
      [(⟨1, 1⟩, ⟨.finite 29, .finite 1, .finite 10, .finite 10⟩),
        (⟨2, 1⟩, ⟨.finite 42, .finite 0, .finite 30, .finite 20⟩)] := by decide +kernel
  obtain ⟨cells, hids, -, -, hgeometry⟩ := geometry_run centeredRow
    ⟨⟨.finite (1 / 100), 32, false⟩, .stored⟩ (by decide +kernel) (by decide) rfl hv (hrow v hv).1
    (hrow v hv).2 (fun low hlow w hw _ child hchild => by
      rw [hleaves low hlow w hw] at hchild
      nomatch hchild) (fun axis => by cases axis <;> rfl) hplaces
  exact ⟨v, cells, hv, hids, hgeometry⟩

end BoxLayout
