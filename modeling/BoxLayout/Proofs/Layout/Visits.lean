import Mathlib
import BoxLayout.Proofs.Layout.Bounds
import BoxLayout.Proofs.Layout.Writes
import BoxLayout.Proofs.ViewTree.Run

/-!
# What a visit decides

A visit succeeds just if the view is there, the rectangle it is allotted is one and its children can
be measured. It then gives every child a place, in the order of the children, and each place is one
that the child admits.

* **`Forest.cells_of_ok`** — the measured views of a forest are its first level, as the tree holds
  them, with natural sizes within their bounds.
* **`Pass.placements_of_ok`** — places go to the children in order, and each child admits its own.
* **`Pass.visit_eq_ok_iff`**, **`Forest.arrange_of_ok`** — what a visit and a whole pass that succeed
  have done.
* **`Forest.map_fst_writes`** — a pass that succeeds writes the frame of every view of the shape.
-/

namespace BoxLayout

open ViewTree

variable {α : Type} [Scalar α]

/-! ## Order -/

/-- A stack keeps the order of the children it packs. -/
theorem Stack.map_fst_pack (axis : Axis) (container : View α) (bounds : Size α) (position : α)
    (shares : List (Cell α × α)) :
    (pack axis container bounds position shares).map Prod.fst =
      shares.map fun share => share.1.id := by
  induction shares generalizing position with
  | nil => rfl
  | cons share shares ih => exact congrArg (List.cons share.1.id) (ih _)

/-- A container keeps the order of its children and leaves none out. -/
theorem Container.map_fst_place (kind : Container) (settings : Settings α) (view : View α)
    (cells : List (Cell α)) (bounds : Size α) :
    (kind.place settings view cells bounds).map Prod.fst = cells.map Cell.id := by
  unfold place
  split
  case h_1 axis _ =>
    -- every child has a share, so pairing them drops none
    have hlength : cells.length ≤
        (Stack.distribution settings axis view cells bounds).sizes.length := by
      rw [Stack.distribution, length_sizes_distribute, List.length_map]
    unfold Stack.place
    rw [Stack.map_fst_pack]
    conv_rhs => rw [← List.map_fst_zip hlength, List.map_map]
    rfl
  case h_2 =>
    unfold Overlay.place
    rw [List.map_map]
    rfl

/-! ## Measuring -/

/-- A natural size is a raw size, adjusted and brought within the bounds of the record. -/
theorem Pass.naturalSize_eq_ok_iff {p : Pass α} {id : ViewId} {v : View α}
    {measureChildren : Size α → Logged α (List (Cell α))} {proposed natural : Size α} :
    (p.naturalSize id v measureChildren proposed).outcome = .ok natural ↔
      ∃ raw, (p.rawSize id v measureChildren proposed).outcome = .ok raw ∧
        natural = v.constraints.clamp (raw + v.constraints.adjustment) := by
  unfold naturalSize
  simp only [Logged.outcome_bind, Logged.outcome_report, Logged.outcome_pure]
  refine Except.bind_eq_ok_iff.trans (exists_congr fun raw => and_congr_right fun _ => ?_)
  exact Except.ok_eq_ok_iff

/-- A view that does not count asks for nothing, and its children are not measured. -/
theorem Pass.rawSize_of_ignored {p : Pass α} {id : ViewId} {v : View α}
    {measureChildren : Size α → Logged α (List (Cell α))} {s : Size α}
    (hignore : v.constraints.ignoreNatural = true) :
    (p.rawSize id v measureChildren s).outcome = .ok .zero := by
  unfold rawSize
  rw [if_pos hignore]
  rfl

/-- A view that counts and has no children asks for the size of its content, if that has one. -/
theorem Pass.rawSize_of_content {p : Pass α} (hm : p.measurer = .stored) {id : ViewId} {v : View α}
    {measureChildren : Size α → Logged α (List (Cell α))} {s : Size α}
    (hignore : v.constraints.ignoreNatural = false) (hchildren : v.hasChildren = false) :
    (p.rawSize id v measureChildren s).outcome = if v.contentSize.isExtent = true then
      .ok v.contentSize else .error (.invalidContent id v.contentSize.width v.contentSize.height) := by
  unfold rawSize
  rw [hignore, hchildren, if_neg Bool.false_ne_true, if_neg Bool.false_ne_true, hm]
  change Logged.outcome (if v.contentSize.isExtent = true then _ else _) = _
  cases v.contentSize.isExtent <;> rfl

/-- A view that counts and has children asks for what its container makes of them. -/
theorem Pass.rawSize_eq_ok_iff_of_children {p : Pass α} {id : ViewId} {v : View α}
    {measureChildren : Size α → Logged α (List (Cell α))} {s raw : Size α}
    (hignore : v.constraints.ignoreNatural = false) (hchildren : v.hasChildren = true) :
    (p.rawSize id v measureChildren s).outcome = .ok raw ↔ ∃ cells,
      (measureChildren s).outcome = .ok cells ∧ raw = v.container.naturalSize v cells := by
  unfold rawSize
  rw [hignore, if_neg Bool.false_ne_true, if_pos hchildren]
  simp only [Logged.outcome_bind, Logged.outcome_pure]
  refine Except.bind_eq_ok_iff.trans (exists_congr fun cells => and_congr_right fun _ => ?_)
  exact Except.ok_eq_ok_iff

/-- The natural size of a view comes from its children, or else it has been checked. -/
theorem Pass.rawSize_of_ok [Scalar.Rounded α] {p : Pass α} {id : ViewId} {v : View α}
    {measureChildren : Size α → Logged α (List (Cell α))} {s raw : Size α}
    (hok : (p.rawSize id v measureChildren s).outcome = .ok raw) :
    raw.isExtent = true ∨ v.hasChildren = true ∧ ∃ cells,
      (measureChildren s).outcome = .ok cells ∧ raw = v.container.naturalSize v cells := by
  unfold rawSize at hok
  split_ifs at hok with hignore hchildren
  · -- ignored: zero is an extent
    obtain rfl := Except.ok.inj hok
    exact Or.inl (Size.isExtent_iff.mpr fun axis => (Size.along_zero (α := α) axis).symm ▸
      Scalar.zero_isExtent)
  · -- children: the container adds them up
    simp only [Logged.outcome_bind, Logged.outcome_pure] at hok
    obtain ⟨cells, hcells, heq⟩ := Except.bind_eq_ok_iff.mp hok
    exact Or.inr ⟨hchildren, cells, hcells, (Except.ok.inj heq).symm⟩
  · -- content: it has been checked
    dsimp only at hok
    split_ifs at hok with hextent
    · obtain rfl := Except.ok.inj hok
      exact Or.inl hextent
    · nomatch hok

theorem Pass.childrenSize_eq_ok_iff {p : Pass α} {kind : Container} {id : ViewId} {s raw : Size α} :
    (p.childrenSize kind id s).outcome = .ok raw ↔ ∃ v, p.tree.get? id = some v ∧
      ∃ cells, (p.cells id s).outcome = .ok cells ∧ raw = kind.naturalSize v cells := by
  unfold childrenSize node
  simp only [Logged.outcome_bind, Logged.outcome_ofAttempt, Logged.outcome_pure]
  refine Except.bind_eq_ok_iff.trans (exists_congr fun v => and_congr node_eq_ok_iff ?_)
  refine Except.bind_eq_ok_iff.trans (exists_congr fun cells => and_congr_right fun _ => ?_)
  exact Except.ok_eq_ok_iff

theorem Pass.measure_eq_ok_iff {p : Pass α} {id : ViewId} {s natural : Size α} :
    (p.measure id s).outcome = .ok natural ↔ ∃ v, p.tree.get? id = some v ∧
      (p.naturalSize id v (p.cells id) s).outcome = .ok natural := by
  unfold measure node
  simp only [Logged.outcome_bind, Logged.outcome_ofAttempt]
  exact Except.bind_eq_ok_iff.trans (exists_congr fun v => and_congr node_eq_ok_iff Iff.rfl)

/-- The views of the first level. -/
def Forest.tops : Forest → List ViewId
  | empty => []
  | view id _ rest => id :: rest.tops

omit [Scalar α] in
theorem ViewTree.Unfolds.tops_eq {t : ViewTree α} {ids : List ViewId} {f : Forest}
    (hf : Unfolds t ids f) : f.tops = ids := by
  induction hf with
  | nil => rfl
  | cons _ _ _ ihr => exact congrArg (List.cons _) ihr

/-- A shape is measured just if its first view, what is below it and the rest all are. -/
theorem Forest.cells_view_eq_ok_iff {p : Pass α} {id : ViewId} {children rest : Forest}
    {proposed : Size α} {cells : List (Cell α)} :
    ((Forest.view id children rest).cells p proposed).outcome = .ok cells ↔
      ∃ v, p.tree.get? id = some v ∧ ∃ natural,
        (p.naturalSize id v (children.cells p) (proposed.deflate v.margins)).outcome = .ok natural ∧
        ∃ others, (rest.cells p proposed).outcome = .ok others ∧
          cells = ⟨id, v, natural⟩ :: others := by
  conv_lhs => unfold Forest.cells Pass.node
  simp only [Logged.outcome_bind, Logged.outcome_ofAttempt, Logged.outcome_pure]
  refine Except.bind_eq_ok_iff.trans (exists_congr fun v => and_congr node_eq_ok_iff ?_)
  refine Except.bind_eq_ok_iff.trans (exists_congr fun natural => and_congr_right fun _ => ?_)
  refine Except.bind_eq_ok_iff.trans (exists_congr fun others => and_congr_right fun _ => ?_)
  exact Except.ok_eq_ok_iff

/-- The measured views of a shape are its first level, as the tree holds them. -/
theorem Forest.cells_eq_ok {p : Pass α} {f : Forest} {proposed : Size α} {cells : List (Cell α)}
    (hok : (f.cells p proposed).outcome = .ok cells) :
    cells.map Cell.id = f.tops ∧ ∀ c ∈ cells, p.tree.get? c.id = some c.view ∧
      ∃ size, c.natural = c.constraints.clamp size := by
  induction f generalizing cells with
  | empty =>
    obtain rfl := Except.ok.inj hok
    exact ⟨rfl, fun _ hc => absurd hc List.not_mem_nil⟩
  | view id children rest _ ihr =>
    obtain ⟨v, hv, natural, hnatural, others, hothers, rfl⟩ := Forest.cells_view_eq_ok_iff.mp hok
    obtain ⟨hids, hcells⟩ := ihr hothers
    refine ⟨congrArg (List.cons id) hids, fun c hc => ?_⟩
    -- the view itself, measured at this step, or one of those after it
    rcases List.mem_cons.mp hc with rfl | hc
    · obtain ⟨raw, -, heq⟩ := Pass.naturalSize_eq_ok_iff.mp hnatural
      exact ⟨hv, _, heq⟩
    · exact hcells c hc

/-- The measured views of a forest are its first level, as the tree holds them. -/
theorem Forest.cells_of_ok {p : Pass α} {t : ViewTree α} {ids : List ViewId} {f : Forest}
    (hf : Unfolds t ids f) {proposed : Size α} {cells : List (Cell α)}
    (hok : (f.cells p proposed).outcome = .ok cells) :
    cells.map Cell.id = ids ∧ ∀ c ∈ cells, p.tree.get? c.id = some c.view ∧
      ∃ size, c.natural = c.constraints.clamp size :=
  hf.tops_eq ▸ Forest.cells_eq_ok hok

/-- In a tree with valid records, measured views keep to their bounds. -/
theorem Forest.proper_cells [Scalar.Rounded α] {p : Pass α} (hvalid : p.tree.ValidRecords)
    {f : Forest} {proposed : Size α} {cells : List (Cell α)}
    (hok : (f.cells p proposed).outcome = .ok cells) : ∀ c ∈ cells, c.Proper := by
  intro c hc
  obtain ⟨hget, size, hnatural⟩ := (Forest.cells_eq_ok hok).2 c hc
  have hrecord : c.constraints.Valid := hvalid c.id c.view hget
  refine ⟨hrecord, fun axis => ?_⟩
  -- a natural size has been clamped last, so it keeps to the bounds whatever came before
  rw [hnatural, Constraints.along_clamp]
  exact hrecord.clampAlong_mem axis _

/-! ## Visiting -/

/-- Places are what the container makes of children that have all been measured. -/
theorem Pass.placements_eq_ok_iff {p : Pass α} {kind : Container} {v : View α} {children : Forest}
    {bounds : Size α} {placements : List (Placement α)} :
    (p.placements kind v children bounds).outcome = .ok placements ↔
      ∃ cells, (children.cells p bounds).outcome = .ok cells ∧
        placements = kind.place p.settings v cells bounds := by
  unfold Pass.placements
  simp only [Logged.outcome_bind, Logged.outcome_report, Logged.outcome_pure]
  refine Except.bind_eq_ok_iff.trans (exists_congr fun cells => and_congr_right fun _ => ?_)
  exact Except.ok_eq_ok_iff

theorem Pass.childPlacements_eq_ok_iff {p : Pass α} {kind : Container} {id : ViewId} {bounds : Size α}
    {placements : List (Placement α)} :
    (p.childPlacements kind id bounds).outcome = .ok placements ↔ ∃ v, p.tree.get? id = some v ∧
      (p.placements kind v (p.tree.below id) bounds).outcome = .ok placements := by
  unfold childPlacements node
  simp only [Logged.outcome_bind, Logged.outcome_ofAttempt]
  exact Except.bind_eq_ok_iff.trans (exists_congr fun v => and_congr node_eq_ok_iff Iff.rfl)

/-- An allotted rectangle passes the checks of a visit just if both extents are some. -/
theorem checkedExtent_eq_ok_iff {id : ViewId} {axis : Axis} {x y : α} :
    checkedExtent id axis x = .ok y ↔ Scalar.isExtent x = true ∧ x = y := by
  unfold checkedExtent
  split_ifs with h <;> simp [h]

/-- **When a visit succeeds, and what it decides then.** -/
theorem Pass.visit_eq_ok_iff {p : Pass α} {id : ViewId} {children : Forest} {allotted : Rect α}
    {visit : Visit α} :
    (p.visit id children allotted).outcome = .ok visit ↔
      ∃ v, p.tree.get? id = some v ∧ allotted.size.isExtent = true ∧
        visit.frame = .ofOriginSize allotted.origin (v.constraints.clamp allotted.size) ∧
        (p.placements v.container v children visit.frame.size).outcome = .ok visit.placements := by
  unfold Pass.visit Pass.node
  simp only [Logged.outcome_bind, Logged.outcome_ofAttempt, Logged.outcome_report,
    Logged.outcome_pure]
  constructor
  · intro h
    -- the checks in the order of the visit: the view, its width, its height, its children
    obtain ⟨v, hv, h⟩ := Except.bind_eq_ok_iff.mp h
    obtain ⟨width, hwidth, h⟩ := Except.bind_eq_ok_iff.mp h
    obtain ⟨height, hheight, h⟩ := Except.bind_eq_ok_iff.mp h
    obtain ⟨placements, hplacements, h⟩ := Except.bind_eq_ok_iff.mp h
    obtain ⟨hw, rfl⟩ := checkedExtent_eq_ok_iff.mp hwidth
    obtain ⟨hh, rfl⟩ := checkedExtent_eq_ok_iff.mp hheight
    obtain rfl := Except.ok.inj h
    exact ⟨v, node_eq_ok_iff.mp hv, Bool.and_eq_true_iff.mpr ⟨hw, hh⟩, rfl, hplacements⟩
  · rintro ⟨v, hv, hextent, hframe, hplacements⟩
    obtain ⟨hw, hh⟩ := Bool.and_eq_true_iff.mp hextent
    obtain ⟨frame, placements⟩ := visit
    obtain rfl := hframe
    refine Except.bind_eq_ok_iff.mpr ⟨v, node_eq_ok_iff.mpr hv, ?_⟩
    refine Except.bind_eq_ok_iff.mpr ⟨_, checkedExtent_eq_ok_iff.mpr ⟨hw, rfl⟩, ?_⟩
    refine Except.bind_eq_ok_iff.mpr ⟨_, checkedExtent_eq_ok_iff.mpr ⟨hh, rfl⟩, ?_⟩
    exact Except.bind_eq_ok_iff.mpr ⟨placements, hplacements, rfl⟩

/-- Places go to the views of the first level, in order. -/
theorem Pass.map_fst_placements {p : Pass α} {kind : Container} {v : View α} {children : Forest}
    {bounds : Size α} {placements : List (Placement α)}
    (hok : (p.placements kind v children bounds).outcome = .ok placements) :
    placements.map Prod.fst = children.tops := by
  obtain ⟨cells, hcells, rfl⟩ := Pass.placements_eq_ok_iff.mp hok
  exact (kind.map_fst_place _ _ _ _).trans (Forest.cells_eq_ok hcells).1

theorem Pass.map_fst_visit {p : Pass α} {id : ViewId} {children : Forest} {allotted : Rect α}
    {visit : Visit α} (hok : (p.visit id children allotted).outcome = .ok visit) :
    visit.placements.map Prod.fst = children.tops := by
  obtain ⟨v, -, -, -, hplacements⟩ := Pass.visit_eq_ok_iff.mp hok
  exact Pass.map_fst_placements hplacements

/-- Places go to the children in order, and each child admits its own. -/
theorem Pass.placements_of_ok [Scalar.Rounded α] {p : Pass α} (hvalid : p.tree.ValidRecords)
    (hepsilon : ¬ p.settings.epsilon < Scalar.zero) {ids : List ViewId} {children : Forest}
    (hf : Unfolds p.tree ids children) {kind : Container} {v : View α} {bounds : Size α}
    {placements : List (Placement α)}
    (hok : (p.placements kind v children bounds).outcome = .ok placements) :
    placements.map Prod.fst = ids ∧ ∀ place ∈ placements,
      ∃ w, p.tree.get? place.1 = some w ∧ w.constraints.Admits place.2.size := by
  obtain ⟨cells, hcells, rfl⟩ := Pass.placements_eq_ok_iff.mp hok
  -- what the container was given are the children as the tree holds them
  obtain ⟨hids, hviews⟩ := Forest.cells_of_ok hf hcells
  refine ⟨(kind.map_fst_place _ _ _ _).trans hids, fun place hplace => ?_⟩
  obtain ⟨c, hc, hid, hadmits⟩ :=
    Container.admits_place hepsilon (Forest.proper_cells hvalid hcells) hplace
  exact ⟨c.view, hid ▸ (hviews c hc).1, hadmits⟩

/-! ## Whole passes -/

section

variable {β γ : Type}

omit [Scalar α] in
/-- Two stages in a row succeed just if the first does, and the second on the tree it leaves. -/
theorem Arranged.andThen_eq_ok_iff {x : Arranged α β} {next : β → ViewTree α → Arranged α γ}
    {c : γ} : (x.andThen next).result.outcome = .ok c ↔
      ∃ b, x.result.outcome = .ok b ∧ (next b x.tree).result.outcome = .ok c := by
  unfold andThen
  cases x.result.outcome <;> simp

omit [Scalar α] in
theorem Arranged.tree_andThen {x : Arranged α β} {next : β → ViewTree α → Arranged α γ} {b : β}
    (h : x.result.outcome = .ok b) : (x.andThen next).tree = (next b x.tree).tree := by
  unfold andThen
  rw [h]

end

/-- A pass over a view and the views after it that succeeds is a visit that does, a pass over the
children in their places and a pass over the rest. -/
theorem Forest.arrange_of_ok {e : Engine α} {id other : ViewId} {children rest : Forest}
    {allotted : Rect α} {placements : List (Placement α)} {t : ViewTree α}
    (hok : ((Forest.view id children rest).arrange e ((other, allotted) :: placements)
      t).result.outcome = .ok ()) :
    ∃ (visit : Visit α) (below : ViewTree α),
      ((e.pass t).visit id children allotted).outcome = .ok visit ∧
        (children.arrange e visit.placements (t.setFrame id visit.frame)).result.outcome = .ok () ∧
        (children.arrange e visit.placements (t.setFrame id visit.frame)).tree = below ∧
        (rest.arrange e placements below).result.outcome = .ok () ∧
        ((Forest.view id children rest).arrange e ((other, allotted) :: placements) t).tree =
          (rest.arrange e placements below).tree := by
  rw [arrange] at hok
  obtain ⟨visit, hvisit, hok⟩ := Arranged.andThen_eq_ok_iff.mp hok
  obtain ⟨_, hbelow, hrest⟩ := Arranged.andThen_eq_ok_iff.mp hok
  refine ⟨visit, _, hvisit, hbelow, rfl, hrest, ?_⟩
  rw [arrange, Arranged.tree_andThen hvisit, Arranged.tree_andThen hbelow]

/-- **A pass that succeeds writes the frame of every view of the shape**, in the order of the shape. -/
theorem Forest.map_fst_writes {e : Engine α} {f : Forest} {placements : List (Placement α)}
    {t : ViewTree α} (htops : placements.map Prod.fst = f.tops)
    (hok : (f.arrange e placements t).result.outcome = .ok ()) :
    (f.writes e placements t).map Prod.fst = f.ids := by
  induction f generalizing placements t with
  | empty => rfl
  | view id children rest ihc ihr =>
    cases placements with
    | nil => nomatch htops
    | cons placement placements =>
      obtain ⟨visit, below, hvisit, hbelow, rfl, hrest, -⟩ := Forest.arrange_of_ok hok
      -- the children have the places that the visit gave them, the rest those that were left
      have hchildren := ihc (Pass.map_fst_visit hvisit) hbelow
      have hothers := ihr (List.cons.inj htops).2 hrest
      unfold writes
      rw [hvisit]
      dsimp only
      rw [hbelow]
      simp only [List.map_cons, List.map_append, hchildren, hothers, ids]

/-- A pass that succeeds has found every view of the shape. -/
theorem Forest.live_of_ok {e : Engine α} {f : Forest} {placements : List (Placement α)}
    {t : ViewTree α} (htops : placements.map Prod.fst = f.tops)
    (hok : (f.arrange e placements t).result.outcome = .ok ()) {low : ViewId} (hlow : low ∈ f.ids) :
    (t.get? low).isSome = true := by
  induction f generalizing placements t with
  | empty => nomatch hlow
  | view id children rest ihc ihr =>
    cases placements with
    | nil => nomatch htops
    | cons placement placements =>
      obtain ⟨visit, below, hvisit, hbelow, rfl, hrest, -⟩ := Forest.arrange_of_ok hok
      have hset := (SameButFrames.refl t).setFrame id visit.frame
      rw [ids, List.mem_cons, List.mem_append] at hlow
      rcases hlow with rfl | hlow | hlow
      · obtain ⟨v, hv, -⟩ := Pass.visit_eq_ok_iff.mp hvisit
        exact Option.isSome_iff_exists.mpr ⟨v, hv⟩
      · rw [hset.isSome_eq]
        exact ihc (Pass.map_fst_visit hvisit) hbelow hlow
      · rw [(Forest.sameButFrames_arrange hset).isSome_eq]
        exact ihr (List.cons.inj htops).2 hrest hlow

end BoxLayout
