import BoxLayout.Proofs.Layout.Alike
import BoxLayout.Proofs.Layout.Visits

/-!
# Passes over like trees

Two passes go over two trees that have like views under the same ids. The passes write frames as
they go, each into its own tree, and a frame is nothing that views are compared by; so the trees
stay alike whatever is written, and the two runs stay in step until both end or both fail.

## The architecture

* **`LayoutError.Alike`**, **`Attempt.Alike`** — refusals for the same reason at the same view, and
  outcomes that are both values or both such refusals.
* **`RunsAlike`** — two engines with their trees; `RunsAlike.setFrame` is the
  invariant: writing frames keeps them alike.
* **`Forest.cells_alike`**, **`visit_alike`** — measuring and visiting, by the recursion on the
  shape that both trees have.
* **`outcome_arrange_alike`**, **`writes_alike`** — whole passes: like outcomes, and like frames written
  in one order.
* **`Forest.frames_alike`**, **`Forest.frames_below_alike`** — on success, like frames at every view
  of the shape; and below the start, wherever the start itself goes.
-/

namespace BoxLayout

variable {α : Type}

/-! ## Outcomes -/

/-- Refusals for the same reason at the same view. With the axes swapped the first of two bad extents
is another one, so what the refusal says of an extent is compared only where the axes are kept. -/
inductive LayoutError.Alike [Scalar α] (K : Comparison α) :
    LayoutError ViewId α → LayoutError ViewId α → Prop
  | extent {view : ViewId} {axis axis' : String} {value value' : α}
      (kept : (∀ a, K.turn a = a) → axis = axis' ∧ K.like value value') :
      Alike K (.invalidExtent view axis value) (.invalidExtent view axis' value')
  | content {view : ViewId} {size size' : Size α} (content : size.Alike K size') :
      Alike K (.invalidContent view size.width size.height)
        (.invalidContent view size'.width size'.height)
  | same (error : LayoutError ViewId α) : Alike K error error

/-- Two values that are related, or two refusals that are alike. -/
inductive Attempt.Alike [Scalar α] (K : Comparison α) {β γ : Type} (R : β → γ → Prop) :
    Attempt α β → Attempt α γ → Prop
  | ok {b : β} {c : γ} (related : R b c) : Alike K R (.ok b) (.ok c)
  | error {e e' : LayoutError ViewId α} (alike : e.Alike K e') : Alike K R (.error e) (.error e')

variable [Scalar α] {K : Comparison α}

/-- Stages that go alike after stages that went alike. -/
theorem Attempt.Alike.bind {β γ β' γ' : Type} {R : β → γ → Prop} {S : β' → γ' → Prop}
    {x : Attempt α β} {y : Attempt α γ} {f : β → Attempt α β'} {g : γ → Attempt α γ'}
    (hxy : Attempt.Alike K R x y) (hfg : ∀ b c, R b c → Attempt.Alike K S (f b) (g c)) :
    Attempt.Alike K S (x.bind f) (y.bind g) := by
  cases hxy with
  | ok hbc => exact hfg _ _ hbc
  -- the later stages are not reached in either run
  | error hee => exact .error hee

/-! ## Trees -/

/-- A view with its content is alike in two runs, whatever frames these have given it. -/
structure ViewAlike (K : Comparison α) (e e' : Engine α) (id : ViewId) (v v' : View α) : Prop where
  view : v.Alike K v'
  content : ∀ (frame frame' : Rect α) {proposed proposed' : Size α},
    proposed.Alike K proposed' → (e.measurer id { v with frame } proposed).Alike K
      (e'.measurer id { v' with frame := frame' } proposed')

/-- Two engines go over two trees of like views. -/
structure RunsAlike (K : Comparison α) (e : Engine α) (t : ViewTree α) (e' : Engine α)
    (t' : ViewTree α) : Prop where
  views : ∀ id, Option.Rel (ViewAlike K e e' id) (t.get? id) (t'.get? id)
  epsilon : e.settings.epsilon = e'.settings.epsilon
  maxPasses : e.settings.maxPasses = e'.settings.maxPasses

section

variable {e e' : Engine α} {t t' : ViewTree α}

/-- Frames are nothing that views are compared by. -/
theorem View.Alike.reframe {v v' : View α} (h : v.Alike K v') (frame frame' : Rect α) :
    View.Alike K { v with frame } { v' with frame := frame' } :=
  ⟨h.constraints, h.container, h.contentSize, h.declaredOrigin, h.children⟩

/-- **Trees stay alike whatever frames are written into each of them.** -/
theorem RunsAlike.congr (h : RunsAlike K e t e' t') {s s' : ViewTree α} (hs : t.SameButFrames s)
    (hs' : t'.SameButFrames s') : RunsAlike K e s e' s' where
  views id := by
    have hviews := h.views id
    rcases hs.get?_cases id with ⟨ht, hr⟩ | ⟨v, frame, ht, hr⟩ <;>
      rcases hs'.get?_cases id with ⟨ht', hr'⟩ | ⟨v', frame', ht', hr'⟩ <;>
      rw [ht, ht'] at hviews <;> rw [hr, hr']
    case inl.inl => exact .none
    -- there in both trees, each with some other frame
    case inr.inr =>
      cases hviews with
      | some hview =>
        exact .some ⟨hview.view.reframe frame frame', fun _ _ _ _ hproposed =>
          hview.content _ _ hproposed⟩
    -- there in one tree and not in the other: not so before the frames were written either
    all_goals nomatch hviews
  epsilon := h.epsilon
  maxPasses := h.maxPasses

theorem RunsAlike.setFrame (h : RunsAlike K e t e' t') (id id' : ViewId) (frame frame' : Rect α) :
    RunsAlike K e (t.setFrame id frame) e' (t'.setFrame id' frame') :=
  h.congr ((ViewTree.SameButFrames.refl t).setFrame id frame)
    ((ViewTree.SameButFrames.refl t').setFrame id' frame')

theorem RunsAlike.arrange (h : RunsAlike K e t e' t') (f : Forest)
    (placements placements' : List (Placement α)) :
    RunsAlike K e (f.arrange e placements t).tree e' (f.arrange e' placements' t').tree :=
  h.congr (Forest.sameButFrames_arrange (.refl t)) (Forest.sameButFrames_arrange (.refl t'))

/-- A view is found in both trees or in neither. -/
theorem RunsAlike.node (h : RunsAlike K e t e' t') (id : ViewId) :
    Attempt.Alike K (ViewAlike K e e' id) (t.node id) (t'.node id) := by
  have hviews := h.views id
  unfold ViewTree.node
  generalize t.get? id = v at hviews ⊢
  generalize t'.get? id = v' at hviews ⊢
  cases hviews with
  | none => exact .error (.same _)
  | some hview => exact .ok hview

/-! ## Measuring -/

namespace Pass

variable {id : ViewId} {v v' : View α} {mc mc' : Size α → Logged α (List (Cell α))}
  {proposed proposed' : Size α}

/-- Natural sizes before any adjustment: nothing, the children together, or the content, the same in both
runs. -/
theorem rawSize_alike (hview : ViewAlike K e e' id v v')
    (hcells : ∀ {s s' : Size α}, s.Alike K s' →
      Attempt.Alike K (List.Forall₂ (Cell.Alike K)) (mc s).outcome (mc' s').outcome)
    (hproposed : proposed.Alike K proposed') :
    Attempt.Alike K (Size.Alike K) ((e.pass t).rawSize id v mc proposed).outcome
      ((e'.pass t').rawSize id v' mc' proposed').outcome := by
  have hchildren : v.hasChildren = v'.hasChildren := by
    rw [View.hasChildren, View.hasChildren, hview.view.children]
  have hcontent : ((e.pass t).measurer id v proposed).Alike K
      ((e'.pass t').measurer id v' proposed') := hview.content v.frame v'.frame hproposed
  unfold rawSize
  rw [hview.view.constraints.ignoreNatural, hchildren]
  dsimp only
  rw [hcontent.isExtent_eq]
  split_ifs
  · exact .ok Size.zero_alike
  · rw [Logged.outcome_bind, Logged.outcome_bind]
    exact (hcells hproposed).bind fun cells cells' h =>
      .ok (Container.naturalSize_alike hview.view.container hview.view h)
  · exact .ok hcontent
  · -- content that is no extent, refused alike
    exact .error (.content hcontent)

theorem naturalSize_alike (hview : ViewAlike K e e' id v v')
    (hcells : ∀ {s s' : Size α}, s.Alike K s' →
      Attempt.Alike K (List.Forall₂ (Cell.Alike K)) (mc s).outcome (mc' s').outcome)
    (hproposed : proposed.Alike K proposed') :
    Attempt.Alike K (Size.Alike K) ((e.pass t).naturalSize id v mc proposed).outcome
      ((e'.pass t').naturalSize id v' mc' proposed').outcome := by
  unfold naturalSize
  simp only [Logged.outcome_bind, Logged.outcome_report, Logged.outcome_pure]
  refine (rawSize_alike hview hcells hproposed).bind fun raw raw' hraw => .ok ?_
  exact hview.view.constraints.clamp (hraw.add hview.view.constraints.adjustment)

end Pass

/-- **A shape is measured alike in both trees.** Induction on the shape: the children of a view come
first, then the views after it. -/
theorem Forest.cells_alike (h : RunsAlike K e t e' t') (f : Forest) {proposed proposed' : Size α}
    (hproposed : proposed.Alike K proposed') :
    Attempt.Alike K (List.Forall₂ (Cell.Alike K)) (f.cells (e.pass t) proposed).outcome
      (f.cells (e'.pass t') proposed').outcome := by
  induction f generalizing proposed proposed' with
  | empty => exact .ok .nil
  | view id children rest ihc ihr =>
    unfold cells Pass.node
    simp only [Logged.outcome_bind, Logged.outcome_ofAttempt, Logged.outcome_pure]
    refine (h.node id).bind fun v v' hview => ?_
    have hdeflated := hproposed.deflate hview.view.constraints.margins
    refine (Pass.naturalSize_alike hview ihc hdeflated).bind fun natural natural' hnatural => ?_
    refine (ihr hproposed).bind fun others others' hothers => ?_
    exact .ok (.cons ⟨rfl, hview.view, hnatural⟩ hothers)

/-- **Two trees in which the same shape lies below a view measure the view alike.** -/
theorem Engine.measure_alike (h : RunsAlike K e t e' t') {id : ViewId}
    (hbelow : t.below id = t'.below id) {proposed proposed' : Size α}
    (hproposed : proposed.Alike K proposed') :
    Attempt.Alike K (Size.Alike K) (e.measure t id proposed).outcome
      (e'.measure t' id proposed').outcome := by
  unfold measure Pass.measure Pass.node
  simp only [Logged.outcome_bind, Logged.outcome_ofAttempt]
  refine (h.node id).bind fun v v' hview => Pass.naturalSize_alike hview (fun hs => ?_) hproposed
  have hcells := Forest.cells_alike h (t.below id) hs
  unfold Pass.cells
  rwa [show (e'.pass t').tree.below id = t.below id from hbelow.symm]

/-! ## Visiting -/

/-- The two checks of a visit. -/
def checkedSize (id : ViewId) (allotted : Rect α) : Attempt α (Size α) :=
  (checkedExtent id .horizontal allotted.width).bind fun width =>
    (checkedExtent id .vertical allotted.height).bind fun height => .ok ⟨width, height⟩

/-- The checks go through the axes in one order, so with the axes swapped another one of two bad
extents is refused, but the same view. -/
theorem checkedSize_alike (id : ViewId) {allotted allotted' : Rect α}
    (hsize : allotted.size.Alike K allotted'.size) :
    Attempt.Alike K (Size.Alike K) (checkedSize id allotted) (checkedSize id allotted') := by
  have hwidth := hsize .horizontal
  have hheight := hsize .vertical
  unfold checkedSize checkedExtent
  rcases K.turn_cases with hturn | hturn <;> rw [hturn] at hwidth hheight
  · have hw : Scalar.isExtent allotted.width = Scalar.isExtent allotted'.width :=
      K.isExtent_eq hwidth
    have hh : Scalar.isExtent allotted.height = Scalar.isExtent allotted'.height :=
      K.isExtent_eq hheight
    rw [hw, hh]
    -- the width is looked at first in both runs
    cases Scalar.isExtent allotted'.width with
    | false => exact .error (.extent fun _ => ⟨rfl, hwidth⟩)
    | true =>
      cases Scalar.isExtent allotted'.height with
      | false => exact .error (.extent fun _ => ⟨rfl, hheight⟩)
      | true => exact .ok hsize
  · -- with the axes swapped the width of one answers to the height of the other
    have hw : Scalar.isExtent allotted.width = Scalar.isExtent allotted'.height :=
      K.isExtent_eq hwidth
    have hh : Scalar.isExtent allotted.height = Scalar.isExtent allotted'.width :=
      K.isExtent_eq hheight
    have hnot : ¬ ∀ a, K.turn a = a := fun hkept => by
      have := (hkept .horizontal).symm.trans (hturn .horizontal)
      contradiction
    rw [hw, hh]
    cases Scalar.isExtent allotted'.width <;> cases Scalar.isExtent allotted'.height
    case true.true => exact .ok hsize
    all_goals exact .error (.extent fun hkept => absurd hkept hnot)

namespace Pass

/-- What a visit decides, without its log. -/
theorem outcome_visit (p : Pass α) (id : ViewId) (children : Forest) (allotted : Rect α) :
    (p.visit id children allotted).outcome =
      (p.tree.node id).bind fun v => (checkedSize id allotted).bind fun size =>
        (p.placements v.container v children (v.constraints.clamp size)).outcome.bind
          fun placements =>
            .ok ⟨.ofOriginSize allotted.origin (v.constraints.clamp size), placements⟩ := by
  unfold visit node checkedSize
  simp only [Logged.outcome_bind, Logged.outcome_ofAttempt, Logged.outcome_report,
    Logged.outcome_pure]
  congr 1
  funext v
  cases checkedExtent id .horizontal allotted.width with
  | error _ => rfl
  | ok width => cases checkedExtent id .vertical allotted.height <;> rfl

/-- Like containers give their children like places. -/
theorem placements_alike (hfair : K.Fair) (h : RunsAlike K e t e' t') {kind kind' : Container}
    (hkind : kind'.axis? = kind.axis?.map K.turn) {v v' : View α} (hview : v.Alike K v')
    (children : Forest) {bounds bounds' : Size α} (hbounds : bounds.Alike K bounds') :
    Attempt.Alike K (List.Forall₂ (PlacementAlike K))
      ((e.pass t).placements kind v children bounds).outcome
      ((e'.pass t').placements kind' v' children bounds').outcome := by
  unfold placements
  simp only [Logged.outcome_bind, Logged.outcome_report, Logged.outcome_pure]
  refine (Forest.cells_alike h children hbounds).bind fun cells cells' hcells => .ok ?_
  exact Container.place_alike hfair h.epsilon h.maxPasses hkind hview hcells hbounds

/-- **A visit decides alike in both trees.** The places of the children do not depend on where the
view itself goes. -/
theorem visit_alike (hfair : K.Fair) (h : RunsAlike K e t e' t') (id : ViewId) (children : Forest)
    {allotted allotted' : Rect α} (hsize : allotted.size.Alike K allotted'.size) :
    Attempt.Alike K
      (fun x y => (allotted.origin.Alike K allotted'.origin → x.frame.Alike K y.frame) ∧
        List.Forall₂ (PlacementAlike K) x.placements y.placements)
      ((e.pass t).visit id children allotted).outcome
      ((e'.pass t').visit id children allotted').outcome := by
  rw [outcome_visit, outcome_visit]
  refine (h.node id).bind fun v v' hview => ?_
  refine (checkedSize_alike id hsize).bind fun size size' hsize => ?_
  have hclamped := hview.view.constraints.clamp hsize
  refine (placements_alike hfair h hview.view.container hview.view children hclamped).bind ?_
  exact fun placements placements' hplacements =>
    .ok ⟨fun horigin => ⟨horigin, hclamped⟩, hplacements⟩

end Pass

/-! ## Whole passes -/

omit [Scalar α] in
/-- Two stages in a row end as the second one does, once the first has succeeded. -/
theorem Arranged.outcome_andThen {β γ : Type} (x : Arranged α β)
    (next : β → ViewTree α → Arranged α γ) : (x.andThen next).result.outcome =
      x.result.outcome.bind fun b => (next b x.tree).result.outcome := by
  unfold andThen
  cases x.result.outcome <;> rfl

namespace Forest

/-- **Two passes in step end alike**, wherever the places of the first level are. Induction on the
shape; the trees that the children leave are alike again. -/
theorem outcome_arrange_alike (hfair : K.Fair) (h : RunsAlike K e t e' t') (f : Forest)
    {placements placements' : List (Placement α)}
    (hplacements : List.Forall₂ (fun p p' => p.2.size.Alike K p'.2.size) placements placements') :
    Attempt.Alike K (fun _ _ => True) (f.arrange e placements t).result.outcome
      (f.arrange e' placements' t').result.outcome := by
  induction f generalizing placements placements' t t' with
  | empty => exact .ok trivial
  | view id children rest ihc ihr =>
    cases hplacements with
    | nil => exact .ok trivial
    | cons hplacement hplacements =>
      rw [arrange, arrange]
      simp only [Arranged.outcome_andThen]
      refine (Pass.visit_alike hfair h id children hplacement).bind ?_
      rintro visit visit' ⟨-, hbelow⟩
      have hset := h.setFrame id id visit.frame visit'.frame
      have hsizes := hbelow.imp fun _ _ hplace => hplace.frame.size
      exact (ihc hset hsizes).bind fun _ _ _ => ihr (hset.arrange _ _ _) hplacements

/-- **Two passes in step write like frames in one order.** -/
theorem writes_alike (hfair : K.Fair) (h : RunsAlike K e t e' t') (f : Forest)
    {placements placements' : List (Placement α)}
    (hplacements : List.Forall₂ (PlacementAlike K) placements placements') :
    List.Forall₂ (PlacementAlike K) (f.writes e placements t) (f.writes e' placements' t') := by
  induction f generalizing placements placements' t t' with
  | empty => exact .nil
  | view id children rest ihc ihr =>
    cases hplacements with
    | nil => exact .nil
    | @cons placement placement' _ _ hplacement hplacements =>
      have hvisit := Pass.visit_alike hfair h id children hplacement.frame.size
      rw [writes, writes]
      generalize ((e.pass t).visit id children placement.2).outcome = x at hvisit ⊢
      generalize ((e'.pass t').visit id children placement'.2).outcome = y at hvisit ⊢
      cases hvisit with
      | error _ => exact .nil
      | @ok visit visit' hrelated =>
        obtain ⟨hframe, hbelow⟩ := hrelated
        have hset := h.setFrame id id visit.frame visit'.frame
        -- the view itself, then what is below it, then the rest
        refine .cons ⟨rfl, hframe hplacement.frame.origin⟩ ?_
        refine List.rel_append (ihc hset hbelow) ?_
        -- both runs go on to the later trees, or neither does
        have hdone := outcome_arrange_alike hfair hset children
          (hbelow.imp fun _ _ hplace => hplace.frame.size)
        have hrest := ihr (hset.arrange children visit.placements visit'.placements) hplacements
        generalize (children.arrange e visit.placements _).result.outcome = z at hdone ⊢
        generalize (children.arrange e' visit'.placements _).result.outcome = z' at hdone ⊢
        cases hdone with
        | error _ => exact .nil
        | ok _ => exact hrest

end Forest

/-! ## The frames that are left -/

theorem map_fst_eq_of_alike {writes writes' : List (Placement α)}
    (h : List.Forall₂ (PlacementAlike K) writes writes') :
    writes.map Prod.fst = writes'.map Prod.fst := by
  rw [← List.forall₂_eq_eq_eq]
  exact List.rel_map (fun _ _ hw => PlacementAlike.id hw) h

/-- Views with like frames. -/
def FramesAlike (K : Comparison α) (t t' : ViewTree α) (id : ViewId) : Prop :=
  Option.Rel (fun v v' => v.frame.Alike K v'.frame) (t.get? id) (t'.get? id)

/-- A view that is in one of the trees is in the other one, with a like frame. -/
theorem FramesAlike.exists_views {s s' : ViewTree α} {id : ViewId} (h : FramesAlike K s s' id)
    (hlive : (s.get? id).isSome = true) :
    ∃ v v', s.get? id = some v ∧ s'.get? id = some v' ∧ v.frame.Alike K v'.frame := by
  unfold FramesAlike at h
  generalize s.get? id = x at h hlive ⊢
  generalize s'.get? id = y at h ⊢
  cases h with
  | none => nomatch hlive
  | some hframe => exact ⟨_, _, rfl, rfl, hframe⟩

/-- Where like frames are written, like frames are left: the last one written to a view counts. -/
theorem RunsAlike.frame_setFrames (h : RunsAlike K e t e' t') {writes writes' : List (Placement α)}
    (hwrites : List.Forall₂ (PlacementAlike K) writes writes') {id : ViewId}
    (hid : id ∈ writes.map Prod.fst) :
    FramesAlike K (t.setFrames writes) (t'.setFrames writes') id := by
  induction hwrites generalizing t t' with
  | nil => nomatch hid
  | @cons w w' writes writes' hw hrest ih =>
    show FramesAlike K ((t.setFrame w.1 w.2).setFrames writes)
      ((t'.setFrame w'.1 w'.2).setFrames writes') id
    have hset := h.setFrame w.1 w'.1 w.2 w'.2
    -- the last write to a view is the one that counts
    by_cases hmem : id ∈ writes.map Prod.fst
    · exact ih hset hmem
    · obtain rfl : id = w.1 := (List.mem_cons.mp hid).resolve_right hmem
      have hviews := h.views w.1
      unfold FramesAlike
      rw [ViewTree.get?_setFrames_of_notMem hmem,
        ViewTree.get?_setFrames_of_notMem (map_fst_eq_of_alike hrest ▸ hmem),
        ViewTree.get?_setFrame, ViewTree.get?_setFrame, hw.id]
      rw [hw.id] at hviews
      generalize t.get? w'.1 = v at hviews ⊢
      generalize t'.get? w'.1 = v' at hviews ⊢
      cases hviews with
      | none => exact .none
      | some _ =>
        refine .some ?_
        dsimp only
        rw [if_pos rfl, if_pos rfl]
        exact hw.frame

/-- **Passes in step that succeed leave like frames** at every view of the shape. -/
theorem Forest.frames_alike (hfair : K.Fair) (h : RunsAlike K e t e' t') {f : Forest}
    {placements placements' : List (Placement α)}
    (hplacements : List.Forall₂ (PlacementAlike K) placements placements')
    (htops : placements.map Prod.fst = f.tops)
    (hok : (f.arrange e placements t).result.outcome = .ok ()) {low : ViewId} (hlow : low ∈ f.ids) :
    FramesAlike K (f.arrange e placements t).tree (f.arrange e' placements' t').tree low := by
  rw [tree_arrange, tree_arrange]
  refine h.frame_setFrames (writes_alike hfair h f hplacements) ?_
  rwa [map_fst_writes htops hok]

/-- **The views below a start do not depend on where the start goes**, but on its size only. -/
theorem Forest.frames_below_alike (hfair : K.Fair) (h : RunsAlike K e t e' t') {id : ViewId}
    {children : Forest} {allotted allotted' : Rect α}
    (hsize : allotted.size.Alike K allotted'.size)
    (hok : ((view id children empty).arrange e [(id, allotted)] t).result.outcome = .ok ())
    (hok' : ((view id children empty).arrange e' [(id, allotted')] t').result.outcome = .ok ())
    {low : ViewId} (hlow : low ∈ children.ids) :
    FramesAlike K ((view id children empty).arrange e [(id, allotted)] t).tree
      ((view id children empty).arrange e' [(id, allotted')] t').tree low := by
  obtain ⟨visit, below, hvisit, hbelow, rfl, -, htree⟩ := Forest.arrange_of_ok hok
  obtain ⟨visit', below', hvisit', -, rfl, -, htree'⟩ := Forest.arrange_of_ok hok'
  -- only the sizes of the two starts are alike, and a visit places children by nothing else
  have halike := Pass.visit_alike hfair h id children hsize
  rw [hvisit, hvisit'] at halike
  cases halike with
  | ok hrelated =>
    rw [htree, htree']
    exact frames_alike hfair (h.setFrame id id visit.frame visit'.frame) hrelated.2
      (Pass.map_fst_visit hvisit) hbelow hlow

/-! ## From a start -/

namespace Engine

theorem outcome_arrange (e : Engine α) (t : ViewTree α) (id : ViewId) (allotted : Rect α) :
    (e.arrange t id allotted).result.outcome =
      ((t.forest [id]).arrange e [(id, allotted)] t).result.outcome := by
  rw [Engine.arrange, Arranged.outcome_andThen]
  rfl

variable {id : ViewId} {children : Forest} {allotted allotted' : Rect α}

theorem outcome_arrange_alike (hfair : K.Fair) (h : RunsAlike K e t e' t')
    (hshape : t'.forest [id] = t.forest [id]) (hsize : allotted.size.Alike K allotted'.size) :
    Attempt.Alike K (fun _ _ => True) (e.arrange t id allotted).result.outcome
      (e'.arrange t' id allotted').result.outcome := by
  rw [outcome_arrange, outcome_arrange, hshape]
  exact Forest.outcome_arrange_alike hfair h _ (.cons hsize .nil)

theorem frames_alike (hfair : K.Fair) (h : RunsAlike K e t e' t')
    (hshape : t'.forest [id] = t.forest [id]) (hallotted : allotted.Alike K allotted')
    (hok : (e.arrange t id allotted).result.outcome = .ok ()) {low : ViewId}
    (hlow : low ∈ (t.forest [id]).ids) :
    FramesAlike K (e.arrange t id allotted).tree (e'.arrange t' id allotted').tree low := by
  rw [outcome_arrange] at hok
  show FramesAlike K ((t.forest [id]).arrange e [(id, allotted)] t).tree
    ((t'.forest [id]).arrange e' [(id, allotted')] t').tree low
  have hplaces : List.Forall₂ (PlacementAlike K) [(id, allotted)] [(id, allotted')] :=
    .cons ⟨rfl, hallotted⟩ .nil
  rw [hshape]
  exact Forest.frames_alike hfair h hplaces rfl hok hlow

/-- Once a view has been arranged, all views of its shape are there. -/
theorem live_of_ok (hok : (e.arrange t id allotted).result.outcome = .ok ()) {low : ViewId}
    (hlow : low ∈ (t.forest [id]).ids) :
    ((e.arrange t id allotted).tree.get? low).isSome = true := by
  rw [outcome_arrange] at hok
  have hsame : t.SameButFrames (e.arrange t id allotted).tree :=
    Forest.sameButFrames_arrange (ViewTree.SameButFrames.refl t)
  rw [← hsame.isSome_eq]
  exact Forest.live_of_ok rfl hok hlow

theorem frames_below_alike (hfair : K.Fair) (h : RunsAlike K e t e' t')
    (hshape : t'.forest [id] = t.forest [id]) (hstart : t.forest [id] = .view id children .empty)
    (hsize : allotted.size.Alike K allotted'.size)
    (hok : (e.arrange t id allotted).result.outcome = .ok ())
    (hok' : (e'.arrange t' id allotted').result.outcome = .ok ()) {low : ViewId}
    (hlow : low ∈ children.ids) :
    FramesAlike K (e.arrange t id allotted).tree (e'.arrange t' id allotted').tree low := by
  rw [outcome_arrange, hstart] at hok
  rw [outcome_arrange, hshape, hstart] at hok'
  show FramesAlike K ((t.forest [id]).arrange e [(id, allotted)] t).tree
    ((t'.forest [id]).arrange e' [(id, allotted')] t').tree low
  rw [hshape, hstart]
  exact Forest.frames_below_alike hfair h hsize hok hok' hlow

end Engine

end

end BoxLayout
