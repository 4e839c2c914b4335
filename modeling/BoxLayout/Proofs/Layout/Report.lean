import Mathlib
import BoxLayout.Proofs.Layout.Failure
import BoxLayout.Proofs.Layout.Order
import BoxLayout.Proofs.ViewTree.Walk

/-!
# What a pass reports

A pass reports the frames it gives while it gives them, and it may fail at any view. What it has reported
is true all the same: a visit reports as its last step, when nothing can fail any more, and then the frame
is written, once and for good. So the reports tell how far the pass has come.

The pass is recursive, and its failure cuts off recursions at all levels. It is told here as a loop: the
places still to be filled are kept in a list, a visit puts those of the children in front, and a failure
leaves the list as it is.

## The architecture

* **`arrangedIn`** — the reports of frames in a log; measuring and placing make none
  (`Forest.arrangedIn_cells`, `Pass.arrangedIn_placements`), a visit that succeeds makes one at most
  (`Pass.arrangedIn_visit_of_ok`), and one that fails makes none (`Pass.arrangedIn_visit_of_error`).
* **`Engine.Fills`** — the loop, with the frames that it writes and with what it ends in.
* **`Forest.fills_of_ok`**, **`Forest.fills_of_error`** — the recursion is the loop: places in front are
  filled first, with all below them. **`Engine.fills_arrange`** — so is the whole pass.
* **`Engine.StopsAt`**, **`Engine.Fills.order`** — the loop takes the views in pre-order, and stops at the
  first whose visit fails.
* **`Engine.Fills.arrangedIn_eq`** — the reports are those of the frames that were written.
* **`Engine.Reported`**, **`reported_run`** — the result.
-/

namespace BoxLayout

open Relation ViewTree

variable {α : Type}

/-! ## Reports of frames -/

def Event.isArranged : Event α → Bool
  | .arranged _ _ _ => true
  | _ => false

/-- The reports of frames in a log, with their levels. -/
def arrangedIn (log : List (Event α)) : List (Level × Event α) :=
  (log.filter Event.isArranged).map fun event => (event.level, event)

theorem arrangedIn_append (xs ys : List (Event α)) :
    arrangedIn (xs ++ ys) = arrangedIn xs ++ arrangedIn ys := by
  simp [arrangedIn]

theorem arrangedIn_eq_nil_iff {log : List (Event α)} :
    arrangedIn log = [] ↔ ∀ event ∈ log, event.isArranged = false := by
  simp [arrangedIn]

/-- A sequence makes no report of a frame if none of its parts does. -/
theorem arrangedIn_bind {β γ : Type} {x : Logged α β} {next : β → Logged α γ}
    (hx : arrangedIn x.log = []) (hnext : ∀ b, x.outcome = .ok b → arrangedIn (next b).log = []) :
    arrangedIn (x >>= next).log = [] := by
  rw [Logged.log_bind, arrangedIn_append, hx]
  -- what follows a failure is not run and reports nothing
  cases houtcome : x.outcome with
  | error _ => rfl
  | ok b => exact hnext b houtcome

/-- After a step that succeeds without a report, what follows makes them all. -/
theorem arrangedIn_bind_of_ok {β γ : Type} {x : Logged α β} {next : β → Logged α γ} {b : β}
    (hx : arrangedIn x.log = []) (hok : x.outcome = .ok b) :
    arrangedIn (x >>= next).log = arrangedIn (next b).log := by
  rw [Logged.log_bind, arrangedIn_append, hx, hok]
  rfl

/-- A sequence that fails makes no report, if no part of it makes one when it fails later on. -/
theorem arrangedIn_bind_of_error {β γ : Type} {x : Logged α β} {next : β → Logged α γ}
    {error : LayoutError ViewId α} (herror : (x >>= next).outcome = .error error)
    (hx : arrangedIn x.log = [])
    (hnext : ∀ b, (next b).outcome = .error error → arrangedIn (next b).log = []) :
    arrangedIn (x >>= next).log = [] := by
  refine arrangedIn_bind hx fun b hb => hnext b ?_
  rw [Logged.outcome_bind, hb] at herror
  exact herror

/-- What is reported of a view in its frame: a view that asks for it is always reported, and any other
view only while passes are traced. -/
def View.report? (settings : Settings α) (id : ViewId) (v : View α) : Option (Level × Event α) :=
  if v.constraints.logsLayout = true then some (.debug, .arranged true (v.label id) v.frame)
  else if settings.tracePasses = true then some (.trace, .arranged false (v.label id) v.frame)
  else none

/-- The report of a view of the tree, if it were given a frame. -/
def ViewTree.report? (t : ViewTree α) (settings : Settings α) (w : Placement α) :
    Option (Level × Event α) :=
  (t.get? w.1).bind fun v => View.report? settings w.1 { v with frame := w.2 }

variable [Scalar α]

/-! ## Measuring and placing -/

section

variable {p : Pass α} {id : ViewId} {v : View α}
  {measureChildren : Size α → Logged α (List (Cell α))}

theorem Pass.arrangedIn_rawSize (h : ∀ s, arrangedIn (measureChildren s).log = []) (s : Size α) :
    arrangedIn (p.rawSize id v measureChildren s).log = [] := by
  unfold rawSize
  dsimp only
  split_ifs
  · rfl
  · exact arrangedIn_bind (h s) fun _ _ => rfl
  · rfl
  · rfl

theorem Pass.arrangedIn_naturalSize (h : ∀ s, arrangedIn (measureChildren s).log = []) (s : Size α) :
    arrangedIn (p.naturalSize id v measureChildren s).log = [] := by
  refine arrangedIn_bind (Pass.arrangedIn_rawSize h s) fun raw _ => ?_
  refine arrangedIn_bind ?_ fun _ _ => rfl
  -- the one event here is that of a minimum size, which is no frame
  show arrangedIn (if v.constraints.logsMinSize then _ else []) = []
  split_ifs <;> rfl

/-- Measuring reports no frame. Induction on the shape. -/
theorem Forest.arrangedIn_cells (f : Forest) (p : Pass α) (s : Size α) :
    arrangedIn (f.cells p s).log = [] := by
  induction f generalizing s with
  | empty => rfl
  | view id children rest ihc ihr =>
    -- looking a view up, measuring it, measuring the rest
    refine arrangedIn_bind rfl fun v _ => ?_
    refine arrangedIn_bind (Pass.arrangedIn_naturalSize ihc _) fun natural _ => ?_
    exact arrangedIn_bind (ihr s) fun _ _ => rfl

end

omit [Scalar α] in
/-- Sharing out reports passes and limits, and no frame. -/
theorem Distribution.arrangedIn_events (d : Distribution α) (settings : Settings α) :
    arrangedIn (d.events settings) = [] := by
  rw [arrangedIn_eq_nil_iff]
  unfold events
  cases d.course with
  | none => nofun
  | some taken =>
    obtain ⟨direction, course⟩ := taken
    intro event hevent
    rcases List.mem_append.mp hevent with hpass | hlimit
    · obtain ⟨report, -, rfl⟩ := List.mem_map.mp hpass
      rfl
    · split_ifs at hlimit
      · nomatch hlimit
      · rw [List.mem_singleton.mp hlimit]
        rfl

/-- Placing reports how space was shared out, and no frame. -/
theorem Container.arrangedIn_placeEvents (kind : Container) (settings : Settings α) (view : View α)
    (cells : List (Cell α)) (bounds : Size α) :
    arrangedIn (kind.placeEvents settings view cells bounds) = [] := by
  unfold placeEvents
  split
  case h_1 axis _ =>
    unfold Stack.events
    split_ifs
    · rfl
    · exact Distribution.arrangedIn_events _ settings
  case h_2 => rfl

theorem Pass.arrangedIn_placements (p : Pass α) (kind : Container) (v : View α) (children : Forest)
    (bounds : Size α) : arrangedIn (p.placements kind v children bounds).log = [] := by
  refine arrangedIn_bind (children.arrangedIn_cells p bounds) fun cells _ => ?_
  exact arrangedIn_bind (kind.arrangedIn_placeEvents _ v cells bounds) fun _ _ => rfl

/-! ## Visits -/

/-- Of the events of a visit one is the report of its frame, if there is any; the other says that it
overflows. -/
theorem Pass.arrangedIn_visitEvents (p : Pass α) (id : ViewId) (v : View α) (allotted frame : Rect α) :
    arrangedIn (p.visitEvents id v allotted frame) =
      (View.report? p.settings id { v with frame }).toList := by
  have hoverflow : arrangedIn (if allotted.width < frame.width ∨ allotted.height < frame.height then
      [Event.overflowing (v.label id) allotted frame.size] else []) = [] := by
    split_ifs <;> rfl
  unfold visitEvents View.report?
  dsimp only
  rw [arrangedIn_append, hoverflow, List.append_nil]
  cases v.constraints.logsLayout with
  | true => rfl
  | false => cases p.settings.tracePasses <;> rfl

/-- A visit that succeeds reports the frame that it decides on, and no other. -/
theorem Pass.arrangedIn_visit_of_ok {p : Pass α} {id : ViewId} {children : Forest}
    {allotted : Rect α} {visit : Visit α} (hok : (p.visit id children allotted).outcome = .ok visit) :
    arrangedIn (p.visit id children allotted).log =
      (p.tree.report? p.settings (id, visit.frame)).toList := by
  obtain ⟨v, hv, hextent, hframe, hplacements⟩ := Pass.visit_eq_ok_iff.mp hok
  obtain ⟨hwidth, hheight⟩ := Bool.and_eq_true_iff.mp hextent
  rw [hframe, Rect.size_ofOriginSize] at hplacements
  have hevents := p.arrangedIn_visitEvents id v allotted visit.frame
  rw [ViewTree.report?, hv, Option.bind_some, ← hevents, hframe]
  unfold Pass.visit
  -- the checks and the placing report nothing, one after another
  rw [arrangedIn_bind_of_ok rfl (node_eq_ok_iff.mpr hv),
    arrangedIn_bind_of_ok rfl (checkedExtent_eq_ok_iff.mpr ⟨hwidth, rfl⟩),
    arrangedIn_bind_of_ok rfl (checkedExtent_eq_ok_iff.mpr ⟨hheight, rfl⟩)]
  rw [arrangedIn_bind_of_ok (p.arrangedIn_placements _ _ _ _) hplacements, Logged.log_bind,
    arrangedIn_append]
  exact List.append_nil _

/-- A visit that fails reports no frame: nothing that can fail comes after the report. -/
theorem Pass.arrangedIn_visit_of_error {p : Pass α} {id : ViewId} {children : Forest}
    {allotted : Rect α} {error : LayoutError ViewId α}
    (herror : (p.visit id children allotted).outcome = .error error) :
    arrangedIn (p.visit id children allotted).log = [] := by
  refine arrangedIn_bind_of_error herror rfl fun v herror => ?_
  refine arrangedIn_bind_of_error herror rfl fun width herror => ?_
  refine arrangedIn_bind_of_error herror rfl fun height herror => ?_
  refine arrangedIn_bind_of_error herror (p.arrangedIn_placements _ _ _ _) fun placements herror => ?_
  -- the places are known, so the visit succeeds
  nomatch herror

/-! ## Going on -/

namespace Arranged

variable {β γ : Type} {x : Arranged α β} {next : β → ViewTree α → Arranged α γ}

/-- A computation with events that are reported before it. -/
def reporting (events : List (Event α)) (x : Arranged α β) : Arranged α β :=
  ⟨x.tree, ⟨x.result.outcome, events ++ x.result.log⟩⟩

omit [Scalar α] in
theorem reporting_append (events others : List (Event α)) (x : Arranged α β) :
    x.reporting (events ++ others) = (x.reporting others).reporting events := by
  show Arranged.mk x.tree ⟨_, (events ++ others) ++ x.result.log⟩ = _
  rw [List.append_assoc]
  rfl

omit [Scalar α] in
@[simp] theorem log_reporting (events : List (Event α)) (x : Arranged α β) :
    (x.reporting events).result.log = events ++ x.result.log := rfl

omit [Scalar α] in
/-- A stage after one that succeeds reports what that has reported, and then its own. -/
theorem andThen_of_ok {b : β} (h : x.result.outcome = .ok b) :
    x.andThen next = (next b x.tree).reporting x.result.log := by
  unfold andThen
  rw [h]
  rfl

omit [Scalar α] in
/-- A stage after one that fails is not run. -/
theorem andThen_of_error {error : LayoutError ViewId α} (h : x.result.outcome = .error error) :
    x.andThen next = ⟨x.tree, ⟨.error error, x.result.log⟩⟩ := by
  unfold andThen
  rw [h]

omit [Scalar α] in
theorem andThen_eq_self {next : β → ViewTree α → Arranged α β} {error : LayoutError ViewId α}
    (h : x.result.outcome = .error error) : x.andThen next = x := by
  rw [andThen_of_error h, ← h]

end Arranged

/-! ## The pass as a loop -/

namespace Engine

/-- The visit of a view of the tree. -/
def visit (e : Engine α) (t : ViewTree α) (place : Placement α) : Logged α (Visit α) :=
  (e.pass t).visit place.1 (t.below place.1) place.2

/-- Places are filled one after another: the visit of the first writes a frame and puts the places of the
children in front of those that are pending. A visit that fails ends it all. The lists are the places that
are pending and the frames that are written. -/
inductive Fills (e : Engine α) :
    ViewTree α → List (Placement α) → List (Placement α) → Arranged α Unit → Prop
  | done {t : ViewTree α} : Fills e t [] [] ⟨t, pure ()⟩
  | stops {t : ViewTree α} {place : Placement α} {pending : List (Placement α)}
      {error : LayoutError ViewId α} : (e.visit t place).outcome = .error error →
        Fills e t (place :: pending) [] ⟨t, ⟨.error error, (e.visit t place).log⟩⟩
  | fills {t : ViewTree α} {place : Placement α} {pending writes : List (Placement α)}
      {visit : Visit α} {x : Arranged α Unit} : (e.visit t place).outcome = .ok visit →
        Fills e (t.setFrame place.1 visit.frame) (visit.placements ++ pending) writes x →
          Fills e t (place :: pending) ((place.1, visit.frame) :: writes)
            (x.reporting (e.visit t place).log)

end Engine

section

variable {e : Engine α} {t s : ViewTree α} {ids : List ViewId} {f : Forest}
  {placements pending : List (Placement α)}

omit [Scalar α] in
theorem ViewTree.WellFormed.setFrame (h : s.WellFormed) (id : ViewId) (frame : Rect α) :
    (s.setFrame id frame).WellFormed :=
  h.touched (.single id ⟨fun _ => rfl, fun _ => rfl, fun _ => rfl⟩)

theorem ViewTree.WellFormed.tree_arrange (h : s.WellFormed) (f : Forest) :
    (f.arrange e placements s).tree.WellFormed := by
  rw [Forest.tree_arrange]
  exact h.touched (touched_setFrames s _)

/-- A view of the shape is visited with what lies below it in the tree as it is by then. -/
theorem Engine.visit_eq (ht : t.WellFormed) (hsame : t.SameButFrames s) (hs : s.WellFormed)
    {place : Placement α} {children : Forest} (hc : Unfolds t (t.children place.1) children) :
    e.visit s place = (e.pass s).visit place.1 children place.2 := by
  have hbelow : s.below place.1 = children :=
    (hsame.below_eq ht hs place.1).trans ((unfolds_forest ht _).unique hc)
  rw [Engine.visit, hbelow]

/-- **Places in front are filled first, with all below them**, and then come those behind, as if nothing
had been in front. Induction on the shape, over any tree `s` that differs from `t` in frames only. -/
theorem Forest.fills_of_ok (ht : t.WellFormed) (hf : Unfolds t ids f)
    (hids : placements.map Prod.fst = ids) (hsame : t.SameButFrames s) (hs : s.WellFormed)
    (hok : (f.arrange e placements s).result.outcome = .ok ()) {writes : List (Placement α)}
    {x : Arranged α Unit} (hlater : e.Fills (f.arrange e placements s).tree pending writes x) :
    e.Fills s (placements ++ pending) (f.writes e placements s ++ writes)
      (x.reporting (f.arrange e placements s).result.log) := by
  induction hf generalizing placements pending writes s x with
  | nil =>
    obtain rfl := List.map_eq_nil_iff.mp hids
    exact hlater
  | @cons id ids children rest hc hr ihc ihr =>
    obtain ⟨place, others, rfl, rfl, hothers⟩ := List.map_eq_cons_iff.mp hids
    obtain ⟨visit, below, hvisit, hbelow, rfl, hrest, htree⟩ := Forest.arrange_of_ok hok
    have hfst := (Pass.map_fst_visit hvisit).trans hc.tops_eq
    have hset := hsame.setFrame place.1 visit.frame
    have hsetwf := hs.setFrame place.1 visit.frame
    rw [htree] at hlater
    -- behind the children come the views after them, and behind these what is pending
    have hchildren := ihc hfst hset hsetwf hbelow
      (ihr hothers (Forest.sameButFrames_arrange hset) (hsetwf.tree_arrange children) hrest hlater)
    rw [Forest.writes_of_ok hvisit hbelow, Forest.arrange, Arranged.andThen_of_ok hvisit,
      Arranged.andThen_of_ok hbelow]
    rw [← Engine.visit_eq ht hsame hs hc] at hvisit ⊢
    simp only [Arranged.log_reporting, Arranged.reporting_append, List.cons_append, List.append_assoc]
    exact .fills hvisit hchildren

/-- A pass that fails has filled the places in front up to that, and none of those behind. -/
theorem Forest.fills_of_error (ht : t.WellFormed) (hf : Unfolds t ids f)
    (hids : placements.map Prod.fst = ids) (hsame : t.SameButFrames s) (hs : s.WellFormed)
    {error : LayoutError ViewId α} (herror : (f.arrange e placements s).result.outcome = .error error) :
    e.Fills s (placements ++ pending) (f.writes e placements s) (f.arrange e placements s) := by
  induction hf generalizing placements pending s error with
  | nil =>
    obtain rfl := List.map_eq_nil_iff.mp hids
    nomatch herror
  | @cons id ids children rest hc hr ihc ihr =>
    obtain ⟨place, others, rfl, rfl, hothers⟩ := List.map_eq_cons_iff.mp hids
    have hvisiteq : e.visit s place = _ := Engine.visit_eq ht hsame hs hc
    rw [Forest.arrange, ← hvisiteq] at herror ⊢
    rw [Forest.writes, ← hvisiteq]
    -- the visit fails, or a pass below it, or one over the views after it
    cases hvisit : (e.visit s place).outcome with
    | error other =>
      rw [Arranged.andThen_of_error hvisit]
      exact .stops hvisit
    | ok visit =>
      have hfst := (Pass.map_fst_visit (hvisiteq ▸ hvisit)).trans hc.tops_eq
      have hset := hsame.setFrame place.1 visit.frame
      have hsetwf := hs.setFrame place.1 visit.frame
      rw [Arranged.andThen_of_ok hvisit] at herror ⊢
      refine .fills hvisit ?_
      dsimp only
      cases hbelow : (children.arrange e visit.placements
          (s.setFrame place.1 visit.frame)).result.outcome with
      | error other =>
        -- the failure is below, and none of the rest is begun
        rw [Arranged.andThen_eq_self hbelow, List.append_nil]
        exact ihc hfst hset hsetwf hbelow
      | ok _ =>
        -- the failure is that of the views after the children
        rw [Arranged.andThen_of_ok hbelow] at herror ⊢
        exact Forest.fills_of_ok ht hc hfst hset hsetwf hbelow
          (ihr hothers (Forest.sameButFrames_arrange hset) (hsetwf.tree_arrange children) herror)

/-- **Arranging a view fills its place, and the places below it.** -/
theorem Engine.fills_arrange (hwf : t.WellFormed) (start : ViewId) (allotted : Rect α) :
    e.Fills t [(start, allotted)] (e.writes t start allotted)
      ((t.forest [start]).arrange e [(start, allotted)] t) := by
  have hf := unfolds_forest hwf [start]
  have hids : [(start, allotted)].map Prod.fst = [start] := rfl
  cases houtcome : ((t.forest [start]).arrange e [(start, allotted)] t).result.outcome with
  | error error =>
    have hfills : e.Fills t ([(start, allotted)] ++ []) _ _ :=
      Forest.fills_of_error hwf hf hids (.refl t) hwf houtcome
    exact hfills
  | ok _ =>
    -- nothing is pending behind the start, so the loop is done
    have hfills := Forest.fills_of_ok hwf hf hids (.refl t) hwf houtcome .done
    rw [List.append_nil, List.append_nil, Arranged.reporting, Logged.outcome_pure, ← houtcome,
      Logged.log_pure, List.append_nil] at hfills
    exact hfills

/-! ## What the loop does -/

theorem ViewTree.SameButFrames.report?_eq (h : t.SameButFrames s) (settings : Settings α) :
    s.report? settings = t.report? settings := by
  funext w
  unfold report?
  rcases h.get?_cases w.1 with ⟨ht, hs⟩ | ⟨v, frame, ht, hs⟩ <;> rw [ht, hs]
  rfl

namespace Engine

/-- A visit that succeeds takes the first view of the pre-order away. -/
theorem ids_of_visit (hwf : t.WellFormed) {place : Placement α} {visit : Visit α}
    (hok : (e.visit t place).outcome = .ok visit) :
    (t.forest ((place :: pending).map Prod.fst)).ids =
      place.1 :: (t.forest ((visit.placements ++ pending).map Prod.fst)).ids := by
  have hchildren : visit.placements.map Prod.fst = t.children place.1 :=
    (Pass.map_fst_visit hok).trans (unfolds_forest hwf _).tops_eq
  rw [List.map_cons, forest_cons hwf, Forest.ids, List.map_append, ids_forest_append hwf, hchildren]
  rfl

/-- A visit of a view, in a tree that differs from `t` in frames only, hands a child its place. -/
def Leads (e : Engine α) (t : ViewTree α) (place next : Placement α) : Prop :=
  ∃ r visit, t.SameButFrames r ∧ (e.visit r place).outcome = .ok visit ∧ next ∈ visit.placements

/-- A pass that has visited some views has failed at the next one of the pre-order. -/
structure StopsAt (e : Engine α) (t : ViewTree α) (starts : List (Placement α)) (visited : List ViewId)
    (x : Arranged α Unit) (place : Placement α) (error : LayoutError ViewId α) : Prop where
  outcome : x.result.outcome = .error error
  /-- The visit that fails sees the tree that is left. -/
  fails : (e.visit x.tree place).outcome = .error error
  next : ∃ later, (t.forest (starts.map Prod.fst)).ids = visited ++ place.1 :: later
  handed : ∃ first ∈ starts, ReflTransGen (e.Leads t) first place

/-- One visit more in front of those that led to the failure. -/
theorem StopsAt.cons {place low : Placement α} {visit : Visit α} {visited : List ViewId}
    {x : Arranged α Unit} {error : LayoutError ViewId α} (hwf : t.WellFormed)
    (hok : (e.visit t place).outcome = .ok visit)
    (h : e.StopsAt (t.setFrame place.1 visit.frame) (visit.placements ++ pending) visited x low error)
    (events : List (Event α)) :
    e.StopsAt t (place :: pending) (place.1 :: visited) (x.reporting events) low error where
  outcome := h.outcome
  fails := h.fails
  next := by
    obtain ⟨later, hlater⟩ := h.next
    have hset := (SameButFrames.refl t).setFrame place.1 visit.frame
    rw [hset.forest_eq hwf (hwf.setFrame _ _)] at hlater
    exact ⟨later, (ids_of_visit hwf hok).trans (congrArg (List.cons place.1) hlater)⟩
  handed := by
    obtain ⟨first, hfirst, hlow⟩ := h.handed
    have hset := (SameButFrames.refl t).setFrame place.1 visit.frame
    -- a tree that differs from the one with the new frame in frames only differs so from `t`
    have hleads : e.Leads (t.setFrame place.1 visit.frame) ≤ e.Leads t :=
      fun _ _ ⟨r, inner, hr, hinner⟩ => ⟨r, inner, hset.trans hr, hinner⟩
    have hlow : ReflTransGen (e.Leads t) first low := ReflTransGen.mono hleads _ _ hlow
    rcases List.mem_append.mp hfirst with hfirst | hfirst
    · -- the failing place came from this visit, by way of a child
      exact ⟨place, List.mem_cons_self, .head ⟨t, visit, .refl t, hok, hfirst⟩ hlow⟩
    · -- or from a place that was pending
      exact ⟨first, List.mem_cons_of_mem _ hfirst, hlow⟩

namespace Fills

variable {writes : List (Placement α)} {x : Arranged α Unit}

/-- **The reports are those of the views that got a frame, with their frames.** -/
theorem arrangedIn_eq (h : e.Fills t pending writes x) :
    arrangedIn x.result.log = writes.filterMap (t.report? e.settings) := by
  induction h with
  | done => rfl
  | stops herror => exact Pass.arrangedIn_visit_of_error herror
  | @fills t place pending writes visit x hok _ ih =>
    have hset := (SameButFrames.refl t).setFrame place.1 visit.frame
    -- the frame that was written changes nothing in what is reported of other views
    rw [hset.report?_eq] at ih
    have hvisit : arrangedIn (e.visit t place).log = _ := Pass.arrangedIn_visit_of_ok hok
    rw [Arranged.log_reporting, arrangedIn_append, ih, hvisit, List.filterMap_cons]
    show (t.report? e.settings (place.1, visit.frame)).toList ++ _ = _
    cases t.report? e.settings (place.1, visit.frame) <;> rfl

/-- **The views that get a frame are visited in pre-order, up to the first visit that fails.** -/
theorem order (h : e.Fills t pending writes x) (hwf : t.WellFormed) :
    x.result.outcome = .ok () ∧ writes.map Prod.fst = (t.forest (pending.map Prod.fst)).ids ∨
      ∃ place error, e.StopsAt t pending (writes.map Prod.fst) x place error := by
  induction h with
  | done => exact Or.inl ⟨rfl, rfl⟩
  | @stops t place pending error herror =>
    refine Or.inr ⟨place, error, rfl, herror, ?_, place, List.mem_cons_self, .refl⟩
    exact ⟨_, by rw [List.map_cons, forest_cons hwf]; rfl⟩
  | @fills t place pending writes visit x hok _ ih =>
    have hset := (SameButFrames.refl t).setFrame place.1 visit.frame
    have hsetwf := hwf.setFrame place.1 visit.frame
    rcases ih hsetwf with ⟨hdone, hids⟩ | ⟨low, error, hstops⟩
    · -- the frame just written does not change the pre-order
      rw [hset.forest_eq hwf hsetwf] at hids
      refine Or.inl ⟨hdone, ?_⟩
      rw [ids_of_visit hwf hok, List.map_cons, hids]
    · exact Or.inr ⟨low, error, hstops.cons hwf hok _⟩

/-- Only views of the tree get a frame. -/
theorem live (h : e.Fills t pending writes x) : ∀ w ∈ writes, (t.get? w.1).isSome = true := by
  induction h with
  | done | stops => exact fun _ hw => absurd hw List.not_mem_nil
  | @fills t place pending writes visit x hok _ ih =>
    have hset := (SameButFrames.refl t).setFrame place.1 visit.frame
    intro w hw
    rcases List.mem_cons.mp hw with rfl | hw
    · obtain ⟨v, hv, -⟩ := Pass.visit_eq_ok_iff.mp hok
      exact Option.isSome_iff_exists.mpr ⟨v, hv⟩
    · exact (hset.isSome_eq w.1).trans (ih w hw)

end Fills

end Engine

/-! ## What a call reports -/

/-- How far a call came: the views that it visited, in order, with what it wrote and reported. -/
structure Engine.Reported (e : Engine α) (t : ViewTree α) (start : ViewId) (allotted : Rect α)
    (visited : List ViewId) : Prop where
  /-- They are a beginning of the pre-order of the views below the start. -/
  beginning : visited <+: (t.walk start).map Prod.fst
  /-- The call has written the frame of each of them once, in this order, and no other frame. -/
  written : (e.writes t start allotted).map Prod.fst = visited
  nodup : visited.Nodup
  /-- These are the frames that the visits of the call decide on, one after another. -/
  filled : ∃ x, e.Fills t [(start, allotted)] (e.writes t start allotted) x ∧
    e.arrange t start allotted = x.reporting [.arranging start]
  tree_eq : (e.arrange t start allotted).tree = t.setFrames (e.writes t start allotted)
  /-- What was written is what the tree holds in the end. -/
  frame_eq : ∀ w ∈ e.writes t start allotted, ∃ v, t.get? w.1 = some v ∧
    (e.arrange t start allotted).tree.get? w.1 = some { v with frame := w.2 }
  get?_eq : ∀ id ∉ visited, (e.arrange t start allotted).tree.get? id = t.get? id
  /-- The call succeeds just if it came to the end. -/
  ok_iff : (e.arrange t start allotted).result.outcome = .ok () ↔
    visited = (t.walk start).map Prod.fst
  /-- It fails with the error of the next view's visit, in the place to which visits have led. -/
  stopped : ∀ error, (e.arrange t start allotted).result.outcome = .error error →
    ∃ place later, (t.walk start).map Prod.fst = visited ++ place.1 :: later ∧
      ReflTransGen (e.Leads t) (start, allotted) place ∧
      (e.visit (e.arrange t start allotted).tree place).outcome = .error error
  /-- The frames that are reported are theirs, in this order, as the tree has them in the end. -/
  reported : arrangedIn (e.arrange t start allotted).result.log =
    visited.filterMap fun id =>
      ((e.arrange t start allotted).tree.get? id).bind (View.report? e.settings id)

namespace Engine

theorem arrange_eq (start : ViewId) (allotted : Rect α) : e.arrange t start allotted =
    ((t.forest [start]).arrange e [(start, allotted)] t).reporting [.arranging start] :=
  Arranged.andThen_of_ok rfl

/-- **A call comes to the end of the pre-order, or to a view whose visit fails.** -/
theorem arrange_ends (hwf : t.WellFormed) (start : ViewId) (allotted : Rect α) :
    (e.arrange t start allotted).result.outcome = .ok () ∧
        (e.writes t start allotted).map Prod.fst = (t.walk start).map Prod.fst ∨
      ∃ place error later, (e.arrange t start allotted).result.outcome = .error error ∧
        (t.walk start).map Prod.fst =
          (e.writes t start allotted).map Prod.fst ++ place.1 :: later ∧
        ReflTransGen (e.Leads t) (start, allotted) place ∧
        (e.visit (e.arrange t start allotted).tree place).outcome = .error error := by
  have hwalk : (t.walk start).map Prod.fst = (t.forest ([(start, allotted)].map Prod.fst)).ids :=
    map_fst_walk hwf start
  rcases (e.fills_arrange hwf start allotted).order hwf with ⟨hok, hids⟩ | ⟨place, error, hstops⟩
  · exact Or.inl ⟨hok, hids.trans hwalk.symm⟩
  · obtain ⟨later, hlater⟩ := hstops.next
    obtain ⟨first, hfirst, hleads⟩ := hstops.handed
    obtain rfl := List.mem_singleton.mp hfirst
    exact Or.inr ⟨place, error, later, hstops.outcome, hwalk.trans hlater, hleads, hstops.fails⟩

/-- **What a call does and reports on a well-formed tree.** -/
theorem reported_of_wellFormed (hwf : t.WellFormed) (start : ViewId) (allotted : Rect α) :
    e.Reported t start allotted ((e.writes t start allotted).map Prod.fst) where
  beginning := by
    rcases e.arrange_ends hwf start allotted with ⟨-, hall⟩ | ⟨place, _, later, -, hnext, -⟩
    · rw [hall]
    · exact ⟨place.1 :: later, hnext.symm⟩
  written := rfl
  nodup := nodup_writes hwf start allotted
  filled := ⟨_, e.fills_arrange hwf start allotted, arrange_eq start allotted⟩
  tree_eq := tree_arrange start allotted
  frame_eq w hw := by
    obtain ⟨v, hv⟩ := Option.isSome_iff_exists.mp ((e.fills_arrange hwf start allotted).live w hw)
    refine ⟨v, hv, ?_⟩
    rw [get?_arrange_of_mem hwf hw, hv]
    rfl
  get?_eq id hid := by
    rw [tree_arrange, get?_setFrames_of_notMem hid]
  ok_iff := by
    rcases e.arrange_ends hwf start allotted with ⟨hok, hall⟩ | ⟨_, _, _, herror, hnext, -⟩
    · exact ⟨fun _ => hall, fun _ => hok⟩
    · -- it failed, so a view is left that has not been visited
      refine ⟨fun hok => absurd (herror.symm.trans hok) nofun, fun hall => ?_⟩
      rw [hall] at hnext
      simp at hnext
  stopped error herror := by
    rcases e.arrange_ends hwf start allotted with ⟨hok, -⟩ |
      ⟨place, other, later, hother, hnext, hleads, hfails⟩
    · nomatch hok.symm.trans herror
    · obtain rfl : other = error := Except.error.inj (hother.symm.trans herror)
      exact ⟨place, later, hnext, hleads, hfails⟩
  reported := by
    have hlog : arrangedIn (e.arrange t start allotted).result.log =
        (e.writes t start allotted).filterMap (t.report? e.settings) := by
      rw [arrange_eq, Arranged.log_reporting, arrangedIn_append,
        (e.fills_arrange hwf start allotted).arrangedIn_eq]
      rfl
    rw [hlog, List.filterMap_map]
    -- a view is written once, so what was reported of it is what it has in the end
    refine List.filterMap_congr fun w hw => ?_
    rw [Function.comp_apply, get?_arrange_of_mem hwf hw, ViewTree.report?]
    cases t.get? w.1 <;> rfl

end Engine

end

variable (e : Engine α) in
/-- **What a call reports is what it did**, in every tree that operations lead to, and with any
measurer: also a call that fails has reported just the frames that it wrote. -/
theorem reported_run (ops : List (Operation α)) (start : ViewId) (allotted : Rect α) :
    ∃ visited, e.Reported (empty.run ops) start allotted visited :=
  ⟨_, e.reported_of_wellFormed (wellFormed_run ops) start allotted⟩

/-- A row with two leaves, of which the second asks to be reported. A call that traces all frames succeeds,
and reports the three of them in the order in which they were written. -/
example :
    let e : Engine Float32 := ⟨.verbose, .stored⟩
    let t := empty.run [.create .horizontal .zero, .create .horizontal ⟨10, 20⟩,
      .create .horizontal ⟨30, 40⟩, .insertBefore ⟨0, 1⟩ ⟨1, 1⟩ none, .insertBefore ⟨0, 1⟩ ⟨2, 1⟩ none,
      .edit ⟨2, 1⟩ [.logLayout true]]
    let result := (e.arrange t ⟨0, 1⟩ ⟨0, 0, 100, 50⟩).result
    let frames (event : Event Float32) : Option (Bool × String × Rect Float32) :=
      match event with
      | .arranged asked view frame => some (asked, view, frame)
      | _ => none
    result.outcome.toOption = some () ∧
      (e.writes t ⟨0, 1⟩ ⟨0, 0, 100, 50⟩).map Prod.fst = [⟨0, 1⟩, ⟨1, 1⟩, ⟨2, 1⟩] ∧
      result.log.filterMap frames = [(false, "ViewId(1v1)", ⟨0, 0, 100, 50⟩),
        (false, "ViewId(2v1)", ⟨0, 0, 10, 20⟩), (true, "ViewId(3v1)", ⟨10, 0, 30, 40⟩)] := by
  decide +kernel

end BoxLayout
