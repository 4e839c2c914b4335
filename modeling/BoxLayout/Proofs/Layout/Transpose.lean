import BoxLayout.Proofs.Layout.TwoRuns
import BoxLayout.Proofs.Scalar.Single

/-!
# Layout does not prefer an axis

A tree is transposed by exchanging the two axes in everything a view asks for: rows become columns,
widths heights, left top. The transposed tree is laid out like the tree itself, with the axes
exchanged.

Sizes measured are exactly the transposed ones. Frames are so up to the sign of a zero: a cell whose
child keeps its proportions takes the larger or the smaller of two ratios, and of two zeros it takes
the one of the axis that comes first.

## The architecture

* **`ViewTree.transpose`** — the transposed tree, with `transpose` of figures, records and views.
* **`Comparison.exchanged`** — runs compared with the axes exchanged.
* **`RunsAlike.transpose`** — passes over a tree and over the transposed one go in step.
* **`LayoutError.SameKind`**, **`Single.SameButSign`** — what is left to differ.
* **`transpose_run`** — measuring and arranging a transposed tree.
-/

namespace BoxLayout

open Scalar ViewTree

variable {α : Type}

/-! ## Transposed trees -/

/-- Width and height are exchanged. -/
def Size.transpose (s : Size α) : Size α := ⟨s.height, s.width⟩

def Point.transpose (p : Point α) : Point α := ⟨p.y, p.x⟩

def PerAxis.transpose (p : PerAxis α) : PerAxis α := ⟨p.vertical, p.horizontal⟩

def Rect.transpose (r : Rect α) : Rect α := ⟨r.y, r.x, r.height, r.width⟩

/-- Left and top are exchanged, and right and bottom. -/
def Edges.transpose (e : Edges α) : Edges α where
  top := e.left
  right := e.bottom
  bottom := e.right
  left := e.top

/-- The vertical alignment at the end that left and right become: left is top, right is bottom. -/
def HAlign.transpose : HAlign → VAlign
  | left => .top
  | center => .center
  | right => .bottom
  | fill => .fill

def VAlign.transpose : VAlign → HAlign
  | top => .left
  | center => .center
  | bottom => .right
  | fill => .fill

def Container.transpose : Container → Container
  | horizontal => vertical
  | vertical => horizontal
  | overlay => overlay

/-- The record with the axes exchanged. How a cell is kept and what is ignored concern no axis. -/
def Constraints.transpose (c : Constraints α) : Constraints α :=
  { c with
    min := c.min.transpose
    max := c.max.transpose
    stretch := c.stretch.transpose
    adjustment := c.adjustment.transpose
    margins := c.margins.transpose
    spacing := c.spacing.transpose
    hAlign := c.vAlign.map VAlign.transpose
    vAlign := c.hAlign.map HAlign.transpose }

/-- The view with the axes exchanged in all it asks for. Its frame and its links stay. -/
def View.transpose (v : View α) : View α :=
  { v with
    constraints := v.constraints.transpose
    container := v.container.transpose
    contentSize := v.contentSize.transpose
    declaredOrigin := v.declaredOrigin.transpose }

/-- The arena with its contents replaced and its slots and versions kept. -/
def Arena.map {β γ : Type} (f : β → γ) (a : Arena β) : Arena γ :=
  ⟨a.slots.map fun slot => ⟨slot.version, slot.content.map f⟩, a.free⟩

/-- The tree with every view transposed and all links as they are. -/
def ViewTree.transpose (t : ViewTree α) : ViewTree α :=
  { t with views := t.views.map View.transpose }

theorem Arena.get?_map {β γ : Type} (f : β → γ) (a : Arena β) (id : ViewId) :
    (a.map f).get? id = (a.get? id).map f := by
  unfold get? map
  rw [Array.getElem?_map]
  cases a.slots[id.slot]? with
  | none => rfl
  | some slot =>
    show (if slot.version = id.version then slot.content.map f else none) = _
    dsimp only
    split_ifs <;> rfl

namespace ViewTree

theorem get?_transpose (t : ViewTree α) (id : ViewId) :
    t.transpose.get? id = (t.get? id).map View.transpose :=
  Arena.get?_map View.transpose t.views id

theorem children_transpose (t : ViewTree α) (id : ViewId) :
    t.transpose.children id = t.children id := by
  unfold children
  rw [get?_transpose]
  cases t.get? id <;> rfl

/-- The same shape lies below every view of the transposed tree. -/
theorem forest_transpose (t : ViewTree α) (ids : List ViewId) :
    t.transpose.forest ids = t.forest ids := by
  -- the bound on the depth counts slots, which stay
  have hlevels : t.transpose.levels = t.levels :=
    congrArg (· + 1) (Array.size_map ..)
  -- the unfolding only asks for children, so it goes the same way down to any depth
  have hto (n : ℕ) (ids : List ViewId) : t.transpose.forestTo n ids = t.forestTo n ids := by
    induction n generalizing ids with
    | zero => rfl
    | succ n ih => simp only [forestTo, children_transpose, ih]
  rw [forest, forest, hlevels, hto]

theorem below_transpose (t : ViewTree α) (id : ViewId) : t.transpose.below id = t.below id := by
  rw [below, below, children_transpose, forest_transpose]

end ViewTree

/-! ## In step -/

variable [Scalar α]

/-- Runs compared with the axes exchanged. -/
def Comparison.exchanged (L : Likeness α) : Comparison α where
  toLikeness := L
  turn := Axis.cross
  turn_cross _ := rfl

/-- Turned axes are fair as soon as the likeness is balanced: which axis comes first then does not matter.
-/
theorem Comparison.exchanged_fair {L : Likeness α} (h : L.Balanced) :
    (Comparison.exchanged L).Fair :=
  Or.inr h

section

variable (L : Likeness α)

theorem Size.transpose_alike (s : Size α) : s.Alike (.exchanged L) s.transpose := fun axis => by
  cases axis <;> exact L.refl _

theorem Point.transpose_alike (p : Point α) : p.Alike (.exchanged L) p.transpose := fun axis => by
  cases axis <;> exact L.refl _

theorem PerAxis.transpose_alike (p : PerAxis α) : p.Alike (.exchanged L) p.transpose :=
  fun axis => by cases axis <;> exact L.refl _

theorem Edges.transpose_alike (e : Edges α) : e.Alike (.exchanged L) e.transpose where
  leading axis := by cases axis <;> exact L.refl _
  trailing axis := by cases axis <;> exact L.refl _

theorem Rect.transpose_alike (r : Rect α) : r.Alike (.exchanged L) r.transpose where
  origin := r.origin.transpose_alike L
  size := r.size.transpose_alike L

omit [Scalar α] in
/-- An alignment asked for along an axis is the one the transposed record asks for along the other. -/
theorem Constraints.alignmentAlong_transpose (c : Constraints α) (axis : Axis) :
    c.transpose.alignmentAlong axis.cross = c.alignmentAlong axis := by
  cases axis
  · -- both ways round a transposed alignment names the same end
    show (c.hAlign.map HAlign.transpose).map VAlign.alignment = c.hAlign.map HAlign.alignment
    rw [Option.map_map]
    congr 1
    funext alignment
    cases alignment <;> rfl
  · show (c.vAlign.map VAlign.transpose).map HAlign.alignment = c.vAlign.map VAlign.alignment
    rw [Option.map_map]
    congr 1
    funext alignment
    cases alignment <;> rfl

/-- A transposed view is the view itself, seen with the axes exchanged. -/
theorem View.transpose_alike (v : View α) : v.Alike (.exchanged L) v.transpose where
  constraints :=
    { min := v.constraints.min.transpose_alike L
      max := v.constraints.max.transpose_alike L
      stretch := v.constraints.stretch.transpose_alike L
      ignoreNatural := rfl
      adjustment := v.constraints.adjustment.transpose_alike L
      margins := v.constraints.margins.transpose_alike L
      spacing := v.constraints.spacing.transpose_alike L
      alignment := fun axis => (v.constraints.alignmentAlong_transpose axis).symm
      cells := rfl }
  container := by
    show v.container.transpose.axis? = v.container.axis?.map Axis.cross
    cases v.container <;> rfl
  contentSize := v.contentSize.transpose_alike L
  declaredOrigin := v.declaredOrigin.transpose_alike L
  children := rfl

/-- **Passes over a tree and over the transposed one go in step.** -/
theorem RunsAlike.transpose (settings : Settings α) (t : ViewTree α) :
    RunsAlike (.exchanged L) ⟨settings, .stored⟩ t ⟨settings, .stored⟩ t.transpose where
  views id := by
    rw [get?_transpose]
    cases t.get? id with
    | none => exact .none
    | some v => exact .some ⟨v.transpose_alike L, fun _ _ _ _ _ => v.contentSize.transpose_alike L⟩
  epsilon := rfl
  maxPasses := rfl

end

/-! ## What is left to differ -/

/-- Refusals for the same reason at the same views. -/
def LayoutError.SameKind {ν : Type} : LayoutError ν α → LayoutError ν α → Prop
  | .invalidExtent view .., .invalidExtent view' .. => view = view'
  | .invalidContent view .., .invalidContent view' .. => view = view'
  | .unknownView view, .unknownView view' => view = view'
  | .noRoot, .noRoot => True
  | .noSuperview view, .noSuperview view' => view = view'
  | .cycle parent child, .cycle parent' child' => parent = parent' ∧ child = child'
  | .validation error, .validation error' => error = error'
  | _, _ => False

theorem LayoutError.Alike.sameKind {K : Comparison α} {error error' : LayoutError ViewId α}
    (h : error.Alike K error') : error.SameKind error' := by
  cases h with
  | extent => rfl
  | content => rfl
  | same => cases error <;> simp [SameKind]

/-- Numbers that are equal under exchanged axes make a transposed size. -/
theorem Size.Alike.eq_transpose {s s' : Size α} (h : s.Alike (.exchanged .equal) s') :
    s' = s.transpose := by
  obtain ⟨width', height'⟩ := s'
  have hwidth : s.width = height' := h .horizontal
  have hheight : s.height = width' := h .vertical
  rw [transpose, hwidth, hheight]

/-- Equal numbers, or two zeros. -/
def Single.SameButSign (a b : Float32) : Prop := a = b ∨ a = 0 ∧ b = -0 ∨ a = -0 ∧ b = 0

/-- Rectangles that are equal up to the signs of zeros. -/
structure Rect.SameButSign (r r' : Rect Float32) : Prop where
  x : Single.SameButSign r.x r'.x
  y : Single.SameButSign r.y r'.y
  width : Single.SameButSign r.width r'.width
  height : Single.SameButSign r.height r'.height

/-- Rectangles with the same values under exchanged axes are transposed up to the signs of zeros. -/
theorem Rect.Alike.sameButSign {r r' : Rect Float32}
    (h : r.Alike (.exchanged .sameValue) r') : r'.SameButSign r.transpose where
  x := Single.eq_or_of_value_eq (h.origin .vertical).symm
  y := Single.eq_or_of_value_eq (h.origin .horizontal).symm
  width := Single.eq_or_of_value_eq (h.size .vertical).symm
  height := Single.eq_or_of_value_eq (h.size .horizontal).symm

/-- **A transposed tree is laid out transposed.** In any tree that operations lead to, and for any
settings: measuring a view of the transposed tree yields the transposed size; arranging it succeeds
just if arranging it in the tree itself does, and then every view of the subtree has the transposed
frame, up to the signs of zeros. Both fail for the same reason at the same view. -/
theorem transpose_run (ops : List (Operation Float32)) (settings : Settings Float32) (id : ViewId) :
    let t := empty.run ops
    let e : Engine Float32 := ⟨settings, .stored⟩
    (∀ proposed,
      (∀ size, (e.measure t id proposed).outcome = .ok size →
        (e.measure t.transpose id proposed.transpose).outcome = .ok size.transpose) ∧
      ∀ error, (e.measure t id proposed).outcome = .error error → ∃ error',
        (e.measure t.transpose id proposed.transpose).outcome = .error error' ∧
          error.SameKind error') ∧
    ∀ allotted,
      ((e.arrange t id allotted).result.outcome = .ok () →
        (e.arrange t.transpose id allotted.transpose).result.outcome = .ok () ∧
          ∀ low ∈ t.subtree id, ∃ v v', (e.arrange t id allotted).tree.get? low = some v ∧
            (e.arrange t.transpose id allotted.transpose).tree.get? low = some v' ∧
              v'.frame.SameButSign v.frame.transpose) ∧
      ∀ error, (e.arrange t id allotted).result.outcome = .error error → ∃ error',
        (e.arrange t.transpose id allotted.transpose).result.outcome = .error error' ∧
          error.SameKind error' := by
  intro t e
  constructor
  · intro proposed
    -- sizes go through the same operations on either side, so they compare by equality
    have hmeasure := Engine.measure_alike (RunsAlike.transpose .equal settings t)
      (below_transpose t id).symm (proposed.transpose_alike .equal)
    generalize (e.measure t id proposed).outcome = x at hmeasure ⊢
    generalize (e.measure t.transpose id proposed.transpose).outcome = y at hmeasure ⊢
    cases hmeasure with
    | ok hsize =>
      refine ⟨fun size heq => ?_, nofun⟩
      rw [← Except.ok.inj heq, hsize.eq_transpose]
    | error hkind =>
      refine ⟨nofun, fun error heq => ⟨_, rfl, ?_⟩⟩
      rw [← Except.error.inj heq]
      exact hkind.sameKind
  · intro allotted
    -- frames pass through `max` and `min` of two axes, so only their values compare
    have hfair := Comparison.exchanged_fair (Likeness.sameValue_balanced (α := Float32))
    have hruns := RunsAlike.transpose .sameValue settings t
    have hshape := forest_transpose t [id]
    have hallotted := allotted.transpose_alike .sameValue
    have houtcome := Engine.outcome_arrange_alike hfair hruns hshape hallotted.size
    have hframes {low : ViewId} (hok : (e.arrange t id allotted).result.outcome = .ok ())
        (hlow : low ∈ t.subtree id) : ∃ v v', (e.arrange t id allotted).tree.get? low = some v ∧
          (e.arrange t.transpose id allotted.transpose).tree.get? low = some v' ∧
            v'.frame.SameButSign v.frame.transpose := by
      -- the views of the subtree are those of the shape that is arranged
      have hmem : low ∈ (t.forest [id]).ids := by
        rw [mem_subtree_iff (wellFormed_run ops)] at hlow
        exact (mem_ids_forest_iff (wellFormed_run ops)).mpr ⟨id, List.mem_singleton_self id, hlow⟩
      obtain ⟨v, v', hv, hv', hframe⟩ := (Engine.frames_alike hfair hruns hshape hallotted hok
        hmem).exists_views (Engine.live_of_ok hok hmem)
      exact ⟨v, v', hv, hv', hframe.sameButSign⟩
    generalize (e.arrange t id allotted).result.outcome = x at houtcome hframes ⊢
    generalize (e.arrange t.transpose id allotted.transpose).result.outcome = y at houtcome ⊢
    cases houtcome with
    | ok _ => exact ⟨fun hok => ⟨rfl, fun low hlow => hframes hok hlow⟩, nofun⟩
    | error hkind =>
      refine ⟨nofun, fun error heq => ⟨_, rfl, ?_⟩⟩
      rw [← Except.error.inj heq]
      exact hkind.sameKind

end BoxLayout
