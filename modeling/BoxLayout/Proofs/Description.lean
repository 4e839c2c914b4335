import Mathlib
import BoxLayout.Description
import BoxLayout.Proofs.ViewTree.Run
import BoxLayout.Proofs.ViewTree.Walk

/-!
# What a description says

A description goes through the visits of a walk and writes the lines of each view, with the depth of
the visit as the only thing it knows of the tree. It reads all the same as a text that was written by
recursion: a view's own lines, and then what its children say, one level deeper.

## The architecture

* **`Dumped`** — the text written by recursion on children, which knows no stack and no stale ids.
* **`Unfolds.dumped`** — the text of a pre-order is that text, by induction on the shape.
* **`Traversal`**, **`traversal_of_wellFormed`** — all that is said of a walk and of its description.
-/

namespace BoxLayout

namespace ViewTree

/-! ## Texts by recursion -/

/-- The text of some views, written at a depth. Each view has its line and, if it asks for them, its
constraints on a second one; what its children say comes next, one level deeper, and then what the
views after it say. -/
inductive Dumped (t : ViewTree Float32) : ℕ → List ViewId → String → Prop
  | nil {depth : ℕ} : Dumped t depth [] ""
  | cons {depth : ℕ} {id : ViewId} {ids : List ViewId} {v : View Float32} {below rest : String} :
      t.get? id = some v → Dumped t (depth + 1) v.children below → Dumped t depth ids rest →
        Dumped t depth (id :: ids) (indent depth ++ v.headline id ++ "\n" ++
          (if v.constraints.logsLayout then indent (depth + 1) ++ v.constraintLine ++ "\n" else "") ++
          below ++ rest)

variable {t : ViewTree Float32}

theorem Dumped.unique {depth : ℕ} {ids : List ViewId} {text other : String}
    (h : t.Dumped depth ids text) (h' : t.Dumped depth ids other) : text = other := by
  induction h generalizing other with
  | nil =>
    cases h'
    rfl
  | cons hv _ _ ihc ihr =>
    cases h' with
    | cons hv' hc hr =>
      obtain rfl := Option.some.inj (hv.symm.trans hv')
      rw [ihc hc, ihr hr]

/-- The lines of the visits of a pre-order, one after another. -/
def describeVisits (t : ViewTree Float32) (visits : List (ViewId × ℕ)) : String :=
  String.join (visits.map fun visit => t.describeAt visit.1 visit.2)

/-- **The text of a pre-order is the text written by recursion**, if all views of the shape are there.
Induction on the shape, for any depth. -/
theorem Unfolds.dumped {ids : List ViewId} {f : Forest} (hf : Unfolds t ids f)
    (hlive : ∀ id ∈ f.ids, (t.get? id).isSome = true) (depth : ℕ) :
    t.Dumped depth ids (t.describeVisits (f.preorder depth)) := by
  induction hf generalizing depth with
  | nil => exact .nil
  | @cons id ids children rest _ _ ihc ihr =>
    simp only [Forest.ids, List.mem_cons, List.mem_append] at hlive
    obtain ⟨v, hv⟩ := Option.isSome_iff_exists.mp (hlive id (Or.inl rfl))
    have hbelow := ihc (fun low hlow => hlive low (Or.inr (Or.inl hlow))) (depth + 1)
    have hrest := ihr (fun low hlow => hlive low (Or.inr (Or.inr hlow))) depth
    rw [children_of_get? hv] at hbelow
    -- the lines of the view itself are written in front of the two texts
    have hlines : t.describeVisits ((id, depth) :: (children.preorder (depth + 1) ++
        rest.preorder depth)) = t.describeAt id depth ++
          t.describeVisits (children.preorder (depth + 1)) ++
            t.describeVisits (rest.preorder depth) := by
      simp [describeVisits, String.append_assoc]
    have hview : t.describeAt id depth = indent depth ++ v.headline id ++ "\n" ++
        if v.constraints.logsLayout then indent (depth + 1) ++ v.constraintLine ++ "\n" else "" := by
      unfold describeAt
      rw [hv]
    rw [Forest.preorder, hlines, hview]
    exact .cons hv hbelow hrest

/-! ## Walks and descriptions -/

/-- What a walk from a view visits, and what the description of the view makes of it. -/
structure Traversal (t : ViewTree Float32) (start : ViewId) : Prop where
  /-- The walk ends by itself, after these visits. -/
  visits_iff : ∀ visits, (Walk.start start).Visits t visits ↔ visits = t.walk start
  /-- A view comes before its children, and the walks from these follow in their order, one level
  deeper. -/
  walk_eq : t.walk start = (start, 0) :: (t.children start).flatMap fun child =>
    (t.walk child).map fun visit => (visit.1, visit.2 + 1)
  /-- No view is visited twice. -/
  nodup : ((t.walk start).map Prod.fst).Nodup
  /-- A view is visited at a depth just if so many parents lead up from it to the start. -/
  mem_iff : ∀ low n, (low, n) ∈ t.walk start ↔ (low :: t.ancestors low)[n]? = some start
  /-- No visit meets an unknown view. -/
  known : ∀ visit ∈ t.walk start, (t.get? visit.1).isSome = true
  /-- The description is the text written by recursion. -/
  dumped_iff : ∀ text, t.Dumped 0 [start] text ↔ text = t.describe start

/-- **A walk follows the tree, and so does a description**, from any view of any well-formed tree. -/
theorem traversal_of_wellFormed (h : t.WellFormed) {start : ViewId}
    (hlive : (t.get? start).isSome = true) : t.Traversal start := by
  have hdumped : t.Dumped 0 [start] (t.describe start) := by
    have hknown : ∀ id ∈ (t.forest [start]).ids, (t.get? id).isSome = true := by
      intro id hid
      rw [← map_fst_walk h] at hid
      obtain ⟨visit, hvisit, rfl⟩ := List.mem_map.mp hid
      exact live_of_mem_walk h hlive hvisit
    have hshape := (unfolds_forest h [start]).dumped hknown 0
    rw [← walk_eq_preorder h] at hshape
    exact hshape
  refine ⟨fun visits => visits_iff h start, walk_eq h start, nodup_walk h start,
    fun low n => mem_walk_iff h, fun visit hvisit => live_of_mem_walk h hlive hvisit, fun text => ?_⟩
  refine ⟨fun htext => htext.unique hdumped, ?_⟩
  rintro rfl
  exact hdumped

/-- A page with a row of two words and a footer. The row asks for its constraints. -/
def namedPage : List (Operation Float32) :=
  [.create .vertical .zero, .create .horizontal .zero, .create .horizontal .zero,
    .create .horizontal .zero, .insertBefore ⟨0, 1⟩ ⟨1, 1⟩ none, .insertBefore ⟨1, 1⟩ ⟨2, 1⟩ none,
    .insertBefore ⟨0, 1⟩ ⟨3, 1⟩ none, .edit ⟨0, 1⟩ [.name "page"],
    .edit ⟨1, 1⟩ [.name "row", .logLayout true]]

theorem traversal_namedPage :
    let t := empty.run namedPage
    t.walk ⟨0, 1⟩ = [(⟨0, 1⟩, 0), (⟨1, 1⟩, 1), (⟨2, 1⟩, 2), (⟨3, 1⟩, 1)] ∧
      t.describe ⟨0, 1⟩ = String.join
        ["page [vertical] frame=(0, 0, 0, 0)\n",
          "  row [horizontal] frame=(0, 0, 0, 0)\n",
          "    min=(0, 0) max=(inf, inf) stretch=(0, 0) margins=(0, 0, 0, 0) spacing=(0, 0) ",
          "align=(Left, Top)\n",
          "    ViewId(3v1) [leaf] frame=(0, 0, 0, 0)\n",
          "  ViewId(4v1) [leaf] frame=(0, 0, 0, 0)\n"] ∧ t.Traversal ⟨0, 1⟩ :=
  ⟨by decide +kernel, by decide +kernel,
    traversal_of_wellFormed (wellFormed_run namedPage) (by decide +kernel)⟩

end ViewTree

end BoxLayout
