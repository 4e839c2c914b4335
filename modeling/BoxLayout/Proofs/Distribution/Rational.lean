import Mathlib
import BoxLayout.Proofs.Distribution.Deficit

/-!
# Shares without rounding

Items of rational natural extents get rational shares of a rational extent, with any tolerance and any
limit of passes. Nothing has to be tame for that: a pass divides by a total only if there is a claim in
it, and an item is closed at a bound only when an offer has reached it, so the bound is no infinity.

## The architecture

* **`Direction.isFinite_offer`** — one offer, in either direction.
* **`Direction.isFinite_pass`**, **`Direction.isFinite_run`** — the step that one pass makes, and then
  all passes.
* **`Item.isFinite_distribute`**, **`Item.isFinite_leftover`** — the shares of a distribution, and what
  is left over.
-/

namespace BoxLayout

/-! ## Passes -/

namespace Direction

variable {shares : List (Share Exact)}

/-- An offer of a number leaves a number: an item that reaches its bound has a bound to reach. -/
theorem isFinite_offer (d : Direction) {amount total : Rat} (htotal : total ≠ 0) {s : Share Exact}
    (hitem : s.item.Regular) (hsize : Scalar.isFinite s.size = true) :
    Scalar.isFinite (d.offer (.finite amount) (.finite total) s).size = true := by
  obtain ⟨target, htarget⟩ : ∃ target : Rat,
      d.target (.finite amount) (.finite total) s.item = .finite target := by
    cases d with
    | grow => exact ⟨_, (hitem.target_grow htotal).trans (hitem.rise_eq _)⟩
    | shrink => exact ⟨_, hitem.ranged.target_shrink htotal⟩
  unfold offer
  dsimp only
  rw [htarget]
  -- a bound that is reached lies between zero and the target, so it is as finite as that
  split_ifs with hclosed hreaches
  · exact hsize
  · cases d with
    | grow =>
      have hmax : Scalar.zero ≤ s.item.max :=
        Scalar.le_trans hitem.zero_le_min hitem.toProper.min_le_max
      have hle : s.item.max ≤ .finite target := of_decide_eq_true hreaches
      exact (Scalar.isExtent_iff.mp (Scalar.isExtent_of_le hmax hle rfl)).1
    | shrink =>
      show Scalar.isFinite s.item.min = true
      rw [hitem.ranged.min_eq]
      rfl
  · rfl

/-- **What one pass keeps**: numbers. -/
theorem isFinite_pass {d : Direction} {epsilon : Exact} {available : Rat} {report : PassReport Exact}
    {after : List (Share Exact)}
    (h : ∀ s ∈ shares, s.item.Regular ∧ Scalar.isFinite s.size = true)
    (hpassed : d.pass epsilon (.finite available) shares = some (report, after)) :
    ∀ s ∈ after, s.item.Regular ∧ Scalar.isFinite s.size = true := by
  obtain ⟨htotal, -, -, rfl⟩ := pass_eq_some_iff.mp hpassed
  have hclaim : ∀ s ∈ shares, Scalar.isFinite (d.claim s.item) = true := by
    intro s hs
    cases d with
    | grow => exact (h s hs).1.weight_isFinite
    | shrink =>
      rw [(h s hs).1.ranged.claim_shrink]
      rfl
  have hused := used_eq fun s hs => ⟨(h s hs).2, (h s hs).1.natural_isFinite⟩
  obtain ⟨amount, hamount⟩ : ∃ amount : Rat,
      d.amount (.finite available) (used shares) = .finite amount := by
    rw [hused]
    cases d with
    | grow => exact ⟨_, Exact.finite_sub _ _⟩
    | shrink => exact ⟨_, Exact.finite_sub _ _⟩
  rw [totalClaim_eq hclaim] at htotal ⊢
  rw [hamount]
  -- there is a claim to divide by, or the pass would have ended the run
  have hne : (shares.map (Share.openClaim d)).sum ≠ 0 := by
    intro hzero
    rw [hzero] at htotal
    exact htotal (Exact.finite_le_finite.mpr (le_refl 0))
  intro offered hoffered
  obtain ⟨s, hs, rfl⟩ := List.mem_map.mp hoffered
  rw [item_offer]
  exact ⟨(h s hs).1, d.isFinite_offer hne (h s hs).1 (h s hs).2⟩

theorem isFinite_run (d : Direction) {items : List (Item Exact)} (hitems : ∀ i ∈ items, i.Regular)
    (epsilon : Exact) (available : Rat) (limit : ℕ) :
    ∀ s ∈ (d.run epsilon (.finite available) limit (items.map d.opening)).shares,
      Scalar.isFinite s.size = true := by
  have hrun : ∀ s ∈ (d.run epsilon (.finite available) limit (items.map d.opening)).shares,
      s.item.Regular ∧ Scalar.isFinite s.size = true := by
    refine run_induction (P := fun shares => ∀ s ∈ shares,
      s.item.Regular ∧ Scalar.isFinite s.size = true) ?_ isFinite_pass
    intro s hs
    obtain ⟨i, hi, rfl⟩ := List.mem_map.mp hs
    exact ⟨hitems i hi, (hitems i hi).natural_isFinite⟩
  exact fun s hs => (hrun s hs).2

end Direction

/-! ## Distributions -/

/-- **Every share is a number**, with any tolerance and any limit of passes. -/
theorem Item.isFinite_distribute (settings : Settings Exact) {items : List (Item Exact)}
    (hitems : ∀ i ∈ items, i.Regular) (available : Rat) {size : Exact}
    (hsize : size ∈ (distribute settings items (.finite available)).sizes) :
    Scalar.isFinite size = true := by
  cases hd : Direction.choose? settings items (.finite available) with
  | none =>
    rw [sizes_distribute_of_choose?_eq_none hd] at hsize
    obtain ⟨i, hi, rfl⟩ := List.mem_map.mp hsize
    exact (hitems i hi).natural_isFinite
  | some d =>
    rw [sizes_distribute_of_choose? hd] at hsize
    obtain ⟨s, hs, rfl⟩ := List.mem_map.mp hsize
    exact d.isFinite_run hitems _ _ _ s hs

/-- And so is what is left over. -/
theorem Item.isFinite_leftover (settings : Settings Exact) {items : List (Item Exact)}
    (hitems : ∀ i ∈ items, i.Regular) (available : Rat) :
    Scalar.isFinite (distribute settings items (.finite available)).leftover = true := by
  have hsum := Exact.sum_eq_finite fun _ => isFinite_distribute settings hitems available
  show Scalar.isFinite (.finite available - Scalar.sum (distribute settings items _).sizes) = true
  rw [hsum, Exact.finite_sub]
  rfl

end BoxLayout
