import Mathlib
import BoxLayout.Proofs.Distribution.Bounds
import BoxLayout.Proofs.Scalar.Exact

/-!
# Totals without rounding

What a pass adds up, read as rationals. Items have rational natural extents and weights; only their
maxima may be infinite, and no sum has a maximum in it that has not been reached.

* **`Exact.toRat`**, **`Exact.sum_eq_finite`** — lengths and their sums as rationals.
* **`Item.Regular`** — what is asked of an item.
* **`Share.rest`**, **`Share.openClaim`** — what a share adds to the extent used and to the sum of
  claims.
* **`Direction.used_eq`**, **`Direction.totalClaim_eq`** — the two totals.
* **`Direction.countP_offer`**, **`Direction.countP_offer_lt`** — how many items a pass leaves open.
-/

namespace BoxLayout

/-! ## Rational readings -/

/-- The rational that a length is; nothing for one that is none. -/
def Exact.toRat : Exact → Rat
  | finite q => q
  | _ => 0

theorem Exact.eq_finite_toRat {a : Exact} (h : Scalar.isFinite a = true) : a = finite a.toRat := by
  obtain ⟨q, rfl⟩ := Exact.isFinite_iff.mp h
  rfl

/-- A sum of rationals is the rational sum, whatever it starts from. -/
theorem Exact.sum_map_finite {β : Type} (f : β → Rat) (xs : List β) :
    Scalar.sum (xs.map fun x => finite (f x)) = finite (xs.map f).sum := by
  -- the induction is on the list, for any sum so far
  have hall (a : Rat) : (xs.map fun x => finite (f x)).foldl (· + ·) (finite a) =
      finite (a + (xs.map f).sum) := by
    induction xs generalizing a with
    | nil => simp
    | cons x xs ih => rw [List.map_cons, List.foldl_cons, finite_add, ih, List.map_cons,
        List.sum_cons, add_assoc]
  rw [Scalar.sum, zero_eq, neg_finite, hall, neg_zero, zero_add]

/-- The same for lengths that are known to be rationals. -/
theorem Exact.sum_eq_finite {xs : List Exact} (h : ∀ x ∈ xs, Scalar.isFinite x = true) :
    Scalar.sum xs = finite (xs.map toRat).sum := by
  rw [← sum_map_finite, List.map_congr_left fun x hx => (eq_finite_toRat (h x hx)).symm,
    List.map_id']

/-! ## Items -/

namespace Item

/-- An item whose natural extent and whose weight are rationals. Its maximum may be none. -/
structure Regular (item : Item Exact) : Prop extends item.Proper where
  zero_le_min : Scalar.zero ≤ item.min
  natural_isFinite : Scalar.isFinite item.natural = true
  weight_isFinite : Scalar.isFinite item.weight = true

variable {item : Item Exact}

theorem Regular.natural_eq (h : item.Regular) : item.natural = .finite item.natural.toRat :=
  Exact.eq_finite_toRat h.natural_isFinite

theorem Regular.weight_eq (h : item.Regular) : item.weight = .finite item.weight.toRat :=
  Exact.eq_finite_toRat h.weight_isFinite

theorem Regular.zero_le_toRat_weight (h : item.Regular) : 0 ≤ item.weight.toRat := by
  have hle := h.zero_le_weight
  rw [h.weight_eq] at hle
  exact Exact.finite_le_finite.mp hle

/-- An item takes part in growing just if it has a weight and room below its maximum. -/
theorem Regular.exempt_grow (h : item.Regular) :
    Direction.grow.exempt item =
      !(decide (Scalar.zero < item.weight) && decide (item.natural < item.max)) := by
  have hn := Exact.ne_nan_of_le h.natural_le_max
  have hn' := Exact.ne_nan_of_le h.zero_le_weight
  rw [Bool.not_and, decide_eq_decide.mpr (Exact.lt_iff_not_le hn.1 hn.2),
    decide_eq_decide.mpr (Exact.lt_iff_not_le hn'.1 hn'.2), decide_not, decide_not, Bool.not_not,
    Bool.not_not]
  rfl

end Item

/-! ## Shares -/

namespace Share

/-- The extent of a share before a pass makes its offers. -/
def rest (s : Share Exact) : Rat := (if s.closed then s.size else s.item.natural).toRat

/-- What a share claims of a pass. -/
def openClaim (d : Direction) (s : Share Exact) : Rat :=
  if s.closed then 0 else (d.claim s.item).toRat

theorem zero_le_openClaim {s : Share Exact} (hitem : s.item.Regular) : 0 ≤ s.openClaim .grow := by
  unfold openClaim
  split_ifs
  · exact le_refl 0
  · exact hitem.zero_le_toRat_weight

end Share

/-! ## Passes -/

namespace Direction

variable {shares : List (Share Exact)}

/-- The extent used is the sum of what the shares have before the offers. -/
theorem used_eq
    (h : ∀ s ∈ shares, Scalar.isFinite s.size = true ∧ Scalar.isFinite s.item.natural = true) :
    used shares = .finite (shares.map Share.rest).sum := by
  unfold used
  rw [Exact.sum_eq_finite, List.map_map]
  · rfl
  · intro x hx
    obtain ⟨s, hs, rfl⟩ := List.mem_map.mp hx
    split_ifs
    · exact (h s hs).1
    · exact (h s hs).2

/-- The total is the sum of the open claims; those of closed shares are counted as nothing. -/
theorem totalClaim_eq {d : Direction}
    (h : ∀ s ∈ shares, Scalar.isFinite (d.claim s.item) = true) :
    d.totalClaim shares = .finite (shares.map (Share.openClaim d)).sum := by
  have hsum : ((shares.filter fun s => !s.closed).map fun s => (d.claim s.item).toRat).sum =
      (shares.map (Share.openClaim d)).sum := by
    -- the induction is on the list alone; what is said of its members is needed below
    clear h
    induction shares with
    | nil => rfl
    | cons s shares ih => cases hclosed : s.closed <;> simp [hclosed, Share.openClaim, ih]
  unfold totalClaim
  rw [Exact.sum_eq_finite, List.map_map]
  · exact congrArg Exact.finite hsum
  · intro x hx
    obtain ⟨s, hs, rfl⟩ := List.mem_map.mp hx
    exact h s (List.mem_of_mem_filter hs)

/-- A pass closes what it closes, and leaves the rest open. -/
theorem countP_offer (d : Direction) (amount total : Exact) (shares : List (Share Exact)) :
    (shares.map (d.offer amount total)).countP (fun s => !s.closed) +
      shares.countP (d.closes amount total) = shares.countP fun s => !s.closed := by
  induction shares with
  | nil => rfl
  | cons s shares ih =>
    -- one share: it is closed by this pass, or as open or closed as before
    have hshare : (if !(d.offer amount total s).closed then 1 else 0) +
        (if d.closes amount total s then 1 else 0) = if !s.closed then 1 else 0 := by
      unfold offer closes
      cases hclosed : s.closed with
      | true => simp [hclosed]
      | false =>
        cases hreaches : d.reaches s.item (d.target amount total s.item) <;> simp [hreaches]
    simp only [List.map_cons, List.countP_cons]
    omega

/-- A pass that closes an item leaves fewer open. -/
theorem countP_offer_lt {d : Direction} {amount total : Exact}
    (h : shares.any (d.closes amount total) = true) :
    (shares.map (d.offer amount total)).countP (fun s => !s.closed) <
      shares.countP fun s => !s.closed := by
  have hcount := countP_offer d amount total shares
  obtain ⟨s, hs, hcloses⟩ := List.any_eq_true.mp h
  have hpos : 0 < shares.countP (d.closes amount total) :=
    List.countP_pos_iff.mpr ⟨s, hs, hcloses⟩
  omega

end Direction

end BoxLayout
