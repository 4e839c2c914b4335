import BoxLayout.Proofs.Scalar.Rounded

/-!
# Lengths that count as the same

Two runs of a pass are compared length by length. What it takes for two lengths to count as the same
is that no comparison tells them apart and that every operation a pass makes keeps them so. Equality
is one such relation. Another, for lengths that round, is to stand for the same number, as the two
zeros do.

## The architecture

* **`Likeness`** — the relation with what it keeps. A quotient is only asked for where a pass takes
  one: by a length above zero, and by two.
* **`Likeness.max`**, **`Likeness.min`**, **`Likeness.sum`** — what follows for the operations that
  are made of others.
* **`Likeness.equal`**, **`Likeness.sameValue`** — the two relations.
* **`Likeness.Balanced`** — the larger of two lengths does not depend on which of them comes first.
-/

namespace BoxLayout.Scalar

variable {α : Type} [Scalar α]

/-- A relation that says which lengths count as the same. -/
structure Likeness (α : Type) [Scalar α] where
  like : α → α → Prop
  refl : ∀ a, like a a
  trans : ∀ {a b c}, like a b → like b c → like a c
  lt_iff : ∀ {a a' b b'}, like a a' → like b b' → (a < b ↔ a' < b')
  le_iff : ∀ {a a' b b'}, like a a' → like b b' → (a ≤ b ↔ a' ≤ b')
  isNaN_eq : ∀ {a a'}, like a a' → isNaN a = isNaN a'
  isFinite_eq : ∀ {a a'}, like a a' → isFinite a = isFinite a'
  neg : ∀ {a a'}, like a a' → like (-a) (-a')
  add : ∀ {a a' b b'}, like a a' → like b b' → like (a + b) (a' + b')
  sub : ∀ {a a' b b'}, like a a' → like b b' → like (a - b) (a' - b')
  mul : ∀ {a a' b b'}, like a a' → like b b' → like (a * b) (a' * b')
  div : ∀ {a a' b b'}, ¬ b ≤ zero → like a a' → like b b' → like (a / b) (a' / b')
  half : ∀ {a a'}, like a a' → like (a / two) (a' / two)

namespace Likeness

variable (L : Likeness α) {a a' b b' : α}

/-! ## Operations made of others -/

theorem max (ha : L.like a a') (hb : L.like b b') :
    L.like (Scalar.max a b) (Scalar.max a' b') := by
  simp only [Scalar.max, L.isNaN_eq ha, L.isNaN_eq hb, L.lt_iff ha hb]
  split_ifs <;> assumption

theorem min (ha : L.like a a') (hb : L.like b b') :
    L.like (Scalar.min a b) (Scalar.min a' b') := by
  simp only [Scalar.min, L.isNaN_eq ha, L.isNaN_eq hb, L.lt_iff hb ha]
  split_ifs <;> assumption

theorem isExtent_eq (ha : L.like a a') : isExtent a = isExtent a' := by
  simp only [isExtent, L.isFinite_eq ha, L.le_iff (L.refl zero) ha]

/-- Sums of like lengths are alike, for they are taken in the same order. -/
theorem sum {xs xs' : List α} (h : List.Forall₂ L.like xs xs') :
    L.like (Scalar.sum xs) (Scalar.sum xs') := by
  unfold Scalar.sum
  refine List.rel_foldl (P := L.like) (R := L.like) ?_ (L.refl _) h
  exact fun _ _ hsum _ _ hx => L.add hsum hx

/-! ## Either order -/

/-- Neither the larger nor the smaller of two lengths depends on which of them comes first. -/
structure Balanced : Prop where
  max_comm : ∀ a b, L.like (Scalar.max a b) (Scalar.max b a)
  min_comm : ∀ a b, L.like (Scalar.min a b) (Scalar.min b a)

/-! ## Equal lengths -/

/-- Lengths that count as the same only if they are. -/
def equal : Likeness α where
  like := Eq
  refl _ := rfl
  trans := Eq.trans
  lt_iff ha hb := by rw [ha, hb]
  le_iff ha hb := by rw [ha, hb]
  isNaN_eq ha := by rw [ha]
  isFinite_eq ha := by rw [ha]
  neg ha := by rw [ha]
  add ha hb := by rw [ha, hb]
  sub ha hb := by rw [ha, hb]
  mul ha hb := by rw [ha, hb]
  div _ ha hb := by rw [ha, hb]
  half ha := by rw [ha]

end Likeness

/-! ## Lengths of the same value -/

section

variable [Rounded α]

open Rounded

/-- Two is no zero: rounding keeps it at one at least. -/
theorem value_two_ne_zero : value (two : α) ≠ Exact.finite 0 := by
  have hsum : value (one : α) ≤ value (one : α) + value (one : α) := by
    rw [value_one]
    exact Exact.finite_le_finite.mpr (by norm_num)
  have hround := round_mono (α := α) hsum
  intro htwo
  rw [two, value_add] at htwo
  rw [htwo, round_value, value_one, Exact.finite_le_finite] at hround
  norm_num at hround

/-- What a pass divides by stands for no zero. -/
theorem value_ne_zero_of_not_le {b : α} (h : ¬ b ≤ zero) : value b ≠ Exact.finite 0 := by
  intro hb
  rw [le_iff, hb, value_zero] at h
  exact h (Exact.finite_le_finite.mpr le_rfl)

/-- Lengths that count as the same if they stand for the same number, or for none both. -/
def Likeness.sameValue : Likeness α where
  like a b := value a = value b
  refl _ := rfl
  trans := Eq.trans
  lt_iff ha hb := by
    refine Rounded.lt_iff.trans (Iff.trans ?_ Rounded.lt_iff.symm)
    rw [ha, hb]
  le_iff ha hb := by
    refine Rounded.le_iff.trans (Iff.trans ?_ Rounded.le_iff.symm)
    rw [ha, hb]
  isNaN_eq ha := by rw [Bool.eq_iff_iff, isNaN_iff, isNaN_iff, ha]
  isFinite_eq ha := by rw [Bool.eq_iff_iff, isFinite_iff, isFinite_iff, ha]
  neg ha := by rw [value_neg, value_neg, ha]
  add ha hb := by rw [value_add, value_add, ha, hb]
  sub ha hb := by rw [value_sub, value_sub, ha, hb]
  mul ha hb := by rw [value_mul, value_mul, ha, hb]
  div hpos ha hb := by
    have hne := value_ne_zero_of_not_le hpos
    rw [value_div _ _ hne, value_div _ _ (hb ▸ hne), ha, hb]
  half ha := by rw [value_div _ _ value_two_ne_zero, value_div _ _ value_two_ne_zero, ha]

/-- Of two lengths that are no NaN and of which neither is below the other, both have one value. -/
theorem value_eq_of_not_lt {a b : α} (ha : isNaN a = false) (hb : isNaN b = false)
    (hab : ¬ a < b) (hba : ¬ b < a) : value a = value b :=
  Exact.le_antisymm (le_iff.mp (Scalar.le_of_not_lt ha hb hba))
    (le_iff.mp (Scalar.le_of_not_lt hb ha hab))

/-- Whichever comes first, a NaN yields; two numbers are told apart by their values only. -/
theorem Likeness.sameValue_balanced : (Likeness.sameValue : Likeness α).Balanced where
  max_comm a b := by
    show value (Scalar.max a b) = value (Scalar.max b a)
    unfold Scalar.max
    -- only two numbers, or two that are none, are left to be compared
    cases ha : isNaN a <;> cases hb : isNaN b <;> simp only [if_true, if_false, Bool.false_eq_true]
    case false.false =>
      split_ifs with hab hba hba
      · exact absurd hba (Scalar.not_lt_of_le (Scalar.le_of_lt hab))
      · rfl
      · rfl
      · exact value_eq_of_not_lt ha hb hab hba
    case true.true => rw [isNaN_iff.mp ha, isNaN_iff.mp hb]
  min_comm a b := by
    show value (Scalar.min a b) = value (Scalar.min b a)
    unfold Scalar.min
    cases ha : isNaN a <;> cases hb : isNaN b <;> simp only [if_true, if_false, Bool.false_eq_true]
    case false.false =>
      split_ifs with hba hab hab
      · exact absurd hab (Scalar.not_lt_of_le (Scalar.le_of_lt hba))
      · rfl
      · rfl
      · exact value_eq_of_not_lt ha hb hab hba
    case true.true => rw [isNaN_iff.mp ha, isNaN_iff.mp hb]

end

end BoxLayout.Scalar
