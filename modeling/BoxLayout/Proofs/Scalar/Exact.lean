import Mathlib
import BoxLayout.Scalar.Exact

/-!
# The order and the arithmetic of exact lengths

`Exact` is the rationals with two infinities and a NaN. Every operation is a table over the four
constructors; this module turns the tables into laws, so that no later proof opens them again.

* **`finite_add`, `finite_le_finite`, …** — on rationals the operations are those of the field.
* **`finite_max`, `foldl_max_map_finite`** — the larger of two of them, and the largest of a list.
* **`le_iff_compare?`, `lt_iff_compare?`** — both ways to ask for the order, read off one comparison.
* **`le_trans`, `le_total`, `le_antisymm`** — away from NaN the order is total.
* **`le_add_of_nonneg`, `sub_le_of_nonneg`** — what adding and taking away do to the order.
* **`mul_nonneg`, `div_nonneg`** — products and quotients of lengths are lengths, or NaN.
-/

namespace BoxLayout.Exact

/-! ## On rationals

The instance hides the tables behind `Scalar`; these equations are what `simp` computes with. -/

@[simp] theorem finite_add (a b : Rat) : (finite a + finite b : Exact) = finite (a + b) := rfl

@[simp] theorem neg_finite (a : Rat) : (-finite a : Exact) = finite (-a) := rfl

@[simp] theorem finite_sub (a b : Rat) : (finite a - finite b : Exact) = finite (a - b) := by
  show finite (a + -b) = finite (a - b)
  rw [sub_eq_add_neg]

@[simp] theorem finite_mul (a b : Rat) : (finite a * finite b : Exact) = finite (a * b) := rfl

/-- A quotient of rationals is that of the field as long as nothing is divided by zero, where an infinity
or NaN would come out. -/
theorem finite_div {b : Rat} (a : Rat) (hb : b ≠ 0) :
    (finite a / finite b : Exact) = finite (a / b) :=
  if_neg hb

@[simp] theorem finite_le_finite {a b : Rat} : (finite a : Exact) ≤ finite b ↔ a ≤ b :=
  decide_eq_true_iff

@[simp] theorem finite_lt_finite {a b : Rat} : (finite a : Exact) < finite b ↔ a < b := by
  show (!decide (b ≤ a)) = true ↔ a < b
  simp

@[simp] theorem zero_eq : (Scalar.zero : Exact) = finite 0 := rfl

theorem two_eq : (Scalar.two : Exact) = finite 2 := by
  show finite 1 + finite 1 = finite 2
  rw [finite_add]
  norm_num

protected theorem add_zero (a : Exact) : a + Scalar.zero = a := by
  cases a with
  | finite q => exact congrArg finite (Rat.add_zero q)
  | _ => rfl

/-- What is taken away as a number and given back leaves nothing behind. -/
protected theorem sub_add_cancel (a : Exact) (b : Rat) : a - finite b + finite b = a := by
  cases a with
  | finite q => rw [finite_sub, finite_add, sub_add_cancel]
  | _ => rfl

protected theorem mul_one (a : Exact) : a * finite 1 = a := by
  cases a with
  | finite q => exact congrArg finite (Rat.mul_one q)
  | _ => rfl

protected theorem add_comm (a b : Exact) : a + b = b + a := by
  cases a <;> cases b <;> first | exact congrArg finite (Rat.add_comm _ _) | rfl

protected theorem add_assoc (a b c : Exact) : a + b + c = a + (b + c) := by
  cases a <;> cases b <;> cases c <;> first | exact congrArg finite (Rat.add_assoc _ _ _) | rfl

@[simp] theorem isNaN_iff {a : Exact} : Scalar.isNaN a = true ↔ a = nan := decide_eq_true_iff

@[simp] theorem isFinite_iff {a : Exact} : Scalar.isFinite a = true ↔ ∃ q, a = finite q := by
  show isFinite a = true ↔ _
  cases a <;> simp [isFinite]

/-- A length is a rational that is not negative. -/
theorem isExtent_iff {a : Exact} :
    Scalar.isExtent a = true ↔ ∃ q : Rat, 0 ≤ q ∧ a = finite q := by
  rw [Scalar.isExtent, Bool.and_eq_true, isFinite_iff, decide_eq_true_iff]
  constructor
  · rintro ⟨⟨q, rfl⟩, hle⟩
    exact ⟨q, finite_le_finite.mp hle, rfl⟩
  · rintro ⟨q, hq, rfl⟩
    exact ⟨⟨q, rfl⟩, finite_le_finite.mpr hq⟩

/-- Lengths add up to a length, since there is no number that is too large. -/
theorem isExtent_add {a b : Exact} (ha : Scalar.isExtent a = true)
    (hb : Scalar.isExtent b = true) : Scalar.isExtent (a + b) = true := by
  obtain ⟨q, hq, rfl⟩ := isExtent_iff.mp ha
  obtain ⟨r, hr, rfl⟩ := isExtent_iff.mp hb
  exact isExtent_iff.mpr ⟨q + r, add_nonneg hq hr, rfl⟩

theorem finite_max (a b : Rat) : Scalar.max (finite a) (finite b) = finite (max a b) := by
  unfold Scalar.max
  rw [max_def]
  simp only [isNaN_iff, reduceCtorEq, if_false, finite_lt_finite]
  split_ifs with h h' h'
  · -- the two ways of asking which is larger agree, or the two numbers are one
    rfl
  · exact absurd h.le h'
  · exact congrArg finite (le_antisymm h' (not_lt.mp h))
  · rfl

theorem finite_min (a b : Rat) : Scalar.min (finite a) (finite b) = finite (min a b) := by
  unfold Scalar.min
  rw [min_def]
  simp only [isNaN_iff, reduceCtorEq, if_false, finite_lt_finite]
  split_ifs with h h' h'
  · exact absurd h h'.not_gt
  · rfl
  · rfl
  · exact absurd (not_lt.mp h) h'

/-- The largest of a number and some others. -/
theorem foldl_max_map_finite {β : Type} (f : β → Rat) (xs : List β) (a : Rat) :
    ∃ m : Rat, (xs.map fun x => finite (f x)).foldl Scalar.max (finite a) = finite m ∧ a ≤ m ∧
      ∀ x ∈ xs, f x ≤ m := by
  induction xs generalizing a with
  | nil => exact ⟨a, rfl, le_refl a, fun _ hx => absurd hx List.not_mem_nil⟩
  | cons x xs ih =>
    -- the larger of the start and the first number is the new start
    obtain ⟨m, heq, hle, hxs⟩ := ih (max a (f x))
    refine ⟨m, ?_, (le_max_left a (f x)).trans hle, fun y hy => ?_⟩
    · rw [List.map_cons, List.foldl_cons, finite_max, heq]
    · rcases List.mem_cons.mp hy with rfl | hy
      · exact (le_max_right a (f y)).trans hle
      · exact hxs y hy

/-! ## Comparing -/

/-- How two lengths compare, if neither of them is NaN. Both `≤` and `<` are read off it, so what is known
of a comparison is known of the two. -/
def compare? : Exact → Exact → Option Ordering
  | nan, _ | _, nan => none
  | finite a, finite b => some (compare a b)
  | infinity, infinity | negInfinity, negInfinity => some .eq
  | negInfinity, _ | _, infinity => some .lt
  | infinity, _ | _, negInfinity => some .gt

/-- Being at most is being less or equal in the comparison, which is the order of rationals where both
are. -/
theorem le_iff_compare? {a b : Exact} : a ≤ b ↔ ((compare? a b).any fun o => o.isLE) = true := by
  show ble a b = true ↔ _
  cases a <;> cases b
  case finite.finite p q => simp [ble, compare?, ← compare_le_iff_le, Ordering.isLE_iff_ne_gt]
  -- with an infinity or a NaN on a side, both tables say the same outright
  all_goals simp [ble, compare?]

/-- Being below is one answer of the comparison. -/
theorem lt_iff_compare? {a b : Exact} : a < b ↔ compare? a b = some .lt := by
  show blt a b = true ↔ _
  cases a <;> cases b
  case finite.finite p q => simp [blt, ble, compare?, compare_lt_iff_lt]
  all_goals simp [blt, ble, compare?]

/-! ## The order -/

/-- Nothing is at most a NaN, nor a NaN at most anything. -/
theorem ne_nan_of_le {a b : Exact} (h : a ≤ b) : a ≠ nan ∧ b ≠ nan := by
  change ble a b = true at h
  cases a <;> cases b <;> simp_all [ble]

@[simp] theorem not_le_nan {a : Exact} : ¬ a ≤ nan := fun h => (ne_nan_of_le h).2 rfl

protected theorem le_refl {a : Exact} (h : a ≠ nan) : a ≤ a := by
  show ble a a = true
  cases a <;> simp_all [ble]

protected theorem le_trans {a b c : Exact} (hab : a ≤ b) (hbc : b ≤ c) : a ≤ c := by
  change ble a b = true at hab
  change ble b c = true at hbc
  show ble a c = true
  cases a <;> cases b <;> cases c <;> simp_all [ble]
  exact hab.trans hbc

/-- Away from NaN, being strictly below is not being at most below the other way. -/
theorem lt_iff_not_le {a b : Exact} (ha : a ≠ nan) (hb : b ≠ nan) : a < b ↔ ¬ b ≤ a := by
  show blt a b = true ↔ ¬ ble b a = true
  cases a <;> cases b <;> simp_all [blt]

/-- Nor is anything below a NaN. -/
theorem ne_nan_of_lt {a b : Exact} (h : a < b) : a ≠ nan ∧ b ≠ nan := by
  change blt a b = true at h
  cases a <;> cases b <;> simp_all [blt, ble]

protected theorem le_total {a b : Exact} (ha : a ≠ nan) (hb : b ≠ nan) : a ≤ b ∨ b ≤ a := by
  show ble a b = true ∨ ble b a = true
  cases a <;> cases b <;> simp_all [ble]
  exact le_total _ _

protected theorem le_of_lt {a b : Exact} (h : a < b) : a ≤ b := by
  have hn := ne_nan_of_lt h
  exact (Exact.le_total hn.1 hn.2).resolve_right ((lt_iff_not_le hn.1 hn.2).mp h)

protected theorem le_antisymm {a b : Exact} (hab : a ≤ b) (hba : b ≤ a) : a = b := by
  change ble a b = true at hab
  change ble b a = true at hba
  cases a <;> cases b <;> simp_all [ble]
  exact le_antisymm hab hba

/-- What is below a negated length is negated along with it. -/
theorem lt_neg_comm {a b : Exact} : a < -b ↔ b < -a := by
  show blt a (neg b) = true ↔ blt b (neg a) = true
  cases a <;> cases b <;> simp [blt, ble, neg, lt_neg]

/-- What has a number for its distance to a number is a number. -/
theorem exists_finite_of_sub {a : Exact} {b q : Rat} (h : a - finite b = finite q) :
    ∃ r, a = finite r := by
  change add a (neg (finite b)) = finite q at h
  cases a <;> simp_all [add, neg]

/-- A number is below another one and some tolerance if it exceeds it by no more than that. -/
theorem le_add_of_sub_le {a b : Rat} {c : Exact} (h : finite (a - b) ≤ c) :
    finite a ≤ finite b + c := by
  change ble (finite (a - b)) c = true at h
  show ble (finite a) (add (finite b) c) = true
  cases c <;> simp_all [ble, add, add_comm]

/-- What lies between two ends is a number, and so is the end where it starts. -/
theorem exists_finite_of_between {a b c : Exact} (hstart : a ≤ b) (hend : b < a + c) :
    ∃ p q, a = finite p ∧ b = finite q := by
  change ble a b = true at hstart
  change blt b (add a c) = true at hend
  cases a <;> cases b <;> cases c <;> simp_all [ble, blt, add]

/-- Numbers can be moved from one side to the other. -/
theorem le_finite_sub_iff {a : Exact} {p q : Rat} : a ≤ finite (p - q) ↔ a + finite q ≤ finite p := by
  show ble a (finite (p - q)) = true ↔ ble (add a (finite q)) (finite p) = true
  cases a <;> simp [ble, add, le_sub_iff_add_le]

/-- What exceeds a difference exceeds the whole when the rest is added to it. -/
theorem finite_sub_lt_iff {a : Exact} {p q : Rat} : finite (p - q) < a ↔ finite p < a + finite q := by
  show blt (finite (p - q)) a = true ↔ blt (finite p) (add a (finite q)) = true
  cases a <;> simp [blt, ble, add, sub_lt_iff_lt_add]

/-! ## Lengths

The operations as they act on values from zero upwards, infinity included. A result may still be
NaN: an infinity of one sign less one of the same sign, or nothing times an infinity. -/

protected theorem le_add_of_nonneg {a b : Exact} (ha : a ≠ nan) (hb : finite 0 ≤ b)
    (hab : a + b ≠ nan) :
    a ≤ a + b := by
  change ble (finite 0) b = true at hb
  change add a b ≠ nan at hab
  show ble a (add a b) = true
  cases a <;> cases b <;> simp_all [ble, add]

/-- Adding on the left keeps the order of lengths, infinity included. -/
protected theorem add_le_add_left {a b c : Exact} (ha : finite 0 ≤ a) (hb : finite 0 ≤ b)
    (hbc : b ≤ c) : a + b ≤ a + c := by
  change ble (finite 0) a = true at ha
  change ble (finite 0) b = true at hb
  change ble b c = true at hbc
  show ble (add a b) (add a c) = true
  cases a <;> cases b <;> cases c <;> simp_all [ble, add]

/-- Numbers of either sign keep the order of what is added to them, infinities included. -/
theorem finite_add_le_finite_add {p q : Rat} {a b : Exact} (hpq : p ≤ q) (hab : a ≤ b) :
    finite p + a ≤ finite q + b := by
  change ble a b = true at hab
  show ble (add (finite p) a) (add (finite q) b) = true
  cases a <;> cases b <;> simp_all [ble, add]
  exact add_le_add hpq hab

/-- A length added to an infinity does not show. -/
theorem infinity_add_of_nonneg {a : Exact} (ha : finite 0 ≤ a) : infinity + a = infinity := by
  change ble (finite 0) a = true at ha
  show add infinity a = infinity
  cases a <;> simp_all [ble, add]

/-- An infinity times a length is infinite, unless the length is nothing. -/
theorem infinity_mul_of_nonneg {a : Exact} (ha : finite 0 ≤ a) :
    infinity * a = nan ∨ infinity * a = infinity := by
  change ble (finite 0) a = true at ha
  show mul infinity a = nan ∨ mul infinity a = infinity
  cases a with
  -- nothing times an infinity is the case that is left open
  | finite q =>
    rcases (of_decide_eq_true ha).eq_or_lt with rfl | hq
    · exact Or.inl rfl
    · exact Or.inr (if_pos hq)
  | infinity => exact Or.inr rfl
  | nan | negInfinity => nomatch ha

/-- Taking a length away makes nothing larger, as long as the result is no NaN. -/
theorem sub_le_of_nonneg {a b : Exact} (ha : a ≠ nan) (hb : finite 0 ≤ b) (hab : a - b ≠ nan) :
    a - b ≤ a := by
  change ble (finite 0) b = true at hb
  change add a (neg b) ≠ nan at hab
  show ble (add a (neg b)) a = true
  cases a <;> cases b <;> simp_all [ble, add, neg]

/-- What is taken away from something larger leaves no less than nothing. -/
theorem sub_nonneg_of_le {a b : Exact} (h : b ≤ a) (hab : a - b ≠ nan) : finite 0 ≤ a - b := by
  change ble b a = true at h
  change add a (neg b) ≠ nan at hab
  show ble (finite 0) (add a (neg b)) = true
  cases a <;> cases b <;> simp_all [ble, add, neg]

/-- What is taken away from something smaller leaves no more than nothing. -/
theorem sub_nonpos_of_le {a b : Exact} (h : a ≤ b) (hab : a - b ≠ nan) : a - b ≤ finite 0 := by
  change ble a b = true at h
  change add a (neg b) ≠ nan at hab
  show ble (add a (neg b)) (finite 0) = true
  cases a <;> cases b <;> simp_all [ble, add, neg]

theorem neg_le_zero {a : Exact} (h : finite 0 ≤ a) : -a ≤ finite 0 := by
  change ble (finite 0) a = true at h
  show ble (neg a) (finite 0) = true
  cases a <;> simp_all [ble, neg]

/-- The infinity that a product with a length comes to is the positive one. -/
theorem signedInfinity_of_nonneg {a : Rat} (ha : 0 ≤ a) (h : signedInfinity a ≠ nan) :
    signedInfinity a = infinity := by
  rcases ha.lt_or_eq with hpos | rfl
  · exact if_pos hpos
  · exact absurd rfl h

protected theorem mul_nonneg {a b : Exact} (ha : finite 0 ≤ a) (hb : finite 0 ≤ b)
    (hab : a * b ≠ nan) :
    finite 0 ≤ a * b := by
  change ble (finite 0) a = true at ha
  change ble (finite 0) b = true at hb
  change mul a b ≠ nan at hab
  show ble (finite 0) (mul a b) = true
  cases a <;> cases b <;> simp only [ble, mul, decide_eq_true_eq, Bool.false_eq_true] at *
  case finite.finite => exact mul_nonneg ha hb
  case finite.infinity => rw [signedInfinity_of_nonneg ha hab]
  case infinity.finite => rw [signedInfinity_of_nonneg hb hab]

protected theorem div_nonneg {a b : Exact} (ha : finite 0 ≤ a) (hb : finite 0 < b)
    (hab : a / b ≠ nan) :
    finite 0 ≤ a / b := by
  change ble (finite 0) a = true at ha
  change blt (finite 0) b = true at hb
  change div a b ≠ nan at hab
  show ble (finite 0) (div a b) = true
  cases a <;> cases b <;> simp_all [ble, blt, div]
  case finite.finite a b =>
    rw [if_neg hb.ne']
    exact decide_eq_true (div_nonneg ha hb.le)
  case infinity.finite b =>
    rw [if_neg hb.le.not_gt]

/-- What is bounded by a rational is not infinite. -/
theorem lt_infinity_of_le {a : Exact} {q : Rat} (h : a ≤ finite q) : a < infinity := by
  change ble a (finite q) = true at h
  show blt a infinity = true
  cases a <;> simp_all [ble, blt]

/-- A length times a number above zero is never left open. -/
theorem mul_finite_ne_nan {a : Exact} {q : Rat} (ha : finite 0 ≤ a) (hq : 0 < q) :
    a * finite q ≠ nan := by
  change ble (finite 0) a = true at ha
  show mul a (finite q) ≠ nan
  cases a <;> simp_all [ble, mul, signedInfinity]

/-- Nor is a length over a number above zero. -/
theorem div_finite_ne_nan {a : Exact} {q : Rat} (ha : finite 0 ≤ a) (hq : 0 < q) :
    a / finite q ≠ nan := by
  change ble (finite 0) a = true at ha
  show div a (finite q) ≠ nan
  cases a <;> simp_all [ble, div, hq.ne', hq.not_gt]

/-- The difference of a length and of what is not infinite is no NaN, in either order. -/
theorem sub_ne_nan {a b : Exact} (ha : a < infinity) (hb : finite 0 ≤ b) :
    a - b ≠ nan ∧ b - a ≠ nan := by
  change blt a infinity = true at ha
  change ble (finite 0) b = true at hb
  show add a (neg b) ≠ nan ∧ add b (neg a) ≠ nan
  cases a <;> cases b <;> simp_all [blt, ble, add, neg]

/-- More shared among fewer gives more. -/
theorem finite_div_le_div {p q r : Rat} {d : Exact} (hp : 0 ≤ p) (hpq : p ≤ q) (hr : 0 < r)
    (hd : finite r ≤ d) : finite p / d ≤ finite q / finite r := by
  rw [finite_div q hr.ne']
  cases d with
  | nan => exact absurd hd not_le_nan
  | negInfinity => nomatch hd
  -- an infinite number of parts leaves nothing for each
  | infinity => exact finite_le_finite.mpr (div_nonneg (hp.trans hpq) hr.le)
  -- for numbers it is the monotony of the quotient in both of its arguments
  | finite s =>
    have hrs := finite_le_finite.mp hd
    rw [finite_div p (hr.trans_le hrs).ne', finite_le_finite]
    exact div_le_div₀ (hp.trans hpq) hpq hr hrs

/-! ## NaN

An operation on a NaN is a NaN, so the operands of a result that is none are none either. -/

@[simp] theorem nan_add (b : Exact) : (nan + b : Exact) = nan := by cases b <;> rfl

@[simp] theorem add_nan (a : Exact) : (a + nan : Exact) = nan := by cases a <;> rfl

@[simp] theorem nan_sub (b : Exact) : (nan - b : Exact) = nan := by cases b <;> rfl

@[simp] theorem sub_nan (a : Exact) : (a - nan : Exact) = nan := by cases a <;> rfl

@[simp] theorem nan_mul (b : Exact) : (nan * b : Exact) = nan := by cases b <;> rfl

@[simp] theorem mul_nan (a : Exact) : (a * nan : Exact) = nan := by cases a <;> rfl

@[simp] theorem nan_div (b : Exact) : (nan / b : Exact) = nan := by cases b <;> rfl

@[simp] theorem div_nan (a : Exact) : (a / nan : Exact) = nan := by cases a <;> rfl

end BoxLayout.Exact
