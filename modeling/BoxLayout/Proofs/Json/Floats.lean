import Mathlib
import BoxLayout.Proofs.Decimal.Reread
import BoxLayout.Proofs.Json.Members
import BoxLayout.Proofs.Scalar.Single

/-!
# Floats in interchange text

A float is written by its shortest digits, and a reader of numbers makes of them what it does. All that
the loading of saved data asks of the reader is that it gives every float back whose text it reads.

## The architecture

* **`ofOrdinal_ordinal`**, **`ordinal_lt`** — a float is its sign and its ordinal, and a number has a
  small one.
* **`NumberReader.ReadsBack`** — what is asked of a reader; **`ReadsBack.toSingle_respelled`** — what it
  gives wherever the text of a float stands.
* **`narrow_quotient_respelled`**, **`readsBack_quotient`** — the reader of running programs does it.
-/

namespace BoxLayout

namespace Single

open Float.Model Float.Model.UnpackedFloat BinaryFormat

variable {x : Float32}

/-! ## Floats by their ordinals -/

theorem ofOrdinal_ordinal (x : Float32) : ofOrdinal (isNegative x) (ordinal x) = x := by
  have hlt := x.toBits.toNat_lt
  have hbits : (if isNegative x then 0x80000000 else 0) + ordinal x = x.toBits.toNat := by
    simp only [isNegative, ordinal, decide_eq_true_eq]
    split <;> omega
  rw [ofOrdinal, hbits, UInt32.ofNat_toNat, Float32.ofBits_toBits]

theorem toNat_unpackExponent (b : BitVec Format.binary32.numBits) :
    (unpackExponent b).toNat = b.toNat / 2 ^ 23 % 2 ^ 8 := by
  show (b.toNat >>> 23) % 2 ^ 8 = _
  rw [Nat.shiftRight_eq_div_pow]

/-- What unpacks to a number does not have the exponent field of what is none. -/
theorem unpackExponent_ne_of_isFinite {b : BitVec Format.binary32.numBits}
    (h : (UnpackedFloat.unpack Format.binary32 b).isFinite = true) :
    unpackExponent b ≠ -BitVec.ofNat Format.binary32.exponentBits 1 := by
  intro hexponent
  unfold UnpackedFloat.unpack at h
  simp only [hexponent, if_true] at h
  split_ifs at h <;> nomatch h

/-- The numbers come first among the floats of one sign. -/
theorem ordinal_lt (hx : x.isFinite = true) : ordinal x < single.infinityOrdinal := by
  by_contra hge
  refine unpackExponent_ne_of_isFinite hx (BitVec.eq_of_toNat_eq ?_)
  have hlt := x.toBits.toNat_lt
  have hordinal : 0x7F800000 ≤ x.toBits.toNat % 0x80000000 := not_lt.mp hge
  rw [toNat_unpackExponent]
  show x.toBits.toNat / 2 ^ 23 % 2 ^ 8 = 255
  omega

/-! ## What is written of a float -/

theorem magnitude_ofSingle (hx : x.isFinite = true) :
    0 < (Numeral.ofSingle x).magnitude.significand ∨ (Numeral.ofSingle x).magnitude = ⟨0, 0⟩ := by
  rcases Nat.eq_zero_or_pos (ordinal x) with hzero | hpos
  · exact Or.inr (if_pos hzero)
  · exact Or.inl (moderate_shortest hpos (ordinal_lt hx)).pos

theorem numeral?_ofSingle (hx : x.isFinite = true) :
    Json.numeral? (Numeral.ofSingle x).render = some ((Numeral.ofSingle x).respelled, []) := by
  have hread := Json.numeral?_render rfl (magnitude_ofSingle hx) (show Json.Closes [] from nofun)
  rwa [List.append_nil] at hread

theorem plain_ofSingle (x : Float32) : Json.Plain (Json.ofSingle x) := by
  unfold Json.ofSingle
  split
  case isFalse => exact .null
  case isTrue hx => exact .number rfl (magnitude_ofSingle hx)

end Single

open Single

/-- A reader gives floats back: whatever number it is that stands in the text of a float, it is read as the
float. -/
def NumberReader.ReadsBack [NumberReader] : Prop :=
  ∀ x : Float32, x.isFinite = true → ∀ n, Json.numeral? (Numeral.ofSingle x).render = some (n, []) →
    n.toSingle = x

theorem NumberReader.ReadsBack.toSingle_respelled [NumberReader] (h : NumberReader.ReadsBack)
    {x : Float32} (hx : x.isFinite = true) : (Numeral.ofSingle x).respelled.toSingle = x :=
  h x hx _ (numeral?_ofSingle hx)

/-! ## The reader of running programs -/

namespace Single

open BinaryFormat

/-- Whole numbers that are written out in full are small. -/
theorem significand_lt_of_writtenWhole {d : Decimal} (h : d.WrittenWhole) :
    d.significand * 10 ^ d.exponent.toNat < 10 ^ 13 := by
  obtain ⟨hexponent, -, hpower⟩ := h
  have hdigits : d.significand < 10 ^ d.digits.length :=
    (Nat.length_toDigits_le_iff (by norm_num) (List.length_pos_of_ne_nil Nat.toDigits_ne_nil)).mp le_rfl
  have hlength : d.digits.length + d.exponent.toNat ≤ 13 := by
    have : (d.digits.length : ℤ) + d.exponent - 1 ≤ 12 := hpower
    omega
  calc d.significand * 10 ^ d.exponent.toNat < 10 ^ d.digits.length * 10 ^ d.exponent.toNat := by
        gcongr
    _ = 10 ^ (d.digits.length + d.exponent.toNat) := (pow_add _ _ _).symm
    _ ≤ 10 ^ 13 := Nat.pow_le_pow_right (by norm_num) hlength

theorem narrow_quotient_respelled {ordinal : ℕ} (hlt : ordinal < single.infinityOrdinal) :
    narrow (single.shortest ordinal).respelled.quotient = ordinal := by
  rcases Nat.eq_zero_or_pos ordinal with rfl | hpos
  · decide +kernel
  unfold Decimal.respelled
  split_ifs with hwhole
  · have hsmall := significand_lt_of_writtenWhole hwhole
    refine narrow_quotient_whole hpos hlt (by omega) ?_
    have hvalue : (single.shortest ordinal).value =
        ((single.shortest ordinal).significand * 10 ^ (single.shortest ordinal).exponent.toNat : ℕ) := by
      rw [Decimal.value, ← Int.toNat_of_nonneg hwhole.1, zpow_natCast, Int.toNat_natCast]
      push_cast
      rfl
    exact hvalue ▸ (shortest_spec hpos hlt).1
  · exact narrow_quotient_shortest hlt

/-- **The reader that computes in 64 bits gives every float back.** -/
theorem readsBack_quotient : NumberReader.ReadsBack := by
  intro x hx n hn
  rw [numeral?_ofSingle hx] at hn
  obtain rfl := (Prod.mk.inj (Option.some.inj hn)).1
  exact (congrArg (ofOrdinal (isNegative x)) (narrow_quotient_respelled (ordinal_lt hx))).trans
    (ofOrdinal_ordinal x)

end Single

end BoxLayout
