import Mathlib
import BoxLayout.Proofs.Scalar.Operations
import BoxLayout.Proofs.Scalar.Rounded
import BoxLayout.Scalar.Single

/-!
# 32-bit lengths are rounded lengths

A 32-bit float is a packed one. What comes out of packing and unpacking again is what went in, and
always canonical, so the operations on unpacked floats carry over, and with them everything known of
rounded lengths.

* **`compare_finite`**, **`compare_eq_compare?`** — canonical floats compare as what they stand for.
* **`packedValue_finite`** — packing keeps every number there is room for; a larger one becomes
  infinite.
* **`value_ofNat`** — a count is rounded once.
* The instance of **`Scalar.Rounded`** for `Float32`.
-/

namespace BoxLayout.Single

open Float.Model Float.Model.UnpackedFloat

/-! ## Comparison -/

theorem Canonical.compare_eq {m m' : ℕ} {e e' : ℤ} (h : Canonical m e) (h' : Canonical m' e') :
    (compare e e').then (compare m m') = compare ((m : ℚ) * 2 ^ e) (m' * 2 ^ e') := by
  rcases lt_trichotomy e e' with he | rfl | he
  · rw [compare_lt_iff_lt.mpr he, compare_lt_iff_lt.mpr (h.lt_of_exponent_lt h' he)]
    rfl
  · rw [compare_eq_iff_eq.mpr rfl]
    show compare m m' = _
    have hmul := two_zpow_pos e
    rcases lt_trichotomy m m' with hm | rfl | hm
    · rw [compare_lt_iff_lt.mpr hm]
      have hq : (m : ℚ) < m' := by exact_mod_cast hm
      exact (compare_lt_iff_lt.mpr (by gcongr)).symm
    · rw [compare_eq_iff_eq.mpr rfl, compare_eq_iff_eq.mpr rfl]
    · rw [compare_gt_iff_gt.mpr hm]
      have hq : (m' : ℚ) < m := by exact_mod_cast hm
      exact (compare_gt_iff_gt.mpr (by gcongr)).symm
  · rw [compare_gt_iff_gt.mpr he, compare_gt_iff_gt.mpr (h'.lt_of_exponent_lt h he)]
    rfl

theorem compare_neg_neg (p q : ℚ) : compare (-p) (-q) = (compare p q).swap := by
  rcases lt_trichotomy p q with h | rfl | h
  · rw [compare_lt_iff_lt.mpr h, compare_gt_iff_gt.mpr (neg_lt_neg h)]
    rfl
  · rw [compare_eq_iff_eq.mpr rfl, compare_eq_iff_eq.mpr rfl]
    rfl
  · rw [compare_gt_iff_gt.mpr h, compare_lt_iff_lt.mpr (neg_lt_neg h)]
    rfl

theorem compare_zero_signed (s : Sign) {x : ℚ} (hx : 0 < x) :
    compare 0 (signFactor s * x) = match s with
      | .negative => .gt
      | .positive => .lt := by
  cases s with
  | negative => exact compare_gt_iff_gt.mpr (by rw [signFactor]; linarith)
  | positive => exact compare_lt_iff_lt.mpr (by rw [signFactor]; linarith)

theorem compare_signed_zero (s : Sign) {x : ℚ} (hx : 0 < x) :
    compare (signFactor s * x) 0 = match s with
      | .negative => .lt
      | .positive => .gt := by
  cases s with
  | negative => exact compare_lt_iff_lt.mpr (by rw [signFactor]; linarith)
  | positive => exact compare_gt_iff_gt.mpr (by rw [signFactor]; linarith)

/-- Floats are compared by sign, then by exponent and mantissa, in the reverse order below zero. -/
theorem compare_signed (s s' : Sign) {m m' : ℕ} {e e' : ℤ} (h : Canonical m e)
    (h' : Canonical m' e') :
    compare (signFactor s * (m * 2 ^ e)) (signFactor s' * (m' * 2 ^ e')) = match s, s' with
      | .negative, .negative => ((compare e e').then (compare m m')).swap
      | .negative, .positive => .lt
      | .positive, .negative => .gt
      | .positive, .positive => (compare e e').then (compare m m') := by
  have hpos := h.value_pos
  have hpos' := h'.value_pos
  rw [h.compare_eq h']
  cases s <;> cases s'
  case negative.negative =>
    rw [signFactor, neg_one_mul, neg_one_mul]
    exact compare_neg_neg _ _
  case negative.positive =>
    exact compare_lt_iff_lt.mpr (by simp only [signFactor]; linarith)
  case positive.negative =>
    exact compare_gt_iff_gt.mpr (by simp only [signFactor]; linarith)
  case positive.positive => rw [signFactor, one_mul, one_mul]

theorem compare_finite {u v : UnpackedFloat} {p q : ℚ} (hu : IsCanonical u) (hv : IsCanonical v)
    (hp : unpackedValue u = .finite p) (hq : unpackedValue v = .finite q) :
    u.compare v = some (compare p q) := by
  -- a zero has no mantissa to compare, so it is a case of its own on both sides
  cases u with
  | notANumber => nomatch hp
  | infinity s => cases s <;> nomatch hp
  | zero s =>
    obtain rfl := Exact.finite.inj hp
    cases v with
    | notANumber => nomatch hq
    | infinity s' => cases s' <;> nomatch hq
    | zero s' =>
      obtain rfl := Exact.finite.inj hq
      rfl
    | finite s' m' e' hm' =>
      obtain rfl := Exact.finite.inj hq
      rw [compare_zero_signed s' (Canonical.value_pos hv)]
      cases s' <;> rfl
  | finite s m e hm =>
    obtain rfl := Exact.finite.inj hp
    cases v with
    | notANumber => nomatch hq
    | infinity s' => cases s' <;> nomatch hq
    | zero s' =>
      obtain rfl := Exact.finite.inj hq
      rw [compare_signed_zero s (Canonical.value_pos hu)]
      cases s <;> rfl
    | finite s' m' e' hm' =>
      obtain rfl := Exact.finite.inj hq
      rw [compare_signed s s' hu hv]
      cases s <;> cases s' <;> rfl

/-- What is no number compares by a table, which is that of exact lengths. -/
theorem compare_eq_compare? {u v : UnpackedFloat} (hu : IsCanonical u) (hv : IsCanonical v) :
    u.compare v = (unpackedValue u).compare? (unpackedValue v) := by
  cases u <;> cases v
  case zero.zero | zero.finite | finite.zero | finite.finite => exact compare_finite hu hv rfl rfl
  case infinity.infinity s₁ s₂ => cases s₁ <;> cases s₂ <;> rfl
  case infinity.notANumber s => cases s <;> rfl
  case infinity.zero s _ => cases s <;> rfl
  case infinity.finite s _ _ _ _ => cases s <;> rfl
  case zero.infinity s => cases s <;> rfl
  case finite.infinity s => cases s <;> rfl
  all_goals rfl

theorem le_iff_unpackedValue {u v : UnpackedFloat} (hu : IsCanonical u) (hv : IsCanonical v) :
    u.le v = true ↔ unpackedValue u ≤ unpackedValue v := by
  rw [UnpackedFloat.le, compare_eq_compare? hu hv, Exact.le_iff_compare?]

theorem lt_iff_unpackedValue {u v : UnpackedFloat} (hu : IsCanonical u) (hv : IsCanonical v) :
    u.lt v = true ↔ unpackedValue u < unpackedValue v := by
  rw [UnpackedFloat.lt, compare_eq_compare? hu hv, Exact.lt_iff_compare?, beq_iff_eq]

/-! ## Packing -/

@[simp] theorem unpackSign_packComponents {spec : Format} (s : Sign)
    (e : BitVec spec.exponentBits) (m : BitVec spec.mantissaBitsWithoutImplicit) :
    unpackSign (packComponents spec s e m) = s.toBitVec := by
  ext i hi
  obtain rfl : i = 0 := by omega
  simp [unpackSign, packComponents, BitVec.getLsbD_append, BitVec.getLsbD_eq_getElem,
    BitVec.getElem_append]

theorem ofBitVec_toBitVec (s : Sign) : Sign.ofBitVec s.toBitVec = s := by
  cases s <;> rfl

theorem toNat_one_append (v : BitVec 23) : (1#1 ++ v).toNat = 2 ^ 23 + v.toNat := by
  rw [BitVec.toNat_append, ← Nat.shiftLeft_add_eq_or_of_lt v.isLt]
  rfl

/-- What is unpacked is canonical, and its exponent is one of the format. -/
theorem canonical_of_unpack {b : BitVec Format.binary32.numBits} {s : Sign} {m : ℕ} {e : ℤ}
    {hm : 0 < m} (h : UnpackedFloat.unpack Format.binary32 b = .finite s m e hm) :
    Canonical m e ∧ e ≤ 104 := by
  have hbias : (Format.binary32.exponentBias : ℤ) = 127 := by decide
  have hmant : (unpackMantissa b).toNat < 2 ^ 23 := (unpackMantissa b).isLt
  have hexp : (unpackExponent b).toNat < 2 ^ 8 := (unpackExponent b).isLt
  unfold UnpackedFloat.unpack at h
  simp only [hbias] at h
  split_ifs at h with hinf hnan hsub hzero
  · -- below the leading bit the exponent field is zero
    injection h with hs hm' he
    have hfield : (unpackExponent b).toNat = 0 := by
      rw [hsub]
      rfl
    rw [hfield] at he
    refine ⟨⟨hm, ?_, ?_, Or.inl ?_⟩, ?_⟩ <;> omega
  · injection h with hs hm' he
    -- otherwise the mantissa has its leading bit in front
    have hfield : (unpackExponent b).toNat ≠ 0 := fun h0 => hsub (BitVec.eq_of_toNat_eq h0)
    have hlast : (unpackExponent b).toNat ≠ 255 := fun h0 => hinf (BitVec.eq_of_toNat_eq h0)
    have hlead := toNat_one_append (unpackMantissa b)
    refine ⟨⟨hm, ?_, ?_, Or.inr ?_⟩, ?_⟩ <;> omega

theorem isCanonical_unpack (b : BitVec Format.binary32.numBits) :
    IsCanonical (UnpackedFloat.unpack Format.binary32 b) := by
  cases h : UnpackedFloat.unpack Format.binary32 b with
  | finite s m e hm => exact (canonical_of_unpack h).1
  | _ => trivial

/-- Numbers of the format are below the power of two at which numbers become infinite. -/
theorem Canonical.saturate_eq {m : ℕ} {e : ℤ} (h : Canonical m e) (he : e ≤ 104) (s : Sign) :
    saturate (signFactor s * (m * 2 ^ e)) = .finite (signFactor s * (m * 2 ^ e)) := by
  have hm : (m : ℚ) < 2 ^ 24 := by exact_mod_cast h.lt
  have hpos := h.value_pos
  have hlt : (m : ℚ) * 2 ^ e < 2 ^ 128 := by
    calc (m : ℚ) * 2 ^ e < 2 ^ 24 * 2 ^ e := by gcongr
      _ ≤ 2 ^ 24 * 2 ^ (104 : ℤ) := by
          gcongr
          norm_num
      _ = 2 ^ 128 := by norm_num
  apply saturate_of_lt <;> cases s <;> rw [signFactor] <;> linarith

theorem Canonical.saturate_eq_infinity {m : ℕ} {e : ℤ} (h : Canonical m e) (he : 105 ≤ e)
    (s : Sign) : saturate (signFactor s * (m * 2 ^ e)) = unpackedValue (.infinity s) := by
  have hm : (2 : ℚ) ^ 23 ≤ m := by exact_mod_cast h.full.resolve_left (by omega)
  have hle : (2 : ℚ) ^ 128 ≤ m * 2 ^ e := by
    calc (2 : ℚ) ^ 128 = 2 ^ 23 * 2 ^ (105 : ℤ) := by norm_num
      _ ≤ 2 ^ 23 * 2 ^ e := by
          gcongr
          norm_num
      _ ≤ m * 2 ^ e := by gcongr
  -- a full mantissa in a unit from `2 ^ 105` on reaches `2 ^ 128`
  have hbig : (0 : ℚ) < 2 ^ 128 := by norm_num
  cases s with
  | negative =>
    rw [signFactor, neg_one_mul, saturate, if_neg (by linarith), if_pos (by linarith)]
    rfl
  | positive =>
    rw [signFactor, one_mul]
    exact if_pos hle

/-- The value of a float after packing and unpacking. -/
def packedValue (u : UnpackedFloat) : Exact :=
  unpackedValue (UnpackedFloat.unpack Format.binary32 (UnpackedFloat.pack Format.binary32 u))

theorem packedValue_infinity (s : Sign) :
    unpackedValue (UnpackedFloat.unpack Format.binary32 (packedInfinity Format.binary32 s)) =
      unpackedValue (.infinity s) := by
  cases s <;> rfl

/-- A full mantissa loses its leading bit in the field and has it back from there. -/
theorem unpackedValue_normal (s : Sign) {m : ℕ} {e : ℤ} (hfull : 2 ^ 23 ≤ m) (hlt : m < 2 ^ 24)
    (hfinest : -149 ≤ e) (he : e ≤ 104) :
    unpackedValue (UnpackedFloat.unpack Format.binary32
        (packComponents Format.binary32 s (BitVec.ofNat 8 (e + 127 + (23 : ℕ)).toNat)
          (BitVec.ofNat 23 m))) = .finite (signFactor s * (m * 2 ^ e)) := by
  have hbias : (Format.binary32.exponentBias : ℤ) = 127 := by decide
  set field := (e + 127 + (23 : ℕ)).toNat with hfield
  have hexp : (BitVec.ofNat 8 field).toNat = field := by
    rw [BitVec.toNat_ofNat]
    omega
  -- the field is none of the two that are set apart, for infinities and for the finest unit
  have hlast : BitVec.ofNat 8 field ≠ -1#8 := by
    intro heq
    have hval : (BitVec.ofNat 8 field).toNat = 255 := congrArg BitVec.toNat heq
    omega
  have hzero : BitVec.ofNat 8 field ≠ 0#8 := by
    intro heq
    have hval : (BitVec.ofNat 8 field).toNat = 0 := congrArg BitVec.toNat heq
    omega
  -- the leading bit that was left out is put back
  have hmant : (1#1 ++ BitVec.ofNat 23 m).toNat = m := by
    rw [toNat_one_append, BitVec.toNat_ofNat]
    omega
  unfold UnpackedFloat.unpack
  simp only [unpackMantissa_packComponents, unpackExponent_packComponents,
    unpackSign_packComponents, ofBitVec_toBitVec, if_neg hlast, if_neg hzero, hbias, hexp]
  rw [unpackedValue_finite, hmant]
  congr 4
  omega

/-- A mantissa that is not full stands as it is, in the finest unit. -/
theorem unpackedValue_subnormal (s : Sign) {m : ℕ} (hm : 0 < m) (hlt : m < 2 ^ 23) :
    unpackedValue (UnpackedFloat.unpack Format.binary32
        (packComponents Format.binary32 s (0#8) (BitVec.ofNat 23 m))) =
      .finite (signFactor s * (m * 2 ^ (-149 : ℤ))) := by
  have hbias : (Format.binary32.exponentBias : ℤ) = 127 := by decide
  have hmant : (BitVec.ofNat 23 m).toNat = m := by
    rw [BitVec.toNat_ofNat]
    omega
  have hne : BitVec.ofNat 23 m ≠ 0#23 := by
    intro heq
    have hval : (BitVec.ofNat 23 m).toNat = 0 := congrArg BitVec.toNat heq
    omega
  have hlast : (0#8 : BitVec 8) ≠ -1#8 := by decide
  unfold UnpackedFloat.unpack
  simp only [unpackMantissa_packComponents, unpackExponent_packComponents,
    unpackSign_packComponents, ofBitVec_toBitVec, if_neg hlast, if_true, dif_neg hne, hbias]
  rw [unpackedValue_finite, hmant]
  rfl

/-- Packing and unpacking gives a number back as it was if its exponent is one of the format, and
the infinity of its sign otherwise. -/
theorem packedValue_finite {s : Sign} {m : ℕ} {e : ℤ} {hm : 0 < m} (h : Canonical m e) :
    packedValue (.finite s m e hm) = saturate (signFactor s * (m * 2 ^ e)) := by
  have hbias : (Format.binary32.exponentBias : ℤ) = 127 := by decide
  have hbits : Format.binary32.mantissaBits = 24 := by decide
  have hlt := h.lt
  have hfinest := h.finest
  unfold packedValue UnpackedFloat.pack
  simp only [hbias, hbits]
  rw [Nat.log2_eq_log_two]
  -- packing asks for the exponent first, and then whether the leading bit is there to be left out
  split_ifs with hbig hnormal
  · rw [packedValue_infinity, h.saturate_eq_infinity (by omega)]
  · have he : e ≤ 104 := by omega
    have hfull : 2 ^ 23 ≤ m := (Nat.le_log_iff_pow_le (by norm_num) hm.ne').mp (by omega)
    rw [h.saturate_eq he]
    exact unpackedValue_normal s hfull hlt hfinest he
  · -- no leading bit, which a canonical mantissa lacks in the finest unit only
    have hnot : ¬ 2 ^ 23 ≤ m := by
      intro hfull
      have hlower : 23 ≤ Nat.log 2 m := Nat.le_log_of_pow_le (by norm_num) hfull
      have hupper : Nat.log 2 m < 24 := Nat.log_lt_of_lt_pow' (by norm_num) hlt
      omega
    have he : e = -149 := h.full.resolve_right hnot
    rw [h.saturate_eq (by omega), he]
    exact unpackedValue_subnormal s hm (by omega)

/-- A result packed and unpacked stands for the exact result, rounded. -/
theorem packedValue_eq_round {u : UnpackedFloat} {x : Exact} (h : Rounds u x) :
    packedValue u = round x := by
  -- only a number is rounded; what is none is packed into bits of its own
  cases x with
  | finite q =>
    obtain ⟨hval, hcan⟩ := h
    cases u with
    | notANumber => nomatch hval
    | infinity s => cases s <;> nomatch hval
    | zero s =>
      injection hval with hval
      show _ = saturate (nearest q)
      rw [← hval, saturate_of_lt (by norm_num) (by norm_num)]
      cases s <;> rfl
    | finite s m e hm =>
      injection hval with hval
      show _ = saturate (nearest q)
      rw [packedValue_finite hcan, hval]
  | nan =>
    cases u with
    | notANumber => rfl
    | infinity s => cases s <;> nomatch h
    | zero _ | finite _ _ _ _ => nomatch h
  | infinity | negInfinity =>
    cases u with
    | notANumber => nomatch h
    | infinity s => cases s <;> first | rfl | nomatch h
    | zero _ | finite _ _ _ _ => nomatch h

/-! ## 32-bit lengths -/

/-- What a 32-bit length stands for. -/
def value (a : Float32) : Exact := unpackedValue a.toModel.unpack

theorem isCanonical_toModel (a : Float32) : IsCanonical a.toModel.unpack :=
  isCanonical_unpack _

/-- A 32-bit length is not rounded. -/
theorem round_value (a : Float32) : round (value a) = value a := by
  rw [value, ← packedValue_eq_round (rounds_self (isCanonical_toModel a))]
  cases h : a.toModel.unpack with
  | notANumber => rfl
  | infinity s => cases s <;> rfl
  | zero s => cases s <;> rfl
  | finite s m e hm =>
    obtain ⟨hcan, hle⟩ := canonical_of_unpack h
    rw [packedValue_finite hcan, hcan.saturate_eq hle]
    rfl

/-- What is too large is so on either side of zero. -/
theorem saturate_neg (q : ℚ) : saturate (-q) = -saturate q := by
  have hbig : (0 : ℚ) < 2 ^ 128 := by norm_num
  by_cases hupper : 2 ^ 128 ≤ q
  · rw [saturate, saturate, if_neg (by linarith), if_pos (by linarith), if_pos hupper]
    rfl
  · by_cases hlower : q ≤ -2 ^ 128
    · rw [saturate, saturate, if_pos (by linarith), if_neg hupper, if_pos hlower]
      rfl
    · rw [saturate, saturate, if_neg (by linarith), if_neg (by linarith), if_neg hupper,
        if_neg hlower]
      rfl

/-- Rounding is symmetric. -/
theorem round_neg (x : Exact) : round (-x) = -round x := by
  cases x with
  | finite q =>
    show saturate (nearest (-q)) = -saturate (nearest q)
    rw [nearest_neg, saturate_neg]
  | _ => rfl

theorem isNaN_iff_unpackedValue (u : UnpackedFloat) :
    u.isNaN = true ↔ unpackedValue u = .nan := by
  cases u with
  | infinity s => cases s <;> simp [UnpackedFloat.isNaN, unpackedValue]
  | _ => simp [UnpackedFloat.isNaN, unpackedValue]

theorem isFinite_iff_unpackedValue (u : UnpackedFloat) :
    u.isFinite = true ↔ ∃ q, unpackedValue u = .finite q := by
  cases u with
  | infinity s => cases s <;> simp [UnpackedFloat.isFinite, unpackedValue]
  | _ => simp [UnpackedFloat.isFinite, unpackedValue]

/-- Negating is exact. -/
theorem value_neg (a : Float32) : value (-a) = -value a := by
  have h := packedValue_eq_round (rounds_self (isCanonical_neg (isCanonical_toModel a)))
  rw [unpackedValue_neg, round_neg] at h
  rw [← round_value a]
  exact h

theorem value_one : value (Scalar.one : Float32) = .finite 1 := by
  show Exact.finite (1 * ((8388608 : ℕ) * 2 ^ (-23 : ℤ))) = Exact.finite 1
  norm_num

/-- A count that fits the mantissa is converted, and multiplied by one. -/
theorem value_toFloat32_mul_one {n : ℕ} (h : n < 2 ^ 23) :
    value (n.toUInt64.toFloat32 * Scalar.one) = round (.finite n) := by
  have hcast : n.toUInt64.toNat = n := Nat.mod_eq_of_lt (by omega)
  have hconvert : value n.toUInt64.toFloat32 = round (.finite n) := by
    refine Eq.trans (packedValue_eq_round (normalize_rounds n.toUInt64.toNat 0 .positive)) ?_
    rw [hcast, zpow_zero, mul_one, Int.cast_natCast]
  have hmul : value (n.toUInt64.toFloat32 * Scalar.one) =
      round (value n.toUInt64.toFloat32 * value Scalar.one) :=
    packedValue_eq_round (mul_rounds (isCanonical_toModel n.toUInt64.toFloat32)
      (isCanonical_toModel Scalar.one))
  rw [value_one, Exact.mul_one, round_value, hconvert] at hmul
  exact hmul

/-- Any count can be multiplied by a power of ten, which is one. The product is taken with 24 bits to
spare, so that its unit is fine enough. -/
theorem ofScientific_rounds {n : ℕ} (hn : n ≠ 0) :
    Rounds (UnpackedFloat.ofScientific Format.binary32 n 0) (.finite n) := by
  have hfits : ¬ (0 : ℤ) > 2 ^ Format.binary32.exponentBits := by decide
  have hlarge : ¬ (0 : ℤ) < -(2 ^ Format.binary32.exponentBits + (n.log2 : ℤ)) := by omega
  unfold UnpackedFloat.ofScientific
  rw [dif_neg hn, if_neg hfits, if_neg hlarge, if_pos (le_refl _)]
  have hone : (1 : ℚ) ≤ n := by exact_mod_cast Nat.pos_of_ne_zero hn
  -- the mantissa is shifted up by as much as the exponent is lowered
  have hval : ((n <<< 24 * 1 : ℕ) : ℚ) * 2 ^ (-24 + 0 : ℤ) = n := by
    rw [Nat.shiftLeft_eq]
    push_cast
    norm_num
    ring
  have hexp : -24 + 0 ≤ unitExponent (n : ℚ) := by
    have hlog : 0 ≤ Int.log 2 (n : ℚ) :=
      (Int.zpow_le_iff_le_log (by norm_num) (by linarith)).mp (by simpa using hone)
    rw [unitExponent]
    omega
  have hpos : (0 : ℚ) < (n <<< 24 * 1 : ℕ) := by
    rw [Nat.shiftLeft_eq]
    positivity
  have hround := roundWithAccuracy_rounds (.positive * .positive) (denotes_exact (n <<< 24 * 1))
    hpos (hval.symm ▸ hexp)
  rwa [hval, signFactor_mul, signFactor, one_mul, one_mul] at hround

/-- A count is rounded once. -/
theorem value_ofNat (n : ℕ) : value (Float32.ofNat n) = round (.finite n) := by
  show value (Float32.ofScientific n false 0) = _
  unfold Float32.ofScientific
  rw [if_neg Bool.false_ne_true]
  -- the conversion has a shorter way for counts that fit the mantissa
  by_cases h : n < 2 ^ 23 ∧ 0 ≤ 10
  · rw [dif_pos h]
    exact value_toFloat32_mul_one h.1
  · rw [dif_neg h]
    refine packedValue_eq_round (ofScientific_rounds ?_)
    rintro rfl
    exact h ⟨by norm_num, by norm_num⟩

/-! ## Floats of one value -/

/-- Floats that stand for one number compare as equal. -/
theorem beq_of_value_eq {a b : Float32} (ha : value a ≠ .nan) (h : value a = value b) :
    (a == b) = true := by
  have hle := (le_iff_unpackedValue (isCanonical_toModel a) (isCanonical_toModel b)).mpr
    (show value a ≤ value b from h ▸ Exact.le_refl ha)
  have hlt : ¬ a.toModel.unpack.lt b.toModel.unpack = true := fun hlt => by
    have hvalues : value a < value b :=
      (lt_iff_unpackedValue (isCanonical_toModel a) (isCanonical_toModel b)).mp hlt
    rw [← h, Exact.lt_iff_not_le ha ha] at hvalues
    exact hvalues (Exact.le_refl ha)
  show (a.toModel.unpack.compare b.toModel.unpack == some .eq) = true
  unfold UnpackedFloat.le at hle
  unfold UnpackedFloat.lt at hlt
  cases hcompare : a.toModel.unpack.compare b.toModel.unpack with
  | none => simp [hcompare] at hle
  | some order => cases order <;> simp_all

/-- **Floats that stand for the same are the same**, but for the sign of a zero. -/
theorem eq_or_of_value_eq {a b : Float32} (h : value a = value b) :
    a = b ∨ a = 0 ∧ b = -0 ∨ a = -0 ∧ b = 0 := by
  by_cases ha : value a = .nan
  · -- there is one NaN
    have hnan {x : Float32} (hx : value x = .nan) : x = Float32.nan := by
      have hisNaN : x.isNaN = true := (isNaN_iff_unpackedValue x.toModel.unpack).mpr hx
      rw [Float32.isNaN_eq_decide_eq_nan] at hisNaN
      exact of_decide_eq_true hisNaN
    exact Or.inl ((hnan ha).trans (hnan (h ▸ ha)).symm)
  · exact (Float32.beq_iff_ne_nan_and_eq.mp (beq_of_value_eq ha h)).2.2

/-- There is one infinity. -/
theorem eq_infinity_of_value_eq {a : Float32} (h : value a = .infinity) : a = Scalar.infinity := by
  have hinfinity : value (Scalar.infinity : Float32) = .infinity := rfl
  rcases eq_or_of_value_eq (h.trans hinfinity.symm) with heq | ⟨-, hzero⟩ | ⟨-, hzero⟩
  · exact heq
  · exact absurd (hinfinity.symm.trans (congrArg value hzero)) (by decide +kernel)
  · exact absurd (hinfinity.symm.trans (congrArg value hzero)) (by decide +kernel)

end BoxLayout.Single

namespace BoxLayout

open Single in
instance : Scalar.Rounded Float32 where
  value := value
  round := round
  round_mono := round_mono
  round_nan := rfl
  round_value := round_value
  le_iff {a b} := by
    show decide (a.toModel ≤ b.toModel) = true ↔ _
    rw [decide_eq_true_iff]
    exact le_iff_unpackedValue (isCanonical_toModel a) (isCanonical_toModel b)
  lt_iff {a b} := by
    show decide (a.toModel < b.toModel) = true ↔ _
    rw [decide_eq_true_iff]
    exact lt_iff_unpackedValue (isCanonical_toModel a) (isCanonical_toModel b)
  isNaN_iff {a} := isNaN_iff_unpackedValue a.toModel.unpack
  isFinite_iff {a} := isFinite_iff_unpackedValue a.toModel.unpack
  value_zero := rfl
  value_one := value_one
  value_infinity := rfl
  value_neg := value_neg
  value_add a b := packedValue_eq_round (add_rounds (isCanonical_toModel a) (isCanonical_toModel b))
  value_sub a b := packedValue_eq_round (sub_rounds (isCanonical_toModel a) (isCanonical_toModel b))
  value_mul a b := packedValue_eq_round (mul_rounds (isCanonical_toModel a) (isCanonical_toModel b))
  value_div _ b hb := packedValue_eq_round (div_rounds (isCanonical_toModel b) hb)

theorem Single.zero_le_ofCount (n : ℕ) : Scalar.zero ≤ (Scalar.ofCount n : Float32) := by
  rw [Scalar.Rounded.le_iff, Scalar.Rounded.value_zero]
  refine Eq.trans_ge (value_ofNat n) (Scalar.zero_le_round (α := Float32) ?_)
  exact Exact.finite_le_finite.mpr n.cast_nonneg

end BoxLayout
