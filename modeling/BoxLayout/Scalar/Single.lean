import BoxLayout.Scalar

/-!
# 32-bit lengths

Lengths as running programs hold them: every operation rounds to the nearest 32-bit float. The
constants are given by their bits, so that closed comparisons evaluate without any conversion.
-/

namespace BoxLayout

instance : Scalar Float32 where
  decLT := inferInstance
  decLE := inferInstance
  zero := Float32.ofBits 0
  one := Float32.ofBits 0x3F800000
  ofCount := Float32.ofNat
  infinity := Float32.ofBits 0x7F800000
  isNaN := Float32.isNaN
  isFinite := Float32.isFinite

end BoxLayout
