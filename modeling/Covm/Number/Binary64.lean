import Covm.Number.Basic
import Covm.Number.Ieee

/-!
# Double precision

Every format interprets the operations of `Number`; from 53 bits on it counts down exactly. The
program's `f64` is `Binary64`.
-/

namespace Covm

namespace Ieee

variable {fmt : Format}

instance : Number (Ieee fmt) where
  add := add
  sub := sub
  mul := mul
  div := div
  rem := rem
  neg := neg
  abs := abs
  round := round
  lt := lt
  eq := eq
  ofNat := ofNat
  toU64 := toU64
  epsilon := ofRatio false (scale fmt / 2 ^ (fmt.precision - 1)) 1
  toStr := toStr
  debug := debug
  fixed2 := fixed2
  parse := parse

theorem countsDown (h : 53 ≤ fmt.precision) : CountsDown (Ieee fmt) where
  sub_one _ hn := sub_one (hn.trans_le (Nat.pow_le_pow_right (by omega) h))
  gt_zero _ hn := zero_lt_ofNat (hn.trans_le (Nat.pow_le_pow_right (by omega) h))

end Ieee

def Format.binary64 : Format where
  precision := 53
  scaleLog := 1074
  limitLog := 2098
  precision_pos := by decide
  precision_le := by decide

abbrev Binary64 := Ieee .binary64

instance : CountsDown Binary64 := Ieee.countsDown (le_refl 53)

end Covm
