import Covm.Number.Basic
import Covm.Number.Ieee
import Mathlib.Data.Rat.Floor

/-!
# Exact numbers

The arithmetic without rounding: rational numbers, among which there are no infinities and no NaN. How
they are written is a parameter. Every finite binary number has an exact value.
-/

namespace Covm

/-- How numbers are written and read. -/
class NumberText (F : Type) where
  toStr : F → String
  debug : F → String
  fixed2 : F → String
  parse : String → Option F

namespace Exact

/-- The whole part. -/
def trunc (x : ℚ) : Int := if 0 ≤ x then ⌊x⌋ else ⌈x⌉

/-- Half-way cases away from zero. -/
def round (x : ℚ) : ℚ := trunc (if 0 ≤ x then x + 1 / 2 else x - 1 / 2)

end Exact

instance [NumberText ℚ] : Number ℚ where
  add a b := a + b
  sub a b := a - b
  mul a b := a * b
  div a b := a / b
  rem a b := a - b * Exact.trunc (a / b)
  neg a := -a
  abs a := |a|
  round := Exact.round
  lt a b := decide (a < b)
  eq a b := decide (a = b)
  ofNat n := n
  toU64 x := min (Exact.trunc x).toNat (2 ^ 64 - 1)
  epsilon := 1 / 2 ^ 52
  toStr := NumberText.toStr
  debug := NumberText.debug
  fixed2 := NumberText.fixed2
  parse := NumberText.parse

namespace Exact
variable [NumberText ℚ]

theorem ofNat_eq (n : Nat) : (Number.ofNat n : ℚ) = n := rfl

theorem add_eq (a b : ℚ) : Number.add a b = a + b := rfl

theorem div_eq (a b : ℚ) : Number.div a b = a / b := rfl

theorem le_iff {a b : ℚ} : Number.le a b = true ↔ a ≤ b := by
  rw [Number.le, Bool.or_eq_true, le_iff_lt_or_eq]
  exact or_congr decide_eq_true_iff decide_eq_true_iff

theorem ge_iff {a b : ℚ} : Number.ge a b = true ↔ b ≤ a := le_iff

end Exact

/-! ## Binary numbers -/

namespace Ieee
variable {fmt : Format}

/-- The value of a finite number. -/
def toRat? : Ieee fmt → Option ℚ
  | fin s k => some ((toInt s k : ℚ) / scale fmt)
  | _ => none

theorem scale_pos : (0 : ℚ) < scale fmt := by
  rw [scale]
  exact_mod_cast Nat.two_pow_pos fmt.scaleLog

/-- A whole number is what `as u64` makes of it, as long as it fits. -/
theorem toRat?_eq_toU64_iff {x : Ieee fmt} :
    x.toRat? = some (x.toU64 : ℚ) ↔ ∃ k : Nat, k < 2 ^ 64 ∧ x.toRat? = some (k : ℚ) := by
  constructor
  · intro h
    refine ⟨x.toU64, ?_, h⟩
    unfold toU64
    split <;> omega
  · rintro ⟨k, hk, h⟩
    cases x with
    | nan => exact nomatch h
    | inf s => exact nomatch h
    | fin s mag =>
      have hvalue : (toInt s mag : ℚ) = k * scale fmt := by
        have hdiv := Option.some.inj h
        rwa [div_eq_iff scale_pos.ne'] at hdiv
      have hint : toInt s mag = (k * scale fmt : Nat) := by exact_mod_cast hvalue
      have hscale : 0 < scale fmt := Nat.two_pow_pos _
      suffices hcast : toU64 (.fin s mag) = k by rw [h, hcast]
      unfold toInt at hint
      cases s with
      | false =>
        have hmag : mag.1 = k * scale fmt := by
          rw [if_neg Bool.false_ne_true] at hint
          exact_mod_cast hint
        rw [toU64, hmag, Nat.mul_div_cancel _ hscale]
        omega
      | true =>
        rw [if_pos rfl] at hint
        have hzero : k * scale fmt = 0 := by omega
        show 0 = k
        exact ((Nat.mul_eq_zero.mp hzero).resolve_right hscale.ne').symm

end Ieee

end Covm
