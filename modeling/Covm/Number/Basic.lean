import Mathlib.Algebra.Group.Nat.Defs
import Mathlib.Tactic.Common

/-!
# The numbers of the machine

Every number of the VM is an `f64`. The development only uses the operations of `Number`, so its
theorems hold for any fixed interpretation of the arithmetic; `Covm.Number.Binary64` supplies the
IEEE 754 one. `CountsDown` is the single fact about the arithmetic that loops rely on: below
`2 ^ 53` integers are exact, so a counter that starts at `n` and is decremented by one meets
`n - 1, …, 1, 0` and is positive until it is `0`.
-/

namespace Covm

/-- The `f64` operations the program uses, under their Rust names. -/
class Number (F : Type) where
  add : F → F → F
  sub : F → F → F
  mul : F → F → F
  div : F → F → F
  /-- `%`, the remainder with the sign of the dividend. -/
  rem : F → F → F
  neg : F → F
  abs : F → F
  round : F → F
  /-- `<`; false when an operand is not a number. -/
  lt : F → F → Bool
  /-- `==`; false when an operand is not a number. -/
  eq : F → F → Bool
  /-- `n as f64` for an unsigned integer. -/
  ofNat : Nat → F
  /-- `x as u64` (and `as usize`): towards zero, saturating, `0` for a NaN. -/
  toU64 : F → Nat
  epsilon : F
  /-- `Display`. -/
  toStr : F → String
  /-- `Debug`. -/
  debug : F → String
  /-- `format!("{:.2}", x)`. -/
  fixed2 : F → String
  /-- `str::parse::<f64>`. -/
  parse : String → Option F

namespace Number
variable {F : Type} [Number F]

/-- `a > b`. -/
def gt (a b : F) : Bool := lt b a

/-- `a <= b`. -/
def le (a b : F) : Bool := lt a b || eq a b

/-- `a >= b`. -/
def ge (a b : F) : Bool := le b a

/-- `a != b`. -/
def ne (a b : F) : Bool := !eq a b

/-- `is_finite`; an infinity or a NaN less itself is a NaN. -/
def isFinite (a : F) : Bool := eq (sub a a) (ofNat 0)

end Number

/-- Counting down from an integer below `2 ^ 53` is exact. -/
class CountsDown (F : Type) [Number F] : Prop where
  sub_one : ∀ n : Nat, n + 1 < 2 ^ 53 →
    Number.sub (Number.ofNat (n + 1) : F) (Number.ofNat 1) = Number.ofNat n
  gt_zero : ∀ n : Nat, n < 2 ^ 53 →
    Number.gt (Number.ofNat n : F) (Number.ofNat 0) = decide (0 < n)

end Covm
