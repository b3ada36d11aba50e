import Covm.Number.Binary64
import Covm.Number.Rounding

/-!
# Counting down

A double that counts down by one comes to zero from an integer of up to `2 ^ 53 + 2`. From the next
one on, the difference is rounded back to a number at least as large as `2 ^ 53 + 4`
(`runsOut_ofNat_iff`).
-/

namespace Covm

/-- Counting down from `x` comes to a number that is not positive. -/
def RunsOut {F : Type} [Number F] (x : F) : Prop := Acc (fun y z : F =>
  Number.gt z (Number.ofNat 0) = true ∧ y = Number.sub z (Number.ofNat 1)) x

section
variable {F : Type} [Number F]

theorem RunsOut.of_sub {x : F} (h : RunsOut (Number.sub x (Number.ofNat 1))) : RunsOut x := by
  refine .intro x fun y hy => ?_
  rw [hy.2]
  exact h

theorem runsOut_of_lt [CountsDown F] {n : Nat} (h : n < 2 ^ 53) :
    RunsOut (Number.ofNat n : F) := by
  induction n with
  | zero =>
    refine .intro _ fun y hy => ?_
    have hzero := CountsDown.gt_zero (F := F) 0 h
    rw [hy.1] at hzero
    exact nomatch hzero
  | succ n ih =>
    refine .of_sub ?_
    rw [CountsDown.sub_one n h]
    exact ih (by omega)

end

namespace Ieee

variable {fmt : Format}

/-- From here on, counting down leads nowhere. -/
def Stuck : Ieee fmt → Prop
  | .inf false => True
  | .fin false k => (2 ^ 53 + 4) * scale fmt ≤ k.1
  | _ => False

/-- In the binade of `2 ^ 53` a tie goes to a multiple of four. -/
theorem roundHalfEven_stuck {k s : Nat} (hs : 0 < s) (h : (2 ^ 53 + 3) * s ≤ k) :
    2 ^ 52 + 2 ≤ roundHalfEven k (2 * s) := by
  have hdiv : 2 ^ 52 + 1 ≤ k / (2 * s) := by
    rw [Nat.le_div_iff_mul_le (by omega)]
    omega
  rcases Nat.lt_or_eq_of_le hdiv with hlt | heq
  · exact le_trans hlt (div_le_roundHalfEven k (2 * s))
  · have hmod : s ≤ k % (2 * s) := by
      have hk := Nat.div_add_mod k (2 * s)
      rw [← heq] at hk
      omega
    simp only [roundHalfEven, ← heq]
    split_ifs <;> omega

theorem nearest_stuck (hprecision : fmt.precision = 53) {k : Nat}
    (h : (2 ^ 53 + 3) * scale fmt ≤ k) : (2 ^ 53 + 4) * scale fmt ≤ nearest fmt k 1 := by
  have hscale : 0 < scale fmt := Nat.two_pow_pos _
  have hpow (n : Nat) : 2 ^ n * scale fmt = 2 ^ (n + fmt.scaleLog) := (pow_add _ _ _).symm
  have hk : k ≠ 0 := by
    rintro rfl
    omega
  by_cases hlarge : 2 ^ 54 * scale fmt ≤ k
  · -- the binade begins above
    have hlog : 54 + fmt.scaleLog ≤ Nat.log2 k := by
      rw [hpow] at hlarge
      exact (Nat.le_log2 hk).mpr hlarge
    calc (2 ^ 53 + 4) * scale fmt ≤ 2 ^ 54 * scale fmt := Nat.mul_le_mul_right _ (by decide)
      _ = 2 ^ (54 + fmt.scaleLog) := hpow 54
      _ ≤ 2 ^ Nat.log2 k := Nat.pow_le_pow_right (by decide) hlog
      _ ≤ nearest fmt k 1 := two_pow_log2_le_nearest hk
  · have hlog : Nat.log2 k = 53 + fmt.scaleLog := by
      refine le_antisymm ?_ ?_
      · have hlt : k < 2 ^ (54 + fmt.scaleLog) := by
          rw [← hpow]
          omega
        have hlt' := (Nat.log2_lt hk).mpr hlt
        omega
      · refine (Nat.le_log2 hk).mpr ?_
        rw [← hpow]
        omega
    have hulp : ulp fmt k = 2 * scale fmt := by
      have hexp : 53 + fmt.scaleLog + 1 - fmt.precision = fmt.scaleLog + 1 := by omega
      rw [ulp, hlog, hexp, scale, pow_succ']
    rw [nearest, Nat.div_one, Nat.one_mul, hulp]
    calc (2 ^ 53 + 4) * scale fmt = (2 ^ 52 + 2) * (2 * scale fmt) := by ring
      _ ≤ _ := Nat.mul_le_mul_right _ (roundHalfEven_stuck hscale h)

theorem stuck_ofRatio (hprecision : fmt.precision = 53) {k : Nat}
    (h : (2 ^ 53 + 3) * scale fmt ≤ k) : Stuck (ofRatio false k 1 : Ieee fmt) := by
  unfold ofRatio
  split
  · exact nearest_stuck hprecision h
  · trivial

theorem Stuck.gt_zero {x : Ieee fmt} (h : Stuck x) : Number.gt x (Number.ofNat 0) = true := by
  have hscale : 0 < scale fmt := Nat.two_pow_pos _
  show lt (ofNat 0) x = true
  rw [ofNat_of_lt (Nat.two_pow_pos _)]
  match x, h with
  | .inf false, _ => rfl
  | .fin false k, h =>
    have hk : 0 < k.1 := lt_of_lt_of_le (by omega) h
    simp [lt, toInt, hk]

theorem Stuck.sub_one (hprecision : fmt.precision = 53) {x : Ieee fmt} (h : Stuck x) :
    Stuck (Number.sub x (Number.ofNat 1)) := by
  have hscale : 0 < scale fmt := Nat.two_pow_pos _
  show Stuck (sub x (ofNat 1))
  rw [ofNat_one]
  match x, h with
  | .inf false, _ => trivial
  | .fin false k, h =>
    have hk : (2 ^ 53 + 4) * scale fmt ≤ k.1 := h
    have hsub : (k.1 : Int) + -((1 * scale fmt : Nat) : Int) = ((k.1 - scale fmt : Nat) : Int) := by
      omega
    have hne : ((k.1 - scale fmt : Nat) : Int) ≠ 0 := by omega
    have hneg : ¬ ((k.1 - scale fmt : Nat) : Int) < 0 := by omega
    simp only [sub, neg, add, toInt, Bool.not_false, Bool.false_and, Bool.false_eq_true, if_true,
      if_false, hsub, ofInt, hne, hneg, decide_false, Int.natAbs_natCast]
    exact stuck_ofRatio hprecision (by omega)

theorem Stuck.not_runsOut (hprecision : fmt.precision = 53) {x : Ieee fmt} (h : Stuck x) :
    ¬ RunsOut x := by
  intro hacc
  induction hacc with
  | intro x _ ih => exact ih _ ⟨h.gt_zero, rfl⟩ (h.sub_one hprecision)

theorem not_runsOut_ofNat (hprecision : fmt.precision = 53) {n : Nat} (h : 2 ^ 53 + 3 ≤ n) :
    ¬ RunsOut (Number.ofNat n : Ieee fmt) := by
  have hstuck : Stuck (ofNat n : Ieee fmt) :=
    stuck_ofRatio hprecision (Nat.mul_le_mul_right _ h)
  exact hstuck.not_runsOut hprecision

end Ieee

/-- The integers from which a double counts down to zero. -/
theorem runsOut_ofNat_iff {n : Nat} :
    RunsOut (Number.ofNat n : Binary64) ↔ n ≤ 2 ^ 53 + 2 := by
  constructor
  · intro h
    by_contra hn
    exact Ieee.not_runsOut_ofNat rfl (by omega) h
  · intro h
    have hmax : RunsOut (Number.ofNat (2 ^ 53) : Binary64) := by
      refine .of_sub ?_
      have hsub : (Number.sub (Number.ofNat (2 ^ 53)) (Number.ofNat 1) : Binary64) =
        Number.ofNat (2 ^ 53 - 1) := by decide +kernel
      rw [hsub]
      exact runsOut_of_lt (by omega)
    obtain hlt | rfl | rfl | rfl :
      n < 2 ^ 53 ∨ n = 2 ^ 53 ∨ n = 2 ^ 53 + 1 ∨ n = 2 ^ 53 + 2 := by omega
    · exact runsOut_of_lt hlt
    · exact hmax
    · -- the double nearest to it
      have hround : (Number.ofNat (2 ^ 53 + 1) : Binary64) = Number.ofNat (2 ^ 53) := by
        decide +kernel
      rwa [hround]
    · refine .of_sub ?_
      have hsub : (Number.sub (Number.ofNat (2 ^ 53 + 2)) (Number.ofNat 1) : Binary64) =
        Number.ofNat (2 ^ 53) := by decide +kernel
      rwa [hsub]

end Covm
